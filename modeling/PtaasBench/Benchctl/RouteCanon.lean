import PtaasBench.Benchctl.RouteSymmetry
import PtaasBench.Benchctl.Templates

/-!
# PtaasBench.Benchctl.RouteCanon — normalising a normalised route

What the normaliser writes is a route again, and may be read differently: a segment of mixed text can come out
looking like a placeholder, an angle bracket can lose what kept it from being a group, a question mark what kept
it from starting a query, and white space can come to stand at the end.  Where none of that happens
(`Stable`), a normalised route is normalised to itself.
-/

namespace PtaasBench.Benchctl

open Py List

/-! ## One segment, normalised twice -/

section Segments

/-- A group in braces is left only where it is empty. -/
def EmptyBraces : List Char → Prop
  | [] => True
  | c :: cs => (c = '\x7b' → groupRest '\x7b' '\x7d' cs = none ∨ cs.head? = some '\x7d') ∧ EmptyBraces cs

theorem EmptyBraces.of_suffix {cs rest : List Char} (h : EmptyBraces cs) (hrest : rest <:+ cs) : EmptyBraces rest := by
  induction cs with
  | nil =>
    rw [suffix_nil.mp hrest]
    exact h
  | cons c cs ih =>
    rcases suffix_cons_iff.mp hrest with rfl | hrest
    · exact h
    · exact ih h.2 hrest

theorem groupRest_suffix {opn close : Char} {cs rest : List Char} (h : groupRest opn close cs = some rest) :
    rest <:+ cs := by
  induction cs with
  | nil => simp [groupRest] at h
  | cons c cs ih =>
    rw [groupRest] at h
    split_ifs at h
    · obtain rfl := Option.some.inj h
      exact suffix_cons _ _
    · exact (ih h).trans (suffix_cons _ _)

/-- Replacing groups of either kind closes no group in braces: what is put in starts with a brace. -/
theorem groupRest_subGroups {opn close : Char} (fuel : ℕ) {cs : List Char}
    (h : groupRest '\x7b' '\x7d' cs = none) :
    groupRest '\x7b' '\x7d' (subGroups opn close fuel cs) = none := by
  have hopen : ∀ rest, groupRest '\x7b' '\x7d' ('\x7b' :: rest) = none := by
    intro rest
    rw [groupRest, if_neg (by decide), if_pos (Or.inl rfl)]
  induction fuel generalizing cs with
  | zero => exact h
  | succ fuel ih =>
    cases cs with
    | nil => exact h
    | cons c cs =>
      rw [groupRest] at h
      split_ifs at h with hclose hstop
      · have hkeep : groupRest '\x7b' '\x7d' (c :: subGroups opn close fuel cs) = none := by
          rw [groupRest, if_neg hclose, if_pos hstop]
        rw [subGroups]
        split_ifs
        · cases groupRest opn close cs with
          | none => exact hkeep
          | some rest => exact hopen _
        · exact hkeep
      · have hkeep : groupRest '\x7b' '\x7d' (c :: subGroups opn close fuel cs) = none := by
          rw [groupRest, if_neg hclose, if_neg hstop, ih h]
        rw [subGroups]
        split_ifs
        · cases groupRest opn close cs with
          | none => exact hkeep
          | some rest => exact hopen _
        · exact hkeep

theorem emptyBraces_placeholder {rest : List Char} (h : EmptyBraces rest) :
    EmptyBraces ('\x7b' :: '\x7d' :: rest) :=
  ⟨fun _ => Or.inr rfl, fun hc => absurd hc (by decide), h⟩

theorem emptyBraces_subGroups_braces {fuel : ℕ} {cs : List Char} (hfuel : cs.length ≤ fuel) :
    EmptyBraces (subGroups '\x7b' '\x7d' fuel cs) := by
  induction fuel generalizing cs with
  | zero =>
    rw [length_eq_zero_iff.mp (Nat.le_zero.mp hfuel)]
    trivial
  | succ fuel ih =>
    cases cs with
    | nil => trivial
    | cons c cs =>
      rw [length_cons] at hfuel
      rw [subGroups]
      split_ifs with hc
      · cases hrest : groupRest '\x7b' '\x7d' cs with
        | none => exact ⟨fun _ => Or.inl (groupRest_subGroups fuel hrest), ih (by omega)⟩
        | some rest =>
          have hle := (groupRest_suffix hrest).length_le
          exact emptyBraces_placeholder (ih (by omega))
      · exact ⟨fun h => absurd h hc, ih (by omega)⟩

theorem emptyBraces_subGroups_angles (fuel : ℕ) {cs : List Char} (h : EmptyBraces cs) :
    EmptyBraces (subGroups '<' '>' fuel cs) := by
  induction fuel generalizing cs with
  | zero => exact h
  | succ fuel ih =>
    cases cs with
    | nil => exact h
    | cons c cs =>
      rw [subGroups]
      split_ifs with hc
      · cases hrest : groupRest '<' '>' cs with
        | none =>
          refine ⟨fun hbrace => ?_, ih h.2⟩
          rw [hc] at hbrace
          exact absurd hbrace (by decide)
        | some rest => exact emptyBraces_placeholder (ih (h.2.of_suffix (groupRest_suffix hrest)))
      · refine ⟨fun hbrace => ?_, ih h.2⟩
        rcases h.1 hbrace with hnone | hclose
        · exact Or.inl (groupRest_subGroups fuel hnone)
        · right
          cases cs with
          | nil => cases hclose
          | cons d ds =>
            obtain rfl : d = '\x7d' := Option.some.inj hclose
            cases fuel with
            | zero => rfl
            | succ fuel => rw [subGroups, if_neg (by decide), List.head?_cons]

theorem subGroups_of_emptyBraces (fuel : ℕ) {cs : List Char} (h : EmptyBraces cs) :
    subGroups '\x7b' '\x7d' fuel cs = cs := by
  induction fuel using Nat.strong_induction_on generalizing cs with
  | h fuel ih =>
    cases fuel with
    | zero => rfl
    | succ fuel =>
      cases cs with
      | nil => rfl
      | cons c cs =>
        have htail := ih fuel (Nat.lt_succ_self _) h.2
        rw [subGroups]
        split_ifs with hc
        · rcases h.1 hc with hnone | hclose
          · rw [hnone, htail]
          · cases cs with
            | nil => cases hclose
            | cons d ds =>
              obtain rfl : d = '\x7d' := Option.some.inj hclose
              rw [groupRest, if_pos rfl, hc]
              exact congrArg (['\x7b', '\x7d'] ++ ·) (ih fuel (Nat.lt_succ_self _) h.2.2)
        · rw [htail]

/-- No pair of angle brackets is left in the text. -/
def AngleFree (ps : List Piece) : Prop := ∀ rest, some '<' :: rest <:+ ps → groupEnd '<' '>' rest = none

theorem angleFree_cons {p : Piece} {ps : List Piece} :
    AngleFree (p :: ps) ↔ (p = some '<' → groupEnd '<' '>' ps = none) ∧ AngleFree ps := by
  constructor
  · intro h
    refine ⟨?_, fun rest hrest => h rest (hrest.trans (suffix_cons _ _))⟩
    rintro rfl
    exact h ps (suffix_refl _)
  · rintro ⟨hhead, htail⟩ rest hrest
    rcases suffix_cons_iff.mp hrest with heq | hrest
    · obtain ⟨rfl, rfl⟩ := List.cons.inj heq
      exact hhead rfl
    · exact htail rest hrest

theorem written_readGroups_iff {fuel : ℕ} {ps : List Piece} (hfuel : ps.length ≤ fuel) :
    written (readGroups '<' '>' fuel ps) = written ps ↔ AngleFree ps := by
  induction fuel generalizing ps with
  | zero =>
    obtain rfl := length_eq_zero_iff.mp (Nat.le_zero.mp hfuel)
    refine iff_of_true rfl fun rest hrest => ?_
    cases suffix_nil.mp hrest
  | succ fuel ih =>
    cases ps with
    | nil =>
      refine iff_of_true rfl fun rest hrest => ?_
      cases suffix_nil.mp hrest
    | cons p ps =>
      rw [length_cons] at hfuel
      have hkeep : written (p :: readGroups '<' '>' fuel ps) = written (p :: ps) ↔ AngleFree ps := by
        rw [← ih (by omega), written, written, flatMap_cons, flatMap_cons, append_cancel_left_eq]
        rfl
      rw [readGroups, angleFree_cons]
      split_ifs with hp
      · subst hp
        cases groupEnd '<' '>' ps with
        | none =>
          rw [hkeep]
          simp
        | some rest => simp
      · rw [hkeep]
        simp [hp]

/-- Text that begins with a placeholder or a brace, and ends with one. -/
def LooksWhole (ps : List Piece) : Prop :=
  (ps.head? = some none ∨ ps.head? = some (some '\x7b')) ∧
    (ps.getLast? = some none ∨ ps.getLast? = some (some '\x7d'))

/-- Is a segment normalised as it is read? -/
def Unmoved : Segment → Prop
  | .text ps => ¬ LooksWhole ps ∧ AngleFree ps
  | _ => True

theorem head_written (ps : List Piece) :
    (written ps).head? = ps.head?.map fun p => p.getD '\x7b' := by
  cases ps with
  | nil => rfl
  | cons p ps => cases p <;> rfl

theorem last_written (ps : List Piece) :
    (written ps).getLast? = ps.getLast?.map fun p => p.getD '\x7d' := by
  induction ps using List.reverseRecOn with
  | nil => rfl
  | append_singleton ps p ih =>
    rw [written, flatMap_append, List.getLast?_append, List.getLast?_append]
    cases p <;> rfl

theorem normalizeSegment_twice_iff (seg : String) :
    normalizeSegment (normalizeSegment seg) = normalizeSegment seg ↔ Unmoved (readSegment seg) := by
  cases hread : readSegment seg with
  | whole =>
    rw [normalizeSegment_of_whole hread]
    exact iff_of_true (by rfl) trivial
  | greedy =>
    rw [normalizeSegment_of_greedy hread]
    exact iff_of_true (by rfl) trivial
  | text ps =>
    obtain ⟨hplaceholder, hgreedy, -⟩ := normalizeSegment_of_text hread
    obtain ⟨hmark, hps⟩ := readSegment_eq_text_iff.mp hread
    have hwritten : (normalizeSegment seg).toList = written ps := by
      rw [toList_normalizeSegment, hread, Segment.written]
    have hhead : ∀ c, c ≠ '\x7b' → (normalizeSegment seg).toList.head? = some c → seg.toList.head? = some c := by
      intro c hc h
      rw [hwritten, head_written, Option.map_eq_some_iff] at h
      obtain ⟨p, hp, hpc⟩ := h
      cases p with
      | none => exact absurd hpc.symm hc
      | some d =>
        obtain rfl : d = c := hpc
        exact head_of_readPieces (hps ▸ hp)
    have hlast : ∀ c, c ≠ '\x7d' → (normalizeSegment seg).toList.getLast? = some c → seg.toList.getLast? = some c := by
      intro c hc h
      rw [hwritten, last_written, Option.map_eq_some_iff] at h
      obtain ⟨p, hp, hpc⟩ := h
      cases p with
      | none => exact absurd hpc.symm hc
      | some d =>
        obtain rfl : d = c := hpc
        exact last_of_readPieces (hps ▸ hp)
    have hlooks : LooksWhole ps ↔ (normalizeSegment seg).toList.head? = some '\x7b' ∧
        (normalizeSegment seg).toList.getLast? = some '\x7d' := by
      rw [hwritten, head_written, last_written, LooksWhole]
      have hopt : ∀ (o : Option Piece) (c : Char),
          (o.map fun p => p.getD c) = some c ↔ o = some none ∨ o = some (some c) := by
        intro o c
        rcases o with _ | _ | d <;> simp
      rw [hopt, hopt]
    rcases readSegment_cases (normalizeSegment seg) with ⟨hmarked, hagain⟩ | ⟨hunmarked, hagain⟩
    · -- only braces can have come to stand at the ends
      have hbraces : LooksWhole ps := by
        rw [hlooks]
        rcases hmarked with h | h | h | h | h
        · exact absurd (Or.inl (hhead _ (by decide) h)) hmark
        · exact absurd (Or.inr (Or.inl (hhead _ (by decide) h))) hmark
        · exact h
        · exact absurd (Or.inr (Or.inr (Or.inr (Or.inl
            ⟨hhead _ (by decide) h.1, hlast _ (by decide) h.2⟩)))) hmark
        · exact absurd (Or.inr (Or.inr (Or.inr (Or.inr
            ⟨hhead _ (by decide) h.1, hlast _ (by decide) h.2⟩)))) hmark
      refine iff_of_false (fun heq => ?_) fun h => h.1 hbraces
      rcases hagain with hagain | hagain
      · exact hplaceholder (heq ▸ normalizeSegment_of_whole hagain)
      · exact hgreedy (heq ▸ normalizeSegment_of_greedy hagain)
    · have hnot : ¬ LooksWhole ps := fun h => hunmarked (Or.inr (Or.inr (Or.inl (hlooks.mp h))))
      have hempty : EmptyBraces (normalizeSegment seg).toList := by
        rw [hwritten, hps, ← toList_subEmbedded, subEmbedded, String.toList_ofList, subEmbedded, String.toList_ofList]
        exact emptyBraces_subGroups_angles _ (emptyBraces_subGroups_braces le_rfl)
      have htwice : (normalizeSegment (normalizeSegment seg)).toList =
          written (readGroups '<' '>' ps.length ps) := by
        rw [toList_normalizeSegment, hagain, Segment.written, ← toList_subEmbedded, subEmbedded,
          String.toList_ofList, subEmbedded, String.toList_ofList, subGroups_of_emptyBraces _ hempty, hwritten]
        exact subGroups_angles le_rfl le_rfl
      rw [← String.toList_inj, htwice, hwritten, written_readGroups_iff le_rfl]
      exact ⟨fun h => ⟨hnot, h⟩, fun h => h.2⟩

end Segments

/-! ## What is left of a route that is cut short -/

section Cut

/-- The pieces between slashes that are not empty. -/
def piecesOf (cs : List Char) : List (List Char) := (cs.splitOn '/').filter (· ≠ [])

theorem piecesOf_slash (cs : List Char) : piecesOf ('/' :: cs) = piecesOf cs := by
  have hsplit : ('/' :: cs).splitOn '/' = [] :: cs.splitOn '/' := by
    rw [splitOn_eq_splitOnP, splitOn_eq_splitOnP]
    have h := splitOnP_append_cons_of_forall_mem (p := (· == '/')) (forall_mem_nil _) '/' (beq_self_eq_true _) cs
    exact h
  rw [piecesOf, hsplit, filter_cons_of_neg (by simp)]
  rfl

theorem piecesOf_word {w : List Char} (hw : '/' ∉ w) (hne : w ≠ []) : piecesOf w = [w] := by
  have hsplit : w.splitOn '/' = [w] := by
    rw [splitOn_eq_splitOnP]
    refine splitOnP_eq_singleton fun c hc => ?_
    rw [beq_eq_false_iff_ne]
    rintro rfl
    exact hw hc
  rw [piecesOf, hsplit, filter_cons_of_pos (by simpa using hne), filter_nil]

theorem piecesOf_word_append {w rest : List Char} (hw : '/' ∉ w) (hne : w ≠ [])
    (hrest : rest = [] ∨ ∃ cs, rest = '/' :: cs) : piecesOf (w ++ rest) = w :: piecesOf rest := by
  rcases hrest with rfl | ⟨cs, rfl⟩
  · rw [append_nil, piecesOf_word hw hne]
    rfl
  · have hsplit : (w ++ '/' :: cs).splitOn '/' = w :: cs.splitOn '/' := by
      rw [splitOn_eq_splitOnP, splitOn_eq_splitOnP]
      refine splitOnP_append_cons_of_forall_mem (fun c hc => ?_) '/' (by simp) cs
      rw [beq_eq_false_iff_ne]
      rintro rfl
      exact hw hc
    rw [piecesOf_slash, piecesOf, hsplit, filter_cons_of_pos (by simpa using hne)]
    rfl

/-- Words, each behind a slash. -/
def slashed (ws : List (List Char)) : List Char := ws.flatMap ('/' :: ·)

theorem slashed_cons (w : List Char) (ws : List (List Char)) : slashed (w :: ws) = '/' :: (w ++ slashed ws) := by
  rw [slashed, flatMap_cons]
  rfl

theorem slashed_head (ws : List (List Char)) : slashed ws = [] ∨ ∃ cs, slashed ws = '/' :: cs := by
  cases ws with
  | nil => exact Or.inl rfl
  | cons w ws => exact Or.inr ⟨_, slashed_cons w ws⟩

theorem piecesOf_slashed {ws : List (List Char)} (hws : ∀ w ∈ ws, '/' ∉ w ∧ w ≠ []) : piecesOf (slashed ws) = ws := by
  induction ws with
  | nil => rfl
  | cons w ws ih =>
    obtain ⟨hslash, hne⟩ := hws w mem_cons_self
    rw [slashed_cons, piecesOf_slash, piecesOf_word_append hslash hne (slashed_head ws),
      ih fun w hw => hws w (mem_cons_of_mem _ hw)]

/-- The words of a proper front: fewer of them, or as many with the last one cut short. -/
theorem piecesOf_front {ws : List (List Char)} (hws : ∀ w ∈ ws, '/' ∉ w ∧ w ≠ []) {cs : List Char}
    (hcs : cs <+: slashed ws) (hne : cs ≠ slashed ws) :
    (piecesOf cs).length < ws.length ∨
      ∃ front cut w, ws = front ++ [w] ∧ piecesOf cs = front ++ [cut] ∧ cut <+: w ∧ cut ≠ w ∧ cut ≠ [] := by
  induction ws generalizing cs with
  | nil => exact absurd (prefix_nil.mp hcs) hne
  | cons w ws ih =>
    obtain ⟨hslash, hword⟩ := hws w mem_cons_self
    rw [slashed_cons] at hcs hne
    cases cs with
    | nil =>
      left
      rw [length_cons]
      exact Nat.succ_pos _
    | cons c cs =>
      obtain ⟨rfl, hfront⟩ := cons_prefix_cons.mp hcs
      rw [piecesOf_slash]
      have hcases : cs <+: w ∨ ∃ rest, cs = w ++ rest ∧ rest <+: slashed ws := by
        rcases le_total cs.length w.length with hle | hle
        · exact Or.inl (prefix_of_prefix_length_le hfront (prefix_append _ _) hle)
        · obtain ⟨rest, rfl⟩ := prefix_of_prefix_length_le (prefix_append _ _) hfront hle
          exact Or.inr ⟨rest, rfl, (prefix_append_right_inj w).mp hfront⟩
      rcases hcases with hcut | ⟨rest, rfl, hrest⟩
      · by_cases hwhole : cs = w
        · left
          have hmore : ws ≠ [] := by
            rintro rfl
            rw [hwhole, slashed, flatMap_nil, append_nil] at hne
            exact hne rfl
          rw [hwhole, piecesOf_word hslash hword, length_singleton, length_cons]
          have := length_pos_of_ne_nil hmore
          omega
        · by_cases hempty : cs = []
          · left
            rw [hempty]
            exact Nat.succ_pos _
          · rw [piecesOf_word (fun h => hslash (hcut.subset h)) hempty]
            cases ws with
            | nil => exact Or.inr ⟨[], cs, w, rfl, rfl, hcut, hwhole, hempty⟩
            | cons v ws =>
              left
              rw [length_singleton, length_cons, length_cons]
              omega
      · have hstart : rest = [] ∨ ∃ cs, rest = '/' :: cs := by
          rcases slashed_head ws with hnil | ⟨us, hus⟩
          · rw [hnil] at hrest
            exact Or.inl (prefix_nil.mp hrest)
          · cases rest with
            | nil => exact Or.inl rfl
            | cons d ds =>
              rw [hus] at hrest
              rw [(cons_prefix_cons.mp hrest).1]
              exact Or.inr ⟨ds, rfl⟩
        have hother : rest ≠ slashed ws := by
          rintro rfl
          exact hne rfl
        rw [piecesOf_word_append hslash hword hstart]
        rcases ih (fun w hw => hws w (mem_cons_of_mem _ hw)) hrest hother with
          hshort | ⟨front, cut, v, rfl, hpieces, hcut⟩
        · left
          rw [length_cons, length_cons]
          omega
        · rw [hpieces]
          exact Or.inr ⟨w :: front, cut, v, rfl, rfl, hcut⟩

/-- There are no two slashes in a row. -/
theorem slashed_no_double {ws : List (List Char)} (hws : ∀ w ∈ ws, '/' ∉ w ∧ w ≠ []) (u v : List Char) :
    slashed ws ≠ u ++ '/' :: '/' :: v := by
  induction ws generalizing u with
  | nil =>
    intro h
    exact absurd h.symm (by simp [slashed])
  | cons w ws ih =>
    obtain ⟨hslash, hne⟩ := hws w mem_cons_self
    have hrest := ih fun w hw => hws w (mem_cons_of_mem _ hw)
    rw [slashed_cons]
    intro h
    cases u with
    | nil =>
      obtain ⟨c, w, rfl⟩ := exists_cons_of_ne_nil hne
      have hc : c = '/' := (List.cons.inj (List.cons.inj h).2).1
      exact hslash (hc ▸ mem_cons_self)
    | cons d u =>
      rcases append_eq_append_iff.mp (List.cons.inj h).2 with ⟨t, -, ht⟩ | ⟨t, hw, ht⟩
      · exact hrest t ht
      · cases t with
        | nil => exact hrest [] ht.symm
        | cons e t =>
          obtain ⟨rfl, -⟩ := List.cons.inj ht
          rw [hw] at hslash
          exact hslash (by simp)

/-- A segment that is cut short is not normalised to the segment. -/
theorem normalizeSegment_ne_of_cut {cut w : String} (hcut : cut.toList <+: w.toList) (hne : cut ≠ w)
    (hempty : cut ≠ "") : normalizeSegment cut ≠ w := by
  have hshort : cut.toList.length < w.toList.length := by
    rcases hcut.length_le.lt_or_eq with h | h
    · exact h
    · exact absurd (String.toList_injective (hcut.eq_of_length h)) hne
  have hpos : 0 < cut.toList.length := length_pos_of_ne_nil fun h => hempty (String.toList_eq_nil_iff.mp h)
  have htake := prefix_iff_eq_take.mp hcut
  intro heq
  have htext : ∀ s : String, cut = s → ¬ MarksWhole s.toList.head? s.toList.getLast? →
      ∃ ps, readSegment cut = .text ps := by
    rintro s rfl hs
    exact ⟨_, readSegment_eq_text_iff.mpr ⟨hs, rfl⟩⟩
  cases hread : readSegment cut with
  | whole =>
    rw [← heq, normalizeSegment_of_whole hread] at hshort htake
    have hone : cut.toList.length = 1 := by
      have : PLACEHOLDER.toList.length = 2 := rfl
      omega
    rw [hone] at htake
    obtain ⟨ps, hps⟩ := htext "\x7b" (String.toList_injective htake) (by simp [MarksWhole])
    rw [hread] at hps
    cases hps
  | greedy =>
    rw [← heq, normalizeSegment_of_greedy hread] at hshort htake
    have hfour : GREEDY.toList.length = 4 := rfl
    have hcases : cut.toList.length = 1 ∨ cut.toList.length = 2 ∨ cut.toList.length = 3 := by omega
    have hnotext : ∀ ps, readSegment cut ≠ .text ps := by
      intro ps hps
      rw [hread] at hps
      cases hps
    rcases hcases with h | h | h
    · rw [h] at htake
      obtain ⟨ps, hps⟩ := htext "\x7b" (String.toList_injective htake) (by simp [MarksWhole])
      exact hnotext ps hps
    · rw [h] at htake
      obtain ⟨ps, hps⟩ := htext "\x7b*" (String.toList_injective htake) (by simp [MarksWhole])
      exact hnotext ps hps
    · rw [h] at htake
      obtain ⟨ps, hps⟩ := htext "\x7b**" (String.toList_injective htake) (by simp [MarksWhole])
      exact hnotext ps hps
  | text ps =>
    have hlength : (normalizeSegment cut).toList.length ≤ cut.toList.length := by
      rw [toList_normalizeSegment, hread, Segment.written, (readSegment_eq_text_iff.mp hread).2, readPieces]
      refine (length_written_readGroups _ _ _ _).trans ((length_written_readGroups _ _ _ _).trans ?_)
      rw [written_map_some]
    rw [heq] at hlength
    omega

end Cut

/-! ## Question marks -/

section Queries

/-- Every question mark stands in an open bracket. -/
def Covered : ℕ → List Char → Prop
  | _, [] => True
  | depth, c :: cs =>
    if c = '\x7b' ∨ c = '<' ∨ c = '[' then Covered (depth + 1) cs
    else if (c = '\x7d' ∨ c = '>' ∨ c = ']') ∧ depth ≠ 0 then Covered (depth - 1) cs
    else (c = '?' → depth ≠ 0) ∧ Covered depth cs

theorem stripQueryAux_eq_self_iff (depth : ℕ) (cs : List Char) : stripQueryAux depth cs = cs ↔ Covered depth cs := by
  induction cs generalizing depth with
  | nil => exact iff_of_true rfl trivial
  | cons c cs ih =>
    rw [stripQueryAux, Covered]
    split_ifs with hopen hclose hquery
    · rw [cons_eq_cons, ih]
      simp
    · rw [cons_eq_cons, ih]
      simp
    · refine iff_of_false (by simp) fun h => ?_
      exact h.1 hquery.1 hquery.2
    · rw [cons_eq_cons, ih]
      constructor
      · rintro ⟨-, h⟩
        exact ⟨fun hc hdepth => hquery ⟨hc, hdepth⟩, h⟩
      · rintro ⟨-, h⟩
        exact ⟨rfl, h⟩

theorem stripQueryAux_front (depth : ℕ) (cs : List Char) : stripQueryAux depth cs <+: cs := by
  induction cs generalizing depth with
  | nil => exact prefix_rfl
  | cons c cs ih =>
    rw [stripQueryAux]
    split_ifs
    · exact cons_prefix_cons.mpr ⟨rfl, ih _⟩
    · exact cons_prefix_cons.mpr ⟨rfl, ih _⟩
    · exact List.nil_prefix
    · exact cons_prefix_cons.mpr ⟨rfl, ih _⟩

/-- The characters of a segment that stand outside its placeholders. -/
def literals : Segment → List Char
  | .text ps => ps.filterMap id
  | _ => []

theorem covered_placeholder (depth : ℕ) (cs : List Char) :
    Covered depth ('\x7b' :: '\x7d' :: cs) ↔ Covered depth cs := by
  rw [Covered, if_pos (Or.inl rfl), Covered, if_neg (by decide),
    if_pos ⟨Or.inl rfl, Nat.succ_ne_zero depth⟩, Nat.add_sub_cancel]

theorem covered_plain {c : Char} (hopen : ¬ (c = '\x7b' ∨ c = '<' ∨ c = '[')) (hclose : ¬ (c = '\x7d' ∨ c = '>' ∨ c = ']'))
    (hquery : c ≠ '?') (depth : ℕ) (cs : List Char) : Covered depth (c :: cs) ↔ Covered depth cs := by
  rw [Covered, if_neg hopen, if_neg fun h => hclose h.1]
  exact ⟨fun h => h.2, fun h => ⟨fun hc => absurd hc hquery, h⟩⟩

theorem covered_written {ps : List Piece} {cs ds : List Char} (h : ∀ depth, Covered depth cs ↔ Covered depth ds)
    (depth : ℕ) : Covered depth (written ps ++ cs) ↔ Covered depth (ps.filterMap id ++ ds) := by
  induction ps generalizing depth with
  | nil => exact h depth
  | cons p ps ih =>
    cases p with
    | none =>
      rw [written_none, cons_append, cons_append, covered_placeholder, ih]
      rfl
    | some c =>
      rw [written_some, cons_append]
      show _ ↔ Covered depth (c :: (ps.filterMap id ++ ds))
      rw [Covered, Covered]
      simp only [ih]

/-- Placeholders are balanced, so only the characters outside them count. -/
theorem covered_slashed (segs : List Segment) (depth : ℕ) :
    Covered depth (slashed (segs.map Segment.written)) ↔ Covered depth (segs.flatMap literals) := by
  induction segs generalizing depth with
  | nil => exact Iff.rfl
  | cons s segs ih =>
    rw [map_cons, slashed_cons, covered_plain (by decide) (by decide) (by decide), flatMap_cons]
    cases s with
    | whole => exact (covered_placeholder depth _).trans (ih depth)
    | greedy =>
      show Covered depth ('\x7b' :: '*' :: '*' :: '\x7d' :: slashed (segs.map Segment.written)) ↔ _
      rw [Covered, if_pos (Or.inl rfl), covered_plain (by decide) (by decide) (by decide),
        covered_plain (by decide) (by decide) (by decide), Covered, if_neg (by decide),
        if_pos ⟨Or.inl rfl, Nat.succ_ne_zero depth⟩, Nat.add_sub_cancel]
      exact ih depth
    | text ps => exact covered_written ih depth

end Queries

/-! ## The whole route -/

/-- Case folding goes character by character, and `urlsplit` keeps the fragment out of the path or raises. -/
class FoldRuntime extends Runtime where
  foldChar : Char → List Char
  /-- Does `urlsplit` raise a `ValueError`? -/
  refused : String → Bool
  casefold_eq : ∀ s, casefold s = String.ofList (s.toList.flatMap foldChar)
  foldChar_ascii : ∀ c : Char, c.toNat < 128 → foldChar c = [c.toLower]
  foldChar_other : ∀ c : Char, 128 ≤ c.toNat → ∀ d ∈ foldChar c, d.toNat < 128 → d.isLower = true
  foldChar_stable : ∀ c, ∀ d ∈ foldChar c, foldChar d = [d]
  urlPath_plain : ∀ s, '#' ∉ (urlPath s).toList

export FoldRuntime (foldChar refused)

/-- A route whose segments, once normalised, are read as they were: no text looks like a placeholder and no pair
of angle brackets is left in one, no question mark has lost its bracket, and no white space stands at the end. -/
structure Stable (segs : List Segment) : Prop where
  settled : ∀ s ∈ segs, Unmoved s
  covered : Covered 0 (segs.flatMap literals)
  visible : ∀ ps c, segs.getLast? = some (.text ps) → ps.getLast? = some (some c) → isSpace c = false

section Routes

variable [FoldRuntime]

/-- `normalize_route` does not raise. -/
def Returns (route : String) : Prop :=
  ¬ (strip route ≠ UNMATCHED ∧ hasInfix (strip route) "://" = true ∧ refused (strip route) = true)

/-- Normalising a route returns, and normalising what it returns gives the same. -/
def Idempotent (route : String) : Prop :=
  Returns route ∧ Returns (normalizeRoute route) ∧ normalizeRoute (normalizeRoute route) = normalizeRoute route

/-- A character that case folding leaves, and that starts no fragment. -/
def Folded (c : Char) : Prop := foldChar c = [c] ∧ c ≠ '#'

theorem folded_ascii {c : Char} (h : c.toNat < 128) (hlower : c.toLower = c) (hhash : c ≠ '#') : Folded c :=
  ⟨by rw [FoldRuntime.foldChar_ascii c h, hlower], hhash⟩

theorem folded_casefold {s : String} (h : '#' ∉ s.toList) : ∀ c ∈ (casefold s).toList, Folded c := by
  intro c hc
  rw [FoldRuntime.casefold_eq, String.toList_ofList, mem_flatMap] at hc
  obtain ⟨d, hd, hdc⟩ := hc
  refine ⟨FoldRuntime.foldChar_stable d c hdc, ?_⟩
  rintro rfl
  by_cases hascii : d.toNat < 128
  · rw [FoldRuntime.foldChar_ascii d hascii, mem_singleton] at hdc
    have hcode : ∀ n < 128, (Char.ofNat n).toLower = '#' → Char.ofNat n = '#' := by decide
    have hd' := hcode d.toNat hascii (by rw [Char.ofNat_toNat]; exact hdc.symm)
    rw [Char.ofNat_toNat] at hd'
    exact h (hd' ▸ hd)
  · exact absurd (FoldRuntime.foldChar_other d (by omega) '#' hdc (by decide)) (by decide)

theorem notMem_pathFromUrl (url : String) : '#' ∉ (pathFromUrl url).toList := by
  rw [pathFromUrl]
  dsimp only
  split_ifs
  · decide
  · rw [stripQuery, String.toList_ofList]
    exact fun h => FoldRuntime.urlPath_plain url ((stripQueryAux_front 0 _).subset h)
  · rw [stripQuery, String.toList_ofList]
    intro h
    have hmem := (stripQueryAux_front 0 _).subset h
    rw [beforeChar, String.toList_ofList] at hmem
    exact absurd (mem_takeWhile_imp hmem) (by simp)

theorem folded_normalizeSegment {route seg : String} (hseg : seg ∈ rawSegments route) :
    ∀ c ∈ (normalizeSegment seg).toList, Folded c := by
  have hraw : ∀ c ∈ seg.toList, Folded c := by
    intro c hc
    rw [rawSegments, mem_filter] at hseg
    exact folded_casefold (notMem_pathFromUrl _) c (mem_of_mem_splitChar hseg.1 hc)
  have hopen : Folded '\x7b' := folded_ascii (by decide) (by decide) (by decide)
  have hclose : Folded '\x7d' := folded_ascii (by decide) (by decide) (by decide)
  have hstar : Folded '*' := folded_ascii (by decide) (by decide) (by decide)
  intro c hc
  rw [toList_normalizeSegment] at hc
  cases hread : readSegment seg with
  | whole =>
    rw [hread] at hc
    have hmem : c ∈ ['\x7b', '\x7d'] := hc
    simp only [mem_cons, not_mem_nil, or_false] at hmem
    rcases hmem with rfl | rfl
    · exact hopen
    · exact hclose
  | greedy =>
    rw [hread] at hc
    have hmem : c ∈ ['\x7b', '*', '*', '\x7d'] := hc
    simp only [mem_cons, not_mem_nil, or_false] at hmem
    rcases hmem with rfl | rfl | rfl | rfl
    · exact hopen
    · exact hstar
    · exact hstar
    · exact hclose
  | text ps =>
    rw [hread] at hc
    obtain ⟨p, hp, hpc⟩ := mem_flatMap.mp hc
    cases p with
    | none =>
      have hmem : c ∈ ['\x7b', '\x7d'] := hpc
      simp only [mem_cons, not_mem_nil, or_false] at hmem
      rcases hmem with rfl | rfl
      · exact hopen
      · exact hclose
    | some d =>
      obtain rfl := mem_singleton.mp hpc
      rw [(readSegment_eq_text_iff.mp hread).2] at hp
      have hmem := mem_of_mem_readGroups (mem_of_mem_readGroups hp)
      exact hraw c (by simpa using hmem)

/-- What is read from text of folded words behind slashes. -/
theorem routeSegments_slashed {ws : List (List Char)} (hnil : ws ≠ []) (hws : ∀ w ∈ ws, '/' ∉ w ∧ w ≠ [])
    (hfolded : ∀ w ∈ ws, ∀ c ∈ w, Folded c) {route : String} (hroute : route.toList = slashed ws) :
    Returns route ∧ routeSegments route =
      (piecesOf (stripQueryAux 0 ((slashed ws).rdropWhile isSpace))).map (normalizeSegment ∘ String.ofList) := by
  have hslash : Folded '/' := folded_ascii (by decide) (by decide) (by decide)
  have hall : ∀ c ∈ slashed ws, Folded c := by
    intro c hc
    obtain ⟨w, hw, hcw⟩ := mem_flatMap.mp hc
    rcases mem_cons.mp hcw with rfl | hcw
    · exact hslash
    · exact hfolded w hw c hcw
  obtain ⟨w, ws', rfl⟩ := exists_cons_of_ne_nil hnil
  set cs := (slashed (w :: ws')).rdropWhile isSpace with hcs
  have hfront : cs <+: slashed (w :: ws') := List.rdropWhile_prefix _ _
  have hfold : ∀ c ∈ cs, Folded c := fun c hc => hall c (hfront.subset hc)
  have hstrip : strip route = String.ofList cs := by
    have hhead : (slashed (w :: ws')).dropWhile isSpace = slashed (w :: ws') := by
      rw [slashed_cons, dropWhile_cons_of_neg (by decide)]
    rw [strip, stripBy, hroute, hhead]
  have hunmatched : strip route ≠ UNMATCHED := by
    intro h
    have hcs' : cs = UNMATCHED.toList := by rw [← h, hstrip, String.toList_ofList]
    rw [hcs', slashed_cons] at hfront
    exact absurd (cons_prefix_cons.mp hfront).1 (by decide)
  have hscheme : hasInfix (strip route) "://" = false := by
    rw [hasInfix, decide_eq_false_iff_not, hstrip, String.toList_ofList]
    rintro ⟨u, v, huv⟩
    obtain ⟨rest, hrest⟩ := hfront
    have hlist : u ++ [':', '/', '/'] ++ v = cs := by
      rw [String.toList_ofList] at huv
      exact huv
    refine slashed_no_double hws (u ++ [':']) (v ++ rest) ?_
    rw [← hrest, ← hlist]
    simp
  have hpath : pathFromUrl (strip route) = String.ofList (stripQueryAux 0 cs) := by
    have hwhole : cs.takeWhile (· != '#') = cs := by
      rw [takeWhile_eq_self_iff]
      intro c hc
      simpa using (hfold c hc).2
    rw [pathFromUrl, hscheme, if_neg (by decide), stripQuery, beforeChar, hstrip, String.toList_ofList,
      String.toList_ofList, hwhole]
  have hcasefold : casefold (pathFromUrl (strip route)) = pathFromUrl (strip route) := by
    have hself : ∀ ds : List Char, (∀ c ∈ ds, foldChar c = [c]) → ds.flatMap foldChar = ds := by
      intro ds hds
      induction ds with
      | nil => rfl
      | cons d ds ih =>
        rw [flatMap_cons, hds d mem_cons_self, ih fun c hc => hds c (mem_cons_of_mem _ hc)]
        rfl
    rw [FoldRuntime.casefold_eq, hpath, String.toList_ofList, hself]
    exact fun c hc => (hfold c ((stripQueryAux_front 0 cs).subset hc)).1
  have hpieces : ∀ ds : List Char, (splitChar '/' (String.ofList ds)).filter (· ≠ "") =
      (piecesOf ds).map String.ofList := by
    intro ds
    have hempty : ∀ v : List Char, decide (String.ofList v ≠ "") = decide (v ≠ []) := by
      intro v
      rw [decide_eq_decide, not_iff_not, ← String.toList_inj, String.toList_ofList, String.toList_empty]
    rw [splitChar, String.toList_ofList, piecesOf, filter_map]
    exact congrArg _ (filter_congr fun v _ => hempty v)
  have hreturns : Returns route := by
    intro h
    rw [hscheme] at h
    exact absurd h.2.1 (by decide)
  refine ⟨hreturns, ?_⟩
  rw [routeSegments, if_neg hunmatched, hcasefold, hpath, hpieces, map_map]

omit [FoldRuntime] in
/-- Nothing is cut from the text of a route just if it ends visibly and covers its question marks. -/
theorem cut_eq_self_iff {segs : List Segment} (hnil : segs ≠ []) (hwritten : ∀ s ∈ segs, s.written ≠ []) :
    stripQueryAux 0 ((slashed (segs.map Segment.written)).rdropWhile isSpace) = slashed (segs.map Segment.written) ↔
      Covered 0 (segs.flatMap literals) ∧
        ∀ ps c, segs.getLast? = some (.text ps) → ps.getLast? = some (some c) → isSpace c = false := by
  set text := slashed (segs.map Segment.written) with htext
  have hboth : stripQueryAux 0 (text.rdropWhile isSpace) = text ↔
      stripQueryAux 0 text = text ∧ text.rdropWhile isSpace = text := by
    constructor
    · intro h
      have hfront := stripQueryAux_front 0 (text.rdropWhile isSpace)
      rw [h] at hfront
      have hsame : text.rdropWhile isSpace = text :=
        (List.rdropWhile_prefix _ _).eq_of_length_le hfront.length_le
      rw [hsame] at h
      exact ⟨h, hsame⟩
    · rintro ⟨hquery, hspace⟩
      rw [hspace, hquery]
  have hlast : text.getLast? = segs.getLast?.bind fun s => s.written.getLast? := by
    obtain ⟨front, s, rfl⟩ := eq_nil_or_concat segs |>.resolve_left hnil
    have hs := hwritten s (by simp)
    rw [htext, concat_eq_append, map_append, slashed, flatMap_append, List.getLast?_append,
      List.getLast?_append]
    obtain ⟨c, cs, hcs⟩ := exists_cons_of_ne_nil hs
    simp [hcs, List.getLast?_cons]
  have hend : text.rdropWhile isSpace = text ↔ ∀ c, text.getLast? = some c → isSpace c = false := by
    rw [rdropWhile_eq_self_iff]
    constructor
    · intro h c hc
      obtain ⟨hne, rfl⟩ := mem_getLast?_eq_getLast hc
      exact Bool.eq_false_iff.mpr (h hne)
    · intro h hne
      exact Bool.eq_false_iff.mp (h _ (List.getLast?_eq_getLast_of_ne_nil hne))
  rw [hboth, stripQueryAux_eq_self_iff, htext, covered_slashed, ← htext, hend, hlast]
  refine and_congr_right fun _ => ?_
  constructor
  · intro h ps c hps hc
    refine h c ?_
    rw [hps, Option.bind_some, Segment.written, last_written, hc]
    rfl
  · intro h c hc
    obtain ⟨s, hs, hsc⟩ := Option.bind_eq_some_iff.mp hc
    cases s with
    | whole =>
      obtain rfl : '\x7d' = c := Option.some.inj hsc
      decide
    | greedy =>
      obtain rfl : '\x7d' = c := Option.some.inj hsc
      decide
    | text ps =>
      rw [Segment.written, last_written, Option.map_eq_some_iff] at hsc
      obtain ⟨p, hp, hpc⟩ := hsc
      cases p with
      | none =>
        obtain rfl : '\x7d' = c := hpc
        decide
      | some d =>
        obtain rfl : d = c := hpc
        exact h ps d hs hp

theorem routeSegments_twice_iff {route : String} (hroute : strip route ≠ UNMATCHED) (hnil : rawSegments route ≠ []) :
    Returns (normalizeRoute route) ∧
      (routeSegments (normalizeRoute route) = routeSegments route ↔ Stable ((rawSegments route).map readSegment)) := by
  have hsegs := routeSegments_eq hroute
  have hmatched : routeSegments route ≠ [UNMATCHED] := fun h => hroute (routeSegments_eq_unmatched_iff.mp h)
  have hsome : routeSegments route ≠ [] := by
    rw [hsegs]
    simpa using hnil
  have hwords : (routeSegments route).map String.toList = ((rawSegments route).map readSegment).map Segment.written := by
    rw [hsegs, map_map, map_map]
    exact map_congr_left fun seg _ => toList_normalizeSegment seg
  have htext := toList_normalizeRoute hsome hmatched
  have hws : ∀ w ∈ (routeSegments route).map String.toList, '/' ∉ w ∧ w ≠ [] := by
    intro w hw
    obtain ⟨seg, hseg, rfl⟩ := mem_map.mp hw
    have hsegment := isSegment_routeSegments hmatched seg hseg
    exact ⟨hsegment.2, fun h => hsegment.1 (String.toList_eq_nil_iff.mp h)⟩
  have hfolded : ∀ w ∈ (routeSegments route).map String.toList, ∀ c ∈ w, Folded c := by
    intro w hw
    rw [hsegs, map_map] at hw
    obtain ⟨seg, hseg, rfl⟩ := mem_map.mp hw
    exact folded_normalizeSegment hseg
  obtain ⟨hreturns, hagain⟩ := routeSegments_slashed (by simpa using hsome) hws hfolded htext
  have hwritten : ∀ s ∈ (rawSegments route).map readSegment, s.written ≠ [] := by
    intro s hs
    refine (hws s.written ?_).2
    rw [hwords]
    exact mem_map_of_mem hs
  have hcut := cut_eq_self_iff (by simpa using hnil) hwritten
  rw [← hwords] at hcut
  refine ⟨hreturns, ?_⟩
  rw [hagain]
  by_cases hkept : stripQueryAux 0 ((slashed ((routeSegments route).map String.toList)).rdropWhile isSpace) =
      slashed ((routeSegments route).map String.toList)
  · obtain ⟨hcovered, hvisible⟩ := hcut.mp hkept
    have htwice : ((routeSegments route).map String.toList).map (normalizeSegment ∘ String.ofList) =
        (rawSegments route).map fun seg => normalizeSegment (normalizeSegment seg) := by
      rw [hsegs, map_map, map_map]
      refine map_congr_left fun seg _ => ?_
      rw [Function.comp_apply, Function.comp_apply, Function.comp_apply, String.ofList_toList]
    rw [hkept, piecesOf_slashed hws, htwice, hsegs, map_inj_left]
    simp only [normalizeSegment_twice_iff]
    constructor
    · intro h
      refine ⟨fun s hs => ?_, hcovered, hvisible⟩
      obtain ⟨seg, hseg, rfl⟩ := mem_map.mp hs
      exact h seg hseg
    · intro h seg hseg
      exact h.settled _ (mem_map_of_mem hseg)
  · refine iff_of_false (fun heq => ?_) fun h => hkept (hcut.mpr ⟨h.covered, h.visible⟩)
    have hfront := (stripQueryAux_front 0 _).trans
      (List.rdropWhile_prefix isSpace (slashed ((routeSegments route).map String.toList)))
    have hlength := congrArg List.length heq
    rw [length_map] at hlength
    rcases piecesOf_front hws hfront hkept with hshort | ⟨front, cut, w, hall, hpieces, hcut, hne, hempty⟩
    · rw [length_map] at hshort
      omega
    · -- the last segment would have to come back from less than itself
      rw [hpieces] at heq
      have hwords' := congrArg (List.map String.ofList) hall
      rw [map_map, map_append] at hwords'
      have hid : (routeSegments route).map (String.ofList ∘ String.toList) = routeSegments route :=
        (map_congr_left (g := id) fun _ _ => String.ofList_toList).trans (map_id _)
      rw [hid] at hwords'
      rw [hwords', map_append, map_singleton, map_singleton] at heq
      have hlast := (append_inj heq (by simp)).2
      have hfront : (String.ofList cut).toList <+: (String.ofList w).toList := by
        rw [String.toList_ofList, String.toList_ofList]
        exact hcut
      have hshorter : String.ofList cut ≠ String.ofList w := fun h => hne (String.ofList_injective h)
      refine normalizeSegment_ne_of_cut hfront hshorter ?_ (List.cons.inj hlast).1
      intro h
      have := congrArg String.toList h
      rw [String.toList_ofList] at this
      exact hempty this

/-- Normalising a route twice is normalising it once just if its segments are read stably. -/
theorem idempotent_iff (route : String) :
    Idempotent route ↔
      Returns route ∧ (strip route = UNMATCHED ∨ Stable ((rawSegments route).map readSegment)) := by
  rw [Idempotent]
  refine and_congr_right fun _ => ?_
  by_cases hroute : strip route = UNMATCHED
  · have hnormal : ∀ route, strip route = UNMATCHED → normalizeRoute route = UNMATCHED := by
      intro route h
      have hsegs := routeSegments_eq_unmatched_iff.mpr h
      rw [normalizeRoute, if_neg (by rw [hsegs]; exact cons_ne_nil _ _), if_pos hsegs]
    have hstrip : strip UNMATCHED = UNMATCHED := by rfl
    rw [hnormal route hroute, hnormal UNMATCHED hstrip]
    exact iff_of_true ⟨fun h => h.1 hstrip, rfl⟩ (Or.inl hroute)
  · by_cases hnil : rawSegments route = []
    · have hslash : routeSegments "/" = [] := by
        have hstrip : strip "/" = "/" := by rfl
        have hscheme : hasInfix "/" "://" = false := by rfl
        have hquery : stripQuery (beforeChar '#' "/") = "/" := by rfl
        have hfold : casefold "/" = mapChars Char.toLower "/" := Runtime.casefold_ascii _ (by decide)
        rw [routeSegments_eq (by rw [hstrip]; decide), rawSegments, hstrip, pathFromUrl, hscheme,
          if_neg (by decide), hquery, hfold]
        rfl
      have hnormal : normalizeRoute route = "/" := by
        rw [normalizeRoute, if_pos]
        rw [routeSegments_eq hroute, hnil]
        rfl
      rw [hnormal, hnil]
      refine iff_of_true ⟨fun h => ?_, ?_⟩ (Or.inr ⟨by simp, trivial, by simp⟩)
      · have hscheme : hasInfix (strip "/") "://" = false := by rfl
        rw [hscheme] at h
        exact absurd h.2.1 (by decide)
      · rw [normalizeRoute, if_pos hslash]
    · obtain ⟨hreturns, hagain⟩ := routeSegments_twice_iff hroute hnil
      rw [normalizeRoute_inj, hagain]
      exact ⟨fun h => Or.inr h.2, fun h => ⟨hreturns, h.resolve_left hroute⟩⟩

omit [FoldRuntime] in
/-- Without greedy placeholders, two routes are equal as templates just if they are normalised alike. -/
theorem routesEqual_iff_normalized [Runtime] {a b : String} (ha : GREEDY ∉ routeSegments a)
    (hb : GREEDY ∉ routeSegments b) : routesEqual a b = true ↔ normalizeRoute a = normalizeRoute b := by
  rw [normalizeRoute_inj]
  unfold routesEqual
  dsimp only
  split_ifs
  · exact decide_eq_true_iff
  · exact segsMatch_strict_iff ha hb

/-- How far the normalised form is a canonical one. -/
theorem normalizeRoute_canonical :
    (∀ route, Idempotent route ↔
      Returns route ∧ (strip route = UNMATCHED ∨ Stable ((rawSegments route).map readSegment))) ∧
    ∀ a b, GREEDY ∉ routeSegments a → GREEDY ∉ routeSegments b →
      (routesEqual a b = true ↔ normalizeRoute a = normalizeRoute b) :=
  ⟨idempotent_iff, fun _ _ => routesEqual_iff_normalized⟩

end Routes

/-- A runtime for routes without a scheme. -/
@[reducible] def FoldRuntime.ascii : FoldRuntime where
  toRuntime := { Runtime.ascii with urlPath := beforeChar '#' }
  foldChar c := [c.toLower]
  refused _ := false
  casefold_eq s := by
    show mapChars Char.toLower s = _
    rw [mapChars, map_eq_flatMap]
  foldChar_ascii _ _ := rfl
  foldChar_other c hc d hd hascii := by
    rw [mem_singleton.mp hd, toLower_of_not_ascii hc] at hascii
    omega
  foldChar_stable c d hd := by
    rw [mem_singleton.mp hd, toLower_toLower]
  urlPath_plain s h := by
    have hmem : '#' ∈ (beforeChar '#' s).toList := h
    rw [beforeChar, String.toList_ofList] at hmem
    exact absurd (mem_takeWhile_imp hmem) (by simp)

/-- Two placeholders of different dialects in one segment look like one placeholder once they are normalised. -/
theorem archive_not_idempotent : ¬ @Idempotent FoldRuntime.ascii "/archive/<int:year>-\x7bmonth\x7d" := by
  intro h
  exact absurd h.2.2 (by decide)

end PtaasBench.Benchctl
