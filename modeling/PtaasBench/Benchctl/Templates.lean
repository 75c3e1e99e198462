import PtaasBench.Benchctl.Routes

/-!
# PtaasBench.Benchctl.Templates — the segments of a route as they are read

A segment is a placeholder, a greedy placeholder, or text in which placeholders may be embedded.  What the
normaliser makes of a segment is such a reading, written down as text again (`toList_normalizeSegment`).
-/

namespace PtaasBench.Benchctl

open Py List

/-- A character of a segment, or a placeholder embedded in it. -/
abbrev Piece := Option Char

inductive Segment where
  | whole
  | greedy
  | text (pieces : List Piece)
deriving DecidableEq

/-- The pieces behind a group that has just been opened; a group has no slash and no second opening. -/
def groupEnd (opn close : Char) : List Piece → Option (List Piece)
  | [] => none
  | p :: ps =>
    if p = some close then some ps
    else if p = some opn ∨ p = some '/' then none
    else groupEnd opn close ps

/-- The groups between two characters, read as placeholders. -/
def readGroups (opn close : Char) : ℕ → List Piece → List Piece
  | 0, ps => ps
  | _, [] => []
  | fuel + 1, p :: ps =>
    if p = some opn then
      match groupEnd opn close ps with
      | some rest => none :: readGroups opn close fuel rest
      | none => p :: readGroups opn close fuel ps
    else p :: readGroups opn close fuel ps

/-- Text with the groups in braces read first, then those in angle brackets. -/
def readPieces (seg : String) : List Piece :=
  let braces := readGroups '\x7b' '\x7d' seg.toList.length (seg.toList.map some)
  readGroups '<' '>' braces.length braces

def readSegment (seg : String) : Segment :=
  if seg = "*" then .whole
  else if seg = "**" then .greedy
  else if startsWith seg "*" then .greedy
  else if startsWith seg ":" then .whole
  else if startsWith seg "\x7b" && endsWith seg "\x7d" then
    if startsWith (inner seg) "*" then .greedy
    else if endsWith (inner seg) "..." then .greedy
    else .whole
  else if startsWith seg "<" && endsWith seg ">" then
    let converter := if contains ':' (inner seg) then beforeChar ':' (inner seg) else ""
    if converter = "path" then .greedy else .whole
  else if startsWith seg "[" && endsWith seg "]" then
    if startsWith (stripBy (fun c => c = '[' || c = ']') seg) "..." then .greedy else .whole
  else .text (readPieces seg)

def writtenPiece : Piece → List Char
  | none => ['\x7b', '\x7d']
  | some c => [c]

def written (ps : List Piece) : List Char := ps.flatMap writtenPiece

def Segment.written : Segment → List Char
  | whole => PLACEHOLDER.toList
  | greedy => GREEDY.toList
  | text ps => Benchctl.written ps

@[simp] theorem written_some (c : Char) (ps : List Piece) : written (some c :: ps) = c :: written ps := rfl

@[simp] theorem written_none (ps : List Piece) : written (none :: ps) = '\x7b' :: '\x7d' :: written ps := rfl

theorem written_map_some (cs : List Char) : written (cs.map some) = cs := by
  induction cs with
  | nil => rfl
  | cons c cs ih => rw [map_cons, written_some, ih]

/-! ## Groups -/

theorem groupEnd_length {opn close : Char} {ps rest : List Piece} (h : groupEnd opn close ps = some rest) :
    rest.length < ps.length := by
  induction ps with
  | nil => simp [groupEnd] at h
  | cons p ps ih =>
    rw [groupEnd] at h
    split_ifs at h
    · obtain rfl := Option.some.inj h
      simp
    · have := ih h
      rw [length_cons]
      omega

theorem groupEnd_written {opn close : Char} {ps rest : List Piece} (h : groupEnd opn close ps = some rest) :
    (written rest).length < (written ps).length := by
  induction ps with
  | nil => simp [groupEnd] at h
  | cons p ps ih =>
    have hp : 0 < (writtenPiece p).length := by
      cases p <;> simp [writtenPiece]
    have hlength : (written (p :: ps)).length = (writtenPiece p).length + (written ps).length := by
      rw [written, flatMap_cons, length_append]
      rfl
    rw [groupEnd] at h
    split_ifs at h
    · obtain rfl := Option.some.inj h
      omega
    · have := ih h
      omega

theorem groupEnd_map_some (opn close : Char) (cs : List Char) :
    groupEnd opn close (cs.map some) = (groupRest opn close cs).map (List.map some) := by
  induction cs with
  | nil => rfl
  | cons c cs ih =>
    rw [map_cons, groupEnd, groupRest, ih]
    simp only [Option.some.injEq]
    split_ifs <;> rfl

/-- The braces of a placeholder are not angle brackets. -/
theorem groupRest_written (ps : List Piece) :
    groupRest '<' '>' (written ps) = (groupEnd '<' '>' ps).map written := by
  induction ps with
  | nil => rfl
  | cons p ps ih =>
    cases p with
    | none =>
      rw [written_none, groupRest, if_neg (by decide), if_neg (by decide), groupRest, if_neg (by decide),
        if_neg (by decide), ih, groupEnd, if_neg (by simp), if_neg (by simp)]
    | some c =>
      rw [written_some, groupRest, groupEnd, ih]
      simp only [Option.some.injEq]
      split_ifs <;> rfl

theorem subGroups_braces (fuel : ℕ) (cs : List Char) :
    subGroups '\x7b' '\x7d' fuel cs = written (readGroups '\x7b' '\x7d' fuel (cs.map some)) := by
  induction fuel generalizing cs with
  | zero => exact (written_map_some cs).symm
  | succ fuel ih =>
    cases cs with
    | nil => rfl
    | cons c cs =>
      rw [map_cons, subGroups, readGroups, groupEnd_map_some]
      by_cases hc : c = '\x7b'
      · subst hc
        rw [if_pos rfl, if_pos rfl]
        cases groupRest '\x7b' '\x7d' cs with
        | none => exact congrArg _ (ih cs)
        | some rest => exact congrArg (['\x7b', '\x7d'] ++ ·) (ih rest)
      · rw [if_neg hc, if_neg (by simpa using hc), written_some, ih]

theorem subGroups_angles {fuel fuel' : ℕ} {ps : List Piece} (h : ps.length ≤ fuel)
    (h' : (written ps).length ≤ fuel') :
    subGroups '<' '>' fuel' (written ps) = written (readGroups '<' '>' fuel ps) := by
  induction fuel generalizing fuel' ps with
  | zero =>
    obtain rfl := length_eq_zero_iff.mp (Nat.le_zero.mp h)
    cases fuel' <;> rfl
  | succ fuel ih =>
    cases ps with
    | nil => cases fuel' <;> rfl
    | cons p ps =>
      rw [length_cons] at h
      cases p with
      | none =>
        rw [written_none, length_cons, length_cons] at h'
        obtain ⟨fuel', rfl⟩ : ∃ n, fuel' = n + 2 := ⟨fuel' - 2, by omega⟩
        rw [written_none, subGroups, if_neg (by decide), subGroups, if_neg (by decide), readGroups,
          if_neg (by simp), written_none, ih (by omega) (by omega)]
      | some c =>
        rw [written_some, length_cons] at h'
        obtain ⟨fuel', rfl⟩ : ∃ n, fuel' = n + 1 := ⟨fuel' - 1, by omega⟩
        rw [written_some, subGroups, readGroups, groupRest_written]
        by_cases hc : c = '<'
        · subst hc
          rw [if_pos rfl, if_pos rfl]
          cases hend : groupEnd '<' '>' ps with
          | none => exact congrArg _ (ih (by omega) (by omega))
          | some rest =>
            have hlength := groupEnd_length hend
            have hwritten := groupEnd_written hend
            exact congrArg (['\x7b', '\x7d'] ++ ·) (ih (by omega) (by omega))
        · rw [if_neg hc, if_neg (by simpa using hc), written_some, ih (by omega) (by omega)]

theorem toList_subEmbedded (seg : String) :
    (subEmbedded '<' '>' (subEmbedded '\x7b' '\x7d' seg)).toList = written (readPieces seg) := by
  have hbraces : (subEmbedded '\x7b' '\x7d' seg).toList =
      written (readGroups '\x7b' '\x7d' seg.toList.length (seg.toList.map some)) := by
    rw [subEmbedded, String.toList_ofList, subGroups_braces]
  rw [subEmbedded, String.toList_ofList, hbraces, readPieces]
  exact subGroups_angles le_rfl le_rfl

theorem readGroups_of_notMem {opn close : Char} {fuel : ℕ} {ps : List Piece} (h : some opn ∉ ps) :
    readGroups opn close fuel ps = ps := by
  induction fuel generalizing ps with
  | zero => rfl
  | succ fuel ih =>
    cases ps with
    | nil => rfl
    | cons p ps =>
      rw [mem_cons, not_or] at h
      rw [readGroups, if_neg (Ne.symm h.1), ih h.2]

/-- The normaliser writes down what it has read. -/
theorem toList_normalizeSegment (seg : String) :
    (normalizeSegment seg).toList = (readSegment seg).written := by
  have hplain : (contains '\x7b' seg || contains '<' seg) = false → seg.toList = written (readPieces seg) := by
    intro h
    rw [Bool.or_eq_false_iff, contains, contains] at h
    have hbrace : (some '\x7b' : Piece) ∉ seg.toList.map some := by
      simpa using h.1
    have hangle : (some '<' : Piece) ∉ seg.toList.map some := by
      simpa using h.2
    rw [readPieces, readGroups_of_notMem hbrace, readGroups_of_notMem hangle, written_map_some]
  have htext : (if (contains '\x7b' seg || contains '<' seg) = true then
      subEmbedded '<' '>' (subEmbedded '\x7b' '\x7d' seg) else seg).toList = written (readPieces seg) := by
    by_cases hembedded : (contains '\x7b' seg || contains '<' seg) = true
    · rw [if_pos hembedded, toList_subEmbedded]
    · rw [if_neg hembedded]
      exact hplain (Bool.not_eq_true _ ▸ hembedded)
  unfold normalizeSegment readSegment
  simp only [apply_ite Segment.written, apply_ite String.toList] at htext ⊢
  rw [htext]
  rfl

/-! ## What makes a segment text -/

theorem startsWith_char {s t : String} {c : Char} (ht : t.toList = [c]) :
    startsWith s t = true ↔ s.toList.head? = some c := by
  rw [startsWith, ht]
  cases s.toList with
  | nil => simp
  | cons d cs =>
    rw [List.isPrefixOf_iff_prefix, List.head?_cons, cons_prefix_cons, Option.some_inj]
    exact ⟨fun h => h.1.symm, fun h => ⟨h.symm, List.nil_prefix⟩⟩

theorem endsWith_char {s t : String} {c : Char} (ht : t.toList = [c]) :
    endsWith s t = true ↔ s.toList.getLast? = some c := by
  rw [endsWith, ht, isSuffixOf_iff_suffix]
  constructor
  · rintro ⟨front, hfront⟩
    rw [← hfront, List.getLast?_append]
    rfl
  · intro h
    obtain ⟨front, hfront⟩ := List.getLast?_eq_some_iff.mp h
    exact ⟨front, hfront.symm⟩

/-- The ends that make a segment a placeholder as a whole. -/
def MarksWhole (first last : Option Char) : Prop :=
  first = some '*' ∨ first = some ':' ∨ first = some '\x7b' ∧ last = some '\x7d' ∨
    first = some '<' ∧ last = some '>' ∨ first = some '[' ∧ last = some ']'

theorem readSegment_cases (seg : String) :
    (MarksWhole seg.toList.head? seg.toList.getLast? ∧ (readSegment seg = .whole ∨ readSegment seg = .greedy)) ∨
      ¬ MarksWhole seg.toList.head? seg.toList.getLast? ∧ readSegment seg = .text (readPieces seg) := by
  have hstar : seg = "*" → seg.toList.head? = some '*' := by rintro rfl; rfl
  have hstars : seg = "**" → seg.toList.head? = some '*' := by rintro rfl; rfl
  have hfront : ∀ (t : String) (c : Char), t.toList = [c] → (startsWith seg t = true ↔ seg.toList.head? = some c) :=
    fun _ _ => startsWith_char
  have hback : ∀ (t : String) (c : Char), t.toList = [c] → (endsWith seg t = true ↔ seg.toList.getLast? = some c) :=
    fun _ _ => endsWith_char
  have hite : ∀ (p : Prop) [Decidable p] (x y : Segment), (x = .whole ∨ x = .greedy) →
      (y = .whole ∨ y = .greedy) → ((if p then x else y) = .whole ∨ (if p then x else y) = .greedy) := by
    intro p _ x y hx hy
    split_ifs
    · exact hx
    · exact hy
  have hwhole : Segment.whole = .whole ∨ Segment.whole = .greedy := Or.inl rfl
  have hgreedy : Segment.greedy = .whole ∨ Segment.greedy = .greedy := Or.inr rfl
  unfold readSegment MarksWhole
  dsimp only
  simp only [Bool.and_eq_true, hfront "*" '*' rfl, hfront ":" ':' rfl, hfront "\x7b" '\x7b' rfl, hfront "<" '<' rfl,
    hfront "[" '[' rfl, hback "\x7d" '\x7d' rfl, hback ">" '>' rfl, hback "]" ']' rfl]
  by_cases h1 : seg = "*"
  · rw [if_pos h1]
    exact Or.inl ⟨Or.inl (hstar h1), hwhole⟩
  rw [if_neg h1]
  by_cases h2 : seg = "**"
  · rw [if_pos h2]
    exact Or.inl ⟨Or.inl (hstars h2), hgreedy⟩
  rw [if_neg h2]
  by_cases h3 : seg.toList.head? = some '*'
  · rw [if_pos h3]
    exact Or.inl ⟨Or.inl h3, hgreedy⟩
  rw [if_neg h3]
  by_cases h4 : seg.toList.head? = some ':'
  · rw [if_pos h4]
    exact Or.inl ⟨Or.inr (Or.inl h4), hwhole⟩
  rw [if_neg h4]
  by_cases h5 : seg.toList.head? = some '\x7b' ∧ seg.toList.getLast? = some '\x7d'
  · rw [if_pos h5]
    exact Or.inl ⟨Or.inr (Or.inr (Or.inl h5)), hite _ _ _ hgreedy (hite _ _ _ hgreedy hwhole)⟩
  rw [if_neg h5]
  by_cases h6 : seg.toList.head? = some '<' ∧ seg.toList.getLast? = some '>'
  · rw [if_pos h6]
    exact Or.inl ⟨Or.inr (Or.inr (Or.inr (Or.inl h6))), hite _ _ _ hgreedy hwhole⟩
  rw [if_neg h6]
  by_cases h7 : seg.toList.head? = some '[' ∧ seg.toList.getLast? = some ']'
  · rw [if_pos h7]
    exact Or.inl ⟨Or.inr (Or.inr (Or.inr (Or.inr h7))), hite _ _ _ hgreedy hwhole⟩
  rw [if_neg h7]
  refine Or.inr ⟨?_, rfl⟩
  rintro (h | h | h | h | h)
  · exact h3 h
  · exact h4 h
  · exact h5 h
  · exact h6 h
  · exact h7 h

theorem readSegment_eq_text_iff {seg : String} {ps : List Piece} :
    readSegment seg = .text ps ↔
      ¬ MarksWhole seg.toList.head? seg.toList.getLast? ∧ ps = readPieces seg := by
  rcases readSegment_cases seg with ⟨hmark, hread⟩ | ⟨hmark, hread⟩
  · constructor
    · intro h
      rcases hread with hread | hread <;> rw [hread] at h <;> cases h
    · rintro ⟨h, -⟩
      exact absurd hmark h
  · rw [hread]
    constructor
    · intro h
      cases h
      exact ⟨hmark, rfl⟩
    · rintro ⟨-, rfl⟩
      rfl

/-! ## The pieces of a text -/

section Pieces

variable {opn close : Char}

/-- A reading without placeholders is of the characters as they stand. -/
theorem readGroups_eq_of_literal {fuel : ℕ} {ps : List Piece} (h : none ∉ readGroups opn close fuel ps) :
    readGroups opn close fuel ps = ps := by
  induction fuel generalizing ps with
  | zero => rfl
  | succ fuel ih =>
    cases ps with
    | nil => rfl
    | cons p ps =>
      rw [readGroups] at h ⊢
      split_ifs at h ⊢ with hp
      · cases hend : groupEnd opn close ps with
        | none =>
          rw [hend] at h
          rw [mem_cons, not_or] at h
          dsimp only
          rw [ih h.2]
        | some rest =>
          rw [hend] at h
          exact absurd mem_cons_self h
      · rw [mem_cons, not_or] at h
        rw [ih h.2]

theorem none_mem_readGroups {fuel : ℕ} {ps : List Piece} (h : none ∈ ps) (hfuel : ps.length ≤ fuel) :
    none ∈ readGroups opn close fuel ps := by
  induction fuel generalizing ps with
  | zero =>
    rw [length_eq_zero_iff.mp (Nat.le_zero.mp hfuel)] at h
    cases h
  | succ fuel ih =>
    cases ps with
    | nil => cases h
    | cons p ps =>
      rw [length_cons] at hfuel
      rw [readGroups]
      split_ifs with hp
      · have htail : none ∈ ps := by
          rcases mem_cons.mp h with h | h
          · rw [← h] at hp
            cases hp
          · exact h
        cases groupEnd opn close ps with
        | none => exact mem_cons_of_mem _ (ih htail (by omega))
        | some rest => exact mem_cons_self
      · rcases mem_cons.mp h with h | h
        · rw [h]
          exact mem_cons_self
        · exact mem_cons_of_mem _ (ih h (by omega))

theorem head_of_readGroups {fuel : ℕ} {ps : List Piece} {c : Char}
    (h : (readGroups opn close fuel ps).head? = some (some c)) : ps.head? = some (some c) := by
  cases fuel with
  | zero => exact h
  | succ fuel =>
    cases ps with
    | nil => exact h
    | cons p ps =>
      rw [readGroups] at h
      split_ifs at h with hp
      · cases hend : groupEnd opn close ps with
        | none =>
          rw [hend] at h
          exact h
        | some rest =>
          rw [hend] at h
          cases h
      · exact h

theorem groupEnd_suffix {ps rest : List Piece} (h : groupEnd opn close ps = some rest) :
    some close :: rest <:+ ps := by
  induction ps with
  | nil => simp [groupEnd] at h
  | cons p ps ih =>
    rw [groupEnd] at h
    split_ifs at h with hp
    · obtain rfl := Option.some.inj h
      rw [hp]
    · exact (ih h).trans (suffix_cons _ _)

theorem mem_of_mem_readGroups {opn close : Char} {fuel : ℕ} {ps : List Piece} {c : Char}
    (h : some c ∈ readGroups opn close fuel ps) : some c ∈ ps := by
  induction fuel generalizing ps with
  | zero => exact h
  | succ fuel ih =>
    cases ps with
    | nil => exact h
    | cons p ps =>
      have hkeep : some c ∈ p :: readGroups opn close fuel ps → some c ∈ p :: ps := by
        intro hmem
        rcases mem_cons.mp hmem with hp | hmem
        · rw [hp]
          exact mem_cons_self
        · exact mem_cons_of_mem _ (ih hmem)
      rw [readGroups] at h
      split_ifs at h with hp
      · cases hend : groupEnd opn close ps with
        | none =>
          rw [hend] at h
          exact hkeep h
        | some rest =>
          rw [hend] at h
          have htail : some c ∈ readGroups opn close fuel rest := by simpa using h
          exact mem_cons_of_mem _ ((groupEnd_suffix hend).subset (mem_cons_of_mem _ (ih htail)))
      · exact hkeep h

theorem length_written_readGroups (opn close : Char) (fuel : ℕ) (ps : List Piece) :
    (written (readGroups opn close fuel ps)).length ≤ (written ps).length := by
  induction fuel generalizing ps with
  | zero => exact le_rfl
  | succ fuel ih =>
    cases ps with
    | nil => exact le_rfl
    | cons p ps =>
      have hcons : ∀ qs : List Piece, (written (p :: qs)).length = (writtenPiece p).length + (written qs).length := by
        intro qs
        rw [written, flatMap_cons, length_append]
        rfl
      have hrest := ih ps
      rw [readGroups]
      split_ifs with hp
      · cases hend : groupEnd opn close ps with
        | none =>
          dsimp only
          rw [hcons, hcons]
          omega
        | some rest =>
          have hgroup := groupEnd_written hend
          have hafter := ih rest
          rw [hp, written_some, length_cons]
          dsimp only
          rw [written_none, length_cons, length_cons]
          omega
      · rw [hcons, hcons]
        omega

theorem readGroups_eq_nil {fuel : ℕ} {ps : List Piece} (h : readGroups opn close fuel ps = []) : ps = [] := by
  cases fuel with
  | zero => exact h
  | succ fuel =>
    cases ps with
    | nil => rfl
    | cons p ps =>
      rw [readGroups] at h
      split_ifs at h
      cases hend : groupEnd opn close ps <;> rw [hend] at h <;> cases h

theorem last_of_readGroups {fuel : ℕ} {ps : List Piece} {c : Char}
    (h : (readGroups opn close fuel ps).getLast? = some (some c)) : ps.getLast? = some (some c) := by
  induction fuel generalizing ps with
  | zero => exact h
  | succ fuel ih =>
    cases ps with
    | nil => exact h
    | cons p ps =>
      have hkeep : (p :: readGroups opn close fuel ps).getLast? = some (some c) →
          (p :: ps).getLast? = some (some c) := by
        intro hlast
        cases hrest : readGroups opn close fuel ps with
        | nil =>
          rw [hrest] at hlast
          rw [readGroups_eq_nil hrest]
          exact hlast
        | cons q qs =>
          rw [hrest, List.getLast?_cons_cons, ← hrest] at hlast
          have htail := ih hlast
          cases ps with
          | nil => cases htail
          | cons q' qs' =>
            rw [List.getLast?_cons_cons]
            exact htail
      rw [readGroups] at h
      split_ifs at h with hp
      · cases hend : groupEnd opn close ps with
        | none =>
          rw [hend] at h
          exact hkeep h
        | some rest =>
          rw [hend] at h
          dsimp only at h
          cases hrest : readGroups opn close fuel rest with
          | nil =>
            rw [hrest] at h
            cases h
          | cons q qs =>
            rw [hrest, List.getLast?_cons_cons, ← hrest] at h
            have hlast := ih h
            obtain ⟨front, hfront⟩ := (suffix_cons _ _).trans (groupEnd_suffix hend)
            rw [← hfront, List.getLast?_cons, List.getLast?_append, hlast]
            rfl
      · exact hkeep h

end Pieces

theorem head_of_readPieces {seg : String} {c : Char} (h : (readPieces seg).head? = some (some c)) :
    seg.toList.head? = some c := by
  have hhead := head_of_readGroups (head_of_readGroups h)
  rw [List.head?_map] at hhead
  cases hs : seg.toList.head? with
  | none =>
    rw [hs] at hhead
    cases hhead
  | some d =>
    rw [hs] at hhead
    cases hhead
    rfl

theorem last_of_readPieces {seg : String} {c : Char} (h : (readPieces seg).getLast? = some (some c)) :
    seg.toList.getLast? = some c := by
  have hlast := last_of_readGroups (last_of_readGroups h)
  rw [List.getLast?_map] at hlast
  cases hs : seg.toList.getLast? with
  | none =>
    rw [hs] at hlast
    cases hlast
  | some d =>
    rw [hs] at hlast
    cases hlast
    rfl

/-- Text without embedded placeholders is normalised to itself. -/
theorem normalizeSegment_of_literal {seg : String} {ps : List Piece} (h : readSegment seg = .text ps)
    (hps : none ∉ ps) : ps = seg.toList.map some ∧ normalizeSegment seg = seg := by
  obtain ⟨-, rfl⟩ := readSegment_eq_text_iff.mp h
  have hbraces : none ∉ readGroups '\x7b' '\x7d' seg.toList.length (seg.toList.map some) :=
    fun hmem => hps (none_mem_readGroups hmem le_rfl)
  have hpieces : readPieces seg = seg.toList.map some := by
    rw [readPieces] at hps ⊢
    rw [readGroups_eq_of_literal hps, readGroups_eq_of_literal hbraces]
  refine ⟨hpieces, String.toList_injective ?_⟩
  rw [toList_normalizeSegment, h, Segment.written, hpieces, written_map_some]

theorem readGroups_singleton {opn close : Char} {fuel : ℕ} {ps : List Piece}
    (h : readGroups opn close fuel ps = [none]) :
    ps = [none] ∨ ps.head? = some (some opn) ∧ ps.getLast? = some (some close) := by
  cases fuel with
  | zero => exact Or.inl h
  | succ fuel =>
    cases ps with
    | nil => cases h
    | cons p ps =>
      rw [readGroups] at h
      split_ifs at h with hp
      · cases hend : groupEnd opn close ps with
        | none =>
          rw [hend, hp] at h
          cases h
        | some rest =>
          rw [hend] at h
          obtain rfl := readGroups_eq_nil (List.cons.inj h).2
          obtain ⟨front, hfront⟩ := groupEnd_suffix hend
          refine Or.inr ⟨congrArg some hp, ?_⟩
          rw [← hfront, List.getLast?_cons, List.getLast?_append]
          rfl
      · obtain ⟨rfl, hrest⟩ := List.cons.inj h
        rw [readGroups_eq_nil hrest]
        exact Or.inl rfl

/-- Text is not normalised to a placeholder, nor to the sentinel. -/
theorem normalizeSegment_of_text {seg : String} {ps : List Piece} (h : readSegment seg = .text ps) :
    normalizeSegment seg ≠ PLACEHOLDER ∧ normalizeSegment seg ≠ GREEDY ∧ normalizeSegment seg ≠ UNMATCHED := by
  obtain ⟨hmark, hps⟩ := readSegment_eq_text_iff.mp h
  have hwritten : (normalizeSegment seg).toList = written ps := by
    rw [toList_normalizeSegment, h, Segment.written]
  -- a text is not one group, and does not both start and end like one
  have hgroup : ps ≠ [none] := by
    intro hone
    rw [hps] at hone
    rcases readGroups_singleton hone with hbraces | ⟨hhead, hlast⟩
    · rcases readGroups_singleton hbraces with hmap | ⟨hhead, hlast⟩
      · have hmem : none ∈ seg.toList.map some := by
          rw [hmap]
          exact mem_singleton_self _
        simp at hmem
      · rw [List.head?_map, Option.map_eq_some_iff] at hhead
        rw [List.getLast?_map, Option.map_eq_some_iff] at hlast
        obtain ⟨c, hc, hcopn⟩ := hhead
        obtain ⟨d, hd, hdclose⟩ := hlast
        cases hcopn
        cases hdclose
        exact hmark (Or.inr (Or.inr (Or.inl ⟨hc, hd⟩)))
    · have hfirst := head_of_readGroups hhead
      have hend := last_of_readGroups hlast
      rw [List.head?_map, Option.map_eq_some_iff] at hfirst
      rw [List.getLast?_map, Option.map_eq_some_iff] at hend
      obtain ⟨c, hc, hcopn⟩ := hfirst
      obtain ⟨d, hd, hdclose⟩ := hend
      cases hcopn
      cases hdclose
      exact hmark (Or.inr (Or.inr (Or.inr (Or.inl ⟨hc, hd⟩))))
  have hends : ∀ c d : Char, MarksWhole (some c) (some d) →
      ¬ (ps.head? = some (some c) ∧ ps.getLast? = some (some d)) := by
    rintro c d hcd ⟨hhead, hlast⟩
    rw [hps] at hhead hlast
    rw [head_of_readPieces hhead, last_of_readPieces hlast] at hmark
    exact hmark hcd
  have hbraces := hends '\x7b' '\x7d' (Or.inr (Or.inr (Or.inl ⟨rfl, rfl⟩)))
  have hangles := hends '<' '>' (Or.inr (Or.inr (Or.inr (Or.inl ⟨rfl, rfl⟩))))
  have hliteral : ∀ (cs : List Char) (qs : List Piece), '\x7b' ∉ cs → written qs = cs → qs = cs.map some := by
    intro cs
    induction cs with
    | nil =>
      intro qs _ hqs
      cases qs with
      | nil => rfl
      | cons q qs => cases q <;> cases hqs
    | cons c cs ih =>
      intro qs hc hqs
      rw [mem_cons, not_or] at hc
      cases qs with
      | nil => cases hqs
      | cons q qs =>
        cases q with
        | none => exact absurd (List.cons.inj hqs).1 hc.1
        | some d =>
          obtain ⟨rfl, hrest⟩ := List.cons.inj hqs
          rw [ih qs hc.2 hrest, map_cons]
  refine ⟨fun heq => ?_, fun heq => ?_, fun heq => ?_⟩ <;> rw [heq] at hwritten
  · cases ps with
    | nil => cases hwritten
    | cons p qs =>
      cases p with
      | none =>
        have hnil : written qs = [] := (List.cons.inj (List.cons.inj hwritten).2).2.symm
        rw [hliteral [] qs (by simp) hnil] at hgroup
        exact hgroup rfl
      | some c =>
        obtain ⟨rfl, hrest⟩ := List.cons.inj hwritten
        rw [hliteral ['\x7d'] qs (by decide) hrest.symm] at hbraces
        exact hbraces ⟨rfl, rfl⟩
  · cases ps with
    | nil => cases hwritten
    | cons p qs =>
      cases p with
      | none => exact absurd (List.cons.inj (List.cons.inj hwritten).2).1 (by decide)
      | some c =>
        obtain ⟨rfl, hrest⟩ := List.cons.inj hwritten
        rw [hliteral ['*', '*', '\x7d'] qs (by decide) hrest.symm] at hbraces
        exact hbraces ⟨rfl, rfl⟩
  · rw [hliteral UNMATCHED.toList ps (by decide) hwritten.symm] at hangles
    exact hangles ⟨rfl, rfl⟩

theorem normalizeSegment_of_whole {seg : String} (h : readSegment seg = .whole) :
    normalizeSegment seg = PLACEHOLDER := by
  apply String.toList_injective
  rw [toList_normalizeSegment, h, Segment.written]

theorem normalizeSegment_of_greedy {seg : String} (h : readSegment seg = .greedy) :
    normalizeSegment seg = GREEDY := by
  apply String.toList_injective
  rw [toList_normalizeSegment, h, Segment.written]

/-- The sentinel is not what a segment is normalised to. -/
theorem normalizeSegment_ne_unmatched (seg : String) : normalizeSegment seg ≠ UNMATCHED := by
  cases h : readSegment seg with
  | whole =>
    rw [normalizeSegment_of_whole h]
    decide
  | greedy =>
    rw [normalizeSegment_of_greedy h]
    decide
  | text ps => exact (normalizeSegment_of_text h).2.2

/-! ## Routes -/

section Routes

variable [Runtime]

/-- The segments of a route as they stand in it. -/
def rawSegments (route : String) : List String :=
  (splitChar '/' (casefold (pathFromUrl (strip route)))).filter (· ≠ "")

theorem routeSegments_eq {route : String} (h : strip route ≠ UNMATCHED) :
    routeSegments route = (rawSegments route).map normalizeSegment := by
  rw [routeSegments, if_neg h]
  rfl

theorem routeSegments_eq_unmatched_iff {route : String} :
    routeSegments route = [UNMATCHED] ↔ strip route = UNMATCHED := by
  constructor
  · intro h
    by_contra hroute
    rw [routeSegments_eq hroute, map_eq_singleton_iff] at h
    obtain ⟨seg, -, hseg⟩ := h
    exact normalizeSegment_ne_unmatched seg hseg
  · intro h
    rw [routeSegments, if_pos h]

end Routes

end PtaasBench.Benchctl
