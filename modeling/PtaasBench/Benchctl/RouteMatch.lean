import Mathlib.Data.List.Forall2
import PtaasBench.Benchctl.RouteSymmetry
import PtaasBench.Benchctl.Templates

/-!
# PtaasBench.Benchctl.RouteMatch — a template against a concrete path

Both sides go through the normaliser, so a path may bring placeholders of its own, and a placeholder embedded
in a segment of the template is compared as the text it was normalised to.  Where neither is the case the match
accepts the instances of the template.
-/

namespace PtaasBench.Benchctl

open Py List

/-! ## Instances of a template -/

/-- Text in which every embedded placeholder has been replaced by some text. -/
def Fits : List Piece → List Char → Prop
  | [], cs => cs = []
  | some c :: ps, cs => ∃ rest, cs = c :: rest ∧ Fits ps rest
  | none :: ps, cs => ∃ rest, rest <:+ cs ∧ Fits ps rest

/-- The segments of a template, each replaced by segments that it stands for. -/
inductive Instance : List Segment → List String → Prop
  | nil : Instance [] []
  | whole (p : String) {ss : List Segment} {ps : List String} : Instance ss ps → Instance (.whole :: ss) (p :: ps)
  | greedy {eaten : List String} {ss : List Segment} {ps : List String} : eaten ≠ [] → Instance ss ps →
      Instance (.greedy :: ss) (eaten ++ ps)
  | text {pieces : List Piece} {p : String} {ss : List Segment} {ps : List String} : Fits pieces p.toList →
      Instance ss ps → Instance (.text pieces :: ss) (p :: ps)

/-- The path is an instance of the template; the sentinel is neither a template nor a path. -/
def IsInstance [Runtime] (template path : String) : Prop :=
  strip template ≠ UNMATCHED ∧ strip path ≠ UNMATCHED ∧
    Instance ((rawSegments template).map readSegment) (rawSegments path)

/-- No placeholder is embedded in the segment. -/
def HoleFree (seg : String) : Prop := ∀ ps, readSegment seg = .text ps → none ∉ ps

/-- The segment does not read as a placeholder. -/
def ReadsAsText (seg : String) : Prop := ∃ ps, readSegment seg = .text ps

theorem fits_literal {cs ds : List Char} : Fits (cs.map some) ds ↔ ds = cs := by
  induction cs generalizing ds with
  | nil => exact Iff.rfl
  | cons c cs ih =>
    rw [map_cons, Fits]
    constructor
    · rintro ⟨rest, rfl, hrest⟩
      rw [ih.mp hrest]
    · rintro rfl
      exact ⟨cs, rfl, ih.mpr rfl⟩

/-! ## Where the match is exact -/

section Exact

/-- A placeholder that has been written down is read again. -/
theorem none_mem_readText {seg : String} {ps : List Piece} (hps : none ∈ ps) (hseg : seg.toList = written ps) :
    none ∈ readPieces seg := by
  have hbraces : ∀ (fuel : ℕ) (ps : List Piece), none ∈ ps → (written ps).length ≤ fuel →
      none ∈ readGroups '\x7b' '\x7d' fuel ((written ps).map some) := by
    intro fuel
    induction fuel with
    | zero =>
      intro ps hps hfuel
      cases ps with
      | nil => cases hps
      | cons p ps => cases p <;> simp at hfuel
    | succ fuel ih =>
      intro ps hps hfuel
      cases ps with
      | nil => cases hps
      | cons p ps =>
        cases p with
        | none =>
          rw [written_none, map_cons, map_cons, readGroups, if_pos rfl, groupEnd, if_pos rfl]
          exact mem_cons_self
        | some c =>
          have htail : none ∈ ps := by simpa using hps
          rw [written_some, length_cons] at hfuel
          have hrest := ih ps htail (by omega)
          rw [written_some, map_cons, readGroups]
          split_ifs
          · cases groupEnd '\x7b' '\x7d' ((written ps).map some) with
            | none => exact mem_cons_of_mem _ hrest
            | some rest => exact mem_cons_self
          · exact mem_cons_of_mem _ hrest
  rw [readPieces, hseg]
  exact none_mem_readGroups (hbraces _ ps hps le_rfl) le_rfl

/-- A literal segment of a template is compared as it stands. -/
theorem eq_normalizeSegment_iff {t p : String} {pieces : List Piece} (ht : readSegment t = .text pieces)
    (hfree : none ∉ pieces) (hp : ReadsAsText p) : t = normalizeSegment p ↔ Fits pieces p.toList := by
  obtain ⟨qs, hqs⟩ := hp
  obtain ⟨rfl, -⟩ := normalizeSegment_of_literal ht hfree
  rw [fits_literal, String.toList_inj]
  by_cases hholes : none ∈ qs
  · have hwritten : (normalizeSegment p).toList = written qs := by
      rw [toList_normalizeSegment, hqs, Segment.written]
    refine iff_of_false ?_ ?_
    · rintro rfl
      rw [(readSegment_eq_text_iff.mp ht).2] at hfree
      exact hfree (none_mem_readText hholes hwritten)
    · rintro rfl
      rw [ht] at hqs
      cases hqs
      exact hfree hholes
  · rw [(normalizeSegment_of_literal hqs hholes).2]
    exact eq_comm

/-- Every segment of a template stands for something. -/
theorem Instance.eq_nil {ss : List Segment} (h : Instance ss []) : ss = [] := by
  generalize hnil : ([] : List String) = all at h
  cases h with
  | nil => rfl
  | greedy heaten => exact absurd (append_eq_nil_iff.mp hnil.symm).1 heaten
  | whole => cases hnil
  | text => cases hnil

theorem instance_greedy_iff {ss : List Segment} {p : String} {ps : List String} :
    Instance (.greedy :: ss) (p :: ps) ↔ ∃ rest, rest <:+ ps ∧ Instance ss rest := by
  constructor
  · generalize hps : p :: ps = all
    intro h
    cases h with
    | @greedy eaten ss rest heaten hrest =>
      obtain ⟨q, eaten, rfl⟩ := exists_cons_of_ne_nil heaten
      obtain ⟨rfl, rfl⟩ := List.cons.inj hps
      exact ⟨rest, suffix_append _ _, hrest⟩
  · rintro ⟨rest, ⟨eaten, rfl⟩, hrest⟩
    exact Instance.greedy (cons_ne_nil p eaten) hrest

/-- On segments of a template without embedded placeholders and segments of a path that read as text, the match
accepts the instances. -/
theorem segsMatch_iff_instance {ts ps : List String} (hts : ∀ t ∈ ts, HoleFree t) (hps : ∀ p ∈ ps, ReadsAsText p) :
    segsMatch true (ts.map normalizeSegment) (ps.map normalizeSegment) = true ↔
      Instance (ts.map readSegment) ps := by
  induction ts generalizing ps with
  | nil =>
    cases ps with
    | nil => exact iff_of_true rfl .nil
    | cons p ps =>
      refine iff_of_false (by simp) fun h => ?_
      cases h
  | cons t ts ih =>
    have htail : ∀ t ∈ ts, HoleFree t := fun t ht => hts t (mem_cons_of_mem _ ht)
    cases ps with
    | nil =>
      refine iff_of_false (by simp) fun h => ?_
      exact absurd h.eq_nil (cons_ne_nil _ _)
    | cons p ps =>
      obtain ⟨qs, hqs⟩ := hps p mem_cons_self
      obtain ⟨hplaceholder, hgreedy, -⟩ := normalizeSegment_of_text hqs
      have hrest : ∀ p ∈ ps, ReadsAsText p := fun p hp => hps p (mem_cons_of_mem _ hp)
      rw [map_cons, map_cons, map_cons]
      cases ht : readSegment t with
      | greedy =>
        rw [normalizeSegment_of_greedy ht, segsMatch_greedy_left, instance_greedy_iff]
        constructor
        · rintro ⟨u, ⟨front, hu⟩, hmatch⟩
          obtain ⟨front, rest, rfl, -, rfl⟩ := map_eq_append_iff.mp hu.symm
          have hread : ∀ p ∈ rest, ReadsAsText p := fun p hp => hrest p (mem_append_right _ hp)
          exact ⟨rest, suffix_append _ _, (ih htail hread).mp hmatch⟩
        · rintro ⟨rest, hsuffix, hinst⟩
          have hread : ∀ p ∈ rest, ReadsAsText p := fun p hp => hrest p (hsuffix.subset hp)
          exact ⟨rest.map normalizeSegment, hsuffix.map _, (ih htail hread).mpr hinst⟩
      | whole =>
        rw [normalizeSegment_of_whole ht, segsMatch_cons_cons (by decide) hgreedy, ih htail hrest]
        constructor
        · rintro ⟨-, h⟩
          exact .whole p h
        · intro h
          cases h with
          | whole _ h => exact ⟨Or.inr ⟨rfl, Or.inl rfl⟩, h⟩
      | text pieces =>
        have hfree := hts t mem_cons_self pieces ht
        obtain ⟨htplaceholder, htgreedy, -⟩ := normalizeSegment_of_text ht
        have hsame := eq_normalizeSegment_iff ht hfree ⟨qs, hqs⟩
        rw [(normalizeSegment_of_literal ht hfree).2] at htplaceholder htgreedy ⊢
        rw [segsMatch_cons_cons htgreedy hgreedy, ih htail hrest]
        constructor
        · rintro ⟨h | ⟨-, h | h⟩, hinst⟩
          · exact .text (hsame.mp h) hinst
          · exact absurd h htplaceholder
          · exact absurd h hplaceholder
        · intro h
          cases h with
          | text hfits hinst => exact ⟨Or.inl (hsame.mpr hfits), hinst⟩

end Exact

/-! ## A template with an embedded placeholder -/

section Embedded

/-- A path segment for a segment of a template: every placeholder is replaced by a letter. -/
def fillOf (t : String) : String :=
  match readSegment t with
  | .text ps => String.ofList (ps.map (·.getD 'x'))
  | _ => "x"

theorem readSegment_x : readSegment "x" = .text [some 'x'] := by
  rfl

theorem readsAsText_x : ReadsAsText "x" := ⟨_, readSegment_x⟩

/-- Filling in keeps the ends that a text has, and puts a letter where it had a placeholder. -/
theorem readsAsText_fillOf {t : String} (ht : IsSegment t) : ReadsAsText (fillOf t) ∧ IsSegment (fillOf t) := by
  have hx : ReadsAsText "x" ∧ IsSegment "x" := ⟨readsAsText_x, by decide, by decide⟩
  cases hread : readSegment t with
  | whole =>
    rw [fillOf, hread]
    exact hx
  | greedy =>
    rw [fillOf, hread]
    exact hx
  | text ps =>
    obtain ⟨hmark, hps⟩ := readSegment_eq_text_iff.mp hread
    have hfill : (fillOf t).toList = ps.map (·.getD 'x') := by
      rw [fillOf, hread, String.toList_ofList]
    have hfirst : ∀ c, (fillOf t).toList.head? = some c → c = 'x' ∨ t.toList.head? = some c := by
      intro c hc
      rw [hfill, List.head?_map, Option.map_eq_some_iff] at hc
      obtain ⟨p, hp, hpc⟩ := hc
      cases p with
      | none => exact Or.inl hpc.symm
      | some d =>
        obtain rfl : d = c := hpc
        exact Or.inr (head_of_readPieces (hps ▸ hp))
    have hlast : ∀ c, (fillOf t).toList.getLast? = some c → c = 'x' ∨ t.toList.getLast? = some c := by
      intro c hc
      rw [hfill, List.getLast?_map, Option.map_eq_some_iff] at hc
      obtain ⟨p, hp, hpc⟩ := hc
      cases p with
      | none => exact Or.inl hpc.symm
      | some d =>
        obtain rfl : d = c := hpc
        exact Or.inr (last_of_readPieces (hps ▸ hp))
    have hends : ∀ c d : Char, c ≠ 'x' → d ≠ 'x' →
        ((fillOf t).toList.head? = some c ∧ (fillOf t).toList.getLast? = some d) →
        t.toList.head? = some c ∧ t.toList.getLast? = some d := fun c d hc hd h =>
      ⟨(hfirst c h.1).resolve_left hc, (hlast d h.2).resolve_left hd⟩
    refine ⟨⟨_, readSegment_eq_text_iff.mpr ⟨fun h => hmark ?_, rfl⟩⟩, ?_, ?_⟩
    · rcases h with h | h | h | h | h
      · exact Or.inl ((hfirst _ h).resolve_left (by decide))
      · exact Or.inr (Or.inl ((hfirst _ h).resolve_left (by decide)))
      · exact Or.inr (Or.inr (Or.inl (hends _ _ (by decide) (by decide) h)))
      · exact Or.inr (Or.inr (Or.inr (Or.inl (hends _ _ (by decide) (by decide) h))))
      · exact Or.inr (Or.inr (Or.inr (Or.inr (hends _ _ (by decide) (by decide) h))))
    · intro hempty
      rw [hempty] at hfill
      have hnil : ps = [] := map_eq_nil_iff.mp hfill.symm
      rw [hnil, readPieces] at hps
      have hbraces := readGroups_eq_nil (readGroups_eq_nil hps.symm)
      exact ht.1 (String.toList_eq_nil_iff.mp (map_eq_nil_iff.mp hbraces))
    · rw [hfill]
      intro hslash
      obtain ⟨p, hp, hpc⟩ := mem_map.mp hslash
      cases p with
      | none => exact absurd hpc (by decide)
      | some d =>
        obtain rfl : d = '/' := hpc
        rw [hps] at hp
        have hmem := mem_of_mem_readGroups (mem_of_mem_readGroups hp)
        exact ht.2 (by simpa using hmem)

theorem fits_fill (ps : List Piece) : Fits ps (ps.map (·.getD 'x')) := by
  induction ps with
  | nil => rfl
  | cons p ps ih =>
    cases p with
    | none => exact ⟨_, suffix_cons _ _, ih⟩
    | some c => exact ⟨_, rfl, ih⟩

theorem instance_fill (ts : List String) : Instance (ts.map readSegment) (ts.map fillOf) := by
  induction ts with
  | nil => exact .nil
  | cons t ts ih =>
    rw [map_cons, map_cons]
    cases hread : readSegment t with
    | whole => exact .whole _ ih
    | greedy => exact Instance.greedy (cons_ne_nil (fillOf t) []) ih
    | text ps =>
      have hfill : (fillOf t).toList = ps.map (·.getD 'x') := by
        rw [fillOf, hread, String.toList_ofList]
      exact .text (hfill ▸ fits_fill ps) ih

/-- What is filled in is not normalised to what the template is. -/
theorem normalizeSegment_fillOf {t : String} {ps : List Piece} (hread : readSegment t = .text ps) (h : none ∈ ps)
    (ht : IsSegment t) : normalizeSegment t ≠ normalizeSegment (fillOf t) := by
  intro heq
  obtain ⟨qs, hqs⟩ := (readsAsText_fillOf ht).1
  have hfill : (fillOf t).toList = ps.map (·.getD 'x') := by
    rw [fillOf, hread, String.toList_ofList]
  have hshort : (normalizeSegment (fillOf t)).toList.length ≤ ps.length := by
    rw [toList_normalizeSegment, hqs, Segment.written, (readSegment_eq_text_iff.mp hqs).2, readPieces]
    refine (length_written_readGroups _ _ _ _).trans ((length_written_readGroups _ _ _ _).trans ?_)
    rw [written_map_some, hfill, length_map]
  have hlong : ps.length < (normalizeSegment t).toList.length := by
    rw [toList_normalizeSegment, hread, Segment.written]
    clear hread hfill hshort heq
    induction ps with
    | nil => cases h
    | cons p ps ih =>
      have hle : ∀ qs : List Piece, qs.length ≤ (written qs).length := by
        intro qs
        induction qs with
        | nil => exact le_rfl
        | cons q qs ih =>
          cases q with
          | none =>
            rw [written_none, length_cons, length_cons, length_cons]
            omega
          | some c =>
            rw [written_some, length_cons, length_cons]
            omega
      cases p with
      | none =>
        have := hle ps
        rw [written_none, length_cons, length_cons, length_cons]
        omega
      | some c =>
        have := ih (by simpa using h)
        rw [written_some, length_cons, length_cons]
        omega
  rw [heq] at hlong
  omega

theorem segsMatch_length {a b : List String} (hb : GREEDY ∉ b) (h : segsMatch true a b = true) :
    a.length ≤ b.length := by
  induction a generalizing b with
  | nil => exact Nat.zero_le _
  | cons x a ih =>
    cases b with
    | nil => cases h
    | cons y b =>
      rw [mem_cons, not_or] at hb
      by_cases hx : x = GREEDY
      · subst hx
        obtain ⟨t, ht, hmatch⟩ := (segsMatch_greedy_left a y b).mp h
        have hle := ih (fun hg => hb.2 (ht.subset hg)) hmatch
        have hsuffix := ht.length_le
        rw [length_cons, length_cons]
        omega
      · have hmatch := ((segsMatch_cons_cons hx (Ne.symm hb.1) a b).mp h).2
        have hle := ih hb.2 hmatch
        rw [length_cons, length_cons]
        omega

/-- Lists of one length are matched segment by segment. -/
theorem forall₂_of_segsMatch {a b : List String} (hlength : a.length = b.length) (hb : GREEDY ∉ b)
    (h : segsMatch true a b = true) :
    List.Forall₂ (fun x y => x = GREEDY ∨ x = y ∨ x = PLACEHOLDER ∨ y = PLACEHOLDER) a b := by
  induction a generalizing b with
  | nil =>
    rw [length_eq_zero_iff.mp hlength.symm]
    exact .nil
  | cons x a ih =>
    cases b with
    | nil => cases h
    | cons y b =>
      rw [mem_cons, not_or] at hb
      rw [length_cons, length_cons] at hlength
      by_cases hx : x = GREEDY
      · subst hx
        obtain ⟨t, ht, hmatch⟩ := (segsMatch_greedy_left a y b).mp h
        have hle := segsMatch_length (fun hg => hb.2 (ht.subset hg)) hmatch
        obtain rfl := ht.eq_of_length (by have := ht.length_le; omega)
        exact .cons (Or.inl rfl) (ih (by omega) hb.2 hmatch)
      · obtain ⟨hxy, hmatch⟩ := (segsMatch_cons_cons hx (Ne.symm hb.1) a b).mp h
        refine .cons ?_ (ih (by omega) hb.2 hmatch)
        rcases hxy with hxy | ⟨-, hxy⟩
        · exact Or.inr (Or.inl hxy)
        · exact Or.inr (Or.inr hxy)

/-- The match is exact on all paths that read as text just if the template embeds no placeholder. -/
theorem exact_on_text_iff {ts : List String} (hts : ∀ t ∈ ts, IsSegment t) :
    (∀ ps : List String, (∀ p ∈ ps, IsSegment p ∧ ReadsAsText p) →
        (segsMatch true (ts.map normalizeSegment) (ps.map normalizeSegment) = true ↔
          Instance (ts.map readSegment) ps)) ↔
      ∀ t ∈ ts, HoleFree t := by
  constructor
  · intro h t ht pieces hread hhole
    have hfill := h (ts.map fillOf) fun p hp => by
      obtain ⟨t, ht, rfl⟩ := mem_map.mp hp
      exact (readsAsText_fillOf (hts t ht)).symm
    have hgreedy : GREEDY ∉ (ts.map fillOf).map normalizeSegment := by
      intro hg
      obtain ⟨p, hp, hpg⟩ := mem_map.mp hg
      obtain ⟨t, ht, rfl⟩ := mem_map.mp hp
      obtain ⟨qs, hqs⟩ := (readsAsText_fillOf (hts t ht)).1
      exact (normalizeSegment_of_text hqs).2.1 hpg
    have hpairs := forall₂_of_segsMatch (by simp) hgreedy (hfill.mpr (instance_fill ts))
    rw [map_map, forall₂_map_left_iff, forall₂_map_right_iff, forall₂_same] at hpairs
    obtain ⟨hplaceholder, hnot, -⟩ := normalizeSegment_of_text hread
    obtain ⟨qs, hqs⟩ := (readsAsText_fillOf (hts t ht)).1
    rcases hpairs t ht with hx | hx | hx | hx
    · exact hnot hx
    · exact normalizeSegment_fillOf hread hhole (hts t ht) hx
    · exact hplaceholder hx
    · exact (normalizeSegment_of_text hqs).1 hx
  · intro h ps hps
    exact segsMatch_iff_instance h fun p hp => (hps p hp).2

end Embedded

/-! ## A path with a placeholder of its own -/

section Placeholders

open Classical in
/-- A template for a path: a star for a segment that reads as text, a letter for one that does not. -/
noncomputable def templateOf (p : String) : String := if ReadsAsText p then "*" else "x"

theorem readSegment_star : readSegment "*" = .whole := by
  rfl

theorem templateOf_spec (p : String) :
    IsSegment (templateOf p) ∧ HoleFree (templateOf p) ∧
      (ReadsAsText p ∧ normalizeSegment (templateOf p) = PLACEHOLDER ∨
        ¬ ReadsAsText p ∧ readSegment (templateOf p) = .text [some 'x'] ∧ normalizeSegment (templateOf p) = "x") := by
  by_cases hp : ReadsAsText p
  · have hstar : templateOf p = "*" := if_pos hp
    rw [hstar]
    refine ⟨⟨by decide, by decide⟩, ?_, Or.inl ⟨hp, normalizeSegment_of_whole readSegment_star⟩⟩
    intro ps hps
    rw [readSegment_star] at hps
    cases hps
  · have hx : templateOf p = "x" := if_neg hp
    rw [hx]
    refine ⟨⟨by decide, by decide⟩, ?_, Or.inr ⟨hp, readSegment_x, ?_⟩⟩
    · intro ps hps
      rw [readSegment_x] at hps
      cases hps
      simp
    · exact (normalizeSegment_of_literal readSegment_x (by simp)).2

/-- The path matches its template, from either side. -/
theorem segsMatch_templateOf (ps : List String) :
    segsMatch true ((ps.map templateOf).map normalizeSegment) (ps.map normalizeSegment) = true ∧
      segsMatch true (ps.map normalizeSegment) ((ps.map templateOf).map normalizeSegment) = true := by
  induction ps with
  | nil => exact ⟨rfl, rfl⟩
  | cons p ps ih =>
    have htemplate : normalizeSegment (templateOf p) ≠ GREEDY := by
      rcases (templateOf_spec p).2.2 with ⟨-, h⟩ | ⟨-, -, h⟩
      · rw [h]
        decide
      · rw [h]
        decide
    rw [map_cons, map_cons, map_cons]
    by_cases hgreedy : normalizeSegment p = GREEDY
    · rw [hgreedy]
      exact ⟨(segsMatch_greedy_right htemplate _ _).mpr ⟨_, suffix_refl _, ih.2⟩,
        (segsMatch_greedy_left _ _ _).mpr ⟨_, suffix_refl _, ih.2⟩⟩
    · have hwild : normalizeSegment (templateOf p) = PLACEHOLDER ∨ normalizeSegment p = PLACEHOLDER := by
        rcases (templateOf_spec p).2.2 with ⟨-, h⟩ | ⟨hp, -, -⟩
        · exact Or.inl h
        · rcases readSegment_cases p with ⟨-, h | h⟩ | ⟨-, h⟩
          · exact Or.inr (normalizeSegment_of_whole h)
          · exact absurd (normalizeSegment_of_greedy h) hgreedy
          · exact absurd ⟨_, h⟩ hp
      exact ⟨(segsMatch_cons_cons htemplate hgreedy _ _).mpr ⟨Or.inr ⟨rfl, hwild⟩, ih.1⟩,
        (segsMatch_cons_cons hgreedy htemplate _ _).mpr ⟨Or.inr ⟨rfl, hwild.symm⟩, ih.2⟩⟩

theorem readsAsText_of_instance {ps : List String} (h : Instance ((ps.map templateOf).map readSegment) ps) :
    ∀ p ∈ ps, ReadsAsText p := by
  induction ps with
  | nil => simp
  | cons p ps ih =>
    rw [map_cons, map_cons] at h
    by_cases hp : ReadsAsText p
    · have hwhole : readSegment (templateOf p) = .whole := by
        rw [templateOf, if_pos hp, readSegment_star]
      rw [hwhole] at h
      cases h with
      | whole _ h =>
        intro q hq
        rcases mem_cons.mp hq with rfl | hq
        · exact hp
        · exact ih h q hq
    · have htext : readSegment (templateOf p) = .text ([ 'x' ].map some) := by
        rw [templateOf, if_neg hp, readSegment_x]
        rfl
      rw [htext] at h
      cases h with
      | text hfits _ =>
        have hx : p = "x" := String.toList_injective (fits_literal.mp hfits)
        rw [hx] at hp
        exact absurd readsAsText_x hp

/-- The match is exact for all templates without embedded placeholders just if the path reads as text. -/
theorem exact_on_holeFree_iff {ps : List String} :
    (∀ ts : List String, (∀ t ∈ ts, IsSegment t ∧ HoleFree t) →
        (segsMatch true (ts.map normalizeSegment) (ps.map normalizeSegment) = true ↔
          Instance (ts.map readSegment) ps)) ↔
      ∀ p ∈ ps, ReadsAsText p := by
  constructor
  · intro h
    refine readsAsText_of_instance ((h (ps.map templateOf) fun t ht => ?_).mp (segsMatch_templateOf ps).1)
    obtain ⟨p, -, rfl⟩ := mem_map.mp ht
    exact ⟨(templateOf_spec p).1, (templateOf_spec p).2.1⟩
  · intro h ts hts
    exact segsMatch_iff_instance (fun t ht => (hts t ht).2) h

end Placeholders

/-! ## Routes -/

/-- A template and a path on which the match is exact: no placeholder is embedded in a segment of the template,
and no segment of the path reads as a placeholder. -/
def Plain [Runtime] (template path : String) : Prop :=
  (∀ t ∈ rawSegments template, HoleFree t) ∧ ∀ p ∈ rawSegments path, ReadsAsText p

/-- `route_matches_path` accepts the instances of a template on plain input, and neither half of that can be
spared: a template with an embedded placeholder misjudges a path that reads as text, and a path with a segment
that reads as a placeholder is misjudged by a template without embedded ones. -/
theorem routeMatchesPath_exact [Runtime] :
    (∀ template path : String, Plain template path →
      (routeMatchesPath template path = true ↔ IsInstance template path)) ∧
    (∀ ts : List String, (∀ t ∈ ts, IsSegment t) →
      ((∀ ps : List String, (∀ p ∈ ps, IsSegment p ∧ ReadsAsText p) →
        (segsMatch true (ts.map normalizeSegment) (ps.map normalizeSegment) = true ↔
          Instance (ts.map readSegment) ps)) ↔ ∀ t ∈ ts, HoleFree t)) ∧
    ∀ ps : List String,
      ((∀ ts : List String, (∀ t ∈ ts, IsSegment t ∧ HoleFree t) →
        (segsMatch true (ts.map normalizeSegment) (ps.map normalizeSegment) = true ↔
          Instance (ts.map readSegment) ps)) ↔ ∀ p ∈ ps, ReadsAsText p) := by
  refine ⟨?_, fun ts hts => exact_on_text_iff hts, fun ps => exact_on_holeFree_iff⟩
  intro template path hplain
  unfold routeMatchesPath
  dsimp only
  simp only [routeSegments_eq_unmatched_iff]
  by_cases hsentinel : strip template = UNMATCHED ∨ strip path = UNMATCHED
  · rw [if_pos hsentinel]
    refine iff_of_false (by simp) ?_
    rintro ⟨htemplate, hpath, -⟩
    rcases hsentinel with h | h
    · exact htemplate h
    · exact hpath h
  · rw [if_neg hsentinel]
    rw [not_or] at hsentinel
    rw [routeSegments_eq hsentinel.1, routeSegments_eq hsentinel.2,
      segsMatch_iff_instance hplain.1 hplain.2]
    exact ⟨fun h => ⟨hsentinel.1, hsentinel.2, h⟩, fun h => h.2.2⟩

/-- A finding on a path that starts with a colon is a finding on every route of its shape. -/
theorem export_matches_placeholder_path :
    ¬ (@routeMatchesPath Runtime.ascii "/api/orders/export" "/api/orders/:id" = true ↔
      @IsInstance Runtime.ascii "/api/orders/export" "/api/orders/:id") := by
  have hmatch : @routeMatchesPath Runtime.ascii "/api/orders/export" "/api/orders/:id" = true := by
    decide +kernel
  have htemplate : (@rawSegments Runtime.ascii "/api/orders/export").map readSegment =
      ["api", "orders", "export"].map fun s => .text (s.toList.map some) := by
    rfl
  have hpath : @rawSegments Runtime.ascii "/api/orders/:id" = ["api", "orders", ":id"] := by
    rfl
  intro h
  obtain ⟨-, -, hinst⟩ := h.mp hmatch
  rw [htemplate, hpath] at hinst
  cases hinst with
  | text _ hinst =>
    cases hinst with
    | text _ hinst =>
      cases hinst with
      | text hfits _ => exact absurd (fits_literal.mp hfits) (by decide)

end PtaasBench.Benchctl
