import Mathlib.Data.List.Basic

/-!
# PtaasBench.Shopfront.SchemaWalk — documents that copy the schema description (`schemaWalkDepth`)

The walk counts how deep fields are nested from `__schema` or `__type` on.  It goes into inline fragments, but not
behind the name of a fragment, and it counts every field below them, whatever it describes.  So its depth is the length
of the longest chain of such fields in an operation; a copy of the schema is a path of three of them by name.
-/

namespace PtaasBench.Shopfront.SchemaWalk

open List

/-! ## Documents -/

/-- A selection as the parser gives it.  The parser takes no empty braces, so a selection set that is not there is an
empty list. -/
inductive Selection where
  | field (nickname : Option String) (name : String) (selectionSet : List Selection)
  | spread (name : String)
  | inline (typeCondition : Option String) (selectionSet : List Selection)

inductive Definition where
  | operation (name : Option String) (selectionSet : List Selection)
  | fragment (name typeCondition : String) (selectionSet : List Selection)
  | typeSystem

abbrev Document := List Definition

/-! ## The code -/

mutual

/-- `walk(selectionSet, inSchema, level)`, with the depth found so far. -/
def walk : List Selection → Bool → ℕ → ℕ → ℕ
  | [], _, _, depth => depth
  | selection :: rest, inSchema, level, depth => walk rest inSchema level (visit selection inSchema level depth)

/-- One turn of its loop. -/
def visit : Selection → Bool → ℕ → ℕ → ℕ
  | .inline _ selectionSet, inSchema, level, depth => walk selectionSet inSchema level depth
  | .spread _, _, _, depth => depth -- a spread has no selection set
  | .field _ name selectionSet, inSchema, level, depth =>
    let nowInSchema := inSchema || name == "__schema" || name == "__type"
    let nextLevel := if nowInSchema then level + 1 else 0
    walk selectionSet nowInSchema nextLevel (if nowInSchema then max depth nextLevel else depth)

end

def schemaWalkDepth (document : Document) : ℕ :=
  document.foldl (fun depth definition =>
    match definition with
    | .operation _ selectionSet => walk selectionSet false 0 depth
    | _ => depth) 0

/-- Does an operation with this document raise `graphSchemaWalk`? -/
def raisesSchemaWalk (document : Document) : Bool := 3 ≤ schemaWalkDepth document

/-! ## What a document selects -/

/-- A path of fields that a selection set selects when its fragments are expanded. -/
inductive Selects (document : Document) : List Selection → List String → Prop where
  | done {selectionSet : List Selection} : Selects document selectionSet []
  | field {selectionSet inner : List Selection} {nickname : Option String} {name : String} {path : List String} :
      .field nickname name inner ∈ selectionSet → Selects document inner path →
      Selects document selectionSet (name :: path)
  | inline {selectionSet inner : List Selection} {typeCondition : Option String} {path : List String} :
      .inline typeCondition inner ∈ selectionSet → Selects document inner path → Selects document selectionSet path
  | spread {selectionSet inner : List Selection} {name typeCondition : String} {path : List String} :
      .spread name ∈ selectionSet → .fragment name typeCondition inner ∈ document → Selects document inner path →
      Selects document selectionSet path

/-- Some operation selects from `__schema` through the type list down to the field definitions. -/
def WalksSchema (document : Document) : Prop :=
  ∃ name selectionSet above, .operation name selectionSet ∈ document ∧
    Selects document selectionSet (above ++ ["__schema", "types", "fields"])

def describes (name : String) : Bool := name == "__schema" || name == "__type"

/-- So many fields nested in one another, with inline fragments between them at most; the first is `__schema` or
`__type`, or is below one. -/
inductive Chain : Bool → ℕ → List Selection → Prop where
  | none {inSchema : Bool} {selectionSet : List Selection} : Chain inSchema 0 selectionSet
  | field {inSchema : Bool} {n : ℕ} {selectionSet inner : List Selection} {nickname : Option String} {name : String} :
      .field nickname name inner ∈ selectionSet → (inSchema || describes name) = true → Chain true n inner →
      Chain inSchema (n + 1) selectionSet
  | outside {n : ℕ} {selectionSet inner : List Selection} {nickname : Option String} {name : String} :
      .field nickname name inner ∈ selectionSet → describes name = false → Chain false n inner →
      Chain false n selectionSet
  | inline {inSchema : Bool} {n : ℕ} {selectionSet inner : List Selection} {typeCondition : Option String} :
      .inline typeCondition inner ∈ selectionSet → Chain inSchema n inner → Chain inSchema n selectionSet

/-- Some operation has three fields nested in one another from `__schema` or `__type` on, none of them behind the name
of a fragment. -/
def ThreeDeep (document : Document) : Prop :=
  ∃ name selectionSet, .operation name selectionSet ∈ document ∧ Chain false 3 selectionSet

/-! ## Chains of a selection set -/

variable {inSchema : Bool} {n : ℕ}

theorem Chain.mono {as bs : List Selection} (h : Chain inSchema n as) (hsub : as ⊆ bs) : Chain inSchema n bs := by
  cases h with
  | none => exact .none
  | field hmem hcounts hinner => exact .field (hsub hmem) hcounts hinner
  | outside hmem hnot hinner => exact .outside (hsub hmem) hnot hinner
  | inline hmem hinner => exact .inline (hsub hmem) hinner

theorem chain_nil_iff : Chain inSchema n [] ↔ n = 0 := by
  constructor
  · intro h
    cases h with
    | none => rfl
    | field hmem _ _ => exact absurd hmem not_mem_nil
    | outside hmem _ _ => exact absurd hmem not_mem_nil
    | inline hmem _ => exact absurd hmem not_mem_nil
  · rintro rfl
    exact .none

theorem chain_cons_iff {s : Selection} {rest : List Selection} :
    Chain inSchema n (s :: rest) ↔ Chain inSchema n [s] ∨ Chain inSchema n rest := by
  constructor
  · intro h
    cases h with
    | none => exact Or.inl .none
    | field hmem hcounts hinner =>
      rcases mem_cons.mp hmem with rfl | hmem
      · exact Or.inl (.field mem_cons_self hcounts hinner)
      · exact Or.inr (.field hmem hcounts hinner)
    | outside hmem hnot hinner =>
      rcases mem_cons.mp hmem with rfl | hmem
      · exact Or.inl (.outside mem_cons_self hnot hinner)
      · exact Or.inr (.outside hmem hnot hinner)
    | inline hmem hinner =>
      rcases mem_cons.mp hmem with rfl | hmem
      · exact Or.inl (.inline mem_cons_self hinner)
      · exact Or.inr (.inline hmem hinner)
  · rintro (h | h)
    · exact h.mono (cons_subset_cons s (nil_subset rest))
    · exact h.mono (subset_cons_self s rest)

theorem chain_spread_iff {name : String} : Chain inSchema n [.spread name] ↔ n = 0 := by
  constructor
  · intro h
    cases h with
    | none => rfl
    | field hmem _ _ => exact Selection.noConfusion (mem_singleton.mp hmem)
    | outside hmem _ _ => exact Selection.noConfusion (mem_singleton.mp hmem)
    | inline hmem _ => exact Selection.noConfusion (mem_singleton.mp hmem)
  · rintro rfl
    exact .none

theorem chain_inline_iff {typeCondition : Option String} {inner : List Selection} :
    Chain inSchema n [.inline typeCondition inner] ↔ Chain inSchema n inner := by
  constructor
  · intro h
    cases h with
    | none => exact .none
    | field hmem _ _ => exact Selection.noConfusion (mem_singleton.mp hmem)
    | outside hmem _ _ => exact Selection.noConfusion (mem_singleton.mp hmem)
    | inline hmem hinner =>
      obtain ⟨rfl, rfl⟩ := Selection.inline.inj (mem_singleton.mp hmem)
      exact hinner
  · exact .inline (mem_singleton_self _)

/-- A field that counts is one more. -/
theorem chain_counted_iff {nickname : Option String} {name : String} {inner : List Selection}
    (h : (inSchema || describes name) = true) :
    Chain inSchema (n + 1) [.field nickname name inner] ↔ Chain true n inner := by
  constructor
  · intro hchain
    cases hchain with
    | field hmem hcounts hinner =>
      obtain ⟨rfl, rfl, rfl⟩ := Selection.field.inj (mem_singleton.mp hmem)
      exact hinner
    | outside hmem hnot hinner =>
      obtain ⟨rfl, rfl, rfl⟩ := Selection.field.inj (mem_singleton.mp hmem)
      rw [hnot] at h
      exact Bool.noConfusion h
    | inline hmem _ => exact Selection.noConfusion (mem_singleton.mp hmem)
  · exact .field (mem_singleton_self _) h

theorem chain_outside_iff {nickname : Option String} {name : String} {inner : List Selection}
    (h : describes name = false) :
    Chain false n [.field nickname name inner] ↔ Chain false n inner := by
  constructor
  · intro hchain
    cases hchain with
    | none => exact .none
    | field hmem hcounts hinner =>
      obtain ⟨rfl, rfl, rfl⟩ := Selection.field.inj (mem_singleton.mp hmem)
      rw [h] at hcounts
      exact Bool.noConfusion hcounts
    | outside hmem hnot hinner =>
      obtain ⟨rfl, rfl, rfl⟩ := Selection.field.inj (mem_singleton.mp hmem)
      exact hinner
    | inline hmem _ => exact Selection.noConfusion (mem_singleton.mp hmem)
  · exact .outside (mem_singleton_self _) h

theorem Chain.shorter {inSchema : Bool} {k n : ℕ} {selectionSet : List Selection} (h : Chain inSchema k selectionSet)
    (hle : n ≤ k) : Chain inSchema n selectionSet := by
  induction h generalizing n with
  | none => rw [Nat.le_zero.mp hle]; exact .none
  | field hmem hcounts _ ih =>
    cases n with
    | zero => exact .none
    | succ n => exact .field hmem hcounts (ih (Nat.le_of_succ_le_succ hle))
  | outside hmem hnot _ ih => exact .outside hmem hnot (ih hle)
  | inline hmem _ ih => exact .inline hmem (ih hle)

theorem Chain.inside {inSchema : Bool} {n : ℕ} {selectionSet : List Selection} (h : Chain inSchema n selectionSet) :
    Chain true n selectionSet := by
  induction h with
  | none => exact .none
  | field hmem _ hinner _ => exact .field hmem rfl hinner
  | outside hmem _ _ ih => exact (Chain.field hmem rfl ih).shorter (Nat.le_succ _)
  | inline hmem _ ih => exact .inline hmem ih

/-! ## The depth is the longest chain -/

/-- What a selection set contributes to the depth: the longest chain in it, on top of the level it stands at. -/
def Deepens (inSchema : Bool) (level depth n : ℕ) (selectionSet : List Selection) : Prop :=
  n ≤ depth ∨ ∃ k, 0 < k ∧ n ≤ level + k ∧ Chain inSchema k selectionSet

theorem deepens_of_iff {inSchema : Bool} {level depth n : ℕ} {as bs : List Selection}
    (h : ∀ k, 0 < k → (Chain inSchema k as ↔ Chain inSchema k bs)) :
    Deepens inSchema level depth n as ↔ Deepens inSchema level depth n bs := by
  refine or_congr_right (exists_congr fun k => ?_)
  constructor
  · rintro ⟨hpos, hle, hchain⟩
    exact ⟨hpos, hle, (h k hpos).mp hchain⟩
  · rintro ⟨hpos, hle, hchain⟩
    exact ⟨hpos, hle, (h k hpos).mpr hchain⟩

theorem deepens_of_none {inSchema : Bool} {level depth n : ℕ} {selectionSet : List Selection}
    (h : ∀ k, Chain inSchema k selectionSet → k = 0) : n ≤ depth ↔ Deepens inSchema level depth n selectionSet := by
  refine ⟨Or.inl, fun hdeep => hdeep.resolve_right ?_⟩
  rintro ⟨k, hpos, -, hchain⟩
  rw [h k hchain] at hpos
  exact Nat.lt_irrefl 0 hpos

/-- A field that counts raises the level of what is inside it. -/
theorem deepens_counted {inSchema : Bool} {level depth n : ℕ} {nickname : Option String} {name : String}
    {inner : List Selection} (h : (inSchema || describes name) = true) :
    Deepens true (level + 1) (max depth (level + 1)) n inner ↔
      Deepens inSchema level depth n [.field nickname name inner] := by
  constructor
  · rintro (hle | ⟨k, -, hle, hchain⟩)
    · by_cases hdepth : n ≤ depth
      · exact Or.inl hdepth
      · exact Or.inr ⟨1, Nat.one_pos, by omega, (chain_counted_iff h).mpr .none⟩
    · exact Or.inr ⟨k + 1, Nat.succ_pos k, by omega, (chain_counted_iff h).mpr hchain⟩
  · rintro (hle | ⟨k, hpos, hle, hchain⟩)
    · exact Or.inl (by omega)
    · obtain ⟨k, rfl⟩ := Nat.exists_eq_add_one_of_ne_zero (Nat.ne_of_gt hpos)
      by_cases hk : k = 0
      · exact Or.inl (by omega)
      · exact Or.inr ⟨k, Nat.pos_of_ne_zero hk, by omega, (chain_counted_iff h).mp hchain⟩

mutual

theorem le_walk_iff (n : ℕ) (selectionSet : List Selection) (inSchema : Bool) (level depth : ℕ)
    (hlevel : inSchema = false → level = 0) :
    n ≤ walk selectionSet inSchema level depth ↔ Deepens inSchema level depth n selectionSet := by
  cases selectionSet with
  | nil =>
    rw [walk]
    exact deepens_of_none fun k => chain_nil_iff.mp
  | cons s rest =>
    -- the depth is carried on from selection to selection, the level is not
    rw [walk, le_walk_iff n rest inSchema level _ hlevel, Deepens, le_visit_iff n s inSchema level depth hlevel,
      Deepens, Deepens, or_assoc, ← exists_or]
    refine or_congr_right (exists_congr fun k => ?_)
    rw [@chain_cons_iff inSchema k s rest, and_or_left, and_or_left]

theorem le_visit_iff (n : ℕ) (s : Selection) (inSchema : Bool) (level depth : ℕ)
    (hlevel : inSchema = false → level = 0) :
    n ≤ visit s inSchema level depth ↔ Deepens inSchema level depth n [s] := by
  cases s with
  | inline typeCondition inner =>
    rw [visit, le_walk_iff n inner inSchema level depth hlevel]
    exact (deepens_of_iff fun k _ => chain_inline_iff).symm
  | spread name =>
    rw [visit]
    exact deepens_of_none fun k => chain_spread_iff.mp
  | field nickname name inner =>
    rw [visit, Bool.or_assoc, show (name == "__schema" || name == "__type") = describes name from rfl]
    by_cases hcounts : (inSchema || describes name) = true
    · rw [hcounts, if_pos rfl, if_pos rfl, le_walk_iff n inner true (level + 1) _ nofun]
      exact deepens_counted hcounts
    · -- outside of the description the level is 0 already, so that setting it back changes nothing
      rw [Bool.not_eq_true] at hcounts
      obtain ⟨rfl, hname⟩ := Bool.or_eq_false_iff.mp hcounts
      rw [hcounts, if_neg Bool.false_ne_true, if_neg Bool.false_ne_true, le_walk_iff n inner false 0 depth fun _ => rfl,
        hlevel rfl]
      exact (deepens_of_iff fun k _ => chain_outside_iff hname).symm

end

theorem le_schemaWalkDepth_iff {n : ℕ} (hn : 0 < n) (document : Document) :
    n ≤ schemaWalkDepth document ↔
      ∃ name selectionSet, .operation name selectionSet ∈ document ∧ Chain false n selectionSet := by
  have hfold : ∀ definitions : List Definition, ∀ depth : ℕ,
      n ≤ definitions.foldl (fun depth definition =>
        match definition with
        | .operation _ selectionSet => walk selectionSet false 0 depth
        | _ => depth) depth ↔
      n ≤ depth ∨ ∃ name selectionSet, .operation name selectionSet ∈ definitions ∧ Chain false n selectionSet := by
    intro definitions
    induction definitions with
    | nil =>
      intro depth
      refine ⟨Or.inl, fun h => h.resolve_right ?_⟩
      rintro ⟨_, _, hmem, -⟩
      exact not_mem_nil hmem
    | cons definition rest ih =>
      intro depth
      rw [foldl_cons, ih]
      cases definition with
      | operation name selectionSet =>
        dsimp only
        rw [le_walk_iff n selectionSet false 0 depth fun _ => rfl, Deepens, or_assoc]
        refine or_congr_right ⟨?_, ?_⟩
        · rintro (⟨k, -, hle, hchain⟩ | ⟨name', set', hmem, hchain⟩)
          · exact ⟨name, selectionSet, mem_cons_self, hchain.shorter (by omega)⟩
          · exact ⟨name', set', mem_cons_of_mem _ hmem, hchain⟩
        · rintro ⟨name', set', hmem, hchain⟩
          rcases mem_cons.mp hmem with heq | hmem
          · obtain ⟨rfl, rfl⟩ := Definition.operation.inj heq
            exact Or.inl ⟨n, hn, by omega, hchain⟩
          · exact Or.inr ⟨name', set', hmem, hchain⟩
      | fragment name typeCondition selectionSet =>
        simp only [mem_cons, reduceCtorEq, false_or]
      | typeSystem =>
        simp only [mem_cons, reduceCtorEq, false_or]
  rw [schemaWalkDepth, hfold, or_iff_right (Nat.not_le_of_lt hn)]

theorem raisesSchemaWalk_iff (document : Document) : raisesSchemaWalk document = true ↔ ThreeDeep document := by
  rw [raisesSchemaWalk, decide_eq_true_eq]
  exact le_schemaWalkDepth_iff (by decide) document

/-! ## Walks that need no name -/

/-- The walk of an operation that goes through inline fragments at most. -/
def WalksPlainly (document : Document) : Prop :=
  ∃ name selectionSet above, .operation name selectionSet ∈ document ∧
    Selects [] selectionSet (above ++ ["__schema", "types", "fields"])

theorem chain_of_selects {selectionSet : List Selection} {path : List String} (h : Selects [] selectionSet path) :
    Chain true path.length selectionSet := by
  induction h with
  | done => exact .none
  | field hmem _ ih => exact .field hmem rfl ih
  | inline hmem _ ih => exact .inline hmem ih
  | spread _ hfragment _ _ => exact absurd hfragment not_mem_nil

/-- A field outside the schema description only leads further down. -/
theorem Chain.widen {n : ℕ} {selectionSet inner : List Selection} {nickname : Option String} {name : String}
    (hmem : .field nickname name inner ∈ selectionSet) (h : Chain false n inner) : Chain false n selectionSet := by
  cases hname : describes name with
  | false => exact .outside hmem hname h
  | true => exact (Chain.field hmem (by rw [hname]; rfl) h.inside).shorter (Nat.le_succ n)

theorem chain_of_path {selectionSet : List Selection} {path : List String} (h : Selects [] selectionSet path)
    {above below : List String} {name : String} (hpath : path = above ++ name :: below)
    (hname : describes name = true) : Chain false (below.length + 1) selectionSet := by
  induction h generalizing above with
  | done => exact absurd hpath (append_ne_nil_of_right_ne_nil above (cons_ne_nil _ _)).symm
  | field hmem hinner ih =>
    cases above with
    | nil =>
      obtain ⟨rfl, rfl⟩ := List.cons.inj hpath
      exact .field hmem hname (chain_of_selects hinner)
    | cons first above =>
      obtain ⟨rfl, hrest⟩ := List.cons.inj hpath
      exact Chain.widen hmem (ih hrest)
  | inline hmem _ ih => exact .inline hmem (ih hpath)
  | spread _ hfragment _ _ => exact absurd hfragment not_mem_nil

theorem WalksPlainly.threeDeep {document : Document} (h : WalksPlainly document) : ThreeDeep document := by
  obtain ⟨name, selectionSet, above, hmem, hselects⟩ := h
  exact ⟨name, selectionSet, hmem, chain_of_path hselects rfl rfl⟩

/-! ## Where the counter follows the document -/

/-- Three fields deep without the walk that is counted. -/
def FalseAlarm (document : Document) : Prop := ThreeDeep document ∧ ¬WalksSchema document

/-- Every walk goes by the name of a fragment, and nothing else is three fields deep. -/
def HiddenByName (document : Document) : Prop :=
  WalksSchema document ∧ ¬WalksPlainly document ∧ ¬ThreeDeep document

/-- Walks of the schema are counted exactly, but where other fields are as deep and where all walks hide behind a name. -/
theorem schemaWalk_counted_iff (document : Document) :
    (raisesSchemaWalk document = true ↔ WalksSchema document) ↔ ¬FalseAlarm document ∧ ¬HiddenByName document := by
  rw [raisesSchemaWalk_iff, FalseAlarm, HiddenByName]
  constructor
  · intro hcounted
    refine ⟨fun ⟨hdeep, hwalks⟩ => hwalks (hcounted.mp hdeep), fun ⟨hwalks, _, hdeep⟩ => hdeep (hcounted.mpr hwalks)⟩
  · rintro ⟨hfalse, hhidden⟩
    refine ⟨fun hdeep => Classical.byContradiction fun hwalks => hfalse ⟨hdeep, hwalks⟩, fun hwalks => ?_⟩
    by_cases hplain : WalksPlainly document
    · exact hplain.threeDeep
    · exact Classical.byContradiction fun hdeep => hhidden ⟨hwalks, hplain, hdeep⟩

/-- `query { __schema { types { ...FullType } } }  fragment FullType on __Type { fields { name } }` -/
def namedWalk : Document :=
  [.operation none [.field none "__schema" [.field none "types" [.spread "FullType"]]],
    .fragment "FullType" "__Type" [.field none "fields" [.field none "name" []]]]

theorem walks_namedWalk : WalksSchema namedWalk := by
  refine ⟨none, _, [], mem_cons_self, ?_⟩
  refine .field (mem_singleton_self _) (.field (mem_singleton_self _) ?_)
  refine .spread (mem_singleton_self _) (mem_cons_of_mem _ (mem_singleton_self _)) ?_
  exact .field (mem_singleton_self _) .done

theorem namedWalk_uncounted : ¬(raisesSchemaWalk namedWalk = true ↔ WalksSchema namedWalk) := fun h =>
  absurd (h.mpr walks_namedWalk) (by decide)

end PtaasBench.Shopfront.SchemaWalk
