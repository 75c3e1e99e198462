import PtaasBench.Sdk.Flatteners

/-!
# PtaasBench.Sdk.Walks — what the four walks hand on

Within their bounds the four walks go through the leaves of what they are given, in its order; what
differs is what they are given, and how they write a leaf.
-/

namespace PtaasBench.JsonLeaves

open Js Lib.Double Py List

variable {ν μ α β : Type}

/-! ## Containers -/

theorem isEmpty_ne_nil {xs : List α} (h : ¬ xs.isEmpty = true) : xs ≠ [] := fun hnil => h (List.isEmpty_iff.mpr hnil)

theorem leafs_arr (p : Text) {xs : List (Doc ν)} (h : ¬ xs.isEmpty = true) :
    leafs p (.arr xs) = (xs.zipIdx 0).flatMap fun x => leafs (sub p (index x.2)) x.1 := by
  rw [leafs, if_neg h, leafsItems_eq]

theorem leafs_obj (p : Text) {ms : List (Text × Doc ν)} (h : ¬ ms.isEmpty = true) :
    leafs p (.obj ms) = ms.flatMap fun m => leafs (sub p m.1) m.2 := by
  rw [leafs, if_neg h, leafsMembers_eq]

/-! ## Python and Java -/

section

variable (number : ν → Text) (bound : ℕ)

theorem flattenItemsTo_eq (p : Text) (depth i : ℕ) (xs : List (Doc ν)) :
    flattenItemsTo number bound p depth i xs =
      (xs.zipIdx i).flatMap fun x => flattenTo number bound (sub p (index x.2)) (depth + 1) x.1 := by
  induction xs generalizing i with
  | nil => rfl
  | cons x xs ih => rw [flattenItemsTo, ih, zipIdx_cons, flatMap_cons]

theorem flattenMembersTo_eq (p : Text) (depth : ℕ) (ms : List (Text × Doc ν)) :
    flattenMembersTo number bound p depth ms =
      ms.flatMap fun m => flattenTo number bound (sub p m.1) (depth + 1) m.2 := by
  induction ms with
  | nil => rfl
  | cons m ms ih => rw [flattenMembersTo, ih, flatMap_cons]

/-- Within its bound the walk writes every leaf. -/
theorem flattenTo_eq (d : Doc ν) (p : Text) (depth : ℕ) (h : depth + nesting d ≤ bound) :
    flattenTo number bound p depth d = (leafs p d).map fun x => (x.1, x.2.text number) := by
  induction d using Doc.induct generalizing p depth with
  | arr xs ih =>
    rw [nesting] at h
    rw [flattenTo, if_neg (by omega)]
    split_ifs with hempty
    · rw [leafs, if_pos hempty]
      rfl
    · rw [flattenItemsTo_eq, leafs_arr p hempty, map_flatMap]
      refine flatMap_congr fun x hx => ?_
      have hmem : x.1 ∈ xs := fst_mem_of_mem_zipIdx hx
      have hnesting := nesting_le_items hmem
      exact ih x.1 hmem _ _ (by omega)
  | obj ms ih =>
    rw [nesting] at h
    rw [flattenTo, if_neg (by omega)]
    split_ifs with hempty
    · rw [leafs, if_pos hempty]
      rfl
    · rw [flattenMembersTo_eq, leafs_obj p hempty, map_flatMap]
      refine flatMap_congr fun m hm => ?_
      have hnesting := nesting_le_members hm
      exact ih m hm _ _ (by omega)
  | _ =>
    rw [flattenTo, if_neg (by omega)]
    rfl

end

/-! ## Node -/

/-- A list that is added to until it is full. -/
def fill (most : ℕ) (out more : List α) : List α := if most ≤ out.length then out else (out ++ more).take most

section

variable {most : ℕ} {out more next : List α}

theorem fill_nil : fill most out [] = out := by
  rw [fill]
  split_ifs with h
  · rfl
  · rw [append_nil, take_of_length_le (by omega)]

theorem fill_singleton (x : α) : fill most out [x] = if most ≤ out.length then out else out ++ [x] := by
  rw [fill]
  split_ifs with h
  · rfl
  · rw [take_of_length_le]
    rw [length_append, length_singleton]
    omega

theorem fill_fill : fill most (fill most out more) next = fill most out (more ++ next) := by
  by_cases h : most ≤ out.length
  · rw [fill, fill, fill, if_pos h, if_pos h, if_pos h]
  · by_cases hmore : most ≤ (out ++ more).length
    · have hfull : (fill most out more).length = most := by
        rw [fill, if_neg h, length_take]
        omega
      rw [fill, if_pos hfull.ge, fill, if_neg h, fill, if_neg h, ← append_assoc,
        take_append_of_le_length hmore]
    · have hall : fill most out more = out ++ more := by
        rw [fill, if_neg h, take_of_length_le (by omega)]
      rw [hall, fill, if_neg hmore, fill, if_neg h, append_assoc]

end

namespace Node

/-- What Node writes for a leaf: nothing for a null. -/
def leafText : Leaf Binary → Text
  | .null => []
  | leaf => leaf.text fun x => signedToString x.neg x.magnitude

def written (p : Text) (d : Doc Binary) : List (Text × Text) := (leafs p d).map fun x => (x.1, leafText x.2)

section

variable {stringify : Doc Binary → Text} {options : Options} {depth : ℕ}

theorem flattenItemsInto_eq {xs : List (Doc Binary)}
    (h : ∀ x ∈ xs, ∀ out p, flattenInto stringify options out p (depth + 1) x =
      fill options.maxAttributes out (written p x)) (out : List (Text × Text)) (p : Text) (i : ℕ) :
    flattenItemsInto stringify options out p depth i xs =
      fill options.maxAttributes out ((xs.zipIdx i).flatMap fun x => written (sub p (index x.2)) x.1) := by
  induction xs generalizing out i with
  | nil => rw [flattenItemsInto, zipIdx_nil, flatMap_nil, fill_nil]
  | cons x xs ih =>
    have hstep : flattenItemsInto stringify options out p depth i (x :: xs) =
        flattenItemsInto stringify options (flattenInto stringify options out (sub p (index i)) (depth + 1) x) p depth
          (i + 1) xs := by
      rw [flattenItemsInto]
      split_ifs with hfull
      · rw [h x mem_cons_self, ih fun y hy => h y (mem_cons_of_mem x hy), fill_fill, fill, if_pos hfull]
      · rfl
    rw [hstep, ih fun y hy => h y (mem_cons_of_mem x hy), h x mem_cons_self, fill_fill, zipIdx_cons,
      flatMap_cons]

theorem flattenMembersInto_eq {ms : List (Text × Doc Binary)}
    (h : ∀ m ∈ ms, ∀ out p, flattenInto stringify options out p (depth + 1) m.2 =
      fill options.maxAttributes out (written p m.2)) (out : List (Text × Text)) (p : Text) :
    flattenMembersInto stringify options out p depth ms =
      fill options.maxAttributes out (ms.flatMap fun m => written (sub p m.1) m.2) := by
  induction ms generalizing out with
  | nil => rw [flattenMembersInto, flatMap_nil, fill_nil]
  | cons m ms ih =>
    have hstep : flattenMembersInto stringify options out p depth (m :: ms) =
        flattenMembersInto stringify options (flattenInto stringify options out (sub p m.1) (depth + 1) m.2) p depth
          ms := by
      rw [flattenMembersInto]
      split_ifs with hfull
      · rw [h m mem_cons_self, ih fun y hy => h y (mem_cons_of_mem m hy), fill_fill, fill, if_pos hfull]
      · rfl
    rw [hstep, ih fun y hy => h y (mem_cons_of_mem m hy), h m mem_cons_self, fill_fill, flatMap_cons]

/-- Within its depth the walk writes every leaf, until the list is full. -/
theorem flattenInto_eq (d : Doc Binary) (out : List (Text × Text)) (p : Text) (h : depth + nesting d ≤ options.maxDepth) :
    flattenInto stringify options out p depth d = fill options.maxAttributes out (written p d) := by
  induction d using Doc.induct generalizing out p depth with
  | arr xs ih =>
    rw [nesting] at h
    have hitems : ∀ x ∈ xs, ∀ out p, flattenInto stringify options out p (depth + 1) x =
        fill options.maxAttributes out (written p x) := fun x hx out p => by
      have hnesting := nesting_le_items hx
      exact ih x hx out p (by omega)
    by_cases hempty : xs.isEmpty = true
    · rw [flattenInto, written, leafs, if_pos hempty]
      refine Eq.trans ?_ (fill_singleton (name p, ofString "[]")).symm
      split_ifs with hfull hinside
      · rfl
      · exact absurd hempty hinside.2
      · rw [rawValue, if_pos hempty]
    · rw [flattenInto, flattenItemsInto_eq hitems, written, leafs_arr p hempty, map_flatMap]
      split_ifs with hfull hinside
      · rw [fill, if_pos hfull]
      · rfl
      · exact absurd ⟨by omega, hempty⟩ hinside
  | obj ms ih =>
    rw [nesting] at h
    have hmembers : ∀ m ∈ ms, ∀ out p, flattenInto stringify options out p (depth + 1) m.2 =
        fill options.maxAttributes out (written p m.2) := fun m hm out p => by
      have hnesting := nesting_le_members hm
      exact ih m hm out p (by omega)
    by_cases hempty : ms.isEmpty = true
    · rw [flattenInto, written, leafs, if_pos hempty]
      refine Eq.trans ?_ (fill_singleton (name p, ofString "{}")).symm
      split_ifs with hfull hinside
      · rfl
      · exact absurd hempty hinside.2
      · rw [rawValue, if_pos hempty]
    · rw [flattenInto, flattenMembersInto_eq hmembers, written, leafs_obj p hempty, map_flatMap]
      split_ifs with hfull hinside
      · rw [fill, if_pos hfull]
      · rfl
      · exact absurd ⟨by omega, hempty⟩ hinside
  | _ => exact (fill_singleton _).symm

end

end Node

/-! ## .NET -/

mutual

/-- No surrogate of a key or a string is without its other half. -/
def Paired : Doc ν → Prop
  | .str s => Dotnet.paired s = true
  | .arr xs => PairedItems xs
  | .obj ms => PairedMembers ms
  | _ => True

def PairedItems : List (Doc ν) → Prop
  | [] => True
  | x :: xs => Paired x ∧ PairedItems xs

def PairedMembers : List (Text × Doc ν) → Prop
  | [] => True
  | (k, x) :: ms => Dotnet.paired k = true ∧ Paired x ∧ PairedMembers ms

end

namespace Dotnet

section

variable {rawText : Doc Numeral → Text} {maxDepth depth : ℕ}

def written (p : Text) (d : Doc Numeral) : List (Text × Text) := (leafs p d).map fun x => (x.1, x.2.text wire)

/-- Whether a walk succeeds, and what it hands on if it does. -/
def Yields (o : Option α) (P : Prop) (x : α) : Prop := (P → o = some x) ∧ (¬ P → o = none)

theorem flattenItems_eq {xs : List (Doc Numeral)}
    (h : ∀ x ∈ xs, ∀ p, Yields (flatten rawText maxDepth p (depth + 1) x) (Paired x) (written p x)) (p : Text) (i : ℕ) :
    Yields (flattenItems rawText maxDepth p depth i xs) (PairedItems xs)
      ((xs.zipIdx i).flatMap fun x => written (sub p (index x.2)) x.1) := by
  induction xs generalizing i with
  | nil => exact ⟨fun _ => rfl, fun hno => absurd trivial hno⟩
  | cons x xs ih =>
    have hx := h x mem_cons_self (sub p (index i))
    have hxs := ih (fun y hy => h y (mem_cons_of_mem x hy)) (i + 1)
    rw [flattenItems, PairedItems, zipIdx_cons, flatMap_cons]
    by_cases hp : Paired x
    · rw [hx.1 hp]
      constructor
      · intro hpaired
        rw [hxs.1 hpaired.2]
        rfl
      · intro hno
        rw [hxs.2 fun hrest => hno ⟨hp, hrest⟩]
        rfl
    · rw [hx.2 hp]
      exact ⟨fun hpaired => absurd hpaired.1 hp, fun _ => rfl⟩

theorem flattenMembers_eq {ms : List (Text × Doc Numeral)}
    (h : ∀ m ∈ ms, ∀ p, Yields (flatten rawText maxDepth p (depth + 1) m.2) (Paired m.2) (written p m.2)) (p : Text) :
    Yields (flattenMembers rawText maxDepth p depth ms) (PairedMembers ms)
      (ms.flatMap fun m => written (sub p m.1) m.2) := by
  induction ms with
  | nil => exact ⟨fun _ => rfl, fun hno => absurd trivial hno⟩
  | cons m ms ih =>
    obtain ⟨k, x⟩ := m
    have hx := h (k, x) mem_cons_self (sub p k)
    have hms := ih fun y hy => h y (mem_cons_of_mem (k, x) hy)
    rw [flattenMembers, PairedMembers, flatMap_cons]
    by_cases hk : paired k = true
    · rw [if_pos hk]
      by_cases hp : Paired x
      · rw [hx.1 hp]
        constructor
        · intro hpaired
          rw [hms.1 hpaired.2.2]
          rfl
        · intro hno
          rw [hms.2 fun hrest => hno ⟨hk, hp, hrest⟩]
          rfl
      · rw [hx.2 hp]
        exact ⟨fun hpaired => absurd hpaired.2.1 hp, fun _ => rfl⟩
    · rw [if_neg hk]
      exact ⟨fun hpaired => absurd hpaired.1 hk, fun _ => rfl⟩

/-- Within its depth the walk writes every leaf, unless a surrogate is alone. -/
theorem flatten_eq (d : Doc Numeral) (p : Text) (h : depth + nesting d ≤ maxDepth) :
    Yields (flatten rawText maxDepth p depth d) (Paired d) (written p d) := by
  induction d using Doc.induct generalizing p depth with
  | str s =>
    rw [flatten, Paired]
    constructor
    · intro hs
      rw [if_pos hs]
      rfl
    · intro hs
      rw [if_neg hs]
  | arr xs ih =>
    rw [nesting] at h
    have hitems : ∀ x ∈ xs, ∀ p, Yields (flatten rawText maxDepth p (depth + 1) x) (Paired x) (written p x) :=
      fun x hx p => by
        have hnesting := nesting_le_items hx
        exact ih x hx p (by omega)
    rw [flatten, if_pos (by omega), Paired]
    by_cases hempty : xs.isEmpty = true
    · rw [if_pos hempty, written, leafs, if_pos hempty, List.isEmpty_iff.mp hempty]
      exact ⟨fun _ => rfl, fun hno => absurd trivial hno⟩
    · rw [if_neg hempty, written, leafs_arr p hempty, map_flatMap]
      exact flattenItems_eq hitems p 0
  | obj ms ih =>
    rw [nesting] at h
    have hmembers : ∀ m ∈ ms, ∀ p, Yields (flatten rawText maxDepth p (depth + 1) m.2) (Paired m.2) (written p m.2) :=
      fun m hm p => by
        have hnesting := nesting_le_members hm
        exact ih m hm p (by omega)
    rw [flatten, if_pos (by omega), Paired]
    by_cases hempty : ms.isEmpty = true
    · rw [if_pos hempty, written, leafs, if_pos hempty, List.isEmpty_iff.mp hempty]
      exact ⟨fun _ => rfl, fun hno => absurd trivial hno⟩
    · rw [if_neg hempty, written, leafs_obj p hempty, map_flatMap]
      exact flattenMembers_eq hmembers p
  | _ => exact ⟨fun _ => rfl, fun hno => absurd trivial hno⟩

end

end Dotnet

end PtaasBench.JsonLeaves
