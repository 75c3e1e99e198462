import PtaasBench.Sdk.Walks

/-!
# PtaasBench.Sdk.Decoding — what a document keeps when it is decoded

A dictionary keeps one value for a key, so that a document that has a key twice loses a leaf; where every key
is there once, only the order of the members and the numbers can change.
-/

namespace PtaasBench.JsonLeaves

open Js Lib.Double Py List

variable {ν μ α β : Type}

/-! ## Members with keys of their own -/

mutual

/-- No object has a key twice. -/
def Distinct : Doc ν → Prop
  | .arr xs => DistinctItems xs
  | .obj ms => (ms.map Prod.fst).Nodup ∧ DistinctMembers ms
  | _ => True

def DistinctItems : List (Doc ν) → Prop
  | [] => True
  | x :: xs => Distinct x ∧ DistinctItems xs

def DistinctMembers : List (Text × Doc ν) → Prop
  | [] => True
  | (_, x) :: ms => Distinct x ∧ DistinctMembers ms

end

theorem distinctItems_iff {xs : List (Doc ν)} : DistinctItems xs ↔ ∀ x ∈ xs, Distinct x := by
  induction xs with
  | nil => exact iff_of_true trivial fun x hx => absurd hx not_mem_nil
  | cons x xs ih => rw [DistinctItems, ih, forall_mem_cons]

theorem distinctMembers_iff {ms : List (Text × Doc ν)} : DistinctMembers ms ↔ ∀ m ∈ ms, Distinct m.2 := by
  induction ms with
  | nil => exact iff_of_true trivial fun x hx => absurd hx not_mem_nil
  | cons m ms ih => rw [DistinctMembers, ih, forall_mem_cons]

theorem decode_arr (number : ν → μ) (fields : List (Text × Doc μ) → List (Text × Doc μ)) (xs : List (Doc ν)) :
    decode number fields (.arr xs) = .arr (xs.map (decode number fields)) := by
  rw [decode, decodeItems_eq]

theorem decode_obj (number : ν → μ) (fields : List (Text × Doc μ) → List (Text × Doc μ))
    (ms : List (Text × Doc ν)) :
    decode number fields (.obj ms) = .obj (fields (ms.map (Prod.map id (decode number fields)))) := by
  rw [decode, decodeMembers_eq]

theorem fst_map_members (f : α → β) (ms : List (Text × α)) :
    (ms.map (Prod.map id f)).map Prod.fst = ms.map Prod.fst := by
  rw [map_map]
  rfl

/-- Where no key is there twice, only the order of the members counts. -/
theorem decode_congr {number : ν → μ} {fields fields' : List (Text × Doc μ) → List (Text × Doc μ)} {d : Doc ν}
    (hfields : ∀ ms, (ms.map Prod.fst).Nodup → fields ms = fields' ms) (h : Distinct d) :
    decode number fields d = decode number fields' d := by
  induction d using Doc.induct with
  | arr xs ih =>
    rw [Distinct, distinctItems_iff] at h
    rw [decode_arr, decode_arr]
    exact congrArg Doc.arr (map_congr_left fun x hx => ih x hx (h x hx))
  | obj ms ih =>
    rw [Distinct, distinctMembers_iff] at h
    have hmembers : ms.map (Prod.map id (decode number fields)) = ms.map (Prod.map id (decode number fields')) :=
      map_congr_left fun m hm => Prod.ext rfl (ih m hm (h.2 m hm))
    rw [decode_obj, decode_obj, hmembers, hfields]
    rw [fst_map_members]
    exact h.1
  | _ => rfl

theorem foldl_put {acc ms : List (Text × α)} (h : ((acc ++ ms).map Prod.fst).Nodup) :
    ms.foldl put acc = acc ++ ms := by
  induction ms generalizing acc with
  | nil => rw [foldl_nil, append_nil]
  | cons m ms ih =>
    have hnew : m.1 ∉ acc.map Prod.fst := by
      rw [map_append, map_cons] at h
      intro hmem
      exact (disjoint_of_nodup_append h) hmem mem_cons_self
    have hput : put acc m = acc ++ [m] := put_of_notMem hnew
    rw [foldl_cons, hput, ih, append_assoc, singleton_append]
    rwa [append_assoc, singleton_append]

/-- Keys of their own are all kept. -/
theorem merge_eq_self {ms : List (Text × α)} (h : (ms.map Prod.fst).Nodup) : merge ms = ms :=
  foldl_put h

/-! ## A key that is there twice -/

mutual

/-- The number of leaves. -/
def size : Doc ν → ℕ
  | .arr xs => if xs.isEmpty then 1 else sizeItems xs
  | .obj ms => if ms.isEmpty then 1 else sizeMembers ms
  | _ => 1

def sizeItems : List (Doc ν) → ℕ
  | [] => 0
  | x :: xs => size x + sizeItems xs

def sizeMembers : List (Text × Doc ν) → ℕ
  | [] => 0
  | (_, x) :: ms => size x + sizeMembers ms

end

def weight (ms : List (Text × Doc ν)) : ℕ := (ms.map fun m => size m.2).sum

theorem sizeItems_eq (xs : List (Doc ν)) : sizeItems xs = (xs.map size).sum := by
  induction xs with
  | nil => rfl
  | cons x xs ih => rw [sizeItems, ih, map_cons, sum_cons]

theorem sizeMembers_eq (ms : List (Text × Doc ν)) : sizeMembers ms = weight ms := by
  induction ms with
  | nil => rfl
  | cons m ms ih => rw [sizeMembers, ih, weight, weight, map_cons, sum_cons]

theorem size_arr {xs : List (Doc ν)} (h : ¬ xs.isEmpty = true) : size (.arr xs) = (xs.map size).sum := by
  rw [size, if_neg h, sizeItems_eq]

theorem size_obj {ms : List (Text × Doc ν)} (h : ¬ ms.isEmpty = true) : size (.obj ms) = weight ms := by
  rw [size, if_neg h, sizeMembers_eq]

theorem length_leafs (p : Text) (d : Doc ν) : (leafs p d).length = size d := by
  induction d using Doc.induct generalizing p with
  | arr xs ih =>
    by_cases h : xs.isEmpty = true
    · rw [leafs, size, if_pos h, if_pos h]
      rfl
    · have hsizes : (xs.zipIdx 0).map (fun x => (leafs (sub p (index x.2)) x.1).length) = xs.map size := by
        conv_rhs => rw [← zipIdx_map_fst 0 xs, map_map]
        exact map_congr_left fun x hx => ih x.1 (fst_mem_of_mem_zipIdx hx) _
      rw [leafs_arr p h, size_arr h, length_flatMap, hsizes]
  | obj ms ih =>
    by_cases h : ms.isEmpty = true
    · rw [leafs, size, if_pos h, if_pos h]
      rfl
    · rw [leafs_obj p h, size_obj h, length_flatMap, weight]
      exact congrArg List.sum (map_congr_left fun m hm => ih m hm _)
  | _ => rfl

theorem size_pos (d : Doc ν) : 1 ≤ size d := by
  induction d using Doc.induct with
  | arr xs ih =>
    cases xs with
    | nil => exact le_rfl
    | cons x xs =>
      have hx := ih x mem_cons_self
      rw [size, if_neg (by simp), sizeItems]
      omega
  | obj ms ih =>
    cases ms with
    | nil => exact le_rfl
    | cons m ms =>
      have hm := ih m mem_cons_self
      rw [size, if_neg (by simp), sizeMembers]
      omega
  | _ => exact le_rfl

theorem weight_cons (m : Text × Doc ν) (ms : List (Text × Doc ν)) : weight (m :: ms) = size m.2 + weight ms := by
  rw [weight, weight, map_cons, sum_cons]

theorem weight_append (ms ns : List (Text × Doc ν)) : weight (ms ++ ns) = weight ms + weight ns := by
  rw [weight, weight, weight, map_append, sum_append]

/-- A value that is put in the place of another is one more, and one less. -/
theorem weight_replace {acc : List (Text × Doc ν)} {m : Text × Doc ν} (h : (acc.map Prod.fst).Nodup)
    (hm : m.1 ∈ acc.map Prod.fst) :
    weight (acc.map fun x => if x.1 = m.1 then m else x) + 1 ≤ weight acc + size m.2 := by
  induction acc with
  | nil => exact absurd hm not_mem_nil
  | cons a acc ih =>
    rw [map_cons, nodup_cons] at h
    rw [map_cons, weight_cons, weight_cons]
    by_cases ha : a.1 = m.1
    · have hkeep : ∀ x ∈ acc, (if x.1 = m.1 then m else x) = x := fun x hx => if_neg fun heq =>
        h.1 (by rw [ha, ← heq]; exact mem_map_of_mem hx)
      have hrest : (acc.map fun x => if x.1 = m.1 then m else x) = acc :=
        (map_congr_left hkeep).trans (map_id' acc)
      have hpos := size_pos a.2
      rw [if_pos ha, hrest]
      omega
    · have hin : m.1 ∈ acc.map Prod.fst := (mem_cons.mp hm).resolve_left fun h => ha h.symm
      have hrest := ih h.2 hin
      rw [if_neg ha]
      omega

theorem keys_put (acc : List (Text × α)) (m : Text × α) :
    (put acc m).map Prod.fst = if m.1 ∈ acc.map Prod.fst then acc.map Prod.fst else acc.map Prod.fst ++ [m.1] := by
  split_ifs with hm
  · rw [put_of_mem hm, map_map]
    refine map_congr_left fun x _ => ?_
    show (if x.1 = m.1 then m else x).1 = x.1
    split_ifs with h
    · exact h.symm
    · rfl
  · rw [put_of_notMem hm, map_append, map_singleton]

theorem nodup_put {acc : List (Text × α)} {m : Text × α} (h : (acc.map Prod.fst).Nodup) :
    ((put acc m).map Prod.fst).Nodup := by
  rw [keys_put]
  split_ifs with hm
  · exact h
  · exact nodup_append'.mpr ⟨h, nodup_singleton _, disjoint_singleton.mpr hm⟩

/-- Members that are set one after the other have no more leaves, and as many only if no key is there twice. -/
theorem weight_foldl_put {acc ms : List (Text × Doc ν)} (h : (acc.map Prod.fst).Nodup) :
    weight (ms.foldl put acc) ≤ weight acc + weight ms ∧
      (weight (ms.foldl put acc) = weight acc + weight ms → ((acc ++ ms).map Prod.fst).Nodup) := by
  induction ms generalizing acc with
  | nil =>
    rw [foldl_nil, append_nil]
    exact ⟨Nat.le_add_right _ _, fun _ => h⟩
  | cons m ms ih =>
    have hrest := @ih (put acc m) (nodup_put h)
    rw [foldl_cons, weight_cons]
    by_cases hm : m.1 ∈ acc.map Prod.fst
    · have hreplace := weight_replace h hm
      have hput : put acc m = acc.map fun x => if x.1 = m.1 then m else x := put_of_mem hm
      rw [hput] at hrest ⊢
      exact ⟨by omega, fun heq => by omega⟩
    · have hput : put acc m = acc ++ [m] := put_of_notMem hm
      have hweight : weight (put acc m) = weight acc + size m.2 := by
        rw [hput, weight_append, weight_cons]
        rfl
      refine ⟨by omega, fun heq => ?_⟩
      have hnodup := hrest.2 (by omega)
      rwa [hput, append_assoc, singleton_append] at hnodup

theorem sum_le_of_le {f g : α → ℕ} {l : List α} (h : ∀ x ∈ l, f x ≤ g x) :
    (l.map f).sum ≤ (l.map g).sum ∧ ((l.map f).sum = (l.map g).sum → ∀ x ∈ l, f x = g x) := by
  induction l with
  | nil => exact ⟨le_rfl, fun _ x hx => absurd hx not_mem_nil⟩
  | cons a l ih =>
    have ha := h a mem_cons_self
    have hl := ih fun x hx => h x (mem_cons_of_mem a hx)
    rw [map_cons, map_cons, sum_cons, sum_cons]
    refine ⟨by omega, fun heq => forall_mem_cons.mpr ⟨by omega, hl.2 (by omega)⟩⟩

theorem merge_ne_nil {ms : List (Text × α)} (h : ms ≠ []) : merge ms ≠ [] := by
  have hput : ∀ (acc : List (Text × α)) m, put acc m ≠ [] := by
    intro acc m hnil
    have hkeys := congrArg (List.map Prod.fst) hnil
    rw [keys_put, map_nil] at hkeys
    split_ifs at hkeys with hm
    · rw [hkeys] at hm
      exact not_mem_nil hm
    · exact append_ne_nil_of_right_ne_nil _ (cons_ne_nil _ _) hkeys
  have hfold : ∀ (ms acc : List (Text × α)), acc ≠ [] → ms.foldl put acc ≠ [] := by
    intro ms
    induction ms with
    | nil => exact fun acc hacc => hacc
    | cons m ms ih => exact fun acc _ => ih _ (hput acc m)
  cases ms with
  | nil => exact absurd rfl h
  | cons m ms => exact hfold ms _ (hput [] m)

/-- An object that is read into a dictionary has no more leaves, and as many only if no key is there twice. -/
theorem size_decode_merge (number : ν → μ) (d : Doc ν) :
    size (decode number merge d) ≤ size d ∧ (size (decode number merge d) = size d → Distinct d) := by
  induction d using Doc.induct with
  | arr xs ih =>
    rw [decode_arr, Distinct, distinctItems_iff]
    by_cases h : xs.isEmpty = true
    · rw [List.isEmpty_iff.mp h]
      exact ⟨le_rfl, fun _ x hx => absurd hx not_mem_nil⟩
    · have hmap : ¬ (xs.map (decode number merge)).isEmpty = true := by rwa [isEmpty_map]
      have hsum := sum_le_of_le fun x hx => (ih x hx).1
      rw [size_arr h, size_arr hmap, map_map]
      exact ⟨hsum.1, fun heq x hx => (ih x hx).2 (hsum.2 heq x hx)⟩
  | obj ms ih =>
    rw [decode_obj, Distinct, distinctMembers_iff]
    by_cases h : ms.isEmpty = true
    · rw [List.isEmpty_iff.mp h]
      exact ⟨le_rfl, fun _ => ⟨nodup_nil, fun x hx => absurd hx not_mem_nil⟩⟩
    · have hne : ms.map (Prod.map id (decode number merge)) ≠ [] := by
        rw [Ne, map_eq_nil_iff]
        exact isEmpty_ne_nil h
      have hmerge : ¬ (merge (ms.map (Prod.map id (decode number merge)))).isEmpty = true := fun hnil =>
        merge_ne_nil hne (List.isEmpty_iff.mp hnil)
      have hput := @weight_foldl_put _ [] (ms.map (Prod.map id (decode number merge))) nodup_nil
      have hsum := sum_le_of_le fun m hm => (ih m hm).1
      have hweight : weight (ms.map (Prod.map id (decode number merge))) =
          (ms.map fun m => size (decode number merge m.2)).sum := by
        rw [weight, map_map]
        rfl
      rw [size_obj h, size_obj hmerge, merge]
      rw [show weight ([] : List (Text × Doc μ)) = 0 from rfl, Nat.zero_add, nil_append, fst_map_members, hweight] at hput
      have hle : (ms.map fun m => size (decode number merge m.2)).sum ≤ weight ms := hsum.1
      refine ⟨hput.1.trans hle, fun heq => ⟨hput.2 (by omega), fun m hm => (ih m hm).2 (hsum.2 ?_ m hm)⟩⟩
      show _ = weight ms
      omega
  | _ => exact ⟨le_rfl, fun _ => trivial⟩

/-! ## What decoding leaves as it is -/

theorem nestingItems_le {xs : List (Doc ν)} {n : ℕ} (h : ∀ x ∈ xs, nesting x ≤ n) : nestingItems xs ≤ n := by
  induction xs with
  | nil => exact Nat.zero_le n
  | cons x xs ih =>
    rw [forall_mem_cons] at h
    exact max_le h.1 (ih h.2)

theorem nestingMembers_le {ms : List (Text × Doc ν)} {n : ℕ} (h : ∀ m ∈ ms, nesting m.2 ≤ n) : nestingMembers ms ≤ n := by
  induction ms with
  | nil => exact Nat.zero_le n
  | cons m ms ih =>
    rw [forall_mem_cons] at h
    exact max_le h.1 (ih h.2)

theorem nesting_decode_le {number : ν → μ} {fields : List (Text × Doc μ) → List (Text × Doc μ)}
    (hfields : ∀ ms, ∀ m ∈ fields ms, m ∈ ms) (d : Doc ν) : nesting (decode number fields d) ≤ nesting d := by
  induction d using Doc.induct with
  | arr xs ih =>
    rw [decode_arr, nesting, nesting]
    refine Nat.succ_le_succ (nestingItems_le fun y hy => ?_)
    obtain ⟨x, hx, rfl⟩ := mem_map.mp hy
    exact (ih x hx).trans (nesting_le_items hx)
  | obj ms ih =>
    rw [decode_obj, nesting, nesting]
    refine Nat.succ_le_succ (nestingMembers_le fun y hy => ?_)
    obtain ⟨m, hm, rfl⟩ := mem_map.mp (hfields _ y hy)
    exact (ih m hm).trans (nesting_le_members hm)
  | _ => exact le_rfl

theorem mem_of_mem_foldl_put {ms acc : List (Text × α)} {x : Text × α} (h : x ∈ ms.foldl put acc) :
    x ∈ acc ∨ x ∈ ms := by
  induction ms generalizing acc with
  | nil => exact Or.inl h
  | cons m ms ih =>
    rcases ih h with hacc | hms
    · rw [put] at hacc
      split_ifs at hacc
      · obtain ⟨y, hy, rfl⟩ := mem_map.mp hacc
        by_cases hkey : y.1 = m.1
        · rw [if_pos hkey]
          exact Or.inr mem_cons_self
        · rw [if_neg hkey]
          exact Or.inl hy
      · rcases mem_append.mp hacc with hacc | hnew
        · exact Or.inl hacc
        · rw [mem_singleton.mp hnew]
          exact Or.inr mem_cons_self
    · exact Or.inr (mem_cons_of_mem m hms)

theorem mem_of_mem_merge {ms : List (Text × α)} {x : Text × α} (h : x ∈ merge ms) : x ∈ ms :=
  (mem_of_mem_foldl_put h).resolve_left not_mem_nil

theorem perm_ownKeys (ms : List (Text × α)) : (ownKeys ms).Perm ms :=
  ((perm_insertionSort _ _).append_right _).trans (filter_append_perm isIndex ms)

def Leaf.map (f : ν → μ) : Leaf ν → Leaf μ
  | .null => .null
  | .bool b => .bool b
  | .number n => .number (f n)
  | .str s => .str s
  | .emptyArr => .emptyArr
  | .emptyObj => .emptyObj

theorem Leaf.text_map (f : ν → μ) (number : μ → Text) (leaf : Leaf ν) :
    (leaf.map f).text number = leaf.text fun n => number (f n) := by
  cases leaf <;> rfl

theorem leafs_decode_id (number : ν → μ) (d : Doc ν) (p : Text) :
    leafs p (decode number id d) = (leafs p d).map fun x => (x.1, x.2.map number) := by
  induction d using Doc.induct generalizing p with
  | arr xs ih =>
    rw [decode_arr]
    by_cases h : xs.isEmpty = true
    · rw [List.isEmpty_iff.mp h]
      rfl
    · have hmap : ¬ (xs.map (decode number id)).isEmpty = true := by rwa [isEmpty_map]
      rw [leafs_arr p h, leafs_arr p hmap, zipIdx_map, flatMap_map, map_flatMap]
      exact flatMap_congr fun x hx => ih x.1 (fst_mem_of_mem_zipIdx hx) _
  | obj ms ih =>
    rw [decode_obj, id_eq]
    by_cases h : ms.isEmpty = true
    · rw [List.isEmpty_iff.mp h]
      rfl
    · have hmap : ¬ (ms.map (Prod.map id (decode number id))).isEmpty = true := by rwa [isEmpty_map]
      rw [leafs_obj p h, leafs_obj p hmap, flatMap_map, map_flatMap]
      exact flatMap_congr fun m hm => ih m hm _
  | _ => rfl

/-! ## The order of JavaScript -/

/-- A document with the members of its objects in the order of JavaScript. -/
def arranged (d : Doc ν) : Doc ν := decode id ownKeys d

theorem ownKeys_map (f : α → β) (ms : List (Text × α)) :
    ownKeys (ms.map (Prod.map id f)) = (ownKeys ms).map (Prod.map id f) := by
  have hindex : ∀ ns : List (Text × α), (ns.map (Prod.map id f)).filter isIndex = (ns.filter isIndex).map (Prod.map id f) :=
    fun ns => filter_map
  have hother : (ms.map (Prod.map id f)).filter (fun m => !isIndex m) = (ms.filter fun m => !isIndex m).map (Prod.map id f) :=
    filter_map
  rw [ownKeys, ownKeys, hindex, hother, map_append]
  congr 1
  exact (map_insertionSort (fun a b : Text × α => (arrayIndex a.1).getD 0 ≤ (arrayIndex b.1).getD 0)
    (fun a b : Text × β => (arrayIndex a.1).getD 0 ≤ (arrayIndex b.1).getD 0) (Prod.map id f) _
    fun a _ b _ => Iff.rfl).symm

theorem decode_ownKeys (number : ν → μ) (d : Doc ν) : decode number ownKeys d = decode number id (arranged d) := by
  induction d using Doc.induct with
  | arr xs ih =>
    rw [arranged, decode_arr, decode_arr, decode_arr, map_map]
    exact congrArg Doc.arr (map_congr_left fun x hx => ih x hx)
  | obj ms ih =>
    rw [arranged, decode_obj, decode_obj, decode_obj, id_eq, ← ownKeys_map, map_map]
    exact congrArg Doc.obj (congrArg ownKeys (map_congr_left fun m hm => Prod.ext rfl (ih m hm)))
  | _ => rfl

theorem perm_leafs_arranged (d : Doc ν) (p : Text) : (leafs p (arranged d)).Perm (leafs p d) := by
  induction d using Doc.induct generalizing p with
  | arr xs ih =>
    rw [arranged, decode_arr]
    by_cases h : xs.isEmpty = true
    · rw [List.isEmpty_iff.mp h]
      exact List.Perm.refl _
    · have hmap : ¬ (xs.map (decode id ownKeys)).isEmpty = true := by rwa [isEmpty_map]
      rw [leafs_arr p h, leafs_arr p hmap, zipIdx_map, flatMap_map]
      exact List.Perm.flatMap_left _ fun x hx => ih x.1 (fst_mem_of_mem_zipIdx hx) _
  | obj ms ih =>
    rw [arranged, decode_obj]
    by_cases h : ms.isEmpty = true
    · rw [List.isEmpty_iff.mp h]
      exact List.Perm.refl _
    · have hperm := perm_ownKeys (ms.map (Prod.map id (decode id ownKeys)))
      have hmap : ¬ (ownKeys (ms.map (Prod.map id (decode id ownKeys)))).isEmpty = true := by
        rw [hperm.isEmpty_eq, isEmpty_map]
        exact h
      rw [leafs_obj p h, leafs_obj p hmap]
      refine (hperm.flatMap_right _).trans ?_
      rw [flatMap_map]
      exact List.Perm.flatMap_left _ fun m hm => ih m hm _
  | _ => exact List.Perm.refl _

end PtaasBench.JsonLeaves
