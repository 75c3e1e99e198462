import Mathlib.Data.List.Dedup
import Mathlib.Data.List.Nodup
import Mathlib.Data.List.Induction
import Mathlib.Data.List.Basic

/-!
# PtaasBench.Py.Dict — insertion-ordered dictionaries

A `Dict κ ν` is the list of its items in insertion order, with no key twice.  Overwriting a key
keeps its place, as in Python.  The second half is about dictionaries filled by `setdefault` from
a list of pairs: whatever is looked up in them, by key or by scanning the items, is the first pair
of the list that fits.
-/

namespace PtaasBench.Py

open List

/-- `list(dict.fromkeys(xs))`: the first of each. -/
def fromKeys {α : Type*} [DecidableEq α] (xs : List α) : List α := xs.reverse.dedup.reverse

theorem mem_fromKeys {α : Type*} [DecidableEq α] {xs : List α} {a : α} : a ∈ fromKeys xs ↔ a ∈ xs := by
  rw [fromKeys, mem_reverse, mem_dedup, mem_reverse]

theorem nodup_fromKeys {α : Type*} [DecidableEq α] (xs : List α) : (fromKeys xs).Nodup :=
  nodup_reverse.mpr (nodup_dedup _)

/-- Items in insertion order, no key twice. -/
structure Dict (κ ν : Type*) where
  items : List (κ × ν)
  nodup : (items.map Prod.fst).Nodup

namespace Dict

variable {κ ν : Type*} [DecidableEq κ]

/-- `{}` -/
def empty : Dict κ ν := ⟨[], nodup_nil⟩

instance : Inhabited (Dict κ ν) := ⟨empty⟩

/-- `d.keys()` -/
def keys (d : Dict κ ν) : List κ := d.items.map Prod.fst

/-- `d.get(k)` -/
def get? (d : Dict κ ν) (k : κ) : Option ν := (d.items.find? (fun e => e.1 = k)).map Prod.snd

/-- `k in d` -/
def contains (d : Dict κ ν) (k : κ) : Bool := (d.get? k).isSome

/-- `d.get(k, default)` -/
def getD (d : Dict κ ν) (k : κ) (v : ν) : ν := (d.get? k).getD v

theorem get?_eq_none_iff {d : Dict κ ν} {k : κ} : d.get? k = none ↔ k ∉ d.keys := by
  rw [get?, Option.map_eq_none_iff, List.find?_eq_none, keys, mem_map]
  constructor
  · rintro h ⟨e, he, hk⟩
    exact h e he (by simpa using hk)
  · intro h e he hk
    exact h ⟨e, he, by simpa using hk⟩

/-- What is found under a key is an item. -/
theorem mem_items_of_get? {d : Dict κ ν} {k : κ} {v : ν} (h : d.get? k = some v) :
    (k, v) ∈ d.items := by
  obtain ⟨e, he, rfl⟩ := Option.map_eq_some_iff.mp h
  have hk : e.1 = k := by simpa using List.find?_some he
  rw [← hk]
  exact mem_of_find?_eq_some he

/-- `d[k] = v` -/
def set (d : Dict κ ν) (k : κ) (v : ν) : Dict κ ν :=
  if h : k ∈ d.keys then
    ⟨d.items.map (fun e => if e.1 = k then (k, v) else e), by
      have hk : (d.items.map (fun e => if e.1 = k then (k, v) else e)).map Prod.fst =
          d.items.map Prod.fst := by
        rw [map_map]
        refine map_congr_left fun e _ => ?_
        by_cases he : e.1 = k <;> simp [he]
      rw [hk]; exact d.nodup⟩
  else ⟨d.items ++ [(k, v)], by
    rw [map_append, nodup_append]
    refine ⟨d.nodup, by simp, ?_⟩
    intro a ha b hb hab
    rw [map_singleton, mem_singleton] at hb
    rw [hab, hb] at ha
    exact h ha⟩

/-- `d.setdefault(k, v)`, for its effect. -/
def setdefault (d : Dict κ ν) (k : κ) (v : ν) : Dict κ ν := if d.contains k then d else d.set k v

/-- The items for which `p` holds. -/
def filter (d : Dict κ ν) (p : κ × ν → Bool) : Dict κ ν :=
  ⟨d.items.filter p, d.nodup.sublist (filter_sublist.map _)⟩

/-- `d.pop(k, None)`, for its effect. -/
def pop (d : Dict κ ν) (k : κ) : Dict κ ν := d.filter fun e => decide (e.1 ≠ k)

theorem get?_of_mem {d : Dict κ ν} {k : κ} {v : ν} (h : (k, v) ∈ d.items) : d.get? k = some v := by
  cases hget : d.get? k with
  | none => exact absurd (mem_map_of_mem h) (get?_eq_none_iff.mp hget)
  | some w =>
    have hitems := mem_items_of_get? hget
    have heq := inj_on_of_nodup_map d.nodup hitems h rfl
    rw [(Prod.mk.inj heq).2]

/-- What is looked up under the keys is the items. -/
theorem forall_mem_keys {d : Dict κ ν} {p : κ → ν → Prop} (v : ν) :
    (∀ k ∈ d.keys, p k (d.getD k v)) ↔ ∀ item ∈ d.items, p item.1 item.2 := by
  rw [keys, forall_mem_map]
  refine forall₂_congr fun item hitem => ?_
  rw [getD, get?_of_mem (v := item.2) hitem, Option.getD_some]

/-- What a filtered dictionary has, the dictionary has. -/
theorem get?_of_filter {d : Dict κ ν} {p : κ × ν → Bool} {k : κ} {v : ν} (h : (d.filter p).get? k = some v) :
    d.get? k = some v :=
  get?_of_mem (mem_of_mem_filter (mem_items_of_get? h))

/-- Filtering by the value. -/
theorem get?_filter (d : Dict κ ν) (p : ν → Bool) (k : κ) :
    (d.filter fun e => p e.2).get? k = (d.get? k).filter p := by
  cases hget : d.get? k with
  | none =>
    rw [Option.filter_none]
    cases hf : (d.filter fun e => p e.2).get? k with
    | none => rfl
    | some v => exact absurd (get?_of_filter hf) (hget ▸ (Option.some_ne_none v).symm)
  | some v =>
    have hitem := mem_items_of_get? hget
    cases hp : p v with
    | true =>
      rw [Option.filter_some_pos hp]
      exact get?_of_mem (mem_filter.mpr ⟨hitem, hp⟩)
    | false =>
      rw [Option.filter_some_neg hp]
      cases hf : (d.filter fun e => p e.2).get? k with
      | none => rfl
      | some w =>
        obtain rfl := Option.some.inj ((get?_of_filter hf).symm.trans hget)
        exact absurd (mem_filter.mp (mem_items_of_get? hf)).2 (by rw [hp]; exact Bool.false_ne_true)

/-- A new value for every key. -/
def mapValues {ν' : Type*} (d : Dict κ ν) (f : ν → ν') : Dict κ ν' :=
  ⟨d.items.map fun e => (e.1, f e.2), by
    rw [map_map]
    exact d.nodup⟩

/-- `dict(pairs)`: later pairs win, the first occurrence of a key gives its place. -/
def ofList (ps : List (κ × ν)) : Dict κ ν := ps.foldl (fun d p => d.set p.1 p.2) empty

theorem get?_mapValues {ν' : Type*} (d : Dict κ ν) (f : ν → ν') (k : κ) :
    (d.mapValues f).get? k = (d.get? k).map f := by
  rw [get?, get?, mapValues, List.find?_map, Option.map_map, Option.map_map]
  rfl

@[simp] theorem get?_empty (k : κ) : (empty : Dict κ ν).get? k = none := rfl

theorem items_set_of_notMem {d : Dict κ ν} {k : κ} (h : k ∉ d.keys) (v : ν) :
    (d.set k v).items = d.items ++ [(k, v)] := by rw [set, dif_neg h]

theorem mem_values_set {d : Dict κ ν} {k : κ} {v w : ν} (h : w ∈ (d.set k v).items.map Prod.snd) :
    w ∈ d.items.map Prod.snd ∨ w = v := by
  obtain ⟨e, he, rfl⟩ := mem_map.mp h
  unfold set at he
  split_ifs at he with hk
  · obtain ⟨e', he', rfl⟩ := mem_map.mp he
    split_ifs
    · exact Or.inr rfl
    · exact Or.inl (mem_map.mpr ⟨e', he', rfl⟩)
  · rcases mem_append.mp he with he | he
    · exact Or.inl (mem_map.mpr ⟨e, he, rfl⟩)
    · rw [mem_singleton.mp he]
      exact Or.inr rfl

theorem mem_keys_set {d : Dict κ ν} {k k' : κ} {v : ν} (h : k' ∈ (d.set k v).keys) : k' ∈ d.keys ∨ k' = k := by
  unfold set at h
  split_ifs at h with hk
  · obtain ⟨e, he, rfl⟩ := mem_map.mp h
    obtain ⟨e', he', rfl⟩ := mem_map.mp he
    split_ifs
    · exact Or.inr rfl
    · exact Or.inl (mem_map_of_mem he')
  · rw [keys, map_append, mem_append] at h
    exact h.imp_right fun h => mem_singleton.mp h

/-- A dictionary is what it has under a key, and the rest. -/
theorem perm_pop (d : Dict κ ν) (k : κ) :
    ((d.get? k).toList ++ (d.pop k).items.map Prod.snd).Perm (d.items.map Prod.snd) := by
  obtain ⟨items, hn⟩ := d
  show (((items.find? fun e => e.1 = k).map Prod.snd).toList ++
    (items.filter fun e => decide (e.1 ≠ k)).map Prod.snd).Perm (items.map Prod.snd)
  induction items with
  | nil => simp
  | cons e items ih =>
    rw [map_cons, nodup_cons] at hn
    by_cases he : e.1 = k
    · -- the key is not there a second time
      have hrest : items.filter (fun e => decide (e.1 ≠ k)) = items := by
        refine filter_eq_self.mpr fun e' he' => decide_eq_true fun hk => hn.1 ?_
        rw [he, ← hk]
        exact mem_map.mpr ⟨e', he', rfl⟩
      rw [List.find?_cons_of_pos (by simpa using he), filter_cons_of_neg (by simpa using he), hrest]
      exact List.Perm.refl _
    · rw [List.find?_cons_of_neg (by simpa using he), filter_cons_of_pos (by simpa using he),
        map_cons, map_cons]
      exact perm_middle.trans ((ih hn.2).cons _)

theorem find?_map_overwrite (l : List (κ × ν)) (k k' : κ) (v : ν) :
    ((l.map (fun e => if e.1 = k then (k, v) else e)).find? (fun e => e.1 = k')).map Prod.snd =
      if k' = k then (if k ∈ l.map Prod.fst then some v else none)
      else (l.find? (fun e => e.1 = k')).map Prod.snd := by
  induction l with
  | nil => simp
  | cons e l ih =>
    obtain ⟨a, b⟩ := e
    by_cases ha : a = k
    · subst ha
      by_cases hk : k' = a
      · subst hk; simp
      · rw [if_neg hk] at ih ⊢
        simp only [map_cons, if_true, List.find?_cons, Ne.symm hk, decide_false, ih]
    · by_cases hk : k' = k
      · subst hk
        simp only [map_cons, ha, if_false, List.find?_cons, decide_false, ih, if_true,
          mem_cons, Ne.symm ha, false_or]
      · by_cases hak : a = k'
        · subst hak; simp [ha]
        · simp only [map_cons, ha, if_false, List.find?_cons, hak, decide_false, ih, hk]

theorem get?_set (d : Dict κ ν) (k k' : κ) (v : ν) :
    (d.set k v).get? k' = if k' = k then some v else d.get? k' := by
  unfold set
  split_ifs with h1 h2 h2
  · have := find?_map_overwrite d.items k k' v
    rw [if_pos h2, if_pos (by exact h1)] at this
    exact this
  · have := find?_map_overwrite d.items k k' v
    rw [if_neg h2] at this
    exact this
  · subst h2
    have hn : d.items.find? (fun e => e.1 = k') = none := by
      rw [List.find?_eq_none]
      intro e he hk
      exact h1 (mem_map.mpr ⟨e, he, by simpa using hk⟩)
    simp [get?, List.find?_append, hn]
  · have hk : ¬ k = k' := fun h => h2 h.symm
    simp only [get?, List.find?_append, List.find?_cons, hk, decide_false, List.find?_nil,
      Option.or_none]

@[simp] theorem get?_set_self (d : Dict κ ν) (k : κ) (v : ν) : (d.set k v).get? k = some v := by
  rw [get?_set, if_pos rfl]

theorem get?_set_of_ne (d : Dict κ ν) {k k' : κ} (v : ν) (h : k' ≠ k) :
    (d.set k v).get? k' = d.get? k' := by
  rw [get?_set, if_neg h]

theorem get?_pop (d : Dict κ ν) (k k' : κ) : (d.pop k).get? k' = if k' = k then none else d.get? k' := by
  rw [get?, pop, filter]
  dsimp only
  rw [List.find?_filter]
  split_ifs with hk
  · rw [Option.map_eq_none_iff, List.find?_eq_none]
    rintro e - he
    simp only [Bool.decide_and, Bool.and_eq_true, decide_eq_true_eq] at he
    exact he.1 (he.2.trans hk)
  · rw [get?]
    congr 2
    funext e
    by_cases he : e.1 = k'
    · simp [he, hk]
    · simp [he]

theorem getD_set (d : Dict κ ν) (k k' : κ) (v w : ν) :
    (d.set k v).getD k' w = if k' = k then v else d.getD k' w := by
  rw [getD, get?_set]
  split_ifs <;> rfl

theorem ofList_concat (ps : List (κ × ν)) (p : κ × ν) :
    ofList (ps ++ [p]) = (ofList ps).set p.1 p.2 := by
  simp [ofList, foldl_append]

/-- The values of a dictionary are values of the pairs it is built from. -/
theorem mem_values_ofList {ps : List (κ × ν)} {w : ν} (h : w ∈ (ofList ps).items.map Prod.snd) :
    w ∈ ps.map Prod.snd := by
  induction ps using List.reverseRecOn with
  | nil => exact absurd h not_mem_nil
  | append_singleton ps p ih =>
    rw [ofList_concat] at h
    rw [map_append, mem_append]
    rcases mem_values_set h with hold | rfl
    · exact Or.inl (ih hold)
    · exact Or.inr (mem_singleton.mpr rfl)

/-- A value is found under a key it was given with. -/
theorem mem_of_get?_ofList {ps : List (κ × ν)} {k : κ} {v : ν} (h : (ofList ps).get? k = some v) :
    (k, v) ∈ ps := by
  induction ps using List.reverseRecOn with
  | nil => exact absurd h (by simp [ofList, get?, empty])
  | append_singleton ps p ih =>
    rw [ofList_concat, get?_set] at h
    split_ifs at h with hk
    · rw [hk, ← Option.some.inj h]
      exact mem_append_right _ (mem_singleton.mpr rfl)
    · exact mem_append_left _ (ih h)

/-- Pairs with distinct keys are all found. -/
theorem get?_ofList_of_mem {ps : List (κ × ν)} (hn : (ps.map Prod.fst).Nodup) {k : κ} {v : ν}
    (h : (k, v) ∈ ps) : (ofList ps).get? k = some v := by
  induction ps using List.reverseRecOn with
  | nil => simp at h
  | append_singleton ps p ih =>
    rw [ofList_concat, get?_set]
    rw [map_append, nodup_append] at hn
    rcases mem_append.mp h with h | h
    · have hne : k ≠ p.1 := hn.2.2 k (mem_map.mpr ⟨_, h, rfl⟩) p.1 (by simp)
      rw [if_neg hne, ih hn.1 h]
    · rw [mem_singleton] at h
      rw [← h, if_pos rfl]

/-- Pairs with distinct keys are the items. -/
theorem items_ofList {ps : List (κ × ν)} (hn : (ps.map Prod.fst).Nodup) :
    (ofList ps).items = ps := by
  induction ps using List.reverseRecOn with
  | nil => rfl
  | append_singleton ps p ih =>
    rw [map_append, nodup_append] at hn
    have hitems := ih hn.1
    rw [ofList_concat, items_set_of_notMem, hitems]
    rw [keys, hitems]
    exact fun hmem => hn.2.2 p.1 hmem p.1 (by simp) rfl

theorem get?_setdefault_of_some {d : Dict κ ν} {a k : κ} {v w : ν}
    (h : d.get? a = some v) : (d.setdefault k w).get? a = some v := by
  rw [setdefault]
  split_ifs with hk
  · exact h
  · rw [get?_set_of_ne _ _ fun hak => ?_, h]
    rw [contains, ← hak, h] at hk
    exact hk rfl

/-! ## Dictionaries filled by `setdefault` -/

/-- `for k, v in ps: d.setdefault(k, v)` -/
def addAll (d : Dict κ ν) (ps : List (κ × ν)) : Dict κ ν :=
  ps.foldl (fun d p => d.setdefault p.1 p.2) d

theorem items_setdefault (d : Dict κ ν) (k : κ) (v : ν) :
    (d.setdefault k v).items = if k ∈ d.keys then d.items else d.items ++ [(k, v)] := by
  unfold setdefault contains
  by_cases h : k ∈ d.keys
  · have hs : (d.get? k).isSome := by
      rw [Option.isSome_iff_ne_none, Ne, get?_eq_none_iff, not_not]; exact h
    rw [if_pos hs, if_pos h]
  · have hs : d.get? k = none := get?_eq_none_iff.mpr h
    simp [hs, h, set]

/-- Scanning the items of a dictionary filled by `setdefault` for a key with some property finds
the first such pair of the list. -/
theorem find?_addAll (d : Dict κ ν) (ps : List (κ × ν)) (p : κ → Bool) :
    (d.addAll ps).items.find? (fun e => p e.1) = (d.items ++ ps).find? (fun e => p e.1) := by
  induction ps generalizing d with
  | nil => simp [addAll]
  | cons q ps ih =>
    have hstep : d.addAll (q :: ps) = (d.setdefault q.1 q.2).addAll ps := rfl
    rw [hstep, ih, items_setdefault]
    split_ifs with hk
    · -- a pair whose key is already there cannot be the first with the property
      simp only [List.find?_append]
      cases hf : d.items.find? (fun e => p e.1) with
      | some e => rfl
      | none =>
        obtain ⟨e, he, hek⟩ := mem_map.mp hk
        have hpe : p q.1 = false := by
          have := List.find?_eq_none.mp hf e he
          rw [← hek]; simpa using this
        simp [hpe]
    · rw [append_assoc, singleton_append]

theorem get?_addAll (ps : List (κ × ν)) (k : κ) :
    ((empty : Dict κ ν).addAll ps).get? k = (ps.find? (fun e => e.1 = k)).map Prod.snd := by
  have := find?_addAll (empty : Dict κ ν) ps (fun x => decide (x = k))
  rw [get?, this]; rfl

end Dict

end PtaasBench.Py
