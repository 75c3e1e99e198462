import PtaasBench.Js.Objects
import PtaasBench.Lib.Effects
import PtaasBench.Sdk.JsonDoc

/-!
# PtaasBench.Shopfront.MergeWatch — a merge and the base prototype (`lib/merge.js`)

The merge goes down the live prototype chain, so a source that names `__proto__` can write on `Object.prototype`.
The watch around it compares the names there before and after.

It is a comparison of names.  A name that was there before is not looked at again, so that a value written over is not
noticed, and what a merge that raises has written is not looked at either.
-/

namespace PtaasBench.Shopfront.MergeWatch

open Js Lib Py JsonLeaves

/-- A program over the objects of the process. -/
abbrev Script (α : Type) := Program Heap Raised α

/-! ## Operations -/

/-- `object[key]` -/
def getAt (r : ℕ) (key : Text) : Script Value := Program.step fun h => (h.get r key, h)

/-- `object[key] = value` -/
def setAt (r : ℕ) (key : Text) (value : Value) : Script Unit :=
  ExceptT.mk fun h =>
    match h.set r key value with
    | .ok h' => (.ok (), h')
    | .error e => (.error e, h)

def newObject (o : Object) : Script ℕ := Program.step fun h => h.alloc o

/-- `{}` -/
def emptyObject : Script ℕ := do
  let h ← Program.step fun h : Heap => (h.base, h)
  newObject { proto := some h }

/-- `isPlainObject` -/
def isPlain (h : Heap) : Value → Bool
  | .object r => (h.objects[r]?.map Object.kind) = some .ordinary
  | _ => false

mutual

/-- A value that was parsed, as an object of the process. -/
def parsed : Doc ℚ → Script Value
  | .null => pure .null
  | .bool b => pure (.bool b)
  | .number n => pure (.number n)
  | .str s => pure (.string s)
  | .arr items => do
    let props ← parsedItems 0 items
    let proto ← Program.step fun h : Heap => (h.arrayBase, h)
    let r ← newObject { kind := .array, proto := some proto, props := props }
    return .object r
  | .obj members => do
    let props ← parsedMembers members
    let proto ← Program.step fun h : Heap => (h.base, h)
    let r ← newObject { proto := some proto, props := props }
    return .object r

def parsedItems (i : ℕ) : List (Doc ℚ) → Script (Dict Text Value)
  | [] => pure (Dict.empty.set (ofString "length") (.number i))
  | item :: items => do
    let value ← parsed item
    let props ← parsedItems (i + 1) items
    return props.set (ofString (toString i)) value

def parsedMembers : List (Text × Doc ℚ) → Script (Dict Text Value)
  | [] => pure Dict.empty
  | (key, v) :: members => do
    let value ← parsed v
    let props ← parsedMembers members
    return props.set key value

end

def isObject : Doc ℚ → Bool
  | .obj _ => true
  | _ => false

mutual

/-- `deepMerge`, where the members of an object come in the order of `Object.keys` -/
def deepMerge (target : ℕ) : Doc ℚ → Script Unit
  | .obj members => mergeMembers target members
  | _ => pure ()

def mergeMembers (target : ℕ) : List (Text × Doc ℚ) → Script Unit
  | [] => pure ()
  | (key, incoming) :: members => do
    if isObject incoming then
      let value ← getAt target key
      let plain ← Program.step fun h : Heap => (isPlain h value, h)
      -- an array or a number in the way gives place; the base prototype is plain, and is merged into
      if !plain then
        let empty ← emptyObject
        setAt target key (.object empty)
      match ← getAt target key with
      | .object child => deepMerge child incoming
      | _ => throw .typeError
    else
      let value ← parsed incoming
      setAt target key value
    mergeMembers target members

end

/-- `baseObjectDrift`, where `baseline` is what the base prototype had at boot -/
def baseObjectDrift (baseline : List Text) (h : Heap) : List Text := h.baseNames.filter fun key => !baseline.contains key

/-- The keys that a fresh object answers to. -/
def confirmed (added : List Text) : Script (List Text) :=
  if added = [] then return []
  else do
    let witness ← emptyObject
    Program.step fun h => (added.filter fun key => h.get witness key ≠ .undefined, h)

/-- `mergeWatched`: the keys it reports -/
def mergeWatched (baseline : List Text) (target : ℕ) (source : Doc ℚ) : Script (List Text) := do
  let before ← Program.step fun h => (baseObjectDrift baseline h, h)
  deepMerge target source
  let drift ← Program.step fun h => (baseObjectDrift baseline h, h)
  confirmed (drift.filter fun key => !before.contains key)

/-! ## What the watch reports -/

section Watch

variable (baseline : List Text) (target : ℕ) (source : Doc ℚ) (heap : Heap)

/-- The keys that are on the base prototype after the merge only. -/
def added : List Text :=
  (baseObjectDrift baseline ((deepMerge target source).after heap)).filter fun key =>
    !(baseObjectDrift baseline heap).contains key

variable {baseline target source heap}

theorem mem_added_iff {key : Text} :
    key ∈ added baseline target source heap ↔
      key ∉ baseline ∧ key ∉ heap.baseNames ∧ key ∈ ((deepMerge target source).after heap).baseNames := by
  have hkept (names : List Text) : (!names.contains key) = true ↔ key ∉ names := by
    rw [Bool.not_eq_true', List.contains_eq_mem, decide_eq_false_iff_not]
  rw [added, baseObjectDrift, baseObjectDrift, List.mem_filter, List.mem_filter, hkept, hkept, List.mem_filter, hkept]
  constructor
  · rintro ⟨⟨hafter, hboot⟩, hbefore⟩
    exact ⟨hboot, fun h => hbefore ⟨h, hboot⟩, hafter⟩
  · rintro ⟨hboot, hbefore, hafter⟩
    exact ⟨⟨hafter, hboot⟩, fun h => hbefore h.1⟩

theorem confirmed_result (added : List Text) (h : Heap) :
    (confirmed added).result h = .ok (added.filter fun key => h.answers key ≠ .undefined) := by
  rw [confirmed]
  split_ifs with hempty
  · rw [hempty]
    rfl
  · rfl

theorem confirmed_answers (added : List Text) (h : Heap) (key : Text) :
    ((confirmed added).after h).answers key = h.answers key := by
  rw [confirmed]
  split_ifs with hempty
  · rfl
  · exact h.answers_alloc _ key

theorem mergeWatched_eq : mergeWatched baseline target source =
    (Program.step fun h => (baseObjectDrift baseline h, h)) >>= fun before =>
      deepMerge target source >>= fun _ =>
        (Program.step fun h => (baseObjectDrift baseline h, h)) >>= fun drift =>
          confirmed (drift.filter fun key => !before.contains key) := rfl

/-- What the watch comes to once the merge has returned. -/
theorem mergeWatched_result (h : (deepMerge target source).result heap = .ok ()) :
    (mergeWatched baseline target source).result heap =
      (confirmed (added baseline target source heap)).result ((deepMerge target source).after heap) := by
  rw [mergeWatched_eq]
  refine (Program.result_bind_ok rfl).trans ?_
  exact (Program.result_bind_ok h).trans (Program.result_bind_ok rfl)

theorem mergeWatched_after (h : (deepMerge target source).result heap = .ok ()) :
    (mergeWatched baseline target source).after heap =
      (confirmed (added baseline target source heap)).after ((deepMerge target source).after heap) := by
  rw [mergeWatched_eq]
  refine (Program.after_bind_ok rfl).trans ?_
  exact (Program.after_bind_ok h).trans (Program.after_bind_ok rfl)

/-- A merge that raises is not reported. -/
theorem mergeWatched_of_error {e : Raised} (h : (deepMerge target source).result heap = .error e) :
    (mergeWatched baseline target source).result heap = .error e := by
  rw [mergeWatched_eq]
  exact (Program.result_bind_ok rfl).trans (Program.result_bind_error h)

/-- The watch reports the keys that the base prototype had neither at boot nor before the merge, and that a fresh
object answers to in another way. -/
theorem reported_iff {reported : List Text} (h : (mergeWatched baseline target source).result heap = .ok reported)
    (key : Text) :
    key ∈ reported ↔ key ∉ baseline ∧ key ∉ heap.baseNames ∧
      ((mergeWatched baseline target source).after heap).answers key ≠ heap.answers key := by
  cases hmerge : (deepMerge target source).result heap with
  | error e =>
    rw [mergeWatched_of_error hmerge] at h
    cases h
  | ok _ =>
    rw [mergeWatched_result hmerge, confirmed_result] at h
    rw [mergeWatched_after hmerge, confirmed_answers, ← Except.ok.inj h, List.mem_filter, mem_added_iff, decide_eq_true_iff]
    constructor
    · rintro ⟨⟨hboot, hbefore, -⟩, hanswers⟩
      rw [heap.answers_of_notMem hbefore]
      exact ⟨hboot, hbefore, hanswers⟩
    · rintro ⟨hboot, hbefore, hanswers⟩
      rw [heap.answers_of_notMem hbefore] at hanswers
      refine ⟨⟨hboot, hbefore, ?_⟩, hanswers⟩
      by_contra hafter
      exact hanswers (((deepMerge target source).after heap).answers_of_notMem hafter)

end Watch

/-! ## One process -/

def probe : Text := ofString "probe"

/-- A process whose base prototype has one name, and a basket. -/
def shop : Heap where
  objects := [{ proto := none, props := Dict.empty.set probe (.number 1) }, { kind := .array, proto := some 0 },
    { proto := some 0 }]
  base := 0
  arrayBase := 1
  base_lt := Nat.succ_pos _

/-- `{"__proto__": {key: 2}}` -/
def through (key : Text) : Doc ℚ := .obj [(protoName, .obj [(key, .number 2)])]

theorem reported_iff_other :
    let reported := [ofString "other"]
    (mergeWatched shop.baseNames 2 (through (ofString "other"))).result shop = .ok reported ∧
      ∀ key, key ∈ reported ↔ key ∉ shop.baseNames ∧ key ∉ shop.baseNames ∧
        ((mergeWatched shop.baseNames 2 (through (ofString "other"))).after shop).answers key ≠ shop.answers key :=
  ⟨rfl, reported_iff rfl⟩

/-- A name of the base prototype that is written over is not reported. -/
theorem written_over_unreported :
    (mergeWatched shop.baseNames 2 (through probe)).result shop = .ok [] ∧
      ((mergeWatched shop.baseNames 2 (through probe)).after shop).answers probe ≠ shop.answers probe :=
  ⟨rfl, by decide +kernel⟩

end PtaasBench.Shopfront.MergeWatch
