import Mathlib.Data.Rat.Defs
import PtaasBench.Js.Text
import PtaasBench.Py.Dict

/-!
# PtaasBench.Js.Objects — objects and their prototypes

A heap of objects with data properties.  Every chain of prototypes that reaches `Object.prototype` ends there, and
the one accessor is its `__proto__`, which reads and sets the prototype of the object it is asked on.
-/

namespace PtaasBench.Js

open Py (Dict)

/-! ## Values -/

inductive Value where
  | undefined
  | null
  | bool (b : Bool)
  | number (n : ℚ)
  | string (s : Text)
  | object (ref : ℕ)
deriving DecidableEq

/-- What `typeof` and `Array.isArray` tell of an object. -/
inductive Kind where
  | ordinary
  | array
  | function
deriving DecidableEq

structure Object where
  kind : Kind := .ordinary
  proto : Option ℕ
  props : Dict Text Value := Dict.empty

structure Heap where
  objects : List Object
  /-- `Object.prototype` -/
  base : ℕ
  /-- `Array.prototype` -/
  arrayBase : ℕ
  base_lt : base < objects.length

/-- A `TypeError` -/
inductive Raised where
  | typeError

def protoName : Text := ofString "__proto__"

/-- Where a property is found. -/
inductive Found where
  | absent
  | data (value : Value)
  | accessor

namespace Heap

variable (h : Heap)

/-! ## Reading -/

/-- The prototype of an object; that of `Object.prototype` is `null` for good. -/
def protoOf (r : ℕ) : Option ℕ := if r = h.base then none else h.objects[r]?.bind Object.proto

/-- An own data property. -/
def own (r : ℕ) (key : Text) : Option Value := h.objects[r]?.bind fun o => o.props.get? key

/-- The walk along the prototypes. -/
def find (key : Text) : ℕ → ℕ → Found
  | 0, _ => .absent
  | fuel + 1, r =>
    if r = h.base ∧ key = protoName then .accessor
    else
      match h.own r key with
      | some value => .data value
      | none =>
        match h.protoOf r with
        | none => .absent
        | some proto => find key fuel proto

/-- No chain is longer than there are objects. -/
def lookup (r : ℕ) (key : Text) : Found := h.find key (h.objects.length + 1) r

/-- `object[key]` -/
def get (r : ℕ) (key : Text) : Value :=
  match h.lookup r key with
  | .absent => .undefined
  | .data value => value
  | .accessor => ((h.protoOf r).map Value.object).getD .null

/-- `Object.getOwnPropertyNames(Object.prototype)` -/
def baseNames : List Text := protoName :: ((h.objects[h.base]?).map fun o => o.props.keys).getD []

/-! ## Writing -/

def modify (r : ℕ) (f : Object → Object) : Heap where
  objects := h.objects.modify r f
  base := h.base
  arrayBase := h.arrayBase
  base_lt := by
    rw [List.length_modify]
    exact h.base_lt

/-- A new object, and the heap that has it. -/
def alloc (o : Object) : ℕ × Heap :=
  (h.objects.length,
    { objects := h.objects ++ [o]
      base := h.base
      arrayBase := h.arrayBase
      base_lt := by
        rw [List.length_append]
        exact Nat.lt_add_right _ h.base_lt })

/-- Does a chain of prototypes come by an object? -/
def reaches (r : ℕ) : ℕ → ℕ → Bool
  | 0, _ => false
  | fuel + 1, p =>
    p = r ||
      match h.protoOf p with
      | none => false
      | some proto => reaches r fuel proto

/-- `Object.setPrototypeOf`, where the prototype of `Object.prototype` cannot be set and no chain comes round -/
def setProto (r : ℕ) (proto : Option ℕ) : Except Raised Heap :=
  if h.protoOf r = proto then .ok h
  else if r = h.base then .error .typeError
  else if proto.any (h.reaches r (h.objects.length + 1)) then .error .typeError
  else .ok (h.modify r fun o => { o with proto := proto })

/-- `object[key] = value` -/
def set (r : ℕ) (key : Text) (value : Value) : Except Raised Heap :=
  match h.lookup r key with
  | .accessor =>
    match value with
    | .object proto => h.setProto r (some proto)
    | .null => h.setProto r none
    | _ => .ok h
  | _ => .ok (h.modify r fun o => { o with props := o.props.set key value })

end Heap

/-! ## A fresh object -/

/-- What an object that has nothing of its own answers to a key: `{}[key]` -/
def Heap.answers (h : Heap) (key : Text) : Value :=
  (h.alloc { proto := some h.base }).2.get (h.alloc { proto := some h.base }).1 key

section Answers

variable (h : Heap)

theorem Heap.own_alloc {r : ℕ} (o : Object) (hr : r < h.objects.length) (key : Text) :
    (h.alloc o).2.own r key = h.own r key := by
  rw [own, own, alloc]
  dsimp only
  rw [List.getElem?_append_left hr]

theorem Heap.own_new (o : Object) (key : Text) : (h.alloc o).2.own h.objects.length key = o.props.get? key := by
  rw [own, alloc]
  dsimp only
  rw [List.getElem?_concat_length]
  rfl

theorem Heap.protoOf_new (o : Object) : (h.alloc o).2.protoOf h.objects.length = o.proto := by
  rw [protoOf, alloc]
  dsimp only
  rw [if_neg h.base_lt.ne', List.getElem?_concat_length]
  rfl

theorem Heap.protoOf_base : h.protoOf h.base = none := if_pos rfl

theorem Heap.find_base (fuel : ℕ) (key : Text) :
    h.find key (fuel + 1) h.base =
      if key = protoName then .accessor else ((h.own h.base key).map Found.data).getD .absent := by
  rw [find]
  by_cases hkey : key = protoName
  · rw [if_pos ⟨rfl, hkey⟩, if_pos hkey]
  · rw [if_neg fun hboth => hkey hboth.2, if_neg hkey, protoOf_base]
    cases h.own h.base key with
    | none => rfl
    | some value => rfl

/-- A fresh object has the properties of `Object.prototype`. -/
theorem Heap.answers_eq (key : Text) :
    h.answers key = if key = protoName then .object h.base else (h.own h.base key).getD .undefined := by
  have hnew : (h.alloc { proto := some h.base }).1 = h.objects.length := rfl
  have hlength : (h.alloc { proto := some h.base }).2.objects.length = h.objects.length + 1 := List.length_append
  have hlookup : (h.alloc { proto := some h.base }).2.lookup h.objects.length key =
      if key = protoName then .accessor else ((h.own h.base key).map Found.data).getD .absent := by
    rw [lookup, hlength, find, if_neg fun hboth => h.base_lt.ne' hboth.1, own_new, protoOf_new]
    refine ((h.alloc { proto := some h.base }).2.find_base h.objects.length key).trans ?_
    rw [show (h.alloc { proto := some h.base }).2.own (h.alloc { proto := some h.base }).2.base key =
      h.own h.base key from h.own_alloc _ h.base_lt key]
  rw [answers, hnew, get, hlookup, protoOf_new]
  by_cases hkey : key = protoName
  · rw [if_pos hkey, if_pos hkey]
    rfl
  · rw [if_neg hkey, if_neg hkey]
    cases h.own h.base key with
    | none => rfl
    | some value => rfl

theorem Heap.mem_baseNames {key : Text} : key ∈ h.baseNames ↔ key = protoName ∨ (h.own h.base key).isSome = true := by
  have hbase := h.base_lt
  rw [baseNames, List.mem_cons, own, List.getElem?_eq_getElem h.base_lt]
  refine or_congr_right ?_
  show key ∈ (h.objects[h.base]).props.keys ↔ _
  rw [Option.isSome_iff_ne_none, Option.bind_some, ne_eq, Dict.get?_eq_none_iff, not_not]

theorem Heap.answers_alloc (o : Object) (key : Text) : (h.alloc o).2.answers key = h.answers key := by
  have hown : (h.alloc o).2.own (h.alloc o).2.base key = h.own h.base key := h.own_alloc o h.base_lt key
  rw [answers_eq, answers_eq, hown]
  rfl

/-- A key that `Object.prototype` does not have is not answered. -/
theorem Heap.answers_of_notMem {key : Text} (hkey : key ∉ h.baseNames) : h.answers key = .undefined := by
  rw [mem_baseNames, not_or, Bool.not_eq_true, Option.isSome_eq_false_iff, Option.isNone_iff_eq_none] at hkey
  rw [answers_eq, if_neg hkey.1, hkey.2]
  rfl

end Answers

end PtaasBench.Js
