import Mathlib.Data.Rat.Defs
import Mathlib.Algebra.Order.Ring.Rat
import Mathlib.Data.Nat.Digits.Defs
import PtaasBench.Py.Text

/-!
# PtaasBench.Py.Json — JSON values as Python holds them

Objects are lists of fields in insertion order.  A float is kept as the decimal text it is read
from and printed as (`FloatLit`), so that nothing here depends on binary rounding.
-/

namespace PtaasBench.Py

/-- The exponent part of a float literal: `e`/`E`, an optional sign, at least one digit. -/
structure Exponent where
  upper : Bool
  sign : Option Bool  -- `some true` is `-`
  first : Fin 10
  rest : List (Fin 10)
deriving DecidableEq, Repr

/-- A JSON number with a fraction or an exponent. -/
structure FloatLit where
  neg : Bool
  whole : ℕ
  frac : List (Fin 10)  -- empty: no fraction part
  exp : Option Exponent
  isFloat : frac ≠ [] ∨ exp ≠ none
deriving DecidableEq

/-- The digits of a list as a number. -/
def ofDigitList (ds : List (Fin 10)) : ℕ := ds.foldl (fun n d => 10 * n + d.val) 0

/-- The value a float literal denotes, before rounding. -/
def FloatLit.value (f : FloatLit) : ℚ :=
  let m : ℚ := f.whole + ofDigitList f.frac / 10 ^ f.frac.length
  let e : ℚ := match f.exp with
    | none => 1
    | some x =>
      let k := ofDigitList (x.first :: x.rest)
      if x.sign = some true then 1 / 10 ^ k else 10 ^ k
  (if f.neg then -1 else 1) * m * e

/-- `float(n)`, as it is written. -/
def FloatLit.ofInt (n : ℤ) : FloatLit where
  neg := n < 0
  whole := n.natAbs
  frac := [0]
  exp := none
  isFloat := Or.inl (List.cons_ne_nil _ _)

/-- JSON values; `nan` and `infinity` are what Python's codec adds to them. -/
inductive Json where
  | null
  | bool (b : Bool)
  | int (n : ℤ)
  | float (f : FloatLit)
  | nan
  | infinity (neg : Bool)
  | str (s : String)
  | arr (xs : List Json)
  | obj (fields : List (String × Json))

/-- The fields of a JSON object, in insertion order. -/
abbrev Obj := List (String × Json)

namespace Obj

/-- `d.get(k)`, `none` for a missing key. -/
def get? (o : Obj) (k : String) : Option Json := List.lookup k o

/-- `d.get(k)` as Python returns it: `None` for a missing key. -/
def get (o : Obj) (k : String) : Json := (o.get? k).getD .null

/-- `k in d` -/
def contains (o : Obj) (k : String) : Bool := (o.get? k).isSome

/-- `d[k] = v`: an existing key keeps its place. -/
def set : Obj → String → Json → Obj
  | [], k, v => [(k, v)]
  | (k', v') :: o, k, v => if k = k' then (k, v) :: o else (k', v') :: set o k v

/-- `d.setdefault(k, v)`, for its effect. -/
def setdefault (o : Obj) (k : String) (v : Json) : Obj := if o.contains k then o else o.set k v

@[simp] theorem get?_nil (k : String) : get? [] k = none := rfl

theorem get?_cons (k' : String) (v : Json) (o : Obj) (k : String) :
    get? ((k', v) :: o) k = if k = k' then some v else get? o k := by
  rw [get?, List.lookup_cons]
  by_cases h : k = k'
  · rw [if_pos h, beq_iff_eq.mpr h]
  · rw [if_neg h, beq_eq_false_iff_ne.mpr h]
    rfl

theorem mem_of_get? {o : Obj} {k : String} {v : Json} (h : o.get? k = some v) : (k, v) ∈ o := by
  obtain ⟨l₁, l₂, rfl, -⟩ := List.lookup_eq_some_iff.mp h
  exact List.mem_append_right l₁ List.mem_cons_self

theorem get?_eq_some_iff {o : Obj} (h : (o.map Prod.fst).Nodup) {k : String} {v : Json} :
    o.get? k = some v ↔ (k, v) ∈ o := by
  refine ⟨mem_of_get?, fun hmem => ?_⟩
  induction o with
  | nil => exact absurd hmem List.not_mem_nil
  | cons e o ih =>
    obtain ⟨a, b⟩ := e
    rw [List.map_cons, List.nodup_cons] at h
    rw [get?_cons]
    rcases List.mem_cons.mp hmem with heq | htail
    · rw [Prod.mk.injEq] at heq
      rw [if_pos heq.1, heq.2]
    · have hk : k ≠ a := fun hk => h.1 (List.mem_map.mpr ⟨(k, v), htail, hk⟩)
      rw [if_neg hk, ih h.2 htail]

theorem get?_set (o : Obj) (k k' : String) (v : Json) :
    (set o k v).get? k' = if k' = k then some v else o.get? k' := by
  induction o with
  | nil => simp [set, get?_cons]
  | cons e o ih =>
    obtain ⟨a, b⟩ := e
    by_cases ha : k = a
    · subst ha
      by_cases hk : k' = k <;> simp [set, get?_cons, hk]
    · by_cases hk : k' = k
      · subst hk; simp [set, get?_cons, ha, ih]
      · simp only [set, if_neg ha, get?_cons, ih, if_neg hk]

@[simp] theorem get?_set_self (o : Obj) (k : String) (v : Json) : (set o k v).get? k = some v := by
  rw [get?_set, if_pos rfl]

theorem get?_set_of_ne (o : Obj) {k k' : String} (v : Json) (h : k' ≠ k) :
    (set o k v).get? k' = o.get? k' := by
  rw [get?_set, if_neg h]

@[simp] theorem get_set_self (o : Obj) (k : String) (v : Json) : (set o k v).get k = v := by
  rw [get, get?_set_self, Option.getD_some]

theorem get_set_of_ne (o : Obj) {k k' : String} (v : Json) (h : k' ≠ k) :
    (set o k v).get k' = o.get k' := by
  rw [get, get, get?_set_of_ne o v h]

theorem get_setdefault_of_ne (o : Obj) {k k' : String} (v : Json) (h : k' ≠ k) :
    (o.setdefault k v).get k' = o.get k' := by
  unfold setdefault
  split_ifs
  · rfl
  · exact get_set_of_ne o v h

@[simp] theorem get_nil (k : String) : get [] k = .null := rfl

end Obj

namespace Json

/-- `bool(x)` -/
def truthy : Json → Bool
  | null => false
  | bool b => b
  | int n => n ≠ 0
  | float f => f.whole ≠ 0 || f.frac.any (· ≠ 0)
  | nan => true
  | infinity _ => true
  | str s => s ≠ ""
  | arr xs => !xs.isEmpty
  | obj fs => !fs.isEmpty

/-- `a or b` -/
def orElse (a b : Json) : Json := if a.truthy then a else b

/-- `isinstance(x, Mapping)` -/
def asObj? : Json → Option Obj
  | obj fs => some fs
  | _ => none

/-- A string value, if it is one. -/
def asStr? : Json → Option String
  | str s => some s
  | _ => none

/-- `isinstance(x, int)`: a `bool` is one too. -/
def asInt? : Json → Option ℤ
  | int n => some n
  | bool b => some (if b then 1 else 0)
  | _ => none

/-- A finite number. -/
def asNum? : Json → Option ℚ
  | int n => some n
  | float f => some f.value
  | _ => none

end Json

/-! ## Distinct keys -/

mutual

/-- No object inside has a key twice. -/
def Json.Distinct : Json → Prop
  | .arr xs => DistinctItems xs
  | .obj fs => (fs.map Prod.fst).Nodup ∧ DistinctFields fs
  | _ => True

def DistinctItems : List Json → Prop
  | [] => True
  | x :: xs => x.Distinct ∧ DistinctItems xs

def DistinctFields : List (String × Json) → Prop
  | [] => True
  | (_, v) :: fs => v.Distinct ∧ DistinctFields fs

end

mutual

def Json.decidableDistinct : (x : Json) → Decidable x.Distinct
  | .arr xs => decidableDistinctItems xs
  | .obj fs => @instDecidableAnd _ _ inferInstance (decidableDistinctFields fs)
  | .null | .bool _ | .int _ | .float _ | .nan | .infinity _ | .str _ => isTrue trivial

def decidableDistinctItems : (xs : List Json) → Decidable (DistinctItems xs)
  | [] => isTrue trivial
  | x :: xs => @instDecidableAnd _ _ x.decidableDistinct (decidableDistinctItems xs)

def decidableDistinctFields : (fs : List (String × Json)) → Decidable (DistinctFields fs)
  | [] => isTrue trivial
  | (_, v) :: fs => @instDecidableAnd _ _ v.decidableDistinct (decidableDistinctFields fs)

end

instance (x : Json) : Decidable x.Distinct := x.decidableDistinct

theorem distinctFields_iff {fs : List (String × Json)} :
    DistinctFields fs ↔ ∀ e ∈ fs, e.2.Distinct := by
  induction fs with
  | nil => simp [DistinctFields]
  | cons e fs ih =>
    obtain ⟨k, v⟩ := e
    simp only [DistinctFields, ih, List.forall_mem_cons]

theorem Json.distinct_str (s : String) : (Json.str s).Distinct := trivial

theorem Json.distinct_bool (b : Bool) : (Json.bool b).Distinct := trivial

theorem Json.distinct_int (n : ℤ) : (Json.int n).Distinct := trivial

theorem Json.distinct_float (f : FloatLit) : (Json.float f).Distinct := trivial

/-- A dictionary of the language: no key twice, at any depth. -/
abbrev Obj.Distinct (o : Obj) : Prop := (Json.obj o).Distinct

namespace Obj

theorem mem_set {o : Obj} {k : String} {v : Json} {e : String × Json} (he : e ∈ o.set k v) :
    e = (k, v) ∨ e ∈ o := by
  induction o with
  | nil => exact Or.inl (List.mem_singleton.mp he)
  | cons f o ih =>
    obtain ⟨a, b⟩ := f
    unfold set at he
    split_ifs at he with hk
    · exact (List.mem_cons.mp he).imp_right fun he => List.mem_cons_of_mem _ he
    · rcases List.mem_cons.mp he with he | he
      · exact Or.inr (List.mem_cons.mpr (Or.inl he))
      · exact (ih he).imp_right fun he => List.mem_cons_of_mem _ he

theorem nodup_set {o : Obj} (h : (o.map Prod.fst).Nodup) (k : String) (v : Json) :
    ((o.set k v).map Prod.fst).Nodup := by
  induction o with
  | nil => simp [set]
  | cons f o ih =>
    obtain ⟨a, b⟩ := f
    rw [List.map_cons, List.nodup_cons] at h
    unfold set
    split_ifs with hk
    · rw [List.map_cons, List.nodup_cons, hk]
      exact h
    · rw [List.map_cons, List.nodup_cons]
      refine ⟨fun hmem => ?_, ih h.2⟩
      obtain ⟨e, he, hea⟩ := List.mem_map.mp hmem
      rcases mem_set he with rfl | he
      · exact hk hea
      · exact h.1 (List.mem_map.mpr ⟨e, he, hea⟩)

/-- Writing a field keeps a dictionary one. -/
theorem Distinct.set {o : Obj} (h : o.Distinct) (k : String) {v : Json} (hv : v.Distinct) :
    (o.set k v).Distinct := by
  refine ⟨nodup_set h.1 k v, distinctFields_iff.mpr fun e he => ?_⟩
  rcases mem_set he with rfl | he
  · exact hv
  · exact distinctFields_iff.mp h.2 e he

theorem Distinct.get {o : Obj} (h : o.Distinct) (k : String) : (o.get k).Distinct := by
  unfold Obj.get
  cases hk : o.get? k with
  | none => trivial
  | some v => exact distinctFields_iff.mp h.2 _ (mem_of_get? hk)

end Obj

/-! ## `str(x)` -/

/-- The decimal digits of a number, most significant first. -/
def natDigits (n : ℕ) : List (Fin 10) :=
  if n = 0 then [0] else ((Nat.digits 10 n).map (Fin.ofNat 10)).reverse

/-- The last decimal digit of a number. -/
def digit (n : ℕ) : Fin 10 := Fin.ofNat 10 n

theorem digit_val (n : ℕ) : (digit n).val = n % 10 := rfl

/-- The character of a decimal digit. -/
def digitChar (d : Fin 10) : Char := Char.ofNat (48 + d)

/-- `int.__repr__` -/
def intText (n : ℤ) : List Char :=
  (if n < 0 then ['-'] else []) ++ (natDigits n.natAbs).map digitChar

def signText : Option Bool → List Char
  | none => []
  | some true => ['-']
  | some false => ['+']

/-- The text of an exponent. -/
def Exponent.text (x : Exponent) : List Char :=
  (if x.upper then 'E' else 'e') :: (signText x.sign ++ (x.first :: x.rest).map digitChar)

/-- The text of a float. -/
def FloatLit.text (f : FloatLit) : List Char :=
  (if f.neg then ['-'] else []) ++ (natDigits f.whole).map digitChar ++
    (if f.frac = [] then [] else '.' :: f.frac.map digitChar) ++ f.exp.elim [] Exponent.text

section Str

variable [Runtime]

mutual

/-- `repr(x)` -/
def Json.repr : Json → String
  | .null => "None"
  | .bool b => if b then "True" else "False"
  | .int n => String.ofList (intText n)
  | .float f => String.ofList f.text
  | .nan => "nan"
  | .infinity neg => if neg then "-inf" else "inf"
  | .str s => reprStr s
  | .arr xs => "[" ++ reprItems xs ++ "]"
  | .obj fs => "\x7b" ++ reprFields fs ++ "\x7d"

/-- The elements of a list, as `repr` joins them. -/
def reprItems : List Json → String
  | [] => ""
  | [x] => x.repr
  | x :: y :: xs => x.repr ++ ", " ++ reprItems (y :: xs)

/-- The fields of a dictionary, as `repr` joins them. -/
def reprFields : List (String × Json) → String
  | [] => ""
  | [(k, v)] => reprStr k ++ ": " ++ v.repr
  | (k, v) :: f :: fs => reprStr k ++ ": " ++ v.repr ++ ", " ++ reprFields (f :: fs)

end

/-- `str(x)` -/
def Json.pyStr : Json → String
  | .str s => s
  | x => x.repr

end Str

theorem natDigits_ne_nil (n : ℕ) : natDigits n ≠ [] := by
  unfold natDigits
  split_ifs with h
  · simp
  · simpa [Nat.digits_eq_nil_iff_eq_zero] using h

theorem intText_ne_nil (n : ℤ) : intText n ≠ [] := by
  simp [intText, natDigits_ne_nil]

theorem FloatLit.text_ne_nil (f : FloatLit) : f.text ≠ [] := by
  simp [FloatLit.text, natDigits_ne_nil]

theorem ofList_ne_empty {cs : List Char} (h : cs ≠ []) : String.ofList cs ≠ "" := by
  intro he
  have := congrArg String.toList he
  simp at this
  exact h this

/-- The text of a truthy value is not empty. -/
theorem Json.pyStr_ne_empty [Runtime] {x : Json} (h : x.truthy = true) : x.pyStr ≠ "" := by
  cases x with
  | str s => simpa [Json.truthy, Json.pyStr] using h
  | null => simp [Json.truthy] at h
  | bool b => cases b <;> simp [Json.pyStr, Json.repr]
  | int n => exact ofList_ne_empty (intText_ne_nil n)
  | float f => exact ofList_ne_empty f.text_ne_nil
  | nan => simp [Json.pyStr, Json.repr]
  | infinity b => cases b <;> simp [Json.pyStr, Json.repr]
  | arr xs =>
    intro he
    have := congrArg String.toList he
    simp [Json.pyStr, Json.repr, String.toList_append] at this
  | obj fs =>
    intro he
    have := congrArg String.toList he
    simp [Json.pyStr, Json.repr, String.toList_append] at this

end PtaasBench.Py
