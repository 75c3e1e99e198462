import Mathlib.Data.List.Sort
import PtaasBench.Js.Number

/-!
# PtaasBench.Sdk.JsonDoc — JSON documents and their leaves

A document is kept as it was on the wire: numbers as they are spelled, members in their order, a key twice
where it was sent twice.  A value that a language decodes to is a document with numbers of another kind.
-/

namespace PtaasBench.JsonLeaves

open Js

inductive Doc (ν : Type) where
  | null
  | bool (b : Bool)
  | number (n : ν)
  | str (s : Text)
  | arr (items : List (Doc ν))
  | obj (members : List (Text × Doc ν))

section

variable {ν μ α β : Type}

/-- Induction on a document, whatever its containers hold. -/
@[elab_as_elim]
theorem Doc.induct {motive : Doc ν → Prop} (d : Doc ν) (null : motive .null) (bool : ∀ b, motive (.bool b))
    (number : ∀ n, motive (.number n)) (str : ∀ s, motive (.str s))
    (arr : ∀ xs, (∀ x ∈ xs, motive x) → motive (.arr xs))
    (obj : ∀ ms, (∀ m ∈ ms, motive m.2) → motive (.obj ms)) : motive d := by
  refine @Doc.rec ν motive (fun xs => ∀ x ∈ xs, motive x) (fun ms => ∀ m ∈ ms, motive m.2) (fun m => motive m.2)
    null bool number str arr obj ?_ ?_ ?_ ?_ ?_ d
  · exact fun x hx => absurd hx List.not_mem_nil
  · exact fun _ _ hx hxs => List.forall_mem_cons.mpr ⟨hx, hxs⟩
  · exact fun m hm => absurd hm List.not_mem_nil
  · exact fun _ _ hm hms => List.forall_mem_cons.mpr ⟨hm, hms⟩
  · exact fun _ _ hx => hx

/-! ## Leaves -/

/-- A scalar, or a container that is empty. -/
inductive Leaf (ν : Type) where
  | null
  | bool (b : Bool)
  | number (n : ν)
  | str (s : Text)
  | emptyArr
  | emptyObj

/-- A path and what is below it. -/
def sub (p k : Text) : Text := if p = [] then k else p ++ ofString "." ++ k

def name (p : Text) : Text := if p = [] then ofString "body" else p

def index (i : ℕ) : Text := ofString (toString i)

mutual

/-- The leaves below a path, in the order of the document. -/
def leafs (p : Text) : Doc ν → List (Text × Leaf ν)
  | .null => [(name p, .null)]
  | .bool b => [(name p, .bool b)]
  | .number n => [(name p, .number n)]
  | .str s => [(name p, .str s)]
  | .arr xs => if xs.isEmpty then [(name p, .emptyArr)] else leafsItems p 0 xs
  | .obj ms => if ms.isEmpty then [(name p, .emptyObj)] else leafsMembers p ms

def leafsItems (p : Text) (i : ℕ) : List (Doc ν) → List (Text × Leaf ν)
  | [] => []
  | x :: xs => leafs (sub p (index i)) x ++ leafsItems p (i + 1) xs

def leafsMembers (p : Text) : List (Text × Doc ν) → List (Text × Leaf ν)
  | [] => []
  | (k, x) :: ms => leafs (sub p k) x ++ leafsMembers p ms

end

theorem leafsItems_eq (p : Text) (i : ℕ) (xs : List (Doc ν)) :
    leafsItems p i xs = (xs.zipIdx i).flatMap fun x => leafs (sub p (index x.2)) x.1 := by
  induction xs generalizing i with
  | nil => rfl
  | cons x xs ih => rw [leafsItems, ih, List.zipIdx_cons, List.flatMap_cons]

theorem leafsMembers_eq (p : Text) (ms : List (Text × Doc ν)) :
    leafsMembers p ms = ms.flatMap fun m => leafs (sub p m.1) m.2 := by
  induction ms with
  | nil => rfl
  | cons m ms ih => rw [leafsMembers, ih, List.flatMap_cons]

/-- The text of a leaf as it is on the wire, where numbers are written as given. -/
def Leaf.text (number : ν → Text) : Leaf ν → Text
  | .null => ofString "null"
  | .bool b => ofString (if b then "true" else "false")
  | .number n => number n
  | .str s => s
  | .emptyArr => ofString "[]"
  | .emptyObj => ofString "{}"

def wire (n : Numeral) : Text := n.text.flatMap ofChar

/-- What the client sent: a path and a text for each leaf. -/
def leaves (d : Doc Numeral) : List (Text × Text) := (leafs [] d).map fun x => (x.1, x.2.text wire)

/-! ## Nesting -/

mutual

def nesting : Doc ν → ℕ
  | .arr xs => nestingItems xs + 1
  | .obj ms => nestingMembers ms + 1
  | _ => 0

def nestingItems : List (Doc ν) → ℕ
  | [] => 0
  | x :: xs => max (nesting x) (nestingItems xs)

def nestingMembers : List (Text × Doc ν) → ℕ
  | [] => 0
  | (_, x) :: ms => max (nesting x) (nestingMembers ms)

end

theorem nesting_le_items {xs : List (Doc ν)} {x : Doc ν} (h : x ∈ xs) : nesting x ≤ nestingItems xs := by
  induction xs with
  | nil => exact absurd h List.not_mem_nil
  | cons y xs ih =>
    rw [nestingItems]
    rcases List.mem_cons.mp h with rfl | h
    · exact le_max_left _ _
    · exact (ih h).trans (le_max_right _ _)

theorem nesting_le_members {ms : List (Text × Doc ν)} {m : Text × Doc ν} (h : m ∈ ms) :
    nesting m.2 ≤ nestingMembers ms := by
  induction ms with
  | nil => exact absurd h List.not_mem_nil
  | cons y ms ih =>
    rw [nestingMembers]
    rcases List.mem_cons.mp h with rfl | h
    · exact le_max_left _ _
    · exact (ih h).trans (le_max_right _ _)

/-! ## Decoding -/

mutual

/-- A document with its numbers read and its members arranged. -/
def decode (number : ν → μ) (fields : List (Text × Doc μ) → List (Text × Doc μ)) : Doc ν → Doc μ
  | .null => .null
  | .bool b => .bool b
  | .number n => .number (number n)
  | .str s => .str s
  | .arr xs => .arr (decodeItems number fields xs)
  | .obj ms => .obj (fields (decodeMembers number fields ms))

def decodeItems (number : ν → μ) (fields : List (Text × Doc μ) → List (Text × Doc μ)) : List (Doc ν) → List (Doc μ)
  | [] => []
  | x :: xs => decode number fields x :: decodeItems number fields xs

def decodeMembers (number : ν → μ) (fields : List (Text × Doc μ) → List (Text × Doc μ)) :
    List (Text × Doc ν) → List (Text × Doc μ)
  | [] => []
  | (k, x) :: ms => (k, decode number fields x) :: decodeMembers number fields ms

end

theorem decodeItems_eq (number : ν → μ) (fields : List (Text × Doc μ) → List (Text × Doc μ)) (xs : List (Doc ν)) :
    decodeItems number fields xs = xs.map (decode number fields) := by
  induction xs with
  | nil => rfl
  | cons x xs ih => rw [decodeItems, ih, List.map_cons]

theorem decodeMembers_eq (number : ν → μ) (fields : List (Text × Doc μ) → List (Text × Doc μ))
    (ms : List (Text × Doc ν)) :
    decodeMembers number fields ms = ms.map (Prod.map id (decode number fields)) := by
  induction ms with
  | nil => rfl
  | cons m ms ih =>
    rw [decodeMembers, ih, List.map_cons]
    rfl

/-- Setting a key: a key that is there keeps its place. -/
def put (ms : List (Text × α)) (m : Text × α) : List (Text × α) :=
  if (ms.map Prod.fst).contains m.1 then ms.map fun x => if x.1 = m.1 then m else x else ms ++ [m]

theorem put_of_mem {ms : List (Text × α)} {m : Text × α} (h : m.1 ∈ ms.map Prod.fst) :
    put ms m = ms.map fun x => if x.1 = m.1 then m else x := if_pos (List.contains_iff_mem.mpr h)

theorem put_of_notMem {ms : List (Text × α)} {m : Text × α} (h : m.1 ∉ ms.map Prod.fst) : put ms m = ms ++ [m] :=
  if_neg fun hin => h (List.contains_iff_mem.mp hin)

/-- Members set one after the other. -/
def merge (ms : List (Text × α)) : List (Text × α) := ms.foldl put []

/-- The number a key is an index for: canonical digits below `2 ^ 32 - 1`. -/
def arrayIndex (k : Text) : Option ℕ :=
  if k ≠ [] ∧ k.all isDigit ∧ (k.head? ≠ some 0x30 ∨ k.length = 1) ∧ digitsValue k < 2 ^ 32 - 1 then
    some (digitsValue k)
  else none

def isIndex (m : Text × α) : Bool := (arrayIndex m.1).isSome

/-- The order in which a JavaScript object lists its properties. -/
def ownKeys (ms : List (Text × α)) : List (Text × α) :=
  (ms.filter isIndex).insertionSort (fun a b => (arrayIndex a.1).getD 0 ≤ (arrayIndex b.1).getD 0) ++
    ms.filter fun m => !isIndex m

end

end PtaasBench.JsonLeaves
