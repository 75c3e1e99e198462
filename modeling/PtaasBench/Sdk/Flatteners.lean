import PtaasBench.Sdk.JsonDoc

/-!
# PtaasBench.Sdk.Flatteners — the four agents' walks over a JSON body

Python (`_params.py`), Node (`attributes.ts`), Java (`Attributes.java`, `Json.java`) and .NET
(`ParamCollector.cs`).  Each reads the document with its language's numbers and containers and hands on a
path and a text for each leaf.
-/

namespace PtaasBench.JsonLeaves

open Js Lib.Double Py

/-! ## Numbers -/

/-- A number of 64 bits, by its sign and what is left of it; `none` is the infinity. -/
structure Binary where
  neg : Bool
  magnitude : Option ℚ

def Binary.ofNumeral (n : Numeral) : Binary := ⟨n.neg, binary64 n.magnitude⟩

def ascii (cs : List Char) : Text := cs.flatMap ofChar

/-- The integer that is spelled without a fraction and an exponent. -/
def integer? (n : Numeral) : Option ℤ :=
  if n.frac = [] ∧ n.exp = none then some (if n.neg then -n.whole else n.whole) else none

/-- The digits with the point behind them, or among them. -/
def plain (d : Decimal) : Numeral :=
  if 0 ≤ d.power then { neg := false, whole := d.digits * 10 ^ d.power.toNat, frac := [digit 0], exp := none }
  else
    { neg := false
      whole := d.digits / 10 ^ (-d.power).toNat
      frac := lastDigits (-d.power).toNat d.digits
      exp := none }

def zeroPointZero : Numeral := { neg := false, whole := 0, frac := [digit 0], exp := none }

/-! ## The walk of Python and Java -/

section

variable {ν : Type} (number : ν → Text) (bound : ℕ)

mutual

def flattenTo (p : Text) (depth : ℕ) (d : Doc ν) : List (Text × Text) :=
  if bound < depth then []
  else match d with
    | .null => [(name p, ofString "null")]
    | .bool b => [(name p, ofString (if b then "true" else "false"))]
    | .number n => [(name p, number n)]
    | .str s => [(name p, s)]
    | .arr xs => if xs.isEmpty then [(name p, ofString "[]")] else flattenItemsTo p depth 0 xs
    | .obj ms => if ms.isEmpty then [(name p, ofString "{}")] else flattenMembersTo p depth ms

def flattenItemsTo (p : Text) (depth i : ℕ) : List (Doc ν) → List (Text × Text)
  | [] => []
  | x :: xs => flattenTo (sub p (index i)) (depth + 1) x ++ flattenItemsTo p depth (i + 1) xs

def flattenMembersTo (p : Text) (depth : ℕ) : List (Text × Doc ν) → List (Text × Text)
  | [] => []
  | (k, x) :: ms => flattenTo (sub p k) (depth + 1) x ++ flattenMembersTo p depth ms

end

end

def JSON_DEPTH_MAX : ℕ := 16

/-! ## Python -/

namespace Python

inductive Number where
  | int (n : ℤ)
  | float (x : Binary)

def number (n : Numeral) : Number :=
  match integer? n with
  | some i => .int i
  | none => .float (.ofNumeral n)

/-- `int` refuses a text of more than 4300 digits. -/
def accepts (n : Numeral) : Bool := (integer? n).isNone || (natDigits n.whole).length ≤ 4300

/-- An exponent of two digits or more. -/
def exponent (e : ℤ) : Exponent :=
  if e.natAbs < 10 then { upper := false, sign := some (e < 0), first := digit 0, rest := [digit e.natAbs] }
  else exponentOf e

/-- `float.__repr__` of a number that is not negative. -/
def repr (x : ℚ) : Numeral :=
  if x = 0 then zeroPointZero
  else
    let d := (shortest 1 x).trim
    let length := d.text.length
    let point := length + d.power
    if -4 < point ∧ point ≤ 16 then plain d
    else
      { neg := false
        whole := d.digits / 10 ^ (length - 1)
        frac := lastDigits (length - 1) d.digits
        exp := some (exponent (point - 1)) }

/-- `json.dumps` -/
def dumps : Number → Text
  | .int n => ofString (toString n)
  | .float ⟨neg, none⟩ => ofString (if neg then "-Infinity" else "Infinity")
  | .float ⟨neg, some x⟩ => ascii ({ repr x with neg := neg } : Numeral).text

def acceptsLeaf : Leaf Numeral → Bool
  | .number n => accepts n
  | _ => true

/-- `json.loads`; `none` is an error. -/
def loads (d : Doc Numeral) : Option (Doc Number) :=
  if (leafs [] d).all fun x => acceptsLeaf x.2 then some (decode number merge d) else none

/-- `flatten_json` -/
def flattenJson (d : Doc Number) : List (Text × Text) := flattenTo dumps JSON_DEPTH_MAX [] 0 d

def describe (d : Doc Numeral) : Option (List (Text × Text)) := (loads d).map flattenJson

end Python

/-! ## Java -/

namespace Java

inductive Number where
  | long (n : ℤ)
  | double (x : Binary)

/-- `readNumber` -/
def number (n : Numeral) : Number :=
  match integer? n with
  | some i => if -2 ^ 63 ≤ i ∧ i < 2 ^ 63 then .long i else .double (.ofNumeral n)
  | none => .double (.ofNumeral n)

def exponent (e : ℤ) : Exponent :=
  { exponentOf e with upper := true, sign := if e < 0 then some true else none }

/-- `Double.toString` of a number that is not negative. -/
def doubleToString (x : ℚ) : Numeral :=
  if x = 0 then zeroPointZero
  else
    let d := (shortest 2 x).trim
    let length := d.text.length
    if 1 / 1000 ≤ x ∧ x < 10000000 then plain d
    else
      { neg := false
        whole := d.digits / 10 ^ (length - 1)
        frac := if length = 1 then [digit 0] else lastDigits (length - 1) d.digits
        exp := some (exponent (length + d.power - 1)) }

/-- `Json.write` of a number. -/
def write : Number → Text
  | .long n => ofString (toString n)
  | .double ⟨_, none⟩ => ofString "null"
  | .double ⟨neg, some x⟩ => ascii ({ doubleToString x with neg := neg } : Numeral).text

/-- `Json.parse` -/
def parse (d : Doc Numeral) : Doc Number := decode number merge d

/-- `flattenJson` -/
def flattenJson (d : Doc Number) : List (Text × Text) := flattenTo write JSON_DEPTH_MAX [] 0 d

def describe (d : Doc Numeral) : List (Text × Text) := flattenJson (parse d)

end Java

/-! ## Node -/

namespace Node

/-- `FlattenOptions` -/
structure Options where
  maxDepth : ℕ
  maxAttributes : ℕ

variable (stringify : Doc Binary → Text) (options : Options)

/-- `rawValue`, where a container that is not empty is left to `JSON.stringify`. -/
def rawValue : Doc Binary → Text
  | .null => []
  | .bool b => ofString (if b then "true" else "false")
  | .number x => signedToString x.neg x.magnitude
  | .str s => s
  | .arr xs => if xs.isEmpty then ofString "[]" else stringify (.arr xs)
  | .obj ms => if ms.isEmpty then ofString "{}" else stringify (.obj ms)

mutual

/-- `flattenInto` -/
def flattenInto (out : List (Text × Text)) (p : Text) (depth : ℕ) (d : Doc Binary) : List (Text × Text) :=
  if options.maxAttributes ≤ out.length then out
  else match d with
    | .arr xs =>
      if depth < options.maxDepth ∧ ¬ xs.isEmpty then flattenItemsInto out p depth 0 xs
      else out ++ [(name p, rawValue stringify (.arr xs))]
    | .obj ms =>
      if depth < options.maxDepth ∧ ¬ ms.isEmpty then flattenMembersInto out p depth ms
      else out ++ [(name p, rawValue stringify (.obj ms))]
    | scalar => out ++ [(name p, rawValue stringify scalar)]

def flattenItemsInto (out : List (Text × Text)) (p : Text) (depth i : ℕ) : List (Doc Binary) → List (Text × Text)
  | [] => out
  | x :: xs =>
    if options.maxAttributes ≤ out.length then out
    else flattenItemsInto (flattenInto out (sub p (index i)) (depth + 1) x) p depth (i + 1) xs

def flattenMembersInto (out : List (Text × Text)) (p : Text) (depth : ℕ) :
    List (Text × Doc Binary) → List (Text × Text)
  | [] => out
  | (k, x) :: ms =>
    if options.maxAttributes ≤ out.length then out
    else flattenMembersInto (flattenInto out (sub p k) (depth + 1) x) p depth ms

end

/-- `JSON.parse`, with the properties of an object in the order `Object.entries` lists them in. -/
def parse (d : Doc Numeral) : Doc Binary := decode .ofNumeral (fun ms => ownKeys (merge ms)) d

def describe (d : Doc Numeral) : List (Text × Text) := flattenInto stringify options [] [] 0 (parse d)

end Node

/-! ## .NET -/

namespace Dotnet

/-- No surrogate is without its other half. -/
def paired : Text → Bool
  | [] => true
  | [u] => !isHigh u && !isLow u
  | u :: v :: s => if isHigh u && isLow v then paired s else !isHigh u && !isLow u && paired (v :: s)

variable (rawText : Doc Numeral → Text) (maxDepth : ℕ)

mutual

/-- `Flatten`: what is added to the collector; `none` is an exception. -/
def flatten (p : Text) (depth : ℕ) (d : Doc Numeral) : Option (List (Text × Text)) :=
  match d with
  | .obj ms =>
    if depth < maxDepth then
      if ms.isEmpty then some [(name p, ofString "{}")] else flattenMembers p depth ms
    else some [(name p, rawText (.obj ms))]
  | .arr xs =>
    if depth < maxDepth then
      if xs.isEmpty then some [(name p, ofString "[]")] else flattenItems p depth 0 xs
    else some [(name p, rawText (.arr xs))]
  | .str s => if paired s then some [(name p, s)] else none
  | .bool b => some [(name p, ofString (if b then "true" else "false"))]
  | .null => some [(name p, ofString "null")]
  | .number n => some [(name p, wire n)]

def flattenItems (p : Text) (depth i : ℕ) : List (Doc Numeral) → Option (List (Text × Text))
  | [] => some []
  | x :: xs => do
    let first ← flatten (sub p (index i)) (depth + 1) x
    let rest ← flattenItems p depth (i + 1) xs
    pure (first ++ rest)

def flattenMembers (p : Text) (depth : ℕ) : List (Text × Doc Numeral) → Option (List (Text × Text))
  | [] => some []
  | (k, x) :: ms =>
    if paired k then do
      let first ← flatten (sub p k) (depth + 1) x
      let rest ← flattenMembers p depth ms
      pure (first ++ rest)
    else none

end

def describe (d : Doc Numeral) : Option (List (Text × Text)) := flatten rawText maxDepth [] 0 d

end Dotnet

end PtaasBench.JsonLeaves
