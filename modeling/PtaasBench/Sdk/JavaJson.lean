import PtaasBench.Js.Text
import PtaasBench.Py.JsonText

/-!
# PtaasBench.Sdk.JavaJson — the JSON of the Java agent (`Json.java`)

`write` serialises what the agent reports, `parse` reads a document.  Strings are lists of 16-bit units.
-/

namespace PtaasBench.Sdk.JavaJson

open List

open Js (Text ofString)
open Py (natDigits ofDigitList)

/-- A value of Java: `map` is a map with its entries in order, `list` an `Iterable`, `array` an `Object[]`. -/
inductive Value (δ : Type) where
  | null
  | bool (b : Bool)
  | long (n : ℤ)
  | double (d : δ)
  | str (s : Text)
  | map (entries : List (Text × Value δ))
  | list (items : List (Value δ))
  | array (items : List (Value δ))

namespace Value

variable {δ : Type}

/-- Induction on a value, whatever its containers hold. -/
@[elab_as_elim]
theorem induct {motive : Value δ → Prop} (v : Value δ) (null : motive .null) (bool : ∀ b, motive (.bool b))
    (long : ∀ n, motive (.long n)) (double : ∀ d, motive (.double d)) (str : ∀ s, motive (.str s))
    (map : ∀ es : List (Text × Value δ), (∀ e ∈ es, motive e.2) → motive (.map es))
    (list : ∀ xs : List (Value δ), (∀ x ∈ xs, motive x) → motive (.list xs))
    (array : ∀ xs : List (Value δ), (∀ x ∈ xs, motive x) → motive (.array xs)) : motive v := by
  refine @Value.rec δ motive (fun es => ∀ e ∈ es, motive e.2) (fun xs => ∀ x ∈ xs, motive x) (fun e => motive e.2)
    null bool long double str map list array ?_ ?_ ?_ ?_ ?_ v
  · exact fun e he => absurd he not_mem_nil
  · exact fun _ _ he hes => forall_mem_cons.mpr ⟨he, hes⟩
  · exact fun x hx => absurd hx not_mem_nil
  · exact fun _ _ hx hxs => forall_mem_cons.mpr ⟨hx, hxs⟩
  · exact fun _ _ hx => hx

/-- `value == null` -/
def isNull : Value δ → Bool
  | null => true
  | _ => false

end Value

/-- What is used of Java itself: `Double.isFinite`, `Double.toString` and `Double.valueOf`, and `Character.digit` for
base 16, which takes more than the ASCII digits. -/
class Runtime (δ : Type) where
  isFinite : δ → Bool
  toString : δ → Text
  valueOf : Text → Option δ
  digit16 : UInt16 → Option ℕ
  digit16_digit : ∀ n < 10, digit16 (.ofNat (0x30 + n)) = some n
  digit16_letter : ∀ n < 6, digit16 (.ofNat (0x61 + n)) = some (10 + n)

/-! ## Writing -/

def nullText : Text := ofString "null"

/-- The last hexadecimal digit of a number. -/
def hexUnit (n : ℕ) : UInt16 := if n % 16 < 10 then .ofNat (0x30 + n % 16) else .ofNat (0x61 + (n % 16 - 10))

/-- `\u%04x` -/
def escape (u : UInt16) : Text :=
  [0x5C, 0x75, hexUnit (u.toNat / 4096), hexUnit (u.toNat / 256), hexUnit (u.toNat / 16), hexUnit u.toNat]

/-- `Character.isSurrogate` -/
def isSurrogate (u : UInt16) : Bool := 0xD800 ≤ u && u ≤ 0xDFFF

def writeUnit (u : UInt16) : Text :=
  if u = 0x22 then [0x5C, 0x22]
  else if u = 0x5C then [0x5C, 0x5C]
  else if u = 0x0A then [0x5C, 0x6E]
  else if u = 0x0D then [0x5C, 0x72]
  else if u = 0x09 then [0x5C, 0x74]
  else if u = 0x08 then [0x5C, 0x62]
  else if u = 0x0C then [0x5C, 0x66]
  else if u < 0x20 ∨ u = 0x7F ∨ isSurrogate u = true then escape u
  else [u]

/-- `writeString` -/
def writeString (s : Text) : Text := 0x22 :: (s.flatMap writeUnit ++ [0x22])

/-- `Long.toString` -/
def longText (n : ℤ) : Text :=
  (if n < 0 then [0x2D] else []) ++ (natDigits n.natAbs).map fun d => .ofNat (0x30 + d.val)

section

variable {δ : Type} [Runtime δ]

def writeDouble (d : δ) : Text := if Runtime.isFinite d then Runtime.toString d else nullText

/-- What comes before an item. -/
def comma (first : Bool) : Text := if first then [] else [0x2C]

mutual

/-- `writeValue`; `none` when it raises. -/
def writeValue : Value δ → ℕ → Option Text
  | .null, _ => some nullText
  | .bool b, depth => if 64 < depth then some nullText else some (ofString (if b then "true" else "false"))
  | .long n, depth => if 64 < depth then some nullText else some (longText n)
  | .double d, depth => if 64 < depth then some nullText else some (writeDouble d)
  | .str s, depth => if 64 < depth then some nullText else some (writeString s)
  | .map entries, depth =>
    if 64 < depth then some nullText
    else (writeEntries entries true (depth + 1)).map fun inner => 0x7B :: (inner ++ [0x7D])
  | .list items, depth =>
    if 64 < depth then some nullText
    else (writeItems items true (depth + 1)).map fun inner => 0x5B :: (inner ++ [0x5D])
  | .array items, depth =>
    if 64 < depth then some nullText
    -- `List.of` takes no null
    else if items.any Value.isNull then none
    else (writeItems items true (depth + 1)).map fun inner => 0x5B :: (inner ++ [0x5D])

def writeEntries : List (Text × Value δ) → Bool → ℕ → Option Text
  | [], _, _ => some []
  | (key, value) :: rest, first, depth =>
    if value.isNull then writeEntries rest first depth
    else do
      let head ← writeValue value depth
      let tail ← writeEntries rest false depth
      pure (comma first ++ (writeString key ++ 0x3A :: (head ++ tail)))

def writeItems : List (Value δ) → Bool → ℕ → Option Text
  | [], _, _ => some []
  | item :: rest, first, depth => do
    let head ← writeValue item depth
    let tail ← writeItems rest false depth
    pure (comma first ++ (head ++ tail))

end

/-- `Json.write` -/
def write (value : Value δ) : Option Text := writeValue value 0

end

/-! ## Reading

Every reader takes the text that is left; `none` is an exception. -/

def isSpace (u : UInt16) : Bool := u = 0x20 || u = 0x09 || u = 0x0A || u = 0x0D

def skipWhitespace (t : Text) : Text := t.dropWhile isSpace

def expect (u : UInt16) : Text → Option Text
  | [] => none
  | c :: t => if c = u then some t else none

/-- `LinkedHashMap.put` -/
def put {α : Type*} (entries : List (Text × α)) (key : Text) (value : α) : List (Text × α) :=
  if entries.any (fun e => e.1 = key) then entries.map fun e => if e.1 = key then (key, value) else e
  else entries ++ [(key, value)]

/-- The unit of an escape that is one letter. -/
def simpleEscape (esc : UInt16) : Option UInt16 :=
  if esc = 0x22 then some 0x22
  else if esc = 0x5C then some 0x5C
  else if esc = 0x2F then some 0x2F
  else if esc = 0x62 then some 0x08
  else if esc = 0x66 then some 0x0C
  else if esc = 0x6E then some 0x0A
  else if esc = 0x72 then some 0x0D
  else if esc = 0x74 then some 0x09
  else none

def isNumberUnit (u : UInt16) : Bool := (ofString "+-0123456789.eE").contains u

/-- The value of ASCII digits. -/
def decimal? (t : Text) : Option ℕ :=
  if t ≠ [] ∧ t.all (fun u => 0x30 ≤ u && u ≤ 0x39) then some (t.foldl (fun n u => 10 * n + (u.toNat - 0x30)) 0) else none

/-- `Long.valueOf`, for the units of a number. -/
def longValueOf (raw : Text) : Option ℤ :=
  let value : Option ℤ := match raw with
    | [] => none
    | sign :: t =>
      if sign = 0x2D then (decimal? t).map fun n : ℕ => -(n : ℤ)
      else if sign = 0x2B then (decimal? t).map fun n : ℕ => (n : ℤ)
      else (decimal? raw).map fun n : ℕ => (n : ℤ)
  value.filter fun n => -2 ^ 63 ≤ n && n < 2 ^ 63

section

variable {δ : Type} [Runtime δ]

/-- `Integer.parseInt(s, 16)` -/
def parseInt16 (δ : Type) [Runtime δ] (s : Text) : Option ℤ :=
  let digits (t : Text) : Option ℕ :=
    if t = [] then none else (t.mapM (Runtime.digit16 δ)).map fun ds => ds.foldl (fun n d => 16 * n + d) 0
  match s with
  | [] => none
  | sign :: t =>
    if sign = 0x2D then (digits t).map fun n : ℕ => -(n : ℤ)
    else if sign = 0x2B then (digits t).map fun n : ℕ => (n : ℤ)
    else (digits s).map fun n : ℕ => (n : ℤ)

/-- The rest of a string behind its quote. -/
def stringBody (δ : Type) [Runtime δ] : Text → Option (Text × Text)
  | [] => none
  | c :: t =>
    if c = 0x22 then some ([], t)
    else if c ≠ 0x5C then (stringBody δ t).map fun (s, r) => (c :: s, r)
    else
      match t with
      | [] => none
      | esc :: t =>
        if esc = 0x75 then
          match t with
          | h₁ :: h₂ :: h₃ :: h₄ :: t => do
            let code ← parseInt16 δ [h₁, h₂, h₃, h₄]
            let (s, r) ← stringBody δ t
            pure (.ofInt code :: s, r)
          | _ => none
        else do
          let u ← simpleEscape esc
          let (s, r) ← stringBody δ t
          pure (u :: s, r)

def readString (δ : Type) [Runtime δ] (t : Text) : Option (Text × Text) := (expect 0x22 t).bind (stringBody δ)

def readLiteral (word : String) (value : Value δ) (t : Text) : Option (Value δ × Text) :=
  if (ofString word).isPrefixOf t then some (value, t.drop (ofString word).length) else none

def readNumber (t : Text) : Option (Value δ × Text) :=
  let raw := t.takeWhile isNumberUnit
  let value : Option (Value δ) :=
    if raw = [] then none
    else if !raw.contains 0x2E && !raw.contains 0x65 && !raw.contains 0x45 then
      ((longValueOf raw).map .long).or ((Runtime.valueOf raw).map .double)
    else (Runtime.valueOf raw).map .double
  value.map fun v => (v, t.dropWhile isNumberUnit)

/-- The loop of `readArray`; each round takes a comma, so the length of the text is fuel enough. -/
def readItems (read : Text → Option (Value δ × Text)) : ℕ → List (Value δ) → Text → Option (List (Value δ) × Text)
  | 0, _, _ => none
  | fuel + 1, out, t => do
    let (value, t) ← read t
    match skipWhitespace t with
    | [] => none
    | c :: t =>
      if c = 0x5D then pure (out ++ [value], t)
      else if c ≠ 0x2C then none
      else readItems read fuel (out ++ [value]) t

/-- The loop of `readObject`. -/
def readEntries (read : Text → Option (Value δ × Text)) :
    ℕ → List (Text × Value δ) → Text → Option (List (Text × Value δ) × Text)
  | 0, _, _ => none
  | fuel + 1, out, t => do
    let (key, t) ← readString δ (skipWhitespace t)
    let t ← expect 0x3A (skipWhitespace t)
    let (value, t) ← read t
    match skipWhitespace t with
    | [] => none
    | c :: t =>
      if c = 0x7D then pure (put out key value, t)
      else if c ≠ 0x2C then none
      else readEntries read fuel (put out key value) t

/-- `readObject` behind its brace. -/
def readObject (read : Text → Option (Value δ × Text)) (t : Text) : Option (Value δ × Text) :=
  match skipWhitespace t with
  | [] => none
  | c :: rest =>
    if c = 0x7D then some (.map [], rest)
    else (readEntries read (rest.length + 1) [] (c :: rest)).map fun (entries, r) => (.map entries, r)

/-- `readArray` behind its bracket. -/
def readArray (read : Text → Option (Value δ × Text)) (t : Text) : Option (Value δ × Text) :=
  match skipWhitespace t with
  | [] => none
  | c :: rest =>
    if c = 0x5D then some (.list [], rest)
    else (readItems read (rest.length + 1) [] (c :: rest)).map fun (items, r) => (.list items, r)

/-- `readValue`, with the levels of nesting still allowed. -/
def readValue : ℕ → Text → Option (Value δ × Text)
  | 0, _ => none
  | levels + 1, t =>
    match skipWhitespace t with
    | [] => none
    | c :: rest =>
      if c = 0x7B then readObject (readValue levels) rest
      else if c = 0x5B then readArray (readValue levels) rest
      else if c = 0x22 then (stringBody δ rest).map fun (s, r) => (.str s, r)
      else if c = 0x74 then readLiteral "true" (.bool true) (c :: rest)
      else if c = 0x66 then readLiteral "false" (.bool false) (c :: rest)
      else if c = 0x6E then readLiteral "null" .null (c :: rest)
      else readNumber (c :: rest)

/-- `Json.parse` of a text that is there; what cannot be read is null. -/
def parse (text : Text) : Value δ :=
  match readValue 129 (skipWhitespace text) with
  | none => .null
  | some (value, rest) => if skipWhitespace rest = [] then value else .null

end

/-! ## Strings read back -/

section

variable {δ : Type} [Runtime δ]

theorem ofInt_toNat (u : UInt16) : UInt16.ofInt (u.toNat : ℤ) = u := by
  have hlt := u.toNat_lt
  have hmod : ((u.toNat : ℤ) % 2 ^ 16).toNat = u.toNat := by omega
  rw [UInt16.ofInt, hmod, UInt16.ofNat_toNat]

theorem digit16_hexUnit (n : ℕ) : Runtime.digit16 δ (hexUnit n) = some (n % 16) := by
  rw [hexUnit]
  split_ifs with h
  · exact Runtime.digit16_digit _ h
  · rw [Runtime.digit16_letter _ (by omega), show 10 + (n % 16 - 10) = n % 16 by omega]

theorem hexUnit_toNat (n : ℕ) : 0x30 ≤ (hexUnit n).toNat := by
  rw [hexUnit]
  have hlt : n % 16 < 16 := Nat.mod_lt _ (by decide)
  split_ifs with h
  · rw [UInt16.toNat_ofNat', Nat.mod_eq_of_lt (by omega)]
    omega
  · rw [UInt16.toNat_ofNat', Nat.mod_eq_of_lt (by omega)]
    omega

theorem hexUnit_ne (n : ℕ) {u : UInt16} (hu : u.toNat < 0x30) : hexUnit n ≠ u := fun h => by
  have := hexUnit_toNat n
  rw [h] at this
  omega

theorem parseInt16_escape (u : UInt16) :
    parseInt16 δ [hexUnit (u.toNat / 4096), hexUnit (u.toNat / 256), hexUnit (u.toNat / 16), hexUnit u.toNat] =
      some (u.toNat : ℤ) := by
  have hlt := u.toNat_lt
  have hvalue : 16 * (16 * (16 * (16 * 0 + u.toNat / 4096 % 16) + u.toNat / 256 % 16) + u.toNat / 16 % 16) +
      u.toNat % 16 = u.toNat := by omega
  rw [parseInt16, if_neg (hexUnit_ne _ (by decide)), if_neg (hexUnit_ne _ (by decide))]
  simp only [cons_ne_nil, if_false, mapM_cons, mapM_nil, digit16_hexUnit, Option.bind_eq_bind,
    Option.bind_some, Option.pure_def, Option.map_some, foldl_cons, foldl_nil, hvalue]

theorem stringBody_escape (u : UInt16) (t : Text) :
    stringBody δ (escape u ++ t) = (stringBody δ t).map fun (s, r) => (u :: s, r) := by
  rw [escape, cons_append, cons_append, cons_append, cons_append, cons_append,
    cons_append, nil_append, stringBody]
  simp only [parseInt16_escape, ofInt_toNat, Option.bind_eq_bind, Option.bind_some]
  cases stringBody δ t <;> rfl

theorem stringBody_simple {esc u : UInt16} (hesc : esc ≠ 0x75) (hu : simpleEscape esc = some u) (t : Text) :
    stringBody δ (0x5C :: esc :: t) = (stringBody δ t).map fun (s, r) => (u :: s, r) := by
  rw [stringBody.eq_def]
  dsimp only
  rw [if_neg (by decide), if_neg (by decide), if_neg hesc, hu]
  cases stringBody δ t <;> rfl

theorem stringBody_unit (u : UInt16) (t : Text) :
    stringBody δ (writeUnit u ++ t) = (stringBody δ t).map fun (s, r) => (u :: s, r) := by
  rw [writeUnit]
  split_ifs with h1 h2 h3 h4 h5 h6 h7 h8
  · rw [h1]
    exact stringBody_simple (by decide) rfl t
  · rw [h2]
    exact stringBody_simple (by decide) rfl t
  · rw [h3]
    exact stringBody_simple (by decide) rfl t
  · rw [h4]
    exact stringBody_simple (by decide) rfl t
  · rw [h5]
    exact stringBody_simple (by decide) rfl t
  · rw [h6]
    exact stringBody_simple (by decide) rfl t
  · rw [h7]
    exact stringBody_simple (by decide) rfl t
  · exact stringBody_escape u t
  · rw [singleton_append, stringBody.eq_def]
    simp only [h1, h2, if_false, ne_eq, not_false_eq_true, if_true]

theorem stringBody_written (s r : Text) : stringBody δ (s.flatMap writeUnit ++ 0x22 :: r) = some (s, r) := by
  induction s with
  | nil =>
    rw [flatMap_nil, nil_append, stringBody.eq_def]
    exact if_pos rfl
  | cons u s ih => rw [flatMap_cons, append_assoc, stringBody_unit, ih, Option.map_some]

/-! ## Numbers read back -/

/-- The text that is left is no number. -/
def Ends (r : Text) : Prop := ∀ u ∈ r.head?, isNumberUnit u = false

theorem span_number {raw r : Text} (hraw : ∀ u ∈ raw, isNumberUnit u = true) (hr : Ends r) :
    (raw ++ r).takeWhile isNumberUnit = raw ∧ (raw ++ r).dropWhile isNumberUnit = r := by
  rw [takeWhile_append_of_pos hraw, dropWhile_append_of_pos hraw]
  cases r with
  | nil => exact ⟨append_nil _, rfl⟩
  | cons u r =>
    have hu : ¬isNumberUnit u = true := Bool.eq_false_iff.mp (hr u rfl)
    rw [takeWhile_cons_of_neg hu, dropWhile_cons_of_neg hu]
    exact ⟨append_nil _, rfl⟩

theorem decimal?_digits {ds : List (Fin 10)} (hds : ds ≠ []) :
    decimal? (ds.map fun d => .ofNat (0x30 + d.val)) = some (ofDigitList ds) := by
  have hdigit : ∀ d : Fin 10, (0x30 ≤ UInt16.ofNat (0x30 + d.val) && UInt16.ofNat (0x30 + d.val) ≤ 0x39) = true := by
    decide
  have hvalue : ∀ d : Fin 10, (UInt16.ofNat (0x30 + d.val)).toNat - 0x30 = d.val := by decide
  have hall : (ds.map fun d => UInt16.ofNat (0x30 + d.val)).all (fun u => 0x30 ≤ u && u ≤ 0x39) = true := by
    rw [all_map, all_eq_true]
    exact fun d _ => hdigit d
  have hsome : (ds.map fun d => UInt16.ofNat (0x30 + d.val)) ≠ [] := fun h => hds (map_eq_nil_iff.mp h)
  rw [decimal?, if_pos ⟨hsome, hall⟩, foldl_map, ofDigitList]
  simp only [hvalue]

theorem natDigits_ne_nil (n : ℕ) : natDigits n ≠ [] := by
  rw [natDigits]
  split_ifs with h
  · exact cons_ne_nil _ _
  · rw [Ne, reverse_eq_nil_iff, map_eq_nil_iff]
    exact Nat.digits_ne_nil_iff_ne_zero.mpr h

theorem longText_units {n : ℤ} {u : UInt16} (h : u ∈ longText n) :
    isNumberUnit u = true ∧ u ≠ 0x2E ∧ u ≠ 0x65 ∧ u ≠ 0x45 := by
  have hdigit : ∀ d : Fin 10, isNumberUnit (.ofNat (0x30 + d.val)) = true ∧ UInt16.ofNat (0x30 + d.val) ≠ 0x2E ∧
      UInt16.ofNat (0x30 + d.val) ≠ 0x65 ∧ UInt16.ofNat (0x30 + d.val) ≠ 0x45 := by decide
  rcases mem_append.mp h with hsign | hdigits
  · split_ifs at hsign
    · rw [mem_singleton.mp hsign]
      decide
    · exact absurd hsign not_mem_nil
  · obtain ⟨d, -, rfl⟩ := mem_map.mp hdigits
    exact hdigit d

theorem longValueOf_longText {n : ℤ} (h : -2 ^ 63 ≤ n ∧ n < 2 ^ 63) : longValueOf (longText n) = some n := by
  have hrange : (-2 ^ 63 ≤ n && n < 2 ^ 63) = true := by simpa using h
  have hdecimal := decimal?_digits (natDigits_ne_nil n.natAbs)
  rw [PtaasBench.Py.ofDigitList_natDigits] at hdecimal
  have hnotSign : ∀ d : Fin 10, UInt16.ofNat (0x30 + d.val) ≠ 0x2D ∧ UInt16.ofNat (0x30 + d.val) ≠ 0x2B := by decide
  by_cases hneg : n < 0
  · have habs : -(n.natAbs : ℤ) = n := by omega
    rw [longValueOf.eq_def, longText, if_pos hneg, singleton_append]
    simp only [if_true, hdecimal, Option.map_some, habs, Option.filter_some, hrange]
  · have habs : (n.natAbs : ℤ) = n := by omega
    obtain ⟨d, ds, hds⟩ := exists_cons_of_ne_nil (natDigits_ne_nil n.natAbs)
    rw [longValueOf.eq_def, longText, if_neg hneg, nil_append, hds, map_cons]
    rw [hds, map_cons] at hdecimal
    simp only [(hnotSign d).1, (hnotSign d).2, if_false, hdecimal, Option.map_some, habs, Option.filter_some, hrange,
      if_true]

theorem readNumber_longText {n : ℤ} (h : -2 ^ 63 ≤ n ∧ n < 2 ^ 63) {r : Text} (hr : Ends r) :
    readNumber (longText n ++ r) = some ((.long n : Value δ), r) := by
  obtain ⟨htake, hdrop⟩ := span_number (fun u hu => (longText_units hu).1) hr
  have hsome : longText n ≠ [] := fun hnil =>
    natDigits_ne_nil n.natAbs (map_eq_nil_iff.mp (append_eq_nil_iff.mp hnil).2)
  have hplain : (!(longText n).contains 0x2E && !(longText n).contains 0x65 && !(longText n).contains 0x45) = true := by
    simp only [Bool.and_eq_true, Bool.not_eq_true', contains_eq_mem, decide_eq_false_iff_not]
    exact ⟨⟨fun hmem => (longText_units hmem).2.1 rfl, fun hmem => (longText_units hmem).2.2.1 rfl⟩,
      fun hmem => (longText_units hmem).2.2.2 rfl⟩
  rw [readNumber, htake, hdrop]
  simp only [hsome, if_false, hplain, if_true, longValueOf_longText h, Option.map_some, Option.some_or]

end

/-! ## What is read back -/

section

variable {δ : Type}

mutual

/-- A value as it is read back: without null entries, arrays as lists, and null for what is too deep. -/
def readBack : Value δ → ℕ → Value δ
  | .null, _ => .null
  | .bool b, depth => if 64 < depth then .null else .bool b
  | .long n, depth => if 64 < depth then .null else .long n
  | .double d, depth => if 64 < depth then .null else .double d
  | .str s, depth => if 64 < depth then .null else .str s
  | .map entries, depth => if 64 < depth then .null else .map (readBackEntries entries (depth + 1))
  | .list items, depth => if 64 < depth then .null else .list (readBackItems items (depth + 1))
  | .array items, depth => if 64 < depth then .null else .list (readBackItems items (depth + 1))

def readBackEntries : List (Text × Value δ) → ℕ → List (Text × Value δ)
  | [], _ => []
  | (key, value) :: rest, depth =>
    if value.isNull then readBackEntries rest depth else (key, readBack value depth) :: readBackEntries rest depth

def readBackItems : List (Value δ) → ℕ → List (Value δ)
  | [], _ => []
  | item :: rest, depth => readBack item depth :: readBackItems rest depth

end

mutual

/-- Longs of 64 bits, maps with no key twice, arrays without null, and no doubles. -/
def Plain : Value δ → Prop
  | .null => True
  | .bool _ => True
  | .long n => -2 ^ 63 ≤ n ∧ n < 2 ^ 63
  | .double _ => False
  | .str _ => True
  | .map entries => (entries.map Prod.fst).Nodup ∧ PlainEntries entries
  | .list items => PlainItems items
  | .array items => items.any Value.isNull = false ∧ PlainItems items

def PlainEntries : List (Text × Value δ) → Prop
  | [] => True
  | (_, value) :: rest => Plain value ∧ PlainEntries rest

def PlainItems : List (Value δ) → Prop
  | [] => True
  | item :: rest => Plain item ∧ PlainItems rest

end

theorem plainItems_iff {items : List (Value δ)} : PlainItems items ↔ ∀ item ∈ items, Plain item := by
  induction items with
  | nil => exact ⟨fun _ _ h => absurd h not_mem_nil, fun _ => trivial⟩
  | cons item rest ih => rw [PlainItems, ih, forall_mem_cons]

theorem plainEntries_iff {entries : List (Text × Value δ)} : PlainEntries entries ↔ ∀ e ∈ entries, Plain e.2 := by
  induction entries with
  | nil => exact ⟨fun _ _ h => absurd h not_mem_nil, fun _ => trivial⟩
  | cons e rest ih => rw [PlainEntries, ih, forall_mem_cons]

/-- The entries that are written. -/
def live (entries : List (Text × Value δ)) : List (Text × Value δ) := entries.filter fun e => !e.2.isNull

theorem readBackEntries_eq (entries : List (Text × Value δ)) (depth : ℕ) :
    readBackEntries entries depth = (live entries).map fun e => (e.1, readBack e.2 depth) := by
  induction entries with
  | nil => rfl
  | cons e rest ih =>
    obtain ⟨key, value⟩ := e
    rw [readBackEntries, ih, live, live, filter_cons]
    cases value.isNull <;> rfl

variable [Runtime δ]

theorem writeEntries_live (entries : List (Text × Value δ)) (first : Bool) (depth : ℕ) :
    writeEntries entries first depth = writeEntries (live entries) first depth := by
  induction entries generalizing first with
  | nil => rfl
  | cons e rest ih =>
    obtain ⟨key, value⟩ := e
    rw [live, filter_cons]
    cases hnull : value.isNull with
    | true =>
      rw [writeEntries, hnull, if_pos rfl, ih]
      rfl
    | false =>
      rw [Bool.not_false, if_pos rfl, writeEntries, writeEntries, hnull, ih false]
      rfl

/-- What is too deep is written as null. -/
theorem write_deep (v : Value δ) {depth : ℕ} (h : 64 < depth) :
    writeValue v depth = some nullText ∧ readBack v depth = .null := by
  cases v <;> simp [writeValue, readBack, h]

theorem skipWhitespace_cons {u : UInt16} (h : isSpace u = false) (t : Text) : skipWhitespace (u :: t) = u :: t :=
  dropWhile_cons_of_neg (Bool.eq_false_iff.mp h)

/-- A text that is read as a value, whatever follows it. -/
def Reads (read : Text → Option (Value δ × Text)) (w : Text) (v : Value δ) : Prop :=
  (∃ c t, w = c :: t ∧ isSpace c = false ∧ c ≠ 0x5D) ∧ ∀ r, Ends r → read (w ++ r) = some (v, r)

theorem ends_cons {u : UInt16} (h : isNumberUnit u = false) (r : Text) : Ends (u :: r) := by
  intro v hv
  rw [← Option.mem_some_iff.mp hv]
  exact h

theorem writeItems_false (item : Value δ) (rest : List (Value δ)) (depth : ℕ) :
    writeItems (item :: rest) false depth = (writeItems (item :: rest) true depth).map (0x2C :: ·) := by
  rw [writeItems, writeItems]
  cases writeValue item depth with
  | none => rfl
  | some head => cases writeItems rest false depth <;> rfl

theorem readItems_written {read : Text → Option (Value δ × Text)} {depth : ℕ} {item : Value δ}
    {rest : List (Value δ)}
    (h : ∀ x ∈ item :: rest, ∃ w, writeValue x depth = some w ∧ Reads read w (readBack x depth)) :
    ∃ c t, writeItems (item :: rest) true depth = some (c :: t) ∧ isSpace c = false ∧ c ≠ 0x5D ∧
      rest.length ≤ t.length ∧ ∀ (r : Text) (out : List (Value δ)) (fuel : ℕ), rest.length < fuel →
        readItems read fuel out (c :: t ++ 0x5D :: r) = some (out ++ readBackItems (item :: rest) depth, r) := by
  induction rest generalizing item with
  | nil =>
    obtain ⟨w, hw, ⟨c, t, rfl, hspace, hc⟩, hread⟩ := h item mem_cons_self
    refine ⟨c, t, ?_, hspace, hc, Nat.zero_le _, fun r out fuel hfuel => ?_⟩
    · rw [writeItems, hw, writeItems]
      simp [comma]
    · obtain ⟨fuel, rfl⟩ := Nat.exists_eq_add_one_of_ne_zero (Nat.ne_of_gt hfuel)
      rw [readItems, hread _ (ends_cons (by decide) r)]
      rfl
  | cons next rest ih =>
    obtain ⟨w, hw, ⟨c, t, rfl, hspace, hc⟩, hread⟩ := h item mem_cons_self
    obtain ⟨c', t', hw', hspace', -, hlength, hrest⟩ := ih fun x hx => h x (mem_cons_of_mem item hx)
    refine ⟨c, t ++ 0x2C :: c' :: t', ?_, hspace, hc, ?_, fun r out fuel hfuel => ?_⟩
    · rw [writeItems, hw, writeItems_false, hw']
      simp [comma]
    · rw [length_append, length_cons, length_cons, length_cons]
      omega
    · obtain ⟨fuel, rfl⟩ := Nat.exists_eq_add_one_of_ne_zero (Nat.ne_of_gt (Nat.zero_lt_of_lt hfuel))
      have hsplit : c :: (t ++ 0x2C :: c' :: t') ++ 0x5D :: r = c :: t ++ 0x2C :: (c' :: t' ++ 0x5D :: r) := by
        simp
      have hinner := hrest r (out ++ [readBack item depth]) fuel (Nat.lt_of_succ_lt_succ hfuel)
      rw [hsplit, readItems, hread _ (ends_cons (by decide) _)]
      refine hinner.trans ?_
      rw [append_assoc]
      rfl

theorem put_of_notMem {α : Type*} {entries : List (Text × α)} {key : Text} (h : key ∉ entries.map Prod.fst) (value : α) :
    put entries key value = entries ++ [(key, value)] := by
  refine if_neg fun hany => ?_
  obtain ⟨e, he, hkey⟩ := any_eq_true.mp hany
  exact h (mem_map.mpr ⟨e, he, of_decide_eq_true hkey⟩)

theorem readString_written (s r : Text) : readString δ (writeString s ++ r) = some (s, r) := by
  have hbody := stringBody_written (δ := δ) s r
  rw [readString, writeString, cons_append, append_assoc]
  exact hbody

theorem writeEntries_cons (key : Text) {value : Value δ} (hlive : value.isNull = false) (rest : List (Text × Value δ))
    (first : Bool) (depth : ℕ) {head tail : Text} (hhead : writeValue value depth = some head)
    (htail : writeEntries rest false depth = some tail) :
    writeEntries ((key, value) :: rest) first depth =
      some (comma first ++ (writeString key ++ 0x3A :: (head ++ tail))) := by
  rw [writeEntries, hlive, hhead, htail]
  rfl

/-- One round of `readObject`. -/
theorem readEntries_round {read : Text → Option (Value δ × Text)} {w : Text} {v : Value δ} (h : Reads read w v)
    (key : Text) (out : List (Text × Value δ)) (fuel : ℕ) {u : UInt16} (hspace : isSpace u = false)
    (hends : isNumberUnit u = false) (r : Text) :
    readEntries read (fuel + 1) out (writeString key ++ 0x3A :: (w ++ u :: r)) =
      if u = 0x7D then some (put out key v, r) else if u ≠ 0x2C then none else readEntries read fuel (put out key v) r := by
  have hkey := readString_written (δ := δ) key (0x3A :: (w ++ u :: r))
  have hskip : skipWhitespace (writeString key ++ 0x3A :: (w ++ u :: r)) =
      writeString key ++ 0x3A :: (w ++ u :: r) := skipWhitespace_cons (by decide) _
  have hcolon : expect 0x3A (skipWhitespace (0x3A :: (w ++ u :: r))) = some (w ++ u :: r) := rfl
  have hvalue := h.2 (u :: r) (ends_cons hends r)
  rw [readEntries, hskip, hkey]
  simp only [Option.bind_eq_bind, Option.bind_some, hcolon, hvalue, skipWhitespace_cons hspace]
  rfl

theorem readEntries_written {read : Text → Option (Value δ × Text)} {depth : ℕ} {entry : Text × Value δ}
    {rest : List (Text × Value δ)} (hlive : ∀ e ∈ entry :: rest, e.2.isNull = false)
    (h : ∀ e ∈ entry :: rest, ∃ w, writeValue e.2 depth = some w ∧ Reads read w (readBack e.2 depth)) :
    ∃ t, writeEntries (entry :: rest) true depth = some (0x22 :: t) ∧ rest.length ≤ t.length ∧
      ∀ (r : Text) (out : List (Text × Value δ)) (fuel : ℕ), rest.length < fuel →
        ((out ++ entry :: rest).map Prod.fst).Nodup →
        readEntries read fuel out (0x22 :: t ++ 0x7D :: r) =
          some (out ++ (entry :: rest).map fun e => (e.1, readBack e.2 depth), r) := by
  induction rest generalizing entry with
  | nil =>
    obtain ⟨key, value⟩ := entry
    obtain ⟨w, hw, hread⟩ := h (key, value) mem_cons_self
    have hwrite := writeEntries_cons key (hlive (key, value) mem_cons_self) [] true depth hw rfl
    refine ⟨key.flatMap writeUnit ++ [0x22] ++ 0x3A :: w, ?_, Nat.zero_le _, fun r out fuel hfuel hnodup => ?_⟩
    · rw [hwrite, comma, if_pos rfl, nil_append, append_nil]
      rfl
    · obtain ⟨fuel, rfl⟩ := Nat.exists_eq_add_one_of_ne_zero (Nat.ne_of_gt hfuel)
      have hsplit : 0x22 :: (key.flatMap writeUnit ++ [0x22] ++ 0x3A :: w) ++ 0x7D :: r =
          writeString key ++ 0x3A :: (w ++ 0x7D :: r) := by simp [writeString]
      have hfresh : key ∉ out.map Prod.fst := by
        rw [map_append, map_cons] at hnodup
        exact fun hmem => (nodup_append.mp hnodup).2.2 key hmem key mem_cons_self rfl
      rw [hsplit, readEntries_round hread key out fuel (by decide) (by decide), if_pos rfl, put_of_notMem hfresh]
      rfl
  | cons next rest ih =>
    obtain ⟨key, value⟩ := entry
    obtain ⟨w, hw, hread⟩ := h (key, value) mem_cons_self
    obtain ⟨t, ht, hlength, hrest⟩ := ih (fun e he => hlive e (mem_cons_of_mem _ he))
      fun e he => h e (mem_cons_of_mem _ he)
    have hcomma : writeEntries (next :: rest) false depth = some (0x2C :: 0x22 :: t) := by
      obtain ⟨key', value'⟩ := next
      obtain ⟨w', hw', -⟩ := h (key', value') (mem_cons_of_mem _ mem_cons_self)
      have hnext := hlive (key', value') (mem_cons_of_mem _ mem_cons_self)
      rw [writeEntries, hnext, hw'] at ht ⊢
      cases htail : writeEntries rest false depth with
      | none => rw [htail] at ht; exact absurd ht nofun
      | some tail =>
        rw [htail] at ht
        exact congrArg (fun w => some (0x2C :: w)) (Option.some.inj ht)
    have hwrite := writeEntries_cons key (hlive (key, value) mem_cons_self) (next :: rest) true depth hw hcomma
    refine ⟨key.flatMap writeUnit ++ [0x22] ++ 0x3A :: (w ++ 0x2C :: 0x22 :: t), ?_, ?_, fun r out fuel hfuel hnodup => ?_⟩
    · rw [hwrite, comma, if_pos rfl, nil_append]
      simp [writeString]
    · simp only [length_append, length_cons]
      omega
    · obtain ⟨fuel, rfl⟩ := Nat.exists_eq_add_one_of_ne_zero (Nat.ne_of_gt (Nat.zero_lt_of_lt hfuel))
      have hsplit : 0x22 :: (key.flatMap writeUnit ++ [0x22] ++ 0x3A :: (w ++ 0x2C :: 0x22 :: t)) ++ 0x7D :: r =
          writeString key ++ 0x3A :: (w ++ 0x2C :: (0x22 :: t ++ 0x7D :: r)) := by simp [writeString]
      have hfresh : key ∉ out.map Prod.fst := by
        rw [map_append, map_cons] at hnodup
        exact fun hmem => (nodup_append.mp hnodup).2.2 key hmem key mem_cons_self rfl
      have hinner := hrest r (out ++ [(key, readBack value depth)]) fuel (Nat.lt_of_succ_lt_succ hfuel)
        (by simpa using hnodup)
      rw [hsplit, readEntries_round hread key out fuel (by decide) (by decide), if_neg (by decide),
        if_neg (by decide), put_of_notMem hfresh, hinner, append_assoc]
      rfl

/-! ## Values read back -/

omit [Runtime δ] in
theorem readLiteral_written (word : String) (v : Value δ) (r : Text) :
    readLiteral word v (ofString word ++ r) = some (v, r) := by
  have hstarts : (ofString word).isPrefixOf (ofString word ++ r) = true :=
    List.isPrefixOf_iff_prefix.mpr (prefix_append _ _)
  rw [readLiteral, if_pos hstarts, drop_left]

/-- A literal, behind its first letter. -/
theorem readValue_literal {levels : ℕ} {word : String} {c : UInt16} {t : Text} (hword : ofString word = c :: t)
    {v : Value δ} (h : (c, word, v) ∈ [(0x74, "true", .bool true), (0x66, "false", .bool false), (0x6E, "null", .null)])
    (r : Text) : readValue (levels + 1) (ofString word ++ r) = some (v, r) := by
  have hliteral := readLiteral_written word v r
  rw [hword, cons_append] at hliteral ⊢
  simp only [mem_cons, Prod.mk.injEq, not_mem_nil, or_false] at h
  rcases h with ⟨rfl, rfl, rfl⟩ | ⟨rfl, rfl, rfl⟩ | ⟨rfl, rfl, rfl⟩
  all_goals
    rw [readValue, skipWhitespace_cons (by decide)]
    exact hliteral

theorem reads_null (levels : ℕ) : Reads (readValue (levels + 1)) nullText (.null : Value δ) := by
  have hword : ofString "null" = [0x6E, 0x75, 0x6C, 0x6C] := by decide
  exact ⟨⟨0x6E, _, hword, by decide, by decide⟩, fun r _ => readValue_literal hword (by simp) r⟩

theorem reads_bool (levels : ℕ) (b : Bool) :
    Reads (readValue (levels + 1)) (ofString (if b then "true" else "false")) (.bool b : Value δ) := by
  cases b with
  | false =>
    have hword : ofString "false" = [0x66, 0x61, 0x6C, 0x73, 0x65] := by decide
    exact ⟨⟨0x66, _, hword, by decide, by decide⟩, fun r _ => readValue_literal hword (by simp) r⟩
  | true =>
    have hword : ofString "true" = [0x74, 0x72, 0x75, 0x65] := by decide
    exact ⟨⟨0x74, _, hword, by decide, by decide⟩, fun r _ => readValue_literal hword (by simp) r⟩

theorem reads_long (levels : ℕ) {n : ℤ} (h : -2 ^ 63 ≤ n ∧ n < 2 ^ 63) :
    Reads (readValue (levels + 1)) (longText n) (.long n : Value δ) := by
  have hunit : ∀ u ∈ longText n, isNumberUnit u = true := fun u hu => (longText_units hu).1
  obtain ⟨c, t, hct⟩ : ∃ c t, longText n = c :: t := exists_cons_of_ne_nil fun hnil =>
    natDigits_ne_nil n.natAbs (map_eq_nil_iff.mp (append_eq_nil_iff.mp hnil).2)
  have hc : isNumberUnit c = true := hunit c (hct ▸ mem_cons_self)
  have hne {u : UInt16} (hu : isNumberUnit u = false) : c ≠ u := fun heq => by
    rw [heq, hu] at hc
    exact Bool.false_ne_true hc
  have hspace : isSpace c = false := by
    simp only [isSpace, Bool.or_eq_false_iff, decide_eq_false_iff_not]
    exact ⟨⟨⟨hne (by decide), hne (by decide)⟩, hne (by decide)⟩, hne (by decide)⟩
  refine ⟨⟨c, t, hct, hspace, hne (by decide)⟩, fun r hr => ?_⟩
  have hnumber := readNumber_longText (δ := δ) h hr
  rw [hct, cons_append] at hnumber ⊢
  rw [readValue, skipWhitespace_cons hspace]
  dsimp only
  rw [if_neg (hne (by decide)), if_neg (hne (by decide)), if_neg (hne (by decide)), if_neg (hne (by decide)),
    if_neg (hne (by decide)), if_neg (hne (by decide)), hnumber]

theorem reads_str (levels : ℕ) (s : Text) : Reads (readValue (levels + 1)) (writeString s) (.str s : Value δ) := by
  refine ⟨⟨0x22, _, rfl, by decide, by decide⟩, fun r _ => ?_⟩
  have hbody := stringBody_written (δ := δ) s r
  rw [writeString, cons_append, append_assoc, readValue, skipWhitespace_cons (by decide)]
  exact congrArg (Option.map _) hbody

/-- The items between brackets. -/
theorem reads_items {levels depth : ℕ} {items : List (Value δ)}
    (h : ∀ x ∈ items, ∃ w, writeValue x depth = some w ∧ Reads (readValue levels) w (readBack x depth)) :
    ∃ w, (writeItems items true depth).map (fun inner => 0x5B :: (inner ++ [0x5D])) = some w ∧
      Reads (readValue (levels + 1)) w (.list (readBackItems items depth)) := by
  cases items with
  | nil => exact ⟨_, rfl, ⟨0x5B, _, rfl, by decide, by decide⟩, fun r _ => rfl⟩
  | cons item rest =>
    obtain ⟨c, t, hwrite, hspace, hc, hlength, hread⟩ := readItems_written h
    refine ⟨_, by rw [hwrite, Option.map_some], ⟨0x5B, _, rfl, by decide, by decide⟩, fun r _ => ?_⟩
    have hitems := hread r [] (((t ++ 0x5D :: r).length) + 1) (by rw [length_append]; omega)
    rw [cons_append, append_assoc, readValue, skipWhitespace_cons (by decide)]
    show readArray (readValue levels) (c :: (t ++ 0x5D :: r)) = _
    rw [readArray, skipWhitespace_cons hspace]
    dsimp only
    rw [if_neg hc]
    exact congrArg (Option.map _) hitems

/-- The entries between braces. -/
theorem reads_entries {levels depth : ℕ} {entries : List (Text × Value δ)} (hnodup : (entries.map Prod.fst).Nodup)
    (h : ∀ e ∈ entries, ∃ w, writeValue e.2 depth = some w ∧ Reads (readValue levels) w (readBack e.2 depth)) :
    ∃ w, (writeEntries entries true depth).map (fun inner => 0x7B :: (inner ++ [0x7D])) = some w ∧
      Reads (readValue (levels + 1)) w (.map (readBackEntries entries depth)) := by
  have hsub : (live entries).Sublist entries := filter_sublist
  have hlive : ∀ e ∈ live entries, e.2.isNull = false := fun e he => by simpa using (mem_filter.mp he).2
  have hnodup' : ((live entries).map Prod.fst).Nodup := hnodup.sublist (hsub.map _)
  have h' : ∀ e ∈ live entries, _ := fun e he => h e (hsub.subset he)
  rw [writeEntries_live, readBackEntries_eq]
  generalize live entries = kept at hlive hnodup' h'
  cases kept with
  | nil => exact ⟨_, rfl, ⟨0x7B, _, rfl, by decide, by decide⟩, fun r _ => rfl⟩
  | cons entry rest =>
    obtain ⟨t, hwrite, hlength, hread⟩ := readEntries_written hlive h'
    refine ⟨_, by rw [hwrite, Option.map_some], ⟨0x7B, _, rfl, by decide, by decide⟩, fun r _ => ?_⟩
    have hentries := hread r [] (((t ++ 0x7D :: r).length) + 1) (by rw [length_append]; omega) hnodup'
    rw [cons_append, append_assoc, readValue, skipWhitespace_cons (by decide)]
    show readObject (readValue levels) (0x22 :: (t ++ 0x7D :: r)) = _
    rw [readObject, skipWhitespace_cons (by decide)]
    dsimp only
    rw [if_neg (by decide)]
    exact congrArg (Option.map _) hentries

/-- A value is written, and what is written is read back. -/
theorem reads_written (v : Value δ) : ∀ {depth levels : ℕ}, levels + depth = 128 → depth ≤ 65 → Plain v →
    ∃ w, writeValue v depth = some w ∧ Reads (readValue (levels + 1)) w (readBack v depth) := by
  have hdeep (v : Value δ) {depth : ℕ} (levels : ℕ) (h : 64 < depth) :
      ∃ w, writeValue v depth = some w ∧ Reads (readValue (levels + 1)) w (readBack v depth) := by
    obtain ⟨hwrite, hback⟩ := write_deep v h
    exact ⟨_, hwrite, hback ▸ reads_null levels⟩
  -- the levels still allowed below a container
  have hbelow {depth levels : ℕ} (hsum : levels + depth = 128) (hdepth : ¬64 < depth) :
      ∃ below, levels = below + 1 ∧ below + (depth + 1) = 128 ∧ depth + 1 ≤ 65 :=
    ⟨levels - 1, by omega, by omega, by omega⟩
  induction v using Value.induct with
  | null => exact fun _ _ _ => ⟨_, by rw [writeValue], by rw [readBack]; exact reads_null _⟩
  | bool b =>
    intro depth levels _ _ _
    by_cases h : 64 < depth
    · exact hdeep _ _ h
    · exact ⟨_, by rw [writeValue, if_neg h], by rw [readBack, if_neg h]; exact reads_bool _ b⟩
  | long n =>
    intro depth levels _ _ hplain
    by_cases h : 64 < depth
    · exact hdeep _ _ h
    · exact ⟨_, by rw [writeValue, if_neg h], by rw [readBack, if_neg h]; exact reads_long _ hplain⟩
  | double d => exact fun _ _ hplain => hplain.elim
  | str s =>
    intro depth levels _ _ _
    by_cases h : 64 < depth
    · exact hdeep _ _ h
    · exact ⟨_, by rw [writeValue, if_neg h], by rw [readBack, if_neg h]; exact reads_str _ s⟩
  | map entries ih =>
    intro depth levels hsum hdepth hplain
    by_cases h : 64 < depth
    · exact hdeep _ _ h
    · obtain ⟨below, rfl, hsum', hdepth'⟩ := hbelow hsum h
      rw [writeValue, readBack, if_neg h, if_neg h]
      exact reads_entries hplain.1 fun e he => ih e he hsum' hdepth' (plainEntries_iff.mp hplain.2 e he)
  | list items ih =>
    intro depth levels hsum hdepth hplain
    by_cases h : 64 < depth
    · exact hdeep _ _ h
    · obtain ⟨below, rfl, hsum', hdepth'⟩ := hbelow hsum h
      rw [writeValue, readBack, if_neg h, if_neg h]
      exact reads_items fun x hx => ih x hx hsum' hdepth' (plainItems_iff.mp hplain x hx)
  | array items ih =>
    intro depth levels hsum hdepth hplain
    by_cases h : 64 < depth
    · exact hdeep _ _ h
    · obtain ⟨below, rfl, hsum', hdepth'⟩ := hbelow hsum h
      rw [writeValue, readBack, if_neg h, if_neg h, hplain.1, if_neg Bool.false_ne_true]
      exact reads_items fun x hx => ih x hx hsum' hdepth' (plainItems_iff.mp hplain.2 x hx)

theorem parse_of_reads {w : Text} {v : Value δ} (h : Reads (readValue 129) w v) : parse w = v := by
  obtain ⟨⟨c, t, rfl, hspace, -⟩, hread⟩ := h
  have hend := hread [] fun u hu => absurd hu nofun
  rw [append_nil] at hend
  rw [parse, skipWhitespace_cons hspace, hend]
  rfl

/-- What is written is read back, but for null entries, arrays that come back as lists, and what lies more than 64
levels deep. -/
theorem parse_write {v : Value δ} (h : Plain v) : ∃ text, write v = some text ∧ parse text = readBack v 0 := by
  obtain ⟨w, hwrite, hreads⟩ := reads_written v (show 128 + 0 = 128 from rfl) (by decide) h
  exact ⟨w, hwrite, parse_of_reads hreads⟩

/-- A Java without doubles, whose digits are the ASCII ones. -/
instance : Runtime Empty where
  isFinite d := d.elim
  toString d := d.elim
  valueOf _ := none
  digit16 u :=
    if 0x30 ≤ u ∧ u ≤ 0x39 then some (u.toNat - 0x30) else if 0x61 ≤ u ∧ u ≤ 0x66 then some (u.toNat - 0x57) else none
  digit16_digit := by decide
  digit16_letter := by decide

theorem parse_write_record : ∃ text, write (.map [(ofString "a", .array [.long 1]), (ofString "b", .null)] : Value Empty) =
    some text ∧ parse text = readBack (.map [(ofString "a", .array [.long 1]), (ofString "b", .null)] : Value Empty) 0 :=
  parse_write ⟨by decide, ⟨rfl, ⟨by decide, by decide⟩, trivial⟩, trivial, trivial⟩

/-- A value inside so many lists. -/
def nested (v : Value δ) : ℕ → Value δ
  | 0 => v
  | n + 1 => .list [nested v n]

omit [Runtime δ] in
theorem plain_nested {v : Value δ} (h : Plain v) (n : ℕ) : Plain (nested v n) := by
  induction n with
  | zero => exact h
  | succ n ih => exact ⟨ih, trivial⟩

omit [Runtime δ] in
theorem readBack_nested (v : Value δ) {n depth : ℕ} (h : depth + n ≤ 65) :
    readBack (nested v n) depth = nested (readBack v (depth + n)) n := by
  induction n generalizing depth with
  | zero => rfl
  | succ n ih =>
    have hdepth : ¬64 < depth := by omega
    rw [nested, readBack, if_neg hdepth, readBackItems, readBackItems, ih (by omega), nested, Nat.add_assoc,
      Nat.add_comm 1 n]

omit [Runtime δ] in
theorem nested_injective {v w : Value δ} {n : ℕ} (h : nested v n = nested w n) : v = w := by
  induction n with
  | zero => exact h
  | succ n ih => exact ih (List.cons.inj (Value.list.inj h)).1

theorem deep_value_lost : ∃ text, write (nested (.long 1) 65 : Value Empty) = some text ∧
    parse text ≠ nested (.long 1 : Value Empty) 65 := by
  have hplain : Plain (.long 1 : Value Empty) := ⟨by decide, by decide⟩
  obtain ⟨w, hwrite, hreads⟩ := reads_written (nested (.long 1 : Value Empty) 65) (show 128 + 0 = 128 from rfl)
    (by decide) (plain_nested hplain 65)
  refine ⟨w, hwrite, fun hsame => ?_⟩
  rw [parse_of_reads hreads, readBack_nested _ (by decide)] at hsame
  exact absurd (nested_injective hsame) nofun

end

end PtaasBench.Sdk.JavaJson
