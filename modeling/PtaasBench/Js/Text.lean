import Mathlib.Data.List.DropRight

/-!
# PtaasBench.Js.Text — strings of UTF-16 units

A string is a list of 16-bit units, a surrogate without its other half among them.
-/

namespace PtaasBench.Js

abbrev Text := List UInt16

def ofChar (c : Char) : Text :=
  if c.toNat < 0x10000 then [.ofNat c.toNat]
  else [.ofNat (0xd800 + (c.toNat - 0x10000) / 0x400), .ofNat (0xdc00 + (c.toNat - 0x10000) % 0x400)]

def ofString (s : String) : Text := s.toList.flatMap ofChar

/-! ## Leaving the process -/

def isHigh (u : UInt16) : Bool := 0xd800 ≤ u && u ≤ 0xdbff

def isLow (u : UInt16) : Bool := 0xdc00 ≤ u && u ≤ 0xdfff

/-- A unit that is not half of a pair; a surrogate is replaced. -/
def scalar (u : UInt16) : Char := if isHigh u || isLow u then Char.ofNat 0xfffd else Char.ofNat u.toNat

def scalars : Text → List Char
  | [] => []
  | [u] => [scalar u]
  | u :: v :: s =>
    if isHigh u && isLow v then
      Char.ofNat (0x10000 + (u.toNat - 0xd800) * 0x400 + (v.toNat - 0xdc00)) :: scalars s
    else scalar u :: scalars (v :: s)

/-- The characters a string is written with in UTF-8. -/
def written (s : Text) : String := String.ofList (scalars s)

theorem isHigh_iff {u : UInt16} : isHigh u = true ↔ 0xd800 ≤ u.toNat ∧ u.toNat ≤ 0xdbff := by
  rw [isHigh, Bool.and_eq_true, decide_eq_true_iff, decide_eq_true_iff, UInt16.le_iff_toNat_le, UInt16.le_iff_toNat_le]
  rfl

theorem isLow_iff {u : UInt16} : isLow u = true ↔ 0xdc00 ≤ u.toNat ∧ u.toNat ≤ 0xdfff := by
  rw [isLow, Bool.and_eq_true, decide_eq_true_iff, decide_eq_true_iff, UInt16.le_iff_toNat_le, UInt16.le_iff_toNat_le]
  rfl

/-- A unit that is no surrogate is a character of its own. -/
theorem scalars_cons {u : UInt16} (h : isHigh u = false) (s : Text) : scalars (u :: s) = scalar u :: scalars s := by
  cases s with
  | nil => rfl
  | cons v s =>
    rw [scalars, if_neg]
    rw [h]
    exact Bool.false_ne_true

theorem scalars_ofChar_append (c : Char) (s : Text) : scalars (ofChar c ++ s) = c :: scalars s := by
  have hvalid : c.toNat < 0xd800 ∨ (0xdfff < c.toNat ∧ c.toNat < 0x110000) := c.valid
  rw [ofChar]
  split_ifs with h
  · have hu : (UInt16.ofNat c.toNat).toNat = c.toNat := UInt16.toNat_ofNat_of_lt h
    have hhigh : isHigh (.ofNat c.toNat) = false := by
      rw [← Bool.not_eq_true, isHigh_iff, hu]
      omega
    have hlow : isLow (.ofNat c.toNat) = false := by
      rw [← Bool.not_eq_true, isLow_iff, hu]
      omega
    rw [List.singleton_append, scalars_cons hhigh, scalar, hhigh, hlow, hu, Char.ofNat_toNat]
    rfl
  · have hlt : c.toNat - 0x10000 < 0x400 * 0x400 := by omega
    have hdiv : (c.toNat - 0x10000) / 0x400 < 0x400 := Nat.div_lt_of_lt_mul hlt
    have hmod : (c.toNat - 0x10000) % 0x400 < 0x400 := Nat.mod_lt _ (by omega)
    have hu : (UInt16.ofNat (0xd800 + (c.toNat - 0x10000) / 0x400)).toNat = 0xd800 + (c.toNat - 0x10000) / 0x400 :=
      UInt16.toNat_ofNat_of_lt (by show _ < 2 ^ 16; omega)
    have hv : (UInt16.ofNat (0xdc00 + (c.toNat - 0x10000) % 0x400)).toNat = 0xdc00 + (c.toNat - 0x10000) % 0x400 :=
      UInt16.toNat_ofNat_of_lt (by show _ < 2 ^ 16; omega)
    rw [List.cons_append, List.singleton_append, scalars, if_pos]
    · have hc : 0x10000 + ((UInt16.ofNat (0xd800 + (c.toNat - 0x10000) / 0x400)).toNat - 0xd800) * 0x400 +
          ((UInt16.ofNat (0xdc00 + (c.toNat - 0x10000) % 0x400)).toNat - 0xdc00) = c.toNat := by omega
      rw [hc, Char.ofNat_toNat]
    · rw [Bool.and_eq_true, isHigh_iff, isLow_iff, hu, hv]
      omega

theorem scalars_ofString (s : List Char) : scalars (s.flatMap ofChar) = s := by
  induction s with
  | nil => rfl
  | cons c s ih => rw [List.flatMap_cons, scalars_ofChar_append, ih]

/-- What was read is written as it was. -/
theorem written_ofString (s : String) : written (ofString s) = s := by
  rw [written, ofString, scalars_ofString, String.ofList_toList]

theorem ofString_injective : Function.Injective ofString := fun a b h => by
  rw [← written_ofString a, h, written_ofString]

/-! ## Classes of units -/

/-- `\s` -/
def isSpace (u : UInt16) : Bool :=
  (9 ≤ u && u ≤ 13) || u == 0x20 || u == 0xa0 || u == 0x1680 || (0x2000 ≤ u && u ≤ 0x200a) || u == 0x2028 ||
    u == 0x2029 || u == 0x202f || u == 0x205f || u == 0x3000 || u == 0xfeff

/-- `\d` -/
def isDigit (u : UInt16) : Bool := 0x30 ≤ u && u ≤ 0x39

/-- `\w` -/
def isWord (u : UInt16) : Bool :=
  isDigit u || (0x41 ≤ u && u ≤ 0x5a) || u == 0x5f || (0x61 ≤ u && u ≤ 0x7a)

/-- ASCII letters in lower case. -/
def lower (u : UInt16) : UInt16 := if 0x41 ≤ u && u ≤ 0x5a then u + 32 else u

/-! ## Methods of strings -/

def trim (s : Text) : Text := (s.dropWhile isSpace).rdropWhile isSpace

def split (sep : Char) (s : Text) : List Text := s.splitOn (.ofNat sep.toNat)

def join (sep : String) (parts : List Text) : Text := (ofString sep).intercalate parts

def startsWith (s : Text) (w : String) : Bool := (ofString w).isPrefixOf s

/-- The number a run of digits spells. -/
def digitsValue (s : Text) : ℕ := s.foldl (fun n u => 10 * n + (u.toNat - 0x30)) 0

/-! ## Whole numbers -/

theorem repr_nat_injective : Function.Injective Nat.repr := fun m n h => by
  have hdigits : Nat.toDigits 10 m = Nat.toDigits 10 n := by rw [← Nat.toList_repr, h, Nat.toList_repr]
  rw [← Nat.ofDigitChars_ten_toDigits (n := m), hdigits, Nat.ofDigitChars_ten_toDigits]

/-- No number is written like a negative one that is not. -/
theorem repr_ne_minus (m : ℕ) (s : String) : Nat.repr m ≠ "-" ++ s := fun h => by
  have hmem : '-' ∈ Nat.toDigits 10 m := by
    rw [← Nat.toList_repr, h, String.toList_append]
    exact List.mem_append_left _ (by decide)
  exact absurd (Nat.isDigit_of_mem_toDigits (by omega) (by omega) hmem) (by decide)

theorem toString_int_injective : Function.Injective (toString : ℤ → String) := fun a b h => by
  change a.repr = b.repr at h
  cases a with
  | ofNat m =>
    cases b with
    | ofNat n => exact congrArg Int.ofNat (repr_nat_injective h)
    | negSucc n => exact absurd h (repr_ne_minus m _)
  | negSucc m =>
    cases b with
    | ofNat n => exact absurd h.symm (repr_ne_minus n _)
    | negSucc n =>
      have hrest : (Nat.repr (m + 1)).toList = (Nat.repr (n + 1)).toList := by
        have hlist := congrArg String.toList h
        rw [Int.repr, Int.repr, String.toList_append, String.toList_append] at hlist
        exact List.append_cancel_left hlist
      exact congrArg Int.negSucc (Nat.succ_injective (repr_nat_injective (String.toList_injective hrest)))

end PtaasBench.Js
