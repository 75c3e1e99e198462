import PtaasBench.Js.Text
import PtaasBench.Lib.Shortest
import PtaasBench.Py.JsonText

/-!
# PtaasBench.Js.Number — numbers as text

The numbers of JSON as they are spelled, and `Number.prototype.toString`, which spells a double with the
shortest digits that read back.
-/

namespace PtaasBench.Js

open Lib Lib.Double Py

/-! ## Spelled numbers -/

/-- A number of JSON, as it is spelled. -/
structure Numeral where
  neg : Bool
  whole : ℕ
  frac : List (Fin 10)
  exp : Option Exponent
deriving DecidableEq

def scale : Option Exponent → ℚ
  | none => 1
  | some x => if x.sign = some true then 1 / 10 ^ ofDigitList (x.first :: x.rest) else 10 ^ ofDigitList (x.first :: x.rest)

namespace Numeral

/-- The number without its sign. -/
def magnitude (n : Numeral) : ℚ := (n.whole + ofDigitList n.frac / 10 ^ n.frac.length) * scale n.exp

theorem magnitude_nonneg (n : Numeral) : 0 ≤ n.magnitude := by
  have hscale : 0 ≤ scale n.exp := by
    unfold scale
    split
    · norm_num
    · split_ifs <;> positivity
  exact mul_nonneg (by positivity) hscale

def text (n : Numeral) : List Char :=
  (if n.neg then ['-'] else []) ++ ((natDigits n.whole).map digitChar ++
    ((if n.frac = [] then [] else '.' :: n.frac.map digitChar) ++ n.exp.elim [] Exponent.text))

/-- Reads what `text` writes. -/
def read (cs : List Char) : Option Numeral :=
  (scanWhole (scanMinus cs).2).map fun x =>
    { neg := (scanMinus cs).1, whole := x.1, frac := (scanFrac x.2).1, exp := (scanExp (scanFrac x.2).2).1 }

theorem numberEnd_nil : NumberEnd [] := fun c hc => absurd hc (by simp)

theorem read_text (n : Numeral) : read n.text = some n := by
  obtain ⟨neg, whole, frac, exp⟩ := n
  have hfrac := scanFrac_text frac exp numberEnd_nil
  rw [List.append_nil] at hfrac
  have hexp : scanExp (exp.elim [] Exponent.text) = (exp, []) := by
    cases exp with
    | none => exact scanExp_none numberEnd_nil
    | some x =>
      have hx := scanExp_text x numberEnd_nil
      rwa [List.append_nil] at hx
  have hend : ∀ c ∈ ((if frac = [] then [] else '.' :: frac.map digitChar) ++
      exp.elim [] Exponent.text).head?, digitOf? c = none := by
    split_ifs with hf
    · cases exp with
      | none => exact fun c hc => absurd hc (by simp)
      | some x =>
        intro c hc
        have hc' : (if x.upper then 'E' else 'e') = c := Option.some.inj hc
        subst hc'
        cases x.upper <;> decide
    · intro c hc
      have hc' : '.' = c := Option.some.inj hc
      subst hc'
      decide
  rw [read, text]
  dsimp only
  rw [scanMinus_sign]
  dsimp only
  rw [scanWhole_natDigits _ hend, Option.map_some, hfrac, hexp]

theorem text_injective : Function.Injective text := fun m n h => by
  have hread : some m = some n := by rw [← read_text m, h, read_text]
  exact Option.some.inj hread

end Numeral

/-! ## Spelling -/

/-- The last digits of a number, so many of them. -/
def lastDigits : ℕ → ℕ → List (Fin 10)
  | 0, _ => []
  | m + 1, r => lastDigits m (r / 10) ++ [digit r]

def exponentOf (e : ℤ) : Exponent where
  upper := false
  sign := some (e < 0)
  first := (natDigits e.natAbs).headD (digit 0)
  rest := (natDigits e.natAbs).tail

/-- The digits of a decimal with the point where it belongs, or with an exponent. -/
def numeralOf (d : Decimal) : Numeral :=
  let length := d.text.length
  let point := length + d.power
  if 0 ≤ d.power ∧ point ≤ 21 then { neg := false, whole := d.digits * 10 ^ d.power.toNat, frac := [], exp := none }
  else if d.power < 0 ∧ -6 < point ∧ point ≤ 21 then
    { neg := false
      whole := d.digits / 10 ^ (-d.power).toNat
      frac := lastDigits (-d.power).toNat d.digits
      exp := none }
  else
    { neg := false
      whole := d.digits / 10 ^ (length - 1)
      frac := lastDigits (length - 1) d.digits
      exp := some (exponentOf (point - 1)) }

def zeroNumeral : Numeral := { neg := false, whole := 0, frac := [], exp := none }

/-- The spelling of a number that is not negative. -/
def spell (x : ℚ) : Numeral := if x = 0 then zeroNumeral else numeralOf (shortest 1 x).trim

/-- `String(x)` of a number by its sign and what is left of it, where `none` is the infinity. -/
def signedToString (neg : Bool) : Option ℚ → Text
  | none => ofString (if neg then "-Infinity" else "Infinity")
  | some x => ({ spell x with neg := neg && x ≠ 0 } : Numeral).text.flatMap ofChar

def numberToString (x : Option ℚ) : Text := signedToString false x

/-- `Number(s)` of a run of digits. -/
def numberOfDigits (s : Text) : Option ℚ := binary64 (digitsValue s)

/-! ## A number that was spelled reads back -/

theorem length_lastDigits (m r : ℕ) : (lastDigits m r).length = m := by
  induction m generalizing r with
  | zero => rfl
  | succ m ih => rw [lastDigits, List.length_append, ih, List.length_singleton]

theorem ofDigitList_lastDigits (m r : ℕ) : ofDigitList (lastDigits m r) = r % 10 ^ m := by
  induction m generalizing r with
  | zero => rw [lastDigits, pow_zero, Nat.mod_one]; rfl
  | succ m ih =>
    rw [lastDigits, ofDigitList_concat, ih, pow_succ, Nat.mul_comm (10 ^ m) 10, Nat.mod_mul, digit_val]
    omega

theorem lastDigits_ofDigitList (a : ℕ) (ds : List (Fin 10)) :
    lastDigits ds.length (a * 10 ^ ds.length + ofDigitList ds) = ds := by
  induction ds using List.reverseRecOn with
  | nil => rfl
  | append_singleton ds d ih =>
    have hshift : a * 10 ^ (ds.length + 1) = 10 * (a * 10 ^ ds.length) := by rw [pow_succ]; ring
    have hrest : (a * 10 ^ (ds.length + 1) + (10 * ofDigitList ds + d.val)) / 10 = a * 10 ^ ds.length + ofDigitList ds := by
      omega
    have hlast : digit (a * 10 ^ (ds.length + 1) + (10 * ofDigitList ds + d.val)) = d := by
      rw [Fin.ext_iff, digit_val]
      omega
    rw [ofDigitList_concat, List.length_append, List.length_singleton, lastDigits, hrest, hlast, ih]

theorem scale_exponentOf (e : ℤ) : scale (some (exponentOf e)) = 10 ^ e := by
  have hdigits : (natDigits e.natAbs).headD (digit 0) :: (natDigits e.natAbs).tail = natDigits e.natAbs := by
    cases h : natDigits e.natAbs with
    | nil => exact absurd h (natDigits_ne_nil _)
    | cons d ds => rfl
  rw [scale, exponentOf]
  dsimp only
  rw [hdigits, ofDigitList_natDigits]
  by_cases h : e < 0
  · rw [decide_eq_true h, if_pos rfl, one_div, ← zpow_natCast, ← zpow_neg]
    congr 1
    omega
  · rw [decide_eq_false h, if_neg (by simp), ← zpow_natCast]
    congr 1
    omega

theorem split_digits (n m : ℕ) : ((n / 10 ^ m : ℕ) : ℚ) + ((n % 10 ^ m : ℕ) : ℚ) / 10 ^ m = n / 10 ^ m := by
  have hsplit : (n : ℚ) = 10 ^ m * ((n / 10 ^ m : ℕ) : ℚ) + ((n % 10 ^ m : ℕ) : ℚ) := by
    exact_mod_cast (Nat.div_add_mod n (10 ^ m)).symm
  have hne : (10 : ℚ) ^ m ≠ 0 := pow_ne_zero _ (by norm_num)
  conv_rhs => rw [hsplit]
  field_simp

theorem numeralOf_magnitude (d : Decimal) : (numeralOf d).magnitude = d.value := by
  rw [numeralOf, Decimal.value]
  split_ifs with hwhole hpoint
  · obtain ⟨k, hk⟩ := Int.eq_ofNat_of_zero_le hwhole.1
    rw [Numeral.magnitude, hk]
    show ((d.digits * 10 ^ k : ℕ) + ((0 : ℕ) : ℚ) / 10 ^ 0) * 1 = d.digits * 10 ^ (k : ℤ)
    push_cast
    rw [zpow_natCast]
    ring
  · obtain ⟨k, hk⟩ := Int.eq_ofNat_of_zero_le (by omega : 0 ≤ -d.power)
    have hpower : d.power = -(k : ℤ) := by omega
    rw [Numeral.magnitude, hk]
    show (((d.digits / 10 ^ k : ℕ) : ℚ) + ofDigitList (lastDigits k d.digits) / 10 ^ (lastDigits k d.digits).length) * 1 = _
    rw [length_lastDigits, ofDigitList_lastDigits, split_digits, hpower, zpow_neg, zpow_natCast]
    ring
  · rw [Numeral.magnitude]
    dsimp only
    rw [scale_exponentOf, length_lastDigits, ofDigitList_lastDigits, split_digits]
    have hlength : 1 ≤ d.text.length := Nat.length_toDigits_pos
    have hpower : (d.text.length : ℤ) + d.power - 1 = ((d.text.length - 1 : ℕ) : ℤ) + d.power := by omega
    have hne : (10 : ℚ) ^ (d.text.length - 1) ≠ 0 := pow_ne_zero _ (by norm_num)
    rw [hpower, zpow_add₀ (by norm_num), zpow_natCast]
    field_simp

/-- What is spelled is read as the number. -/
theorem binary64_spell {x y : ℚ} (h : binary64 y = some x) (hx : 0 ≤ x) : binary64 (spell x).magnitude = some x := by
  rw [spell]
  split_ifs with hzero
  · have hmagnitude : zeroNumeral.magnitude = 0 := by
      show ((0 : ℕ) + ((0 : ℕ) : ℚ) / 10 ^ 0) * 1 = 0
      norm_num
    rw [hzero, hmagnitude]
    exact binary64_zero
  · rw [numeralOf_magnitude, Decimal.trim_value]
    exact shortest_reads_back h (lt_of_le_of_ne hx (Ne.symm hzero)) (by omega)

end PtaasBench.Js
