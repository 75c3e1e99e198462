import Mathlib.Data.List.DropRight
import PtaasBench.Lib.Double

/-!
# PtaasBench.Lib.Shortest — the shortest decimals that read back

`binary64` rounds a rational to the nearest double, with the exponents doubles have; of the decimals that
are rounded to a double, the shortest are looked for, and of these the closest.
-/

namespace PtaasBench.Lib.Double

/-! ## Doubles -/

/-- The exponent of the last bit, where no bit is below `2 ^ (-1074)`. -/
def unit (x : ℚ) : ℤ := max (lastBit x) (-1074)

/-- The nearest double; `none` is an infinity. -/
def binary64 (x : ℚ) : Option ℚ :=
  let r : ℚ := roundEven (x / 2 ^ unit x) * 2 ^ unit x
  if |r| < 2 ^ 1024 then some r else none

theorem binary64_of_mul {x : ℚ} {k e : ℤ} (h : x = k * 2 ^ e) (he : unit x ≤ e) (hx : |x| < 2 ^ 1024) :
    binary64 x = some x := by
  obtain ⟨d, hd⟩ := Int.le.dest he
  have hne : (2 : ℚ) ^ unit x ≠ 0 := zpow_ne_zero _ (by norm_num)
  have hscaled : x / 2 ^ unit x = ((k * 2 ^ d : ℤ) : ℚ) := by
    rw [div_eq_iff hne]
    conv_lhs => rw [h]
    rw [← hd, zpow_add₀ (by norm_num), zpow_natCast]
    push_cast
    ring
  have hround : (roundEven (x / 2 ^ unit x) : ℚ) * 2 ^ unit x = x := by
    rw [hscaled, roundEven_intCast, ← hscaled, div_mul_cancel₀ _ hne]
  rw [binary64, hround, if_pos hx]

theorem binary64_zero : binary64 0 = some 0 := by
  apply binary64_of_mul (k := 0) (e := unit 0) _ le_rfl (by norm_num)
  rw [Int.cast_zero, zero_mul]

theorem binary64_nonneg {x y : ℚ} (h : binary64 y = some x) (hy : 0 ≤ y) : 0 ≤ x := by
  rw [binary64] at h
  split_ifs at h
  have hpos : (0 : ℚ) < 2 ^ unit y := zpow_pos (by norm_num) _
  have hround : 0 ≤ roundEven (y / 2 ^ unit y) := by
    have hscaled : ((0 : ℤ) : ℚ) ≤ y / 2 ^ unit y := by
      rw [Int.cast_zero]
      exact div_nonneg hy hpos.le
    exact le_roundEven hscaled
  rw [← Option.some.inj h]
  exact mul_nonneg (by exact_mod_cast hround) hpos.le

/-- What is rounded fills 53 bits, or one bit more that is the only one. -/
theorem abs_roundEven_le (x : ℚ) : |roundEven (x / 2 ^ unit x)| ≤ 2 ^ 53 := by
  have hpos : (0 : ℚ) < 2 ^ unit x := zpow_pos (by norm_num) _
  have hlt : |x / 2 ^ unit x| < 2 ^ 53 := by
    by_cases hzero : x = 0
    · rw [hzero, zero_div, abs_zero]
      norm_num
    · have hbits : |x| < 2 ^ (lastBit x + 53) := by
        rw [lastBit, show Int.log 2 |x| - 52 + 53 = Int.log 2 |x| + 1 from by ring]
        exact_mod_cast Int.lt_zpow_succ_log_self (by norm_num : 1 < 2) |x|
      rw [abs_div, abs_of_pos hpos, div_lt_iff₀ hpos, ← zpow_natCast, ← zpow_add₀ (by norm_num)]
      refine hbits.trans_le (zpow_le_zpow_right₀ (by norm_num) ?_)
      have hunit : lastBit x ≤ unit x := le_max_left _ _
      push_cast
      omega
  have hclose := abs_roundEven_sub_le (x / 2 ^ unit x)
  have hreal : |(roundEven (x / 2 ^ unit x) : ℚ)| < 2 ^ 53 + 1 := by
    have htri := abs_sub_abs_le_abs_sub (roundEven (x / 2 ^ unit x) : ℚ) (x / 2 ^ unit x)
    linarith
  have hint : |roundEven (x / 2 ^ unit x)| < 2 ^ 53 + 1 := by exact_mod_cast hreal
  omega

/-- A double is a double. -/
theorem binary64_idem {x y : ℚ} (h : binary64 y = some x) : binary64 x = some x := by
  rw [binary64] at h
  split_ifs at h with hlt
  have hx : x = roundEven (y / 2 ^ unit y) * 2 ^ unit y := (Option.some.inj h).symm
  rw [← hx] at hlt
  by_cases hzero : x = 0
  · rw [hzero, binary64_zero]
  have hbound := abs_roundEven_le y
  rcases lt_or_eq_of_le hbound with hsmall | hfull
  · refine binary64_of_mul hx (max_le ?_ (le_max_right _ _)) hlt
    refine lastBit_le hzero ?_
    have hcast : |(roundEven (y / 2 ^ unit y) : ℚ)| < 2 ^ 53 := by exact_mod_cast hsmall
    rw [hx, abs_mul, abs_of_pos (zpow_pos (by norm_num) _ : (0 : ℚ) < 2 ^ unit y), add_comm, zpow_add₀ (by norm_num)]
    exact mul_lt_mul_of_pos_right hcast (zpow_pos (by norm_num) _)
  · obtain ⟨m, hm⟩ : ∃ m : ℤ, roundEven (y / 2 ^ unit y) = 2 * m := by
      rcases (abs_eq (by norm_num)).mp hfull with hpos | hneg
      · exact ⟨2 ^ 52, by rw [hpos]; norm_num⟩
      · exact ⟨-2 ^ 52, by rw [hneg]; norm_num⟩
    have hnext : x = m * 2 ^ (unit y + 1) := by
      rw [hx, hm, zpow_add₀ (by norm_num), zpow_one]
      push_cast
      ring
    refine binary64_of_mul hnext (max_le ?_ ((le_max_right _ _).trans (by omega : unit y ≤ unit y + 1))) hlt
    refine lastBit_le hzero ?_
    have hcast : |(roundEven (y / 2 ^ unit y) : ℚ)| = 2 ^ 53 := by exact_mod_cast hfull
    have hstep : (2 : ℚ) ^ (unit y + 1 + 53) = 2 * (2 ^ 53 * 2 ^ unit y) := by
      rw [show unit y + 1 + 53 = 1 + ((53 : ℕ) + unit y) from by push_cast; ring, zpow_add₀ (by norm_num),
        zpow_add₀ (by norm_num), zpow_one, zpow_natCast]
    have hpos : (0 : ℚ) < 2 ^ 53 * 2 ^ unit y := mul_pos (by norm_num) (zpow_pos (by norm_num) _)
    rw [hstep, hx, abs_mul, abs_of_pos (zpow_pos (by norm_num) _ : (0 : ℚ) < 2 ^ unit y), hcast]
    linarith

/-- A double is a decimal of 1074 digits behind the point. -/
theorem exists_multiple {x y : ℚ} (h : binary64 y = some x) {n : ℕ} (hn : 1074 ≤ n) : ∃ k : ℤ, x * 10 ^ n = k := by
  rw [binary64] at h
  split_ifs at h
  have hx : x = roundEven (y / 2 ^ unit y) * 2 ^ unit y := (Option.some.inj h).symm
  have hunit : -1074 ≤ unit y := le_max_right _ _
  obtain ⟨d, hd⟩ := Int.eq_ofNat_of_zero_le (by omega : 0 ≤ unit y + n)
  refine ⟨roundEven (y / 2 ^ unit y) * 2 ^ d * 5 ^ n, ?_⟩
  have hpow : (10 : ℚ) ^ n = 2 ^ (n : ℤ) * 5 ^ n := by
    rw [zpow_natCast, ← mul_pow]
    norm_num
  have hshift : (2 : ℚ) ^ unit y * 2 ^ (n : ℤ) = 2 ^ d := by
    rw [← zpow_add₀ (by norm_num), hd]
    exact zpow_natCast 2 d
  rw [hx, hpow]
  push_cast
  rw [← hshift]
  ring

/-! ## Decimals -/

structure Decimal where
  digits : ℕ
  power : ℤ

namespace Decimal

def value (d : Decimal) : ℚ := d.digits * 10 ^ d.power

/-- Zeros at the end moved to the power. -/
def trimZeros : ℕ → Decimal → Decimal
  | 0, d => d
  | n + 1, d => if d.digits % 10 = 0 then trimZeros n ⟨d.digits / 10, d.power + 1⟩ else d

/-- The digits as text. -/
def text (d : Decimal) : List Char := Nat.toDigits 10 d.digits

def trim (d : Decimal) : Decimal := d.trimZeros d.text.length

theorem trimZeros_value (n : ℕ) (d : Decimal) : (d.trimZeros n).value = d.value := by
  induction n generalizing d with
  | zero => rfl
  | succ n ih =>
    rw [trimZeros]
    split_ifs with h
    · have hdigits : (d.digits : ℚ) = 10 * (d.digits / 10 : ℕ) := by
        exact_mod_cast (Nat.mul_div_cancel' (Nat.dvd_of_mod_eq_zero h)).symm
      rw [ih, value, value, hdigits, zpow_add₀ (by norm_num), zpow_one]
      ring
    · rfl

theorem trim_value (d : Decimal) : d.trim.value = d.value := trimZeros_value _ _

theorem trimZeros_mod {n : ℕ} {d : Decimal} (hpos : d.digits ≠ 0) (h : d.digits < 10 ^ n) :
    (d.trimZeros n).digits % 10 ≠ 0 := by
  induction n generalizing d with
  | zero => omega
  | succ n ih =>
    rw [trimZeros]
    split_ifs with hmod
    · refine ih ?_ ?_
      · show d.digits / 10 ≠ 0
        omega
      · show d.digits / 10 < 10 ^ n
        rw [pow_succ] at h
        omega
    · exact hmod

theorem digits_lt (d : Decimal) : d.digits < 10 ^ d.text.length :=
  (Nat.length_toDigits_le_iff (by omega) Nat.length_toDigits_pos).mp le_rfl

theorem trim_mod {d : Decimal} (h : d.digits ≠ 0) : d.trim.digits % 10 ≠ 0 := trimZeros_mod h (digits_lt d)

theorem le_digits {d : Decimal} (h : d.digits ≠ 0) : 10 ^ (d.text.length - 1) ≤ d.digits := by
  by_contra hlt
  have hpos : 0 < d.text.length := Nat.length_toDigits_pos
  rcases Nat.eq_zero_or_pos (d.text.length - 1) with hone | hmore
  · rw [hone, pow_zero] at hlt
    omega
  · have hle : d.text.length ≤ d.text.length - 1 :=
      (Nat.length_toDigits_le_iff (by omega) hmore).mpr (not_le.mp hlt)
    omega

/-- The point stands where the size of the number puts it. -/
theorem value_bounds {d : Decimal} (h : d.digits ≠ 0) :
    (10 : ℚ) ^ ((d.text.length : ℤ) + d.power - 1) ≤ d.value ∧ d.value < 10 ^ ((d.text.length : ℤ) + d.power) := by
  have hlength : 0 < d.text.length := Nat.length_toDigits_pos
  have hpos : (0 : ℚ) < 10 ^ d.power := zpow_pos (by norm_num) _
  have hle : ((10 ^ (d.text.length - 1) : ℕ) : ℚ) ≤ d.digits := by exact_mod_cast le_digits h
  have hlt : (d.digits : ℚ) < ((10 ^ d.text.length : ℕ) : ℚ) := by exact_mod_cast digits_lt d
  push_cast at hle hlt
  constructor
  · rw [show (d.text.length : ℤ) + d.power - 1 = ((d.text.length - 1 : ℕ) : ℤ) + d.power from by omega,
      zpow_add₀ (by norm_num), zpow_natCast]
    exact mul_le_mul_of_nonneg_right hle hpos.le
  · rw [zpow_add₀ (by norm_num), zpow_natCast]
    exact mul_lt_mul_of_pos_right hlt hpos

/-- Digits that do not end in zero are the digits of one number. -/
theorem eq_of_value {d e : Decimal} (hd : d.digits % 10 ≠ 0) (he : e.digits % 10 ≠ 0) (h : d.value = e.value) :
    d = e := by
  have hmul : ∀ {a b : Decimal}, a.digits % 10 ≠ 0 → a.value = b.value → a.power ≤ b.power →
      a.power = b.power ∧ a.digits = b.digits := by
    intro a b ha hab hle
    obtain ⟨k, hk⟩ := Int.le.dest hle
    have hne : (10 : ℚ) ^ a.power ≠ 0 := zpow_ne_zero _ (by norm_num)
    have hdigits : (a.digits : ℚ) = b.digits * 10 ^ k := by
      rw [value, value, ← hk, zpow_add₀ (by norm_num), zpow_natCast, mul_comm ((10 : ℚ) ^ a.power), ← mul_assoc] at hab
      exact mul_right_cancel₀ hne hab
    have hnat : a.digits = b.digits * 10 ^ k := by exact_mod_cast hdigits
    cases k with
    | zero => exact ⟨by omega, by rw [hnat, pow_zero, mul_one]⟩
    | succ k =>
      rw [pow_succ, ← mul_assoc] at hnat
      omega
  obtain ⟨digits, power⟩ := d
  obtain ⟨digits', power'⟩ := e
  rw [mk.injEq]
  rcases le_total power power' with hle | hle
  · exact (hmul hd h hle).symm
  · exact (hmul he h.symm hle).symm.imp Eq.symm Eq.symm

end Decimal

/-- The decimals next to a positive double that have the given number of digits and read back as it. -/
def candidates (x : ℚ) (length : ℕ) : List Decimal :=
  let power := Int.log 10 x + 1 - length
  let below := ⌊x / 10 ^ power⌋.toNat
  [⟨below, power⟩, ⟨below + 1, power⟩].filter fun d => binary64 d.value = some x

/-- Of two neighbours the closer one, and the even one of two that are as close. -/
def closest (x : ℚ) : List Decimal → Option Decimal
  | [d, e] =>
    if x - d.value < e.value - x ∨ (x - d.value = e.value - x ∧ d.digits % 2 = 0) then some d else some e
  | ds => ds.head?

/-- The shortest decimal of a positive double, with no fewer digits than asked for.  At most 17 digits are
needed; those of the double itself are fewer than 1400. -/
def shortest (least : ℕ) (x : ℚ) : Decimal :=
  ((List.range' least 1400).findSome? fun length => closest x (candidates x length)).getD ⟨0, 0⟩

theorem closest_mem {x : ℚ} {ds : List Decimal} {d : Decimal} (h : closest x ds = some d) : d ∈ ds := by
  unfold closest at h
  split at h
  · split_ifs at h
    · rw [← Option.some.inj h]
      exact List.mem_cons_self
    · rw [← Option.some.inj h]
      exact List.mem_cons_of_mem _ List.mem_cons_self
  · exact List.mem_of_mem_head? h

theorem closest_isSome {x : ℚ} {ds : List Decimal} (h : ds ≠ []) : (closest x ds).isSome := by
  unfold closest
  split
  · split_ifs <;> rfl
  · rw [List.isSome_head?]
    exact h

/-- Far enough behind the point, a double is a candidate for itself. -/
theorem candidates_ne_nil {x y : ℚ} (h : binary64 y = some x) (hx : 0 < x) {length : ℕ}
    (hlength : Int.log 10 x + 1075 ≤ length) : candidates x length ≠ [] := by
  obtain ⟨n, hn⟩ := Int.eq_ofNat_of_zero_le (by omega : 0 ≤ length - (Int.log 10 x + 1))
  obtain ⟨k, hk⟩ := exists_multiple h (n := n) (by omega)
  have hpower : Int.log 10 x + 1 - length = -(n : ℤ) := by omega
  have hscaled : x / 10 ^ (Int.log 10 x + 1 - (length : ℤ)) = k := by
    rw [hpower, zpow_neg, zpow_natCast, div_inv_eq_mul, hk]
  have hkpos : 0 ≤ k := by
    have hpos : (0 : ℚ) ≤ k := by
      rw [← hk]
      exact mul_nonneg hx.le (pow_nonneg (by norm_num) _)
    exact_mod_cast hpos
  have hvalue : (⟨k.toNat, Int.log 10 x + 1 - length⟩ : Decimal).value = x := by
    have hcast : ((k.toNat : ℕ) : ℚ) = k := by exact_mod_cast Int.toNat_of_nonneg hkpos
    have hne : (10 : ℚ) ^ n ≠ 0 := pow_ne_zero _ (by norm_num)
    rw [Decimal.value, hcast, hpower, zpow_neg, zpow_natCast, ← hk, mul_inv_cancel_right₀ hne]
  have hmem : (⟨k.toNat, Int.log 10 x + 1 - length⟩ : Decimal) ∈ candidates x length := by
    rw [candidates, hscaled, Int.floor_intCast]
    refine List.mem_filter.mpr ⟨List.mem_cons_self, decide_eq_true ?_⟩
    rw [hvalue]
    exact binary64_idem h
  exact List.ne_nil_of_mem hmem

theorem log_double_le {x y : ℚ} (h : binary64 y = some x) (hx : 0 < x) : Int.log 10 x < 309 := by
  rw [binary64] at h
  split_ifs at h with hlt
  rw [Option.some.inj h, abs_of_pos hx] at hlt
  have hpow : (2 : ℕ) ^ 1024 < 10 ^ 309 := by decide +kernel
  have hcast : (2 : ℚ) ^ 1024 < 10 ^ (309 : ℕ) := by exact_mod_cast hpow
  rw [← Int.lt_zpow_iff_log_lt (by norm_num) hx]
  exact hlt.trans (by exact_mod_cast hcast)

/-- The shortest decimal of a double is rounded to it. -/
theorem shortest_reads_back {x y : ℚ} (h : binary64 y = some x) (hx : 0 < x) {least : ℕ} (hleast : least ≤ 2) :
    binary64 (shortest least x).value = some x := by
  have hlog := log_double_le h hx
  have hfound : ((List.range' least 1400).findSome? fun length => closest x (candidates x length)).isSome := by
    rw [List.findSome?_isSome_iff]
    refine ⟨1390, List.mem_range'.mpr ⟨1390 - least, by omega, by omega⟩, ?_⟩
    exact closest_isSome (candidates_ne_nil h hx (by push_cast; omega))
  obtain ⟨d, hd⟩ := Option.isSome_iff_exists.mp hfound
  obtain ⟨length, _, hclosest⟩ := List.exists_of_findSome?_eq_some hd
  rw [shortest, hd, Option.getD_some]
  exact of_decide_eq_true (List.mem_filter.mp (closest_mem hclosest)).2

/-! ## Two digits and more -/

theorem abs_binary64_sub_le {x y : ℚ} (h : binary64 y = some x) : |x - y| ≤ 2 ^ unit y / 2 := by
  rw [binary64] at h
  split_ifs at h
  have hpos : (0 : ℚ) < 2 ^ unit y := zpow_pos (by norm_num) _
  have hy : y = y / 2 ^ unit y * 2 ^ unit y := by field_simp
  calc |x - y| = |(roundEven (y / 2 ^ unit y) - y / 2 ^ unit y) * 2 ^ unit y| := by
        rw [sub_mul, ← hy, Option.some.inj h]
    _ = |(roundEven (y / 2 ^ unit y) : ℚ) - y / 2 ^ unit y| * 2 ^ unit y := by rw [abs_mul, abs_of_pos hpos]
    _ ≤ 1 / 2 * 2 ^ unit y := mul_le_mul_of_nonneg_right (abs_roundEven_sub_le _) hpos.le
    _ = 2 ^ unit y / 2 := by ring

/-- Where no bit is lost below `2 ^ (-1074)`, a number is rounded by less than its `2 ^ 53`th part. -/
theorem abs_binary64_sub_le_of_le {x y : ℚ} (h : binary64 y = some x) (hy : 1 / 10 ^ 4 ≤ y) : |x - y| ≤ y / 2 ^ 53 := by
  have hpos : 0 < y := lt_of_lt_of_le (by norm_num) hy
  have hlog : (2 : ℚ) ^ Int.log 2 y ≤ y := by exact_mod_cast Int.zpow_log_le_self (by norm_num : 1 < 2) hpos
  have hlow : -14 ≤ Int.log 2 y := by
    rw [← Int.zpow_le_iff_le_log (by norm_num) hpos]
    refine le_trans ?_ hy
    norm_num
  have hunit : unit y = Int.log 2 y - 52 := by
    rw [unit, lastBit, abs_of_pos hpos]
    exact max_eq_left (by omega)
  refine (abs_binary64_sub_le h).trans ?_
  rw [hunit, zpow_sub₀ (by norm_num), div_div, le_div_iff₀ (by norm_num), div_mul_eq_mul_div]
  rw [div_le_iff₀ (by norm_num)]
  norm_num
  linarith

theorem le_of_le_binary64 {x y : ℚ} (h : binary64 y = some x) (hy : 0 ≤ y) (hx : 1 / 1000 ≤ x) : 1 / 10 ^ 4 ≤ y := by
  by_contra hlt
  have hsmall : y < 1 / 10 ^ 4 := not_le.mp hlt
  rcases hy.eq_or_lt with rfl | hpos
  · rw [binary64_zero] at h
    rw [← Option.some.inj h] at hx
    norm_num at hx
  · have hlog : Int.log 2 |y| < 0 := by
      rw [abs_of_pos hpos, ← Int.lt_zpow_iff_log_lt (by norm_num) hpos]
      refine hsmall.trans ?_
      norm_num
    have hunit : (2 : ℚ) ^ unit y ≤ 2 ^ (-52 : ℤ) := by
      refine zpow_le_zpow_right₀ (by norm_num) (max_le ?_ (by norm_num))
      rw [lastBit]
      omega
    have hround := (abs_le.mp (abs_binary64_sub_le h)).2
    norm_num at hunit hsmall hx
    linarith

/-- Decimals of few digits are told apart by the doubles they are rounded to. -/
theorem digits_unique {x : ℚ} {m n : ℕ} {p : ℤ} (hm : binary64 (m * 10 ^ p) = some x)
    (hn : binary64 (n * 10 ^ p) = some x) (hlow : 1 / 10 ^ 4 ≤ (m : ℚ) * 10 ^ p) (hlow' : 1 / 10 ^ 4 ≤ (n : ℚ) * 10 ^ p)
    (hsmall : m ≤ 1000) (hsmall' : n ≤ 1000) : m = n := by
  have hpos : (0 : ℚ) < 10 ^ p := zpow_pos (by norm_num) _
  have hclose := abs_le.mp (abs_binary64_sub_le_of_le hm hlow)
  have hclose' := abs_le.mp (abs_binary64_sub_le_of_le hn hlow')
  have hm1 : (m : ℚ) ≤ 1000 := by exact_mod_cast hsmall
  have hn1 : (n : ℚ) ≤ 1000 := by exact_mod_cast hsmall'
  have hmbound : (m : ℚ) * 10 ^ p ≤ 1000 * 10 ^ p := mul_le_mul_of_nonneg_right hm1 hpos.le
  have hnbound : (n : ℚ) * 10 ^ p ≤ 1000 * 10 ^ p := mul_le_mul_of_nonneg_right hn1 hpos.le
  have hlt : (m : ℚ) * 10 ^ p < (n + 1) * 10 ^ p := by
    norm_num at hclose hclose'
    linarith
  have hlt' : (n : ℚ) * 10 ^ p < (m + 1) * 10 ^ p := by
    norm_num at hclose hclose'
    linarith
  have hmn : (m : ℚ) < n + 1 := lt_of_mul_lt_mul_right hlt hpos.le
  have hnm : (n : ℚ) < m + 1 := lt_of_mul_lt_mul_right hlt' hpos.le
  have hmn' : m < n + 1 := by exact_mod_cast hmn
  have hnm' : n < m + 1 := by exact_mod_cast hnm
  omega

theorem mem_candidates {x : ℚ} {length : ℕ} {d : Decimal} :
    d ∈ candidates x length ↔
      (d.digits = ⌊x / 10 ^ d.power⌋.toNat ∨ d.digits = ⌊x / 10 ^ d.power⌋.toNat + 1) ∧
      d.power = Int.log 10 x + 1 - length ∧ binary64 d.value = some x := by
  obtain ⟨digits, power⟩ := d
  rw [candidates, List.mem_filter, List.mem_cons, List.mem_singleton, Decimal.mk.injEq, Decimal.mk.injEq,
    decide_eq_true_iff]
  constructor
  · rintro ⟨⟨hdigits, rfl⟩ | ⟨hdigits, rfl⟩, hreads⟩
    · exact ⟨.inl hdigits, rfl, hreads⟩
    · exact ⟨.inr hdigits, rfl, hreads⟩
  · rintro ⟨hdigits, rfl, hreads⟩
    exact ⟨hdigits.imp (fun h => ⟨h, rfl⟩) fun h => ⟨h, rfl⟩, hreads⟩

/-- The digits next to a number are as many as were asked for. -/
theorem floor_bounds {x : ℚ} (hx : 0 < x) {n : ℕ} {p : ℤ} (hp : p = Int.log 10 x - n) :
    10 ^ n ≤ ⌊x / 10 ^ p⌋.toNat ∧ ⌊x / 10 ^ p⌋.toNat < 10 ^ (n + 1) := by
  have hpos : (0 : ℚ) < 10 ^ p := zpow_pos (by norm_num) _
  have hle : (10 : ℚ) ^ Int.log 10 x ≤ x := by exact_mod_cast Int.zpow_log_le_self (by norm_num : 1 < 10) hx
  have hlt : x < 10 ^ (Int.log 10 x + 1) := by exact_mod_cast Int.lt_zpow_succ_log_self (by norm_num : 1 < 10) x
  have hlow : ((10 ^ n : ℤ) : ℚ) ≤ x / 10 ^ p := by
    rw [le_div_iff₀ hpos]
    refine le_trans (le_of_eq ?_) hle
    push_cast
    rw [← zpow_natCast, ← zpow_add₀ (by norm_num)]
    congr 1
    omega
  have hhigh : x / 10 ^ p < ((10 ^ (n + 1) : ℤ) : ℚ) := by
    rw [div_lt_iff₀ hpos]
    refine lt_of_lt_of_le hlt (le_of_eq ?_)
    push_cast
    rw [← zpow_natCast, ← zpow_add₀ (by norm_num)]
    congr 1
    push_cast
    omega
  have hfloor := Int.le_floor.mpr hlow
  have hfloor' := Int.floor_lt.mpr hhigh
  have hcast : ((10 ^ n : ℕ) : ℤ) = 10 ^ n := by push_cast; rfl
  have hcast' : ((10 ^ (n + 1) : ℕ) : ℤ) = 10 ^ (n + 1) := by push_cast; rfl
  omega

/-- A decimal of few digits is next to the double it is rounded to. -/
theorem digits_floor {x : ℚ} {n : ℕ} {p : ℤ} (h : binary64 (n * 10 ^ p) = some x) (hlow : 1 / 10 ^ 4 ≤ (n : ℚ) * 10 ^ p)
    (hsmall : n ≤ 1000) : (n : ℤ) = ⌊x / 10 ^ p⌋ ∨ (n : ℤ) = ⌊x / 10 ^ p⌋ + 1 := by
  have hpos : (0 : ℚ) < 10 ^ p := zpow_pos (by norm_num) _
  have hclose := abs_le.mp (abs_binary64_sub_le_of_le h hlow)
  have hn : (n : ℚ) ≤ 1000 := by exact_mod_cast hsmall
  have hbound : (n : ℚ) * 10 ^ p ≤ 1000 * 10 ^ p := mul_le_mul_of_nonneg_right hn hpos.le
  norm_num at hclose
  have hbelow : ((n - 1 : ℤ) : ℚ) ≤ x / 10 ^ p := by
    rw [le_div_iff₀ hpos]
    push_cast
    linarith
  have habove : x / 10 ^ p < ((n + 1 : ℤ) : ℚ) := by
    rw [div_lt_iff₀ hpos]
    push_cast
    linarith
  have hfloor := Int.le_floor.mpr hbelow
  have hfloor' := Int.floor_lt.mpr habove
  omega

/-- What one digit spells, two digits spell no other way. -/
theorem candidates_two {x : ℚ} (hx : 1 / 1000 ≤ x) {d : Decimal} (hd : d ∈ candidates x 1) :
    candidates x 2 ≠ [] ∧ ∀ e ∈ candidates x 2, e.value = d.value := by
  have hpos : 0 < x := lt_of_lt_of_le (by norm_num) hx
  have hlog : -3 ≤ Int.log 10 x := by
    rw [← Int.zpow_le_iff_le_log (by norm_num) hpos]
    refine le_trans ?_ hx
    norm_num
  obtain ⟨hdigits, hpower, hreads⟩ := mem_candidates.mp hd
  obtain ⟨p, hp⟩ : ∃ p, p = Int.log 10 x - 1 := ⟨_, rfl⟩
  have hone : 1 ≤ ⌊x / 10 ^ d.power⌋.toNat ∧ ⌊x / 10 ^ d.power⌋.toNat < 10 :=
    floor_bounds (n := 0) hpos (by push_cast at hpower ⊢; omega)
  have htwo : 10 ≤ ⌊x / 10 ^ p⌋.toNat ∧ ⌊x / 10 ^ p⌋.toNat < 100 :=
    floor_bounds (n := 1) hpos (by push_cast; exact hp)
  have hvalue : d.value = ((10 * d.digits : ℕ) : ℚ) * 10 ^ p := by
    have hstep : d.power = 1 + p := by push_cast at hpower; omega
    rw [Decimal.value, hstep, zpow_one_add₀ (by norm_num)]
    push_cast
    ring
  have hlow : ∀ n : ℕ, 1 ≤ n → (1 : ℚ) / 10 ^ 4 ≤ n * 10 ^ p := by
    intro n hn
    have hn1 : (1 : ℚ) ≤ n := by exact_mod_cast hn
    have hunit : (1 : ℚ) / 10 ^ 4 ≤ 10 ^ p := by
      calc (1 : ℚ) / 10 ^ 4 = 10 ^ (-4 : ℤ) := by norm_num
        _ ≤ 10 ^ p := zpow_le_zpow_right₀ (by norm_num) (by omega)
    exact hunit.trans (le_mul_of_one_le_left (le_trans (by norm_num) hunit) hn1)
  rw [hvalue] at hreads
  have hexponent : Int.log 10 x + 1 - ((2 : ℕ) : ℤ) = p := by push_cast; omega
  have hpositive : 1 ≤ 10 * d.digits := by omega
  have hsmall : 10 * d.digits ≤ 1000 := by omega
  constructor
  · have hfloor := digits_floor hreads (hlow _ hpositive) hsmall
    have hnext : 10 * d.digits = ⌊x / 10 ^ p⌋.toNat ∨ 10 * d.digits = ⌊x / 10 ^ p⌋.toNat + 1 := by omega
    have hmem : (⟨10 * d.digits, p⟩ : Decimal) ∈ candidates x 2 := by
      rw [mem_candidates, hexponent, Decimal.value]
      exact ⟨hnext, rfl, hreads⟩
    exact List.ne_nil_of_mem hmem
  · intro e he
    obtain ⟨hdigits', hpower', hreads'⟩ := mem_candidates.mp he
    rw [hexponent] at hpower'
    rw [hpower'] at hdigits'
    rw [Decimal.value, hpower'] at hreads'
    have hpositive' : 1 ≤ e.digits := by omega
    have hsmall' : e.digits ≤ 1000 := by omega
    have heq := digits_unique hreads' hreads (hlow _ hpositive') (hlow _ hpositive) hsmall' hsmall
    rw [Decimal.value, hpower', heq, hvalue]

/-- Where no bit is lost, asking for two digits gives no other number than asking for one. -/
theorem shortest_two {x y : ℚ} (h : binary64 y = some x) (hx : 1 / 1000 ≤ x) :
    (shortest 2 x).value = (shortest 1 x).value := by
  have hpos : 0 < x := lt_of_lt_of_le (by norm_num) hx
  have hlog := log_double_le h hpos
  have hlast : List.range' 2 1400 = List.range' 2 1399 ++ [1401] := List.range'_concat
  have hfirst : List.range' 1 1400 = 1 :: List.range' 2 1399 := rfl
  cases hone : closest x (candidates x 1) with
  | none =>
    have hfound : ((List.range' 2 1399).findSome? fun length => closest x (candidates x length)).isSome := by
      rw [List.findSome?_isSome_iff]
      refine ⟨1390, List.mem_range'.mpr ⟨1388, by omega, by omega⟩, ?_⟩
      exact closest_isSome (candidates_ne_nil h hpos (by push_cast; omega))
    obtain ⟨d, hd⟩ := Option.isSome_iff_exists.mp hfound
    have htwo : shortest 2 x = d := by
      rw [shortest, hlast, List.findSome?_append, hd]
      rfl
    have hone : shortest 1 x = d := by
      rw [shortest, hfirst, List.findSome?_cons, hone, hd]
      rfl
    rw [htwo, hone]
  | some d =>
    obtain ⟨hne, hsame⟩ := candidates_two hx (closest_mem hone)
    obtain ⟨e, he⟩ := Option.isSome_iff_exists.mp (closest_isSome hne)
    have htwo : shortest 2 x = e := by
      rw [shortest, show List.range' 2 1400 = 2 :: List.range' 3 1399 from rfl, List.findSome?_cons, he]
      rfl
    have hone : shortest 1 x = d := by
      rw [shortest, hfirst, List.findSome?_cons, hone]
      rfl
    rw [htwo, hone]
    exact hsame e (closest_mem he)

end PtaasBench.Lib.Double
