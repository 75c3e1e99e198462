import Mathlib.Algebra.BigOperators.Group.List.Basic
import Mathlib.Algebra.Order.BigOperators.Group.List
import Mathlib.Data.Int.Log
import Mathlib.Data.List.Induction
import Mathlib.Data.Rat.Floor
import Mathlib.Tactic.FieldSimp
import Mathlib.Tactic.Linarith
import Mathlib.Tactic.NormNum
import Mathlib.Tactic.Ring

/-!
# PtaasBench.Lib.Double — arithmetic with 53 bits of precision

Numbers are rationals, and every operation rounds to the nearest number of 53 significant bits, to the
even one of two.  Whole numbers below `2 ^ 53` are exact; exponents have no bound here.
-/

namespace PtaasBench.Lib.Double

/-! ## Rounding -/

def roundEven (x : ℚ) : ℤ :=
  if x - ⌊x⌋ < 1 / 2 then ⌊x⌋ else if 1 / 2 < x - ⌊x⌋ then ⌊x⌋ + 1 else ⌊x⌋ + ⌊x⌋ % 2

/-- The exponent of the last bit. -/
def lastBit (x : ℚ) : ℤ := Int.log 2 |x| - 52

def nearest (x : ℚ) : ℚ := roundEven (x / 2 ^ lastBit x) * 2 ^ lastBit x

theorem roundEven_intCast (n : ℤ) : roundEven n = n := by
  rw [roundEven, Int.floor_intCast, sub_self, if_pos (by norm_num)]

theorem roundEven_bounds (x : ℚ) : ⌊x⌋ ≤ roundEven x ∧ roundEven x ≤ ⌊x⌋ + 1 := by
  have hlo := Int.emod_nonneg ⌊x⌋ (by norm_num : (2 : ℤ) ≠ 0)
  have hhi := Int.emod_lt_of_pos ⌊x⌋ (by norm_num : (0 : ℤ) < 2)
  rw [roundEven]
  split_ifs <;> omega

theorem le_roundEven {n : ℤ} {x : ℚ} (h : n ≤ x) : n ≤ roundEven x :=
  (Int.le_floor.mpr h).trans (roundEven_bounds x).1

theorem abs_roundEven_sub_le (x : ℚ) : |(roundEven x : ℚ) - x| ≤ 1 / 2 := by
  have hlo := Int.floor_le x
  have hhi := Int.lt_floor_add_one x
  have hparity : ⌊x⌋ % 2 = 0 ∨ ⌊x⌋ % 2 = 1 := Int.emod_two_eq_zero_or_one ⌊x⌋
  rw [roundEven, abs_le]
  split_ifs with hbelow habove
  · constructor <;> linarith
  · push_cast
    constructor <;> linarith
  · rcases hparity with h | h
    · rw [h]
      push_cast
      constructor <;> linarith
    · rw [h]
      push_cast
      constructor <;> linarith

/-- A multiple of its last bit is exact. -/
theorem nearest_eq_self {x : ℚ} {k : ℤ} (h : x = k * 2 ^ lastBit x) : nearest x = x := by
  have hne : (2 : ℚ) ^ lastBit x ≠ 0 := zpow_ne_zero _ (by norm_num)
  have hk : x / 2 ^ lastBit x = k := by
    rw [div_eq_iff hne]
    exact h
  rw [nearest, hk, roundEven_intCast]
  exact h.symm

/-- A multiple of a power of two that is no smaller than the last bit. -/
theorem nearest_eq_self_of_le {x : ℚ} {k e : ℤ} (h : x = k * 2 ^ e) (he : lastBit x ≤ e) : nearest x = x := by
  obtain ⟨d, hd⟩ := Int.le.dest he
  apply nearest_eq_self (k := k * 2 ^ d)
  conv_lhs => rw [h]
  rw [← hd, zpow_add₀ (by norm_num), zpow_natCast]
  push_cast
  ring

theorem lastBit_le {x : ℚ} {e : ℤ} (hzero : x ≠ 0) (hx : |x| < 2 ^ (e + 53)) : lastBit x ≤ e := by
  have hlog : Int.log 2 |x| < e + 53 := by
    rw [← Int.lt_zpow_iff_log_lt (by norm_num) (abs_pos.mpr hzero)]
    exact_mod_cast hx
  rw [lastBit]
  omega

theorem abs_nearest_sub_le (x : ℚ) : |nearest x - x| ≤ 2 ^ lastBit x / 2 := by
  have hpos : (0 : ℚ) < 2 ^ lastBit x := zpow_pos (by norm_num) _
  have hx : x = x / 2 ^ lastBit x * 2 ^ lastBit x := by field_simp
  have herror := abs_roundEven_sub_le (x / 2 ^ lastBit x)
  calc |nearest x - x| = |(roundEven (x / 2 ^ lastBit x) - x / 2 ^ lastBit x) * 2 ^ lastBit x| := by
        rw [sub_mul, ← hx, nearest]
    _ = |(roundEven (x / 2 ^ lastBit x) : ℚ) - x / 2 ^ lastBit x| * 2 ^ lastBit x := by
        rw [abs_mul, abs_of_pos hpos]
    _ ≤ 1 / 2 * 2 ^ lastBit x := mul_le_mul_of_nonneg_right herror hpos.le
    _ = 2 ^ lastBit x / 2 := by ring

/-! ## Order -/

theorem roundEven_mono {x y : ℚ} (h : x ≤ y) : roundEven x ≤ roundEven y := by
  rcases (Int.floor_le_floor h).lt_or_eq with hfloor | hfloor
  · exact (roundEven_bounds x).2.trans ((Int.add_one_le_of_lt hfloor).trans (roundEven_bounds y).1)
  · have hlo := Int.emod_nonneg ⌊y⌋ (by norm_num : (2 : ℤ) ≠ 0)
    have hhi := Int.emod_lt_of_pos ⌊y⌋ (by norm_num : (0 : ℤ) < 2)
    rw [roundEven, roundEven, hfloor]
    split_ifs with hx hy hy' hx' hy hy' hy hy'
    all_goals first | omega | (exfalso; linarith)

section Binade

variable {x : ℚ} (hpos : 0 < x)

include hpos

theorem zpow_log_le : (2 : ℚ) ^ Int.log 2 |x| ≤ x := by
  have h := Int.zpow_log_le_self (by norm_num : 1 < 2) (abs_pos.mpr hpos.ne')
  rw [abs_of_pos hpos] at h ⊢
  exact_mod_cast h

theorem lt_zpow_log : x < (2 : ℚ) ^ (Int.log 2 |x| + 1) := by
  have h := Int.lt_zpow_succ_log_self (by norm_num : 1 < 2) |x|
  rw [abs_of_pos hpos] at h ⊢
  exact_mod_cast h

omit hpos in
theorem zpow_eq_mul_lastBit (x : ℚ) (k : ℕ) : (2 : ℚ) ^ (Int.log 2 |x| - 52 + k) = ((2 ^ k : ℤ) : ℚ) * 2 ^ lastBit x := by
  rw [lastBit, zpow_add₀ (by norm_num), zpow_natCast, mul_comm]
  push_cast
  rfl

/-- Rounding stays between the powers of two around a number. -/
theorem zpow_le_nearest : (2 : ℚ) ^ Int.log 2 |x| ≤ nearest x := by
  have hbit : (0 : ℚ) < 2 ^ lastBit x := zpow_pos (by norm_num) _
  have hpow := zpow_eq_mul_lastBit x 52
  rw [Nat.cast_ofNat, sub_add_cancel] at hpow
  have hscaled : ((2 ^ 52 : ℤ) : ℚ) ≤ x / 2 ^ lastBit x := by
    rw [le_div_iff₀ hbit, ← hpow]
    exact zpow_log_le hpos
  rw [hpow, nearest]
  exact mul_le_mul_of_nonneg_right (by exact_mod_cast le_roundEven hscaled) hbit.le

theorem nearest_le_zpow : nearest x ≤ (2 : ℚ) ^ (Int.log 2 |x| + 1) := by
  have hbit : (0 : ℚ) < 2 ^ lastBit x := zpow_pos (by norm_num) _
  have hpow := zpow_eq_mul_lastBit x 53
  have hexp : Int.log 2 |x| - 52 + (53 : ℕ) = Int.log 2 |x| + 1 := by
    push_cast
    ring
  rw [hexp] at hpow
  have hscaled : x / 2 ^ lastBit x ≤ ((2 ^ 53 : ℤ) : ℚ) := by
    rw [div_le_iff₀ hbit, ← hpow]
    exact (lt_zpow_log hpos).le
  have hround := roundEven_mono hscaled
  rw [roundEven_intCast] at hround
  rw [hpow, nearest]
  exact mul_le_mul_of_nonneg_right (by exact_mod_cast hround) hbit.le

end Binade

/-- Rounding does not fall below a power of two. -/
theorem le_nearest {x : ℚ} (h : 2 ^ 53 ≤ x) : 2 ^ 53 ≤ nearest x := by
  have hpos : 0 < x := lt_of_lt_of_le (by norm_num) h
  have hlog : 53 ≤ Int.log 2 |x| := by
    rw [abs_of_pos hpos, ← Int.zpow_le_iff_le_log (by norm_num) hpos]
    exact_mod_cast h
  calc (2 : ℚ) ^ 53 = 2 ^ (53 : ℤ) := by norm_num
    _ ≤ 2 ^ Int.log 2 |x| := zpow_le_zpow_right₀ (by norm_num) hlog
    _ ≤ nearest x := zpow_le_nearest hpos

/-! ## Whole numbers -/

theorem nearest_zero : nearest 0 = 0 := by
  apply nearest_eq_self (k := 0)
  rw [Int.cast_zero, zero_mul]

theorem nearest_int {n : ℤ} (h : |n| < 2 ^ 53) : nearest n = n := by
  by_cases hzero : n = 0
  · rw [hzero, Int.cast_zero, nearest_zero]
  apply nearest_eq_self_of_le (k := n) (e := 0)
  · rw [zpow_zero, mul_one]
  · apply lastBit_le (by exact_mod_cast hzero)
    rw [zero_add]
    exact_mod_cast h

/-! ## Numbers that are not negative -/

theorem nearest_nonneg {x : ℚ} (h : 0 ≤ x) : 0 ≤ nearest x := by
  rcases h.eq_or_lt with rfl | hpos
  · exact nearest_zero.ge
  · exact (zpow_pos (by norm_num) _).le.trans (zpow_le_nearest hpos)

theorem nearest_mono {x y : ℚ} (hx : 0 ≤ x) (h : x ≤ y) : nearest x ≤ nearest y := by
  rcases hx.eq_or_lt with rfl | hpos
  · rw [nearest_zero]
    exact nearest_nonneg h
  have hpos' : 0 < y := hpos.trans_le h
  have hlog : Int.log 2 |x| ≤ Int.log 2 |y| := by
    rw [abs_of_pos hpos, abs_of_pos hpos']
    exact Int.log_mono_right hpos h
  rcases hlog.lt_or_eq with hlt | heq
  · calc nearest x ≤ 2 ^ (Int.log 2 |x| + 1) := nearest_le_zpow hpos
      _ ≤ 2 ^ Int.log 2 |y| := zpow_le_zpow_right₀ (by norm_num) (Int.add_one_le_of_lt hlt)
      _ ≤ nearest y := zpow_le_nearest hpos'
  · have hbit : (0 : ℚ) < 2 ^ lastBit y := zpow_pos (by norm_num) _
    have hsame : lastBit x = lastBit y := by rw [lastBit, lastBit, heq]
    rw [nearest, nearest, hsame]
    refine mul_le_mul_of_nonneg_right ?_ hbit.le
    exact_mod_cast roundEven_mono (div_le_div_of_nonneg_right h hbit.le)

/-- The error is a small part of the number. -/
theorem nearest_le_mul {x : ℚ} (h : 0 ≤ x) : nearest x ≤ x * (1 + 1 / 2 ^ 53) := by
  rcases h.eq_or_lt with rfl | hpos
  · rw [nearest_zero, zero_mul]
  have herror := (abs_le.mp (abs_nearest_sub_le x)).2
  have hlog := zpow_log_le hpos
  have hbit : (2 : ℚ) ^ lastBit x = 2 ^ Int.log 2 |x| / 2 ^ 52 := by
    rw [lastBit, zpow_sub₀ (by norm_num)]
    norm_num
  rw [hbit] at herror
  have hsmall : (2 : ℚ) ^ Int.log 2 |x| / 2 ^ 52 / 2 ≤ x / 2 ^ 52 / 2 := by gcongr
  linarith

/-- Between two powers of two, rounding gives a multiple of one last bit. -/
theorem exists_nearest_eq {x : ℚ} {e : ℤ} (h : 2 ^ e ≤ x) (h' : x < 2 ^ (e + 1)) :
    ∃ k : ℤ, nearest x = k * 2 ^ (e - 52) := by
  have hpos : 0 < x := (zpow_pos (by norm_num) _).trans_le h
  have hle : e ≤ Int.log 2 |x| := by
    rw [abs_of_pos hpos, ← Int.zpow_le_iff_le_log (by norm_num) hpos]
    exact_mod_cast h
  have hlt : Int.log 2 |x| < e + 1 := by
    rw [abs_of_pos hpos, ← Int.lt_zpow_iff_log_lt (by norm_num) hpos]
    exact_mod_cast h'
  have hlog : lastBit x = e - 52 := by
    rw [lastBit]
    omega
  exact ⟨roundEven (x / 2 ^ lastBit x), by rw [← hlog, nearest]⟩

/-- Below the next number but one there is only the next. -/
theorem nearest_le_of_lt {x c : ℚ} {e m : ℤ} (h : 2 ^ e ≤ x) (h' : x < 2 ^ (e + 1)) (hc : c ≤ (m + 1 : ℤ) * 2 ^ (e - 52))
    (hlt : nearest x < c) : nearest x ≤ m * 2 ^ (e - 52) := by
  have hbit : (0 : ℚ) < 2 ^ (e - 52) := zpow_pos (by norm_num) _
  obtain ⟨k, hk⟩ := exists_nearest_eq h h'
  rw [hk] at hlt ⊢
  have hlt' : (k : ℚ) < (m + 1 : ℤ) := lt_of_mul_lt_mul_right (hlt.trans_le hc) hbit.le
  have hle : k ≤ m := Int.lt_add_one_iff.mp (by exact_mod_cast hlt')
  exact mul_le_mul_of_nonneg_right (by exact_mod_cast hle) hbit.le

/-! ## Sums -/

/-- A sum, as it is added up. -/
def sum (xs : List ℤ) : ℚ := xs.foldl (fun (acc : ℚ) (x : ℤ) => nearest (acc + x)) 0

theorem sum_concat (xs : List ℤ) (x : ℤ) : sum (xs ++ [x]) = nearest (sum xs + x) := by
  rw [sum, List.foldl_append]
  rfl

/-- A sum of numbers that are not negative is exact below `2 ^ 53`, and not below it where the exact sum is not. -/
theorem sum_of_nonneg {xs : List ℤ} (h : ∀ x ∈ xs, 0 ≤ x) :
    if xs.sum < 2 ^ 53 then sum xs = xs.sum else 2 ^ 53 ≤ sum xs := by
  induction xs using List.reverseRecOn with
  | nil => rw [List.sum_nil, if_pos (by norm_num), Int.cast_zero]; rfl
  | append_singleton xs x ih =>
    have hxs : ∀ y ∈ xs, 0 ≤ y := fun y hy => h y (List.mem_append_left _ hy)
    have hx : 0 ≤ x := h x (List.mem_append_right _ List.mem_cons_self)
    have hnonneg : 0 ≤ xs.sum := List.sum_nonneg hxs
    have ih := ih hxs
    rw [sum_concat, List.sum_append, List.sum_singleton]
    by_cases hbelow : xs.sum < 2 ^ 53
    · rw [if_pos hbelow] at ih
      rw [ih]
      have hcast : ((xs.sum : ℤ) : ℚ) + (x : ℚ) = ((xs.sum + x : ℤ) : ℚ) := by push_cast; rfl
      rw [hcast]
      split_ifs with hsum
      · apply nearest_int
        rw [abs_of_nonneg (by omega)]
        exact hsum
      · apply le_nearest
        exact_mod_cast not_lt.mp hsum
    · rw [if_neg hbelow] at ih
      rw [if_neg (by omega)]
      apply le_nearest
      have hx' : (0 : ℚ) ≤ x := by exact_mod_cast hx
      linarith

theorem sum_eq_of_sum_lt {xs : List ℤ} (h : ∀ x ∈ xs, 0 ≤ x) (hlt : xs.sum < 2 ^ 53) : sum xs = xs.sum := by
  have hsum := sum_of_nonneg h
  rwa [if_pos hlt] at hsum

/-- A sum whose amounts come to less than `2 ^ 53` is exact, whatever their signs. -/
theorem sum_eq_of_abs_sum_lt {xs : List ℤ} (h : (xs.map fun x => |x|).sum < 2 ^ 53) : sum xs = xs.sum := by
  have hbound : sum xs = xs.sum ∧ |xs.sum| ≤ (xs.map fun x => |x|).sum := by
    induction xs using List.reverseRecOn with
    | nil => exact ⟨by rw [List.sum_nil, Int.cast_zero]; rfl, by simp⟩
    | append_singleton xs x ih =>
      rw [List.map_append, List.sum_append, List.map_singleton, List.sum_singleton] at h
      have hx := abs_nonneg x
      obtain ⟨hsum, habs⟩ := ih (by omega)
      have hadd : |xs.sum + x| ≤ (xs.map fun x => |x|).sum + |x| := (abs_add_le _ _).trans (by omega)
      have hcast : ((xs.sum : ℤ) : ℚ) + (x : ℚ) = ((xs.sum + x : ℤ) : ℚ) := by push_cast; rfl
      rw [sum_concat, List.sum_append, List.sum_singleton, List.map_append, List.sum_append, List.map_singleton,
        List.sum_singleton, hsum, hcast]
      exact ⟨nearest_int (by omega), hadd⟩
  exact hbound.1

/-! ## Rounding to a whole number -/

/-- `Math.round`: halves go up. -/
def roundHalfUp (x : ℚ) : ℤ := ⌊x + 1 / 2⌋

end PtaasBench.Lib.Double
