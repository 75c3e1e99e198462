import Mathlib.Algebra.Order.Ring.Nat
import Mathlib.Data.List.Induction
import Mathlib.Data.Nat.Size
import Mathlib.Tactic.Positivity
import Mathlib.Tactic.Ring
import Mathlib.Tactic.Zify

/-!
# PtaasBench.Lib.Bytes — numbers as big-endian bytes

Fixed-width unsigned numbers, numbers in two's complement, and the slices of a buffer.
-/

namespace PtaasBench.Lib

abbrev Bytes := List UInt8

/-- The number that bytes stand for, the most significant first. -/
def beNat (bs : Bytes) : ℕ := bs.foldl (fun n b => n * 256 + b.toNat) 0

/-- A number on so many bytes. -/
def beBytes : ℕ → ℕ → Bytes
  | 0, _ => []
  | width + 1, n => beBytes width (n / 256) ++ [UInt8.ofNat n]

theorem foldl_be (bs : Bytes) (n : ℕ) :
    bs.foldl (fun n b => n * 256 + b.toNat) n = n * 256 ^ bs.length + beNat bs := by
  induction bs generalizing n with
  | nil => simp [beNat]
  | cons b bs ih =>
    rw [beNat, List.foldl_cons, List.foldl_cons, ih, ih, List.length_cons]
    ring

theorem beNat_append (as bs : Bytes) : beNat (as ++ bs) = beNat as * 256 ^ bs.length + beNat bs := by
  rw [beNat, List.foldl_append, foldl_be]
  rfl

theorem beNat_singleton (b : UInt8) : beNat [b] = b.toNat := by
  simp [beNat]

theorem beNat_lt (bs : Bytes) : beNat bs < 256 ^ bs.length := by
  induction bs using List.reverseRecOn with
  | nil => simp [beNat]
  | append_singleton bs b ih =>
    have hb := b.toNat_lt
    rw [beNat_append, beNat_singleton, List.length_append, List.length_singleton, pow_one,
      Nat.pow_succ 256]
    omega

@[simp] theorem length_beBytes (width n : ℕ) : (beBytes width n).length = width := by
  induction width generalizing n with
  | zero => rfl
  | succ width ih => rw [beBytes, List.length_append, ih, List.length_singleton]

theorem beNat_beBytes_mod (width n : ℕ) : beNat (beBytes width n) = n % 256 ^ width := by
  induction width generalizing n with
  | zero => simp [beBytes, beNat, Nat.mod_one]
  | succ width ih =>
    have hsplit : n % (256 * 256 ^ width) = n % 256 + 256 * (n / 256 % 256 ^ width) := Nat.mod_mul
    rw [beBytes, beNat_append, ih, beNat_singleton, List.length_singleton, pow_one, UInt8.toNat_ofNat',
      Nat.pow_succ' (m := 256), hsplit]
    omega

theorem beNat_beBytes {width n : ℕ} (h : n < 256 ^ width) : beNat (beBytes width n) = n := by
  rw [beNat_beBytes_mod, Nat.mod_eq_of_lt h]

/-- Bytes are the number they stand for, on their own width. -/
theorem beBytes_beNat (bs : Bytes) : beBytes bs.length (beNat bs) = bs := by
  induction bs using List.reverseRecOn with
  | nil => rfl
  | append_singleton bs b ih =>
    have hb := b.toNat_lt
    have hnat : beNat (bs ++ [b]) = beNat bs * 256 + b.toNat := by
      rw [beNat_append, beNat_singleton, List.length_singleton, pow_one]
    have hlast : UInt8.ofNat (beNat bs * 256 + b.toNat) = b := by
      rw [← UInt8.toNat_inj, UInt8.toNat_ofNat']
      omega
    rw [List.length_append, List.length_singleton, beBytes, hnat, hlast,
      show (beNat bs * 256 + b.toNat) / 256 = beNat bs by omega, ih]

theorem beNat_inj {as bs : Bytes} (hlength : as.length = bs.length) : beNat as = beNat bs ↔ as = bs := by
  refine ⟨fun h => ?_, fun h => congrArg beNat h⟩
  rw [← beBytes_beNat as, ← beBytes_beNat bs, hlength, h]

/-- The leading bytes of a number. -/
theorem beNat_div (as bs : Bytes) : beNat (as ++ bs) / 256 ^ bs.length = beNat as := by
  rw [beNat_append, Nat.add_comm, Nat.add_mul_div_right _ _ (by positivity),
    Nat.div_eq_of_lt (beNat_lt bs), Nat.zero_add]

/-! ## Two's complement -/

/-- The number that bytes stand for in two's complement. -/
def beInt (bs : Bytes) : ℤ :=
  if 2 * beNat bs < 256 ^ bs.length then beNat bs else beNat bs - 256 ^ bs.length

/-- A number in two's complement on so many bytes. -/
def beIntBytes (width : ℕ) (v : ℤ) : Bytes := beBytes width (v % 256 ^ width).toNat

@[simp] theorem length_beIntBytes (width : ℕ) (v : ℤ) : (beIntBytes width v).length = width :=
  length_beBytes _ _

/-- A width carries the numbers of its signed range. -/
theorem beInt_beIntBytes {width : ℕ} {v : ℤ} (hlow : -(256 ^ width) ≤ 2 * v) (hhigh : 2 * v < 256 ^ width) :
    beInt (beIntBytes width v) = v := by
  have hpos : (0 : ℤ) < 256 ^ width := by positivity
  have hmod := Int.emod_nonneg v hpos.ne'
  have hlt := Int.emod_lt_of_pos v hpos
  have hnat : beNat (beIntBytes width v) = (v % 256 ^ width).toNat := by
    refine beNat_beBytes ?_
    zify
    rw [Int.toNat_of_nonneg hmod]
    exact hlt
  have hcast : ((v % 256 ^ width).toNat : ℤ) = v % 256 ^ width := Int.toNat_of_nonneg hmod
  unfold beInt
  rw [hnat, length_beIntBytes]
  by_cases hv : 0 ≤ v
  · have hself : v % 256 ^ width = v := Int.emod_eq_of_lt hv (by omega)
    rw [if_pos (by zify; rw [hcast, hself]; exact hhigh), hcast, hself]
  · have hself : v % 256 ^ width = v + 256 ^ width := by
      rw [← Int.add_emod_right, Int.emod_eq_of_lt (by omega) (by omega)]
    rw [if_neg (by zify; rw [hcast, hself]; omega), hcast, hself]
    ring

/-! ## Places in bytes -/

theorem getElem?_middle (before : Bytes) (b : UInt8) (rest : Bytes) :
    (before ++ b :: rest)[before.length]? = some b := by
  rw [List.getElem?_append_right (le_refl _), Nat.sub_self]
  rfl

/-- `data[start:stop]` -/
def slice (data : Bytes) (start stop : ℕ) : Bytes := (data.drop start).take (stop - start)

theorem slice_append {before mid after : Bytes} {start stop : ℕ} (hstart : start = before.length)
    (hstop : stop = before.length + mid.length) : slice (before ++ (mid ++ after)) start stop = mid := by
  subst hstart hstop
  rw [slice, List.drop_left, Nat.add_sub_cancel_left, List.take_left]

theorem length_slice {data : Bytes} {start stop : ℕ} (h : stop ≤ data.length) :
    (slice data start stop).length = stop - start := by
  rw [slice, List.length_take, List.length_drop]
  omega

end PtaasBench.Lib
