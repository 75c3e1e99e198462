import Mathlib.Data.List.GetD
import PtaasBench.Lib.Bytes
import PtaasBench.Lib.Fields

/-!
# PtaasBench.Lib.Addresses — addresses of the internet protocol and their prefixes

An address lies in a prefix of its own family that shares the leading bits.
-/

namespace PtaasBench.Lib

inductive Addr where
  | v4 (bits : BitVec 32)
  | v6 (bits : BitVec 128)
deriving DecidableEq

/-- A prefix: an address, and how many leading bits count. -/
structure Prefix where
  network : Addr
  length : ℕ

namespace Addr

def width : Addr → ℕ
  | v4 _ => 32
  | v6 _ => 128

def toNat : Addr → ℕ
  | v4 bits => bits.toNat
  | v6 bits => bits.toNat

/-- The bytes of an address. -/
def packed : Addr → Bytes
  | v4 bits => beBytes 4 bits.toNat
  | v6 bits => beBytes 16 bits.toNat

/-- The address of an IPv4 peer as a listener for both families reports it. -/
def mapped (bits : BitVec 32) : Addr := v6 (BitVec.ofNat 128 (0xffff * 2 ^ 32 + bits.toNat))

/-- An IPv4-mapped address read as IPv4. -/
def fold : Addr → Addr
  | v4 bits => v4 bits
  | v6 bits =>
    if bits.toNat / 2 ^ 32 = 0xffff then v4 (BitVec.ofNat 32 (bits.toNat % 2 ^ 32)) else v6 bits

theorem fold_mapped (bits : BitVec 32) : (mapped bits).fold = v4 bits := by
  have hbits := bits.isLt
  have hnat : (BitVec.ofNat 128 (0xffff * 2 ^ 32 + bits.toNat)).toNat = 0xffff * 2 ^ 32 + bits.toNat := by
    rw [BitVec.toNat_ofNat]
    omega
  rw [mapped, fold, hnat, if_pos (by omega)]
  congr 1
  apply BitVec.eq_of_toNat_eq
  rw [BitVec.toNat_ofNat]
  omega

/-- An address is mapped, or is read as it is. -/
theorem fold_cases (a : Addr) : a.fold = a ∨ ∃ bits, a = mapped bits := by
  cases a with
  | v4 bits => exact Or.inl rfl
  | v6 bits =>
    by_cases h : bits.toNat / 2 ^ 32 = 0xffff
    · refine Or.inr ⟨BitVec.ofNat 32 (bits.toNat % 2 ^ 32), ?_⟩
      rw [mapped]
      congr 1
      have hbits := bits.isLt
      apply BitVec.eq_of_toNat_eq
      rw [BitVec.toNat_ofNat, BitVec.toNat_ofNat]
      omega
    · exact Or.inl (if_neg h)

theorem width_packed (a : Addr) : a.width = 8 * a.packed.length := by
  cases a with
  | v4 bits => rw [width, packed, length_beBytes]
  | v6 bits => rw [width, packed, length_beBytes]

theorem beNat_packed (a : Addr) : beNat a.packed = a.toNat := by
  cases a with
  | v4 bits => exact beNat_beBytes (bits.isLt.trans_eq (by norm_num))
  | v6 bits => exact beNat_beBytes (bits.isLt.trans_eq (by norm_num))

end Addr

namespace Prefix

/-- The number the leading bits of an address are. -/
def leading (p : Prefix) (a : Addr) : ℕ := a.toNat / 2 ^ (a.width - p.length)

def contains (p : Prefix) (a : Addr) : Bool :=
  a.width = p.network.width && p.leading a == p.leading p.network

end Prefix

/-! ## Leading bits of bytes -/

section Leading

/-- The leading bits of whole bytes are those bytes. -/
theorem beNat_div_bytes (cs : Bytes) {q : ℕ} (hq : q ≤ cs.length) :
    beNat cs / 2 ^ (8 * cs.length - 8 * q) = beNat (cs.take q) := by
  have hpow : (2 : ℕ) ^ (8 * cs.length - 8 * q) = 256 ^ (cs.drop q).length := by
    rw [List.length_drop, show (256 : ℕ) = 2 ^ 8 by rfl, ← pow_mul]
    congr 1
    omega
  rw [hpow, ← beNat_div (cs.take q) (cs.drop q), List.take_append_drop]

/-- The leading bits up to into a byte are the bytes before and the leading bits of that one. -/
theorem beNat_div_bits (cs : Bytes) {q r : ℕ} (hq : q < cs.length) (hr : r < 8) :
    beNat cs / 2 ^ (8 * cs.length - (8 * q + r)) =
      beNat (cs.take q) * 2 ^ r + (cs.getD q 0).toNat / 2 ^ (8 - r) := by
  have hfront : cs.take (q + 1) = cs.take q ++ [cs.getD q 0] := by
    rw [List.getD_eq_getElem _ _ hq, List.take_concat_get' _ _ hq]
  have hbyte : (2 : ℕ) ^ r * 2 ^ (8 - r) = 256 := by
    rw [← pow_add, show r + (8 - r) = 8 by omega]
    rfl
  have hlast : beNat (cs.take (q + 1)) = beNat (cs.take q) * 2 ^ r * 2 ^ (8 - r) + (cs.getD q 0).toNat := by
    rw [hfront, beNat_append, beNat_singleton, List.length_singleton, pow_one, mul_assoc, hbyte]
  have hpow : (2 : ℕ) ^ (8 * cs.length - (8 * q + r)) = 2 ^ (8 * cs.length - 8 * (q + 1)) * 2 ^ (8 - r) := by
    rw [← pow_add]
    congr 1
    omega
  rw [hpow, ← Nat.div_div_eq_div_mul, beNat_div_bytes cs hq, hlast, Nat.add_comm,
    Nat.add_mul_div_right _ _ (by positivity), Nat.add_comm]

theorem div_byte_lt (b : UInt8) {r : ℕ} (hr : r < 8) : b.toNat / 2 ^ (8 - r) < 2 ^ r := by
  have hb := b.toNat_lt
  have hbyte : (2 : ℕ) ^ (8 - r) * 2 ^ r = 256 := by
    rw [← pow_add, show 8 - r + r = 8 by omega]
    rfl
  rw [Nat.div_lt_iff_lt_mul (by positivity), Nat.mul_comm, hbyte]
  exact hb

variable {as bs : Bytes}

/-- Whole bytes lead alike if they are the same. -/
theorem leading_bytes (hlength : as.length = bs.length) {q : ℕ} (hq : q ≤ as.length) :
    beNat as / 2 ^ (8 * as.length - 8 * q) = beNat bs / 2 ^ (8 * as.length - 8 * q) ↔
      as.take q = bs.take q := by
  have hright := beNat_div_bytes bs (hlength ▸ hq)
  rw [← hlength] at hright
  rw [beNat_div_bytes as hq, hright]
  exact beNat_inj (by rw [List.length_take, List.length_take, hlength])

/-- Bits into a byte lead alike if the bytes before are the same and the byte leads alike. -/
theorem leading_bits (hlength : as.length = bs.length) {q r : ℕ} (hq : q < as.length) (hr : r < 8) :
    beNat as / 2 ^ (8 * as.length - (8 * q + r)) = beNat bs / 2 ^ (8 * as.length - (8 * q + r)) ↔
      as.take q = bs.take q ∧ (as.getD q 0).toNat / 2 ^ (8 - r) = (bs.getD q 0).toNat / 2 ^ (8 - r) := by
  have hright := beNat_div_bits bs (hlength ▸ hq) hr
  rw [← hlength] at hright
  rw [beNat_div_bits as hq hr, hright]
  constructor
  · intro h
    have ha := div_byte_lt (as.getD q 0) hr
    have hb := div_byte_lt (bs.getD q 0) hr
    have hpos : 0 < 2 ^ r := by positivity
    have hdiv := congrArg (· / 2 ^ r) h
    have hmod := congrArg (· % 2 ^ r) h
    rw [Nat.mul_comm, Nat.mul_add_div hpos, Nat.div_eq_of_lt ha, Nat.mul_comm (beNat (bs.take q)),
      Nat.mul_add_div hpos, Nat.div_eq_of_lt hb] at hdiv
    rw [Nat.mul_comm, Nat.mul_add_mod, Nat.mod_eq_of_lt ha, Nat.mul_comm (beNat (bs.take q)),
      Nat.mul_add_mod, Nat.mod_eq_of_lt hb] at hmod
    exact ⟨(beNat_inj (by rw [List.length_take, List.length_take, hlength])).mp hdiv, hmod⟩
  · rintro ⟨htake, hbyte⟩
    rw [htake, hbyte]

end Leading

/-! ## Dotted decimals -/

/-- A number of a dotted decimal: at most three digits, without leading zeros. -/
def octet (digits : List Char) : Option ℕ :=
  if digits ≠ [] ∧ digits.length ≤ 3 ∧ digits.all Char.isDigit ∧ (digits.head? = some '0' → digits = ['0']) then
    let n := digits.foldl (fun n c => n * 10 + (c.toNat - '0'.toNat)) 0
    if n ≤ 255 then some n else none
  else none

def parseDotted (text : List Char) : Option (BitVec 32) :=
  match (text.splitOn '.').mapM octet with
  | some [a, b, c, d] => some (BitVec.ofNat 32 (((a * 256 + b) * 256 + c) * 256 + d))
  | _ => none

/-- The four numbers of an address. -/
def octets (bits : BitVec 32) : List ℕ :=
  [bits.toNat / 2 ^ 24, bits.toNat / 2 ^ 16 % 256, bits.toNat / 2 ^ 8 % 256, bits.toNat % 256]

def dotted (bits : BitVec 32) : List Char := ['.'].intercalate ((octets bits).map (Nat.toDigits 10))

theorem isSome_of_mapM {α β : Type} {f : α → Option β} {xs : List α} {ys : List β} (h : xs.mapM f = some ys) :
    ∀ x ∈ xs, (f x).isSome = true := by
  induction xs generalizing ys with
  | nil =>
    intro x hx
    cases hx
  | cons x xs ih =>
    rw [List.mapM_cons] at h
    cases hx : f x with
    | none =>
      rw [hx] at h
      cases h
    | some y =>
      cases hrest : xs.mapM f with
      | none =>
        rw [hx, hrest] at h
        cases h
      | some rest =>
        intro z hz
        rcases List.mem_cons.mp hz with rfl | hz
        · rw [hx]
          rfl
        · exact ih hrest z hz

theorem octet_lt {bits : BitVec 32} {n : ℕ} (h : n ∈ octets bits) : n < 256 := by
  have hbits := bits.isLt
  simp only [octets, List.mem_cons, List.not_mem_nil, or_false] at h
  omega

theorem octet_toDigits {n : ℕ} (h : n < 256) : octet (Nat.toDigits 10 n) = some n := by
  have hall : ∀ n < 256, octet (Nat.toDigits 10 n) = some n := by decide +kernel
  exact hall n h

theorem mapM_octet {ns : List ℕ} (h : ∀ n ∈ ns, n < 256) : (ns.map (Nat.toDigits 10)).mapM octet = some ns := by
  induction ns with
  | nil => rfl
  | cons n ns ih =>
    rw [List.map_cons, List.mapM_cons, octet_toDigits (h n List.mem_cons_self),
      ih fun m hm => h m (List.mem_cons_of_mem _ hm)]
    rfl

theorem splitOn_dotted (bits : BitVec 32) : (dotted bits).splitOn '.' = (octets bits).map (Nat.toDigits 10) := by
  have hdigits : ∀ n < 256, '.' ∉ Nat.toDigits 10 n := by decide +kernel
  refine List.splitOn_intercalate _ ?_ (by simp [octets])
  intro l hl
  obtain ⟨n, hn, rfl⟩ := List.mem_map.mp hl
  exact hdigits n (octet_lt hn)

theorem parseDotted_dotted (bits : BitVec 32) : parseDotted (dotted bits) = some bits := by
  have hbits := bits.isLt
  rw [parseDotted, splitOn_dotted, mapM_octet fun n hn => octet_lt hn]
  dsimp only [octets]
  congr 1
  apply BitVec.eq_of_toNat_eq
  rw [BitVec.toNat_ofNat]
  omega

/-- A dotted decimal has digits and dots only. -/
theorem digit_or_dot_of_parseDotted {text : List Char} {bits : BitVec 32} (h : parseDotted text = some bits) :
    ∀ c ∈ text, c = '.' ∨ c.isDigit = true := by
  have hdigits : ∀ piece ∈ text.splitOn '.', ∀ c ∈ piece, c.isDigit = true := by
    cases hoctets : (text.splitOn '.').mapM octet with
    | none =>
      rw [parseDotted, hoctets] at h
      cases h
    | some ns =>
      intro piece hpiece
      have hsome : (octet piece).isSome = true := isSome_of_mapM hoctets piece hpiece
      unfold octet at hsome
      split_ifs at hsome with hoctet
      · exact List.all_eq_true.mp hoctet.2.2.1
      · cases hsome
  intro c hc
  rcases (mem_piece_or_eq hc : c = '.' ∨ _) with rfl | ⟨piece, hpiece, hmem⟩
  · exact Or.inl rfl
  · exact Or.inr (hdigits piece hpiece c hmem)

end PtaasBench.Lib
