import PtaasBench.Sdk.Flatteners

/-!
# PtaasBench.Sdk.NumberTexts — the numbers that are written as they are spelled

Python, Node and Java read a number into their own and write it again, Python and Java an integer with its
digits, Node every number as a double, and each a double in its own way.
-/

namespace PtaasBench.JsonLeaves

open Js Lib.Double Py

theorem wire_injective : Function.Injective wire := fun m n h => by
  have htext : m.text = n.text := by rw [← scalars_ofString m.text, ← scalars_ofString n.text]; exact congrArg scalars h
  exact Numeral.text_injective htext

theorem wire_ne_ofString (n : Numeral) {s : String} (h : Numeral.read s.toList = none) : ofString s ≠ wire n := fun heq => by
  have htext : s.toList = n.text := by
    rw [← scalars_ofString s.toList, ← scalars_ofString n.text]
    exact congrArg scalars heq
  rw [htext, Numeral.read_text] at h
  exact Option.some_ne_none _ h

/-! ## Integers -/

theorem natDigits_toDigits (n : ℕ) : (natDigits n).map digitChar = Nat.toDigits 10 n := by
  induction n using Nat.strong_induction_on with
  | _ n ih =>
    have hdigit : ∀ d < 10, digitChar (digit d) = Nat.digitChar d := by decide
    by_cases hsmall : n < 10
    · rw [Nat.toDigits_of_lt_base hsmall]
      interval_cases n <;> decide
    · have hdigits : Nat.digits 10 n = n % 10 :: Nat.digits 10 (n / 10) := Nat.digits_def' (by omega) (by omega)
      have hstep : natDigits n = natDigits (n / 10) ++ [digit (n % 10)] := by
        rw [natDigits, natDigits, if_neg (by omega), if_neg (by omega), hdigits, List.map_cons, List.reverse_cons]
        rfl
      rw [Nat.toDigits_of_base_le (by omega) (not_lt.mp hsmall), hstep, List.map_append, ih (n / 10) (by omega),
        List.map_singleton, hdigit _ (Nat.mod_lt _ (by omega))]

theorem toString_int (n : ℤ) : (toString n).toList = intText n := by
  rw [Int.toString_eq_repr, Int.repr_eq_if, intText, natDigits_toDigits]
  split_ifs with hpos hneg hneg
  · omega
  · rw [Nat.toList_repr, List.nil_append]
    congr 1
    omega
  · rw [String.toList_append, Nat.toList_repr]
    congr 2
    omega
  · omega

theorem ofString_int (i : ℤ) :
    ofString (toString i) = wire { neg := decide (i < 0), whole := i.natAbs, frac := [], exp := none } := by
  have htext : intText i = ({ neg := decide (i < 0), whole := i.natAbs, frac := [], exp := none } : Numeral).text := by
    rw [intText, Numeral.text]
    simp
  rw [ofString, toString_int, htext]
  rfl

theorem integer?_eq_some_iff {n : Numeral} {i : ℤ} :
    integer? n = some i ↔ n.frac = [] ∧ n.exp = none ∧ (if n.neg then -(n.whole : ℤ) else n.whole) = i := by
  rw [integer?]
  by_cases hplain : n.frac = [] ∧ n.exp = none
  · rw [if_pos hplain, Option.some.injEq]
    exact ⟨fun h => ⟨hplain.1, hplain.2, h⟩, fun h => h.2.2⟩
  · rw [if_neg hplain]
    exact iff_of_false nofun fun h => hplain ⟨h.1, h.2.1⟩

/-- An integer is written with its digits, and with its sign but for zero. -/
theorem toString_eq_wire_iff {n : Numeral} {i : ℤ} (h : integer? n = some i) :
    ofString (toString i) = wire n ↔ (i = 0 → n.neg = false) := by
  obtain ⟨hfrac, hexp, hi⟩ := integer?_eq_some_iff.mp h
  obtain ⟨neg, whole, frac, exp⟩ := n
  subst hfrac hexp
  rw [ofString_int, wire_injective.eq_iff, Numeral.mk.injEq]
  cases neg with
  | false =>
    have hwhole : (whole : ℤ) = i := hi
    refine iff_of_true ⟨?_, ?_, rfl, rfl⟩ fun _ => rfl
    · exact decide_eq_false (by omega)
    · omega
  | true =>
    have hwhole : -(whole : ℤ) = i := hi
    constructor
    · rintro ⟨hneg, -⟩ rfl
      exact absurd hneg (by decide)
    · intro hzero
      have hne : i ≠ 0 := by simpa using hzero
      refine ⟨decide_eq_true (by omega), ?_, rfl, rfl⟩
      omega

/-! ## Doubles -/

section

variable {x y : ℚ} {n : Numeral}

/-- The digits a positive double is written with. -/
theorem shortest_digits {least : ℕ} (h : binary64 y = some x) (hx : 0 < x) (hleast : least ≤ 2) :
    (shortest least x).trim.digits % 10 ≠ 0 := by
  refine Decimal.trim_mod fun hzero => ?_
  have hreads := shortest_reads_back h hx hleast
  have hvalue : (shortest least x).value = 0 := by rw [Decimal.value, hzero, Nat.cast_zero, zero_mul]
  rw [hvalue, binary64_zero] at hreads
  exact hx.ne (Option.some.inj hreads)

theorem shortest_zero : (shortest 1 0).value = 0 := by decide +kernel

/-- The number without its point. -/
def digitsOf (n : Numeral) : Decimal := ⟨n.whole * 10 ^ n.frac.length + ofDigitList n.frac, -n.frac.length⟩

theorem digitsOf_value (h : n.exp = none) : (digitsOf n).value = n.magnitude := by
  rw [Numeral.magnitude, h, Decimal.value, digitsOf, zpow_neg, zpow_natCast]
  show _ = _ * (1 : ℚ)
  push_cast
  field_simp

/-- The number with its point where a decimal has it. -/
def withPoint (neg : Bool) (d : Decimal) : Numeral :=
  { neg := neg, whole := d.digits / 10 ^ (-d.power).toNat, frac := lastDigits (-d.power).toNat d.digits, exp := none }

theorem withPoint_digitsOf (h : n.exp = none) : withPoint n.neg (digitsOf n) = n := by
  obtain ⟨neg, whole, frac, exp⟩ := n
  subst h
  have hpower : (-(digitsOf ⟨neg, whole, frac, none⟩).power).toNat = frac.length := by
    show (-(-(frac.length : ℤ))).toNat = frac.length
    omega
  have hwhole : (whole * 10 ^ frac.length + ofDigitList frac) / 10 ^ frac.length = whole := by
    rw [Nat.add_comm, Nat.add_mul_div_right _ _ (by positivity), Nat.div_eq_of_lt (ofDigitList_lt frac), Nat.zero_add]
  rw [withPoint, hpower, Numeral.mk.injEq]
  exact ⟨rfl, hwhole, lastDigits_ofDigitList whole frac, rfl⟩

/-- A fraction has its digits for digits where it does not end in zero. -/
theorem trim_eq_digitsOf {d : Decimal} (hexp : n.exp = none) (hfrac : n.frac ≠ []) (hlast : n.frac.getLast? ≠ some (digit 0))
    (hd : d.trim.digits % 10 ≠ 0) (h : d.value = n.magnitude) : d.trim = digitsOf n := by
  refine Decimal.eq_of_value hd ?_ (by rw [Decimal.trim_value, h, digitsOf_value hexp])
  rcases List.eq_nil_or_concat' n.frac with hnil | ⟨ds, last, hds⟩
  · exact absurd hnil hfrac
  · have hne : last.val ≠ 0 := fun hzero => hlast (by rw [hds, List.getLast?_concat]; exact congrArg some (Fin.ext hzero))
    rw [digitsOf, hds, ofDigitList_concat, List.length_append, List.length_singleton, pow_succ, ← mul_assoc]
    show (n.whole * 10 ^ ds.length * 10 + (10 * ofDigitList ds + last.val)) % 10 ≠ 0
    omega

/-- A number whose double is neither small nor large has its point near its digits. -/
theorem point_bounds (hx : binary64 n.magnitude = some x) (hlow : 1 / 1000 ≤ x) (hhigh : x < 10000000) {d : Decimal}
    (hd : d.digits ≠ 0) (h : d.value = n.magnitude) :
    -4 < (d.text.length : ℤ) + d.power ∧ (d.text.length : ℤ) + d.power ≤ 8 := by
  have hy : 1 / 10 ^ 4 ≤ n.magnitude := le_of_le_binary64 hx n.magnitude_nonneg hlow
  have hclose := (abs_le.mp (abs_binary64_sub_le_of_le hx hy)).1
  have hsmall : n.magnitude < 10 ^ (8 : ℤ) := by
    norm_num at hclose ⊢
    linarith
  obtain ⟨hle, hlt⟩ := Decimal.value_bounds hd
  rw [h] at hle hlt
  have hbelow : (10 : ℚ) ^ (-4 : ℤ) < 10 ^ ((d.text.length : ℤ) + d.power) := by
    refine lt_of_le_of_lt ?_ hlt
    norm_num at hy ⊢
    exact hy
  have habove := hle.trans_lt hsmall
  rw [zpow_lt_zpow_iff_right₀ (by norm_num)] at hbelow habove
  omega

/-! ## What Node writes -/

namespace Node

def numberText (n : Numeral) : Text := signedToString n.neg (binary64 n.magnitude)

theorem numberText_eq_iff : numberText n = wire n ↔
    ∃ x, binary64 n.magnitude = some x ∧ ({ spell x with neg := n.neg && decide (x ≠ 0) } : Numeral) = n := by
  rw [numberText]
  cases h : binary64 n.magnitude with
  | none =>
    refine iff_of_false ?_ nofun
    rw [signedToString]
    split_ifs
    · exact wire_ne_ofString n rfl
    · exact wire_ne_ofString n rfl
  | some x =>
    have hwire : signedToString n.neg (some x) = wire { spell x with neg := n.neg && decide (x ≠ 0) } := rfl
    rw [hwire, wire_injective.eq_iff]
    constructor
    · exact fun heq => ⟨x, rfl, heq⟩
    · rintro ⟨_, ⟨⟩, heq⟩
      exact heq

theorem spell_magnitude (x : ℚ) : (spell x).magnitude = (shortest 1 x).value := by
  rw [spell]
  split_ifs with hzero
  · rw [hzero, shortest_zero]
    show ((0 : ℕ) + ((0 : ℕ) : ℚ) / 10 ^ 0) * 1 = 0
    norm_num
  · rw [numeralOf_magnitude, Decimal.trim_value]

/-- What Node writes as it is spelled has the shortest digits of its double. -/
theorem shortest_of_numberText (h : numberText n = wire n) :
    ∃ x, binary64 n.magnitude = some x ∧ (shortest 1 x).value = n.magnitude := by
  obtain ⟨x, hx, hn⟩ := numberText_eq_iff.mp h
  have hmagnitude : (spell x).magnitude = n.magnitude := by
    rw [← hn]
    rfl
  exact ⟨x, hx, by rw [← spell_magnitude, hmagnitude]⟩

theorem numberText_integer {i : ℤ} (hi : integer? n = some i) (hsize : n.whole ≤ 2 ^ 63) (hzero : i = 0 → n.neg = false)
    (hx : binary64 n.magnitude = some x) (hshort : (shortest 1 x).value = n.magnitude) : numberText n = wire n := by
  obtain ⟨hfrac, hexp, hwhole⟩ := integer?_eq_some_iff.mp hi
  obtain ⟨neg, whole, frac, exp⟩ := n
  subst hfrac hexp
  have hmagnitude : (⟨neg, whole, [], none⟩ : Numeral).magnitude = whole := by
    show (whole + ((0 : ℕ) : ℚ) / 10 ^ 0) * 1 = whole
    norm_num
  rw [hmagnitude] at hshort
  refine numberText_eq_iff.mpr ⟨x, hx, ?_⟩
  rw [hmagnitude] at hx
  rcases (binary64_nonneg hx (Nat.cast_nonneg _)).eq_or_lt with rfl | hpos
  · have hnone : whole = 0 := by
      rw [shortest_zero] at hshort
      exact_mod_cast hshort.symm
    subst hnone
    have hneg : neg = false := hzero (by cases neg <;> exact hwhole.symm)
    rw [hneg]
    rfl
  · have hmod := shortest_digits hx hpos (by omega : 1 ≤ 2)
    have hvalue := Decimal.trim_value (shortest 1 x)
    rw [hshort] at hvalue
    obtain ⟨d, hd⟩ : ∃ d, d = (shortest 1 x).trim := ⟨_, rfl⟩
    rw [← hd] at hmod hvalue
    -- no digit behind the point
    have hpower : 0 ≤ d.power := by
      by_contra hneg
      obtain ⟨k, hk⟩ := Int.eq_ofNat_of_zero_le (by omega : 0 ≤ -d.power - 1)
      have hdigits : (d.digits : ℚ) = whole * 10 ^ (k + 1) := by
        rw [← hvalue, Decimal.value, mul_assoc, ← zpow_natCast, ← zpow_add₀ (by norm_num),
          show d.power + ((k + 1 : ℕ) : ℤ) = 0 from by push_cast; omega, zpow_zero, mul_one]
      have hnat : d.digits = whole * 10 ^ k * 10 := by
        rw [mul_assoc, ← pow_succ]
        exact_mod_cast hdigits
      omega
    obtain ⟨k, hk⟩ := Int.eq_ofNat_of_zero_le hpower
    have hwhole : d.digits * 10 ^ k = whole := by
      rw [Decimal.value, hk, ← Int.ofNat_eq_natCast, Int.ofNat_eq_natCast, zpow_natCast] at hvalue
      exact_mod_cast hvalue
    have hpoint : (d.text.length : ℤ) + d.power ≤ 21 := by
      have hle := (Decimal.value_bounds (by omega : d.digits ≠ 0)).1
      have hlt : (whole : ℚ) < 10 ^ (20 : ℤ) := by
        have hcast : (whole : ℚ) ≤ 2 ^ 63 := by exact_mod_cast hsize
        refine hcast.trans_lt ?_
        norm_num
      rw [hvalue] at hle
      have hexponent := hle.trans_lt hlt
      rw [zpow_lt_zpow_iff_right₀ (by norm_num)] at hexponent
      omega
    rw [spell, if_neg hpos.ne', ← hd, numeralOf, if_pos ⟨hpower, hpoint⟩, hk, decide_eq_true hpos.ne', Bool.and_true,
      Numeral.mk.injEq]
    exact ⟨rfl, hwhole, rfl, rfl⟩

theorem numberText_fraction (hexp : n.exp = none) (hfrac : n.frac ≠ []) (hlast : n.frac.getLast? ≠ some (digit 0))
    (hx : binary64 n.magnitude = some x) (hlow : 1 / 1000 ≤ x) (hhigh : x < 10000000)
    (hshort : (shortest 1 x).value = n.magnitude) : numberText n = wire n := by
  have hpos : 0 < x := lt_of_lt_of_le (by norm_num) hlow
  have hmod := shortest_digits hx hpos (by omega : 1 ≤ 2)
  have hdigits := trim_eq_digitsOf hexp hfrac hlast hmod hshort
  have hpoint := point_bounds hx hlow hhigh (by omega : (shortest 1 x).trim.digits ≠ 0)
    (by rw [Decimal.trim_value, hshort])
  have hpower : (shortest 1 x).trim.power < 0 := by
    rw [hdigits]
    have hlength := List.length_pos_iff.mpr hfrac
    show -(n.frac.length : ℤ) < 0
    omega
  refine numberText_eq_iff.mpr ⟨x, hx, ?_⟩
  rw [spell, if_neg hpos.ne', numeralOf, if_neg (by omega), if_pos ⟨hpower, by omega, by omega⟩,
    decide_eq_true hpos.ne', Bool.and_true]
  have hn := withPoint_digitsOf hexp
  rw [← hdigits] at hn
  exact hn

/-- Node writes an exponent in small letters only, and no fraction that ends in zero. -/
theorem shape_of_numberText (h : numberText n = wire n) (hinteger : integer? n = none)
    (hx : binary64 n.magnitude = some x) :
    x ≠ 0 ∧ (∀ e, n.exp = some e → e.upper = false) ∧ (n.exp = none → n.frac ≠ [] ∧ n.frac.getLast? ≠ some (digit 0)) := by
  obtain ⟨x', hx', hn⟩ := numberText_eq_iff.mp h
  rw [hx] at hx'
  obtain rfl := Option.some.inj hx'
  have hnonneg := binary64_nonneg hx n.magnitude_nonneg
  have hwhole : n.exp = none → n.frac ≠ [] := by
    intro hexp hfrac
    have hsome : integer? n = some (if n.neg then -(n.whole : ℤ) else n.whole) :=
      integer?_eq_some_iff.mpr ⟨hfrac, hexp, rfl⟩
    rw [hinteger] at hsome
    exact absurd hsome.symm (Option.some_ne_none _)
  by_cases hzero : x = 0
  · rw [spell, if_pos hzero] at hn
    exact absurd (congrArg Numeral.frac hn).symm (hwhole (congrArg Numeral.exp hn).symm)
  have hmod := shortest_digits hx (lt_of_le_of_ne hnonneg (Ne.symm hzero)) (by omega : 1 ≤ 2)
  rw [spell, if_neg hzero, numeralOf] at hn
  split_ifs at hn with hplain hpoint
  · exact absurd (congrArg Numeral.frac hn).symm (hwhole (congrArg Numeral.exp hn).symm)
  · have hexp : none = n.exp := congrArg Numeral.exp hn
    have hfrac : lastDigits (-(shortest 1 x).trim.power).toNat (shortest 1 x).trim.digits = n.frac :=
      congrArg Numeral.frac hn
    refine ⟨hzero, fun e he => ?_, fun _ => ⟨hwhole hexp.symm, ?_⟩⟩
    · rw [← hexp] at he
      exact absurd he.symm (Option.some_ne_none _)
    · obtain ⟨k, hk⟩ := Nat.exists_eq_add_one_of_ne_zero (by omega : (-(shortest 1 x).trim.power).toNat ≠ 0)
      rw [← hfrac, hk, lastDigits, List.getLast?_concat, Ne, Option.some.injEq, Fin.ext_iff, digit_val]
      exact hmod
  · have hexp : some (exponentOf _) = n.exp := congrArg Numeral.exp hn
    refine ⟨hzero, fun e he => ?_, fun hnone => ?_⟩
    · rw [← hexp] at he
      rw [← Option.some.inj he]
      rfl
    · rw [hnone] at hexp
      exact absurd hexp (Option.some_ne_none _)

end Node

/-! ## What Python and Java write -/

theorem plain_eq_withPoint {d : Decimal} (h : d.power < 0) : plain d = withPoint false d := by
  rw [plain, if_neg (by omega)]
  rfl

theorem plain_frac_ne_nil (d : Decimal) : (plain d).frac ≠ [] := by
  rw [plain]
  split_ifs with hpower
  · exact nofun
  · intro hnil
    have hlength : (lastDigits (-d.power).toNat d.digits).length = 0 := congrArg List.length hnil
    rw [length_lastDigits] at hlength
    omega

/-- A fraction that is neither small nor large is written by Python and Java with the digits it has. -/
theorem plain_fraction {least : ℕ} (hleast : least ≤ 2) (hexp : n.exp = none) (hfrac : n.frac ≠ [])
    (hlast : n.frac.getLast? ≠ some (digit 0)) (hx : binary64 n.magnitude = some x) (hpos : 0 < x)
    (hshort : (shortest least x).value = n.magnitude) :
    ({ plain (shortest least x).trim with neg := n.neg } : Numeral) = n := by
  have hdigits := trim_eq_digitsOf hexp hfrac hlast (shortest_digits hx hpos hleast) hshort
  have hpower : (shortest least x).trim.power < 0 := by
    rw [hdigits]
    have hlength := List.length_pos_iff.mpr hfrac
    show -(n.frac.length : ℤ) < 0
    omega
  rw [plain_eq_withPoint hpower, hdigits]
  exact withPoint_digitsOf hexp

namespace Python

theorem dumps_integer {i : ℤ} (hi : integer? n = some i) : dumps (number n) = wire n ↔ (i = 0 → n.neg = false) := by
  rw [number, hi]
  exact toString_eq_wire_iff hi

theorem dumps_fraction (hexp : n.exp = none) (hfrac : n.frac ≠ []) (hlast : n.frac.getLast? ≠ some (digit 0))
    (hx : binary64 n.magnitude = some x) (hlow : 1 / 1000 ≤ x) (hhigh : x < 10000000)
    (hshort : (shortest 1 x).value = n.magnitude) : dumps (number n) = wire n := by
  have hpos : 0 < x := lt_of_lt_of_le (by norm_num) hlow
  have hmod := shortest_digits hx hpos (by omega : 1 ≤ 2)
  have hpoint := point_bounds hx hlow hhigh (by omega : (shortest 1 x).trim.digits ≠ 0)
    (by rw [Decimal.trim_value, hshort])
  have hnumber : number n = .float ⟨n.neg, some x⟩ := by
    rw [number, integer?, if_neg fun h => hfrac h.1, Binary.ofNumeral, hx]
  have hrepr : repr x = plain (shortest 1 x).trim := by
    rw [repr, if_neg hpos.ne']
    exact if_pos ⟨hpoint.1, by omega⟩
  rw [hnumber, dumps, hrepr, plain_fraction (by omega) hexp hfrac hlast hx hpos hshort]
  rfl

end Python

namespace Java

theorem doubleToString_frac_ne_nil (x : ℚ) : (doubleToString x).frac ≠ [] := by
  rw [doubleToString]
  by_cases hzero : x = 0
  · rw [if_pos hzero]
    exact nofun
  · rw [if_neg hzero]
    dsimp only
    split_ifs with hrange hone
    · exact plain_frac_ne_nil _
    · exact nofun
    · intro hnil
      have hpos : 0 < (shortest 2 x).trim.text.length := Nat.length_toDigits_pos
      have hlength : (lastDigits ((shortest 2 x).trim.text.length - 1) (shortest 2 x).trim.digits).length = 0 :=
        congrArg List.length hnil
      rw [length_lastDigits] at hlength
      omega

theorem write_double_eq_iff : write (.double (.ofNumeral n)) = wire n ↔
    ∃ x, binary64 n.magnitude = some x ∧ ({ doubleToString x with neg := n.neg } : Numeral) = n := by
  rw [Binary.ofNumeral]
  cases h : binary64 n.magnitude with
  | none => exact iff_of_false (wire_ne_ofString n rfl) nofun
  | some x =>
    have hwire : write (.double ⟨n.neg, some x⟩) = wire { doubleToString x with neg := n.neg } := rfl
    rw [hwire, wire_injective.eq_iff]
    constructor
    · exact fun heq => ⟨x, rfl, heq⟩
    · rintro ⟨_, ⟨⟩, heq⟩
      exact heq

theorem write_integer {i : ℤ} (hi : integer? n = some i) :
    write (number n) = wire n ↔ -2 ^ 63 ≤ i ∧ i < 2 ^ 63 ∧ (i = 0 → n.neg = false) := by
  rw [number, hi]
  show write (if -2 ^ 63 ≤ i ∧ i < 2 ^ 63 then .long i else .double (.ofNumeral n)) = wire n ↔ _
  by_cases hlong : -2 ^ 63 ≤ i ∧ i < 2 ^ 63
  · rw [if_pos hlong, write, toString_eq_wire_iff hi]
    exact ⟨fun h => ⟨hlong.1, hlong.2, h⟩, fun h => h.2.2⟩
  · rw [if_neg hlong]
    refine iff_of_false (fun h => ?_) fun h => hlong ⟨h.1, h.2.1⟩
    obtain ⟨x, -, hn⟩ := write_double_eq_iff.mp h
    have hfrac : (doubleToString x).frac = n.frac := by
      rw [← hn]
    rw [(integer?_eq_some_iff.mp hi).1] at hfrac
    exact doubleToString_frac_ne_nil x hfrac

theorem write_fraction (hexp : n.exp = none) (hfrac : n.frac ≠ []) (hlast : n.frac.getLast? ≠ some (digit 0))
    (hx : binary64 n.magnitude = some x) (hlow : 1 / 1000 ≤ x) (hhigh : x < 10000000)
    (hshort : (shortest 1 x).value = n.magnitude) : write (number n) = wire n := by
  have hpos : 0 < x := lt_of_lt_of_le (by norm_num) hlow
  have hnumber : number n = .double (.ofNumeral n) := by rw [number, integer?, if_neg fun h => hfrac h.1]
  have htext : doubleToString x = plain (shortest 2 x).trim := by
    rw [doubleToString, if_neg hpos.ne']
    exact if_pos ⟨hlow, hhigh⟩
  rw [hnumber, write_double_eq_iff]
  refine ⟨x, hx, ?_⟩
  rw [htext]
  exact plain_fraction le_rfl hexp hfrac hlast hx hpos (by rw [shortest_two hx hlow, hshort])

/-- A number that is no integer keeps its spelling only in Java's plain notation, unless its exponent is in capitals. -/
theorem range_of_write (h : write (number n) = wire n) (hinteger : integer? n = none) :
    ∃ x, binary64 n.magnitude = some x ∧
      ((∃ e, n.exp = some e ∧ e.upper = true) ∨ (n.exp = none ∧ (x = 0 ∨ 1 / 1000 ≤ x ∧ x < 10000000))) := by
  rw [number, hinteger] at h
  obtain ⟨x, hx, hn⟩ := write_double_eq_iff.mp h
  have hexp : (doubleToString x).exp = n.exp := by
    rw [← hn]
  refine ⟨x, hx, ?_⟩
  rw [doubleToString] at hexp
  by_cases hzero : x = 0
  · rw [if_pos hzero] at hexp
    exact .inr ⟨hexp.symm, .inl hzero⟩
  rw [if_neg hzero] at hexp
  dsimp only at hexp
  by_cases hrange : 1 / 1000 ≤ x ∧ x < 10000000
  · rw [if_pos hrange, plain] at hexp
    refine .inr ⟨?_, .inr hrange⟩
    rw [← hexp]
    split_ifs
    · rfl
    · rfl
  · rw [if_neg hrange] at hexp
    exact .inl ⟨_, hexp.symm, rfl⟩

end Java

/-! ## The numbers that every language writes as they are spelled -/

/-- An integer of 64 bits, and not minus zero. -/
def Integral (n : Numeral) : Prop := ∃ i, integer? n = some i ∧ -2 ^ 63 ≤ i ∧ i < 2 ^ 63 ∧ (i = 0 → n.neg = false)

/-- A fraction without an exponent and without a zero at its end, whose double is neither small nor large. -/
def Fractional (n : Numeral) (x : ℚ) : Prop :=
  n.exp = none ∧ n.frac ≠ [] ∧ n.frac.getLast? ≠ some (digit 0) ∧ 1 / 1000 ≤ x ∧ x < 10000000

/-- The shortest decimal of its double, spelled plainly. -/
def Spelled (n : Numeral) : Prop :=
  ∃ x, binary64 n.magnitude = some x ∧ (shortest 1 x).value = n.magnitude ∧ (Integral n ∨ Fractional n x)

theorem accepts_integral (h : Integral n) : Python.accepts n = true := by
  obtain ⟨i, hi, hlow, hhigh, -⟩ := h
  have hwhole := (integer?_eq_some_iff.mp hi).2.2
  have hsize : n.whole < 10 ^ 20 := by
    split_ifs at hwhole
    · omega
    · omega
  have hlength : (natDigits n.whole).length ≤ 20 := by
    rw [← List.length_map (f := digitChar), natDigits_toDigits]
    exact (Nat.length_toDigits_le_iff (by omega) (by omega)).mpr hsize
  rw [Python.accepts, hi]
  exact decide_eq_true (hlength.trans (by omega))

theorem spelled_iff : Spelled n ↔ Python.accepts n = true ∧ Python.dumps (Python.number n) = wire n ∧
    Node.numberText n = wire n ∧ Java.write (Java.number n) = wire n := by
  constructor
  · rintro ⟨x, hx, hshort, hintegral | ⟨hexp, hfrac, hlast, hlow, hhigh⟩⟩
    · have haccepts := accepts_integral hintegral
      obtain ⟨i, hi, hlow, hhigh, hzero⟩ := hintegral
      have hsize : n.whole ≤ 2 ^ 63 := by
        have hwhole := (integer?_eq_some_iff.mp hi).2.2
        split_ifs at hwhole
        · omega
        · omega
      exact ⟨haccepts, (Python.dumps_integer hi).mpr hzero, Node.numberText_integer hi hsize hzero hx hshort,
        (Java.write_integer hi).mpr ⟨hlow, hhigh, hzero⟩⟩
    · have hinteger : integer? n = none := if_neg fun h => hfrac h.1
      refine ⟨?_, Python.dumps_fraction hexp hfrac hlast hx hlow hhigh hshort,
        Node.numberText_fraction hexp hfrac hlast hx hlow hhigh hshort,
        Java.write_fraction hexp hfrac hlast hx hlow hhigh hshort⟩
      rw [Python.accepts, hinteger]
      rfl
  · rintro ⟨-, -, hnode, hjava⟩
    obtain ⟨x, hx, hshort⟩ := Node.shortest_of_numberText hnode
    refine ⟨x, hx, hshort, ?_⟩
    cases hi : integer? n with
    | some i => exact .inl ⟨i, hi, (Java.write_integer hi).mp hjava⟩
    | none =>
      obtain ⟨hne, hsmall, hplain⟩ := Node.shape_of_numberText hnode hi hx
      obtain ⟨x', hx', hrange⟩ := Java.range_of_write hjava hi
      rw [hx] at hx'
      obtain rfl := Option.some.inj hx'
      rcases hrange with ⟨e, he, hupper⟩ | ⟨hexp, hrange⟩
      · rw [hsmall e he] at hupper
        exact nomatch hupper
      · obtain ⟨hfrac, hlast⟩ := hplain hexp
        rcases hrange with hzero | ⟨hlow, hhigh⟩
        · exact absurd hzero hne
        · exact .inr ⟨hexp, hfrac, hlast, hlow, hhigh⟩

end

end PtaasBench.JsonLeaves
