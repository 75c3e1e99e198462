import PtaasBench.Sdk.Networks

/-!
# PtaasBench.Sdk.Recognition — where the four tests of a peer agree

Python, the collector included, and PHP compare a peer as it is reported, Node compares it read as IPv4
where it is IPv4-mapped, and reads the entries of the list that way too.
-/

namespace PtaasBench.Sdk

open Py Lib List

/-! ## Texts of literals -/

theorem toNat_of_isDigit {c : Char} (h : c.isDigit = true) : 48 ≤ c.toNat ∧ c.toNat ≤ 57 := by
  simp only [Char.isDigit, Bool.and_eq_true, decide_eq_true_eq, ge_iff_le, UInt32.le_iff_toNat_le] at h
  exact h

theorem toNat_of_literalChar {c : Char} (h : literalChar c = true) :
    c.toNat = 46 ∨ 48 ≤ c.toNat ∧ c.toNat ≤ 58 ∨ 65 ≤ c.toNat ∧ c.toNat ≤ 70 ∨ 97 ≤ c.toNat ∧ c.toNat ≤ 102 := by
  rcases (Bool.or_eq_true _ _).mp h with hdigit | hletter
  · have hdigit := toNat_of_isDigit hdigit
    omega
  · have hall : ("abcdefABCDEF:.".toList.all fun d => d.toNat = 46 ∨ d.toNat = 58 ∨
        65 ≤ d.toNat ∧ d.toNat ≤ 70 ∨ 97 ≤ d.toNat ∧ d.toNat ≤ 102) = true := by rfl
    have hletter := of_decide_eq_true (all_eq_true.mp hall c (contains_iff_mem.mp hletter))
    omega

theorem dropWhile_eq {p : Char → Bool} {s : Text} (h : ∀ c ∈ s, p c = false) : s.dropWhile p = s := by
  rw [dropWhile_eq_self_iff]
  intro hs
  rw [h _ (getElem_mem hs)]
  exact Bool.false_ne_true

theorem stripText_eq {p : Char → Bool} {s : Text} (h : ∀ c ∈ s, p c = false) : stripText p s = s := by
  rw [stripText, dropWhile_eq h, rdropWhile_eq_self_iff]
  intro hs
  rw [h _ (getLast_mem hs)]
  exact Bool.false_ne_true

theorem spaces_of_graphic {c : Char} (h : 46 ≤ c.toNat ∧ c.toNat ≤ 102) :
    isSpace c = false ∧ jsSpace c = false ∧ phpSpace c = false := by
  refine ⟨isSpace_of_graphic (by omega), ?_, ?_⟩
  · simp only [jsSpace, mem_cons, not_mem_nil, or_false, decide_eq_false_iff_not]
    omega
  · simp only [phpSpace, mem_cons, not_mem_nil, or_false, decide_eq_false_iff_not]
    omega

/-- Before and behind the only separator. -/
theorem splitLast_append {sep : Char} {front back : Text} (h : sep ∉ back) :
    splitLast sep (front ++ sep :: back) = (front, some back) := by
  have hreverse : (front ++ sep :: back).reverse = back.reverse ++ sep :: front.reverse := by simp
  have hnot : ∀ c ∈ back.reverse, decide (c ≠ sep) = true := by
    intro c hc
    refine decide_eq_true ?_
    rintro rfl
    exact h (mem_reverse.mp hc)
  rw [splitLast, if_pos (by simp), hreverse, dropWhile_append_of_pos hnot, takeWhile_append_of_pos hnot,
    dropWhile_cons_of_neg (by simp), takeWhile_cons_of_neg (by simp)]
  simp

theorem splitLast_of_notMem {sep : Char} {s : Text} (h : sep ∉ s) : splitLast sep s = (s, none) := if_neg h

theorem takeWhile_ne {sep : Char} {s : Text} (h : sep ∉ s) : s.takeWhile (· ≠ sep) = s := by
  rw [takeWhile_eq_self_iff]
  intro c hc
  refine decide_eq_true ?_
  rintro rfl
  exact h hc

/-! ## Decimal texts -/

theorem isDigit_digits {n : ℕ} {c : Char} (h : c ∈ digits n) : c.isDigit = true :=
  Nat.isDigit_of_mem_toDigits (by decide) (by decide) h

theorem all_isDigit_digits (n : ℕ) : (digits n).all Char.isDigit = true :=
  all_eq_true.mpr fun _ hc => isDigit_digits hc

theorem slash_notMem_digits (n : ℕ) : '/' ∉ digits n := fun h => absurd (isDigit_digits h) (by decide)

theorem ofDigitChars_digits (n : ℕ) : Nat.ofDigitChars 10 (digits n) 0 = n := Nat.ofDigitChars_ten_toDigits

theorem jsParseInt_digits (n : ℕ) : Addresses.jsParseInt (digits n) = some (n : ℤ) := by
  have hspace : ∀ c ∈ digits n, jsSpace c = false := by
    intro c hc
    have hdigit := toNat_of_isDigit (isDigit_digits hc)
    exact (spaces_of_graphic (by omega)).2.1
  have htake : (digits n).takeWhile Char.isDigit = digits n :=
    takeWhile_eq_self_iff.mpr fun c hc => isDigit_digits hc
  have hnumber := ofDigitChars_digits n
  rw [Addresses.jsParseInt, dropWhile_eq hspace]
  rcases hn : digits n with _ | ⟨c, rest⟩
  · exact absurd hn Nat.toDigits_ne_nil
  · have hdigit : c.isDigit = true := isDigit_digits (by rw [hn]; exact mem_cons_self)
    rw [hn] at htake hnumber
    split
    next heq =>
      split at heq
      next hminus =>
        obtain ⟨rfl, -⟩ := List.cons.inj hminus
        exact absurd hdigit (by decide)
      next hplus =>
        obtain ⟨rfl, -⟩ := List.cons.inj hplus
        exact absurd hdigit (by decide)
      next =>
        obtain ⟨rfl, rfl⟩ := Prod.mk.inj heq
        rw [htake]
        dsimp only
        rw [if_neg (cons_ne_nil _ _), hnumber]
        rfl

/-! ## What the programs make of a literal -/

section Literals

variable (lib : Addresses) {t : Text} {a : Addr}

theorem notMem_literal (h : lib.parse t = some a) {c : Char} (hc : literalChar c = false) : c ∉ t := by
  intro hmem
  rw [(lib.parse_chars t a h).2 c hmem] at hc
  exact absurd hc (by decide)

theorem spaces_of_literal (h : lib.parse t = some a) :
    ∀ c ∈ t, isSpace c = false ∧ jsSpace c = false ∧ phpSpace c = false := by
  intro c hc
  have hchar := toNat_of_literalChar ((lib.parse_chars t a h).2 c hc)
  exact spaces_of_graphic (by omega)

theorem ipAddress_literal (h : lib.parse t = some a) : lib.ipAddress t = some a := by
  rw [Addresses.ipAddress, splitOn_eq_singleton (notMem_literal lib h (by decide))]
  exact h

/-- A literal has no colon, or two and more. -/
theorem count_colon (h : lib.parse t = some a) : t.count ':' ≠ 1 := by
  cases a with
  | v4 bits =>
    have hdotted := (lib.parse_v4 t bits).mp h
    have hnone : ':' ∉ t := by
      intro hmem
      rcases digit_or_dot_of_parseDotted hdotted ':' hmem with hdot | hdigit
      · exact absurd hdot (by decide)
      · exact absurd hdigit (by decide)
    rw [count_eq_zero.mpr hnone]
    exact Nat.zero_ne_one
  | v6 bits =>
    have htwo := lib.parse_colons t bits h
    omega

theorem head?_literal (h : lib.parse t = some a) : t.head? ≠ some '[' := by
  intro hhead
  exact notMem_literal lib h (by decide) (mem_of_mem_head? hhead)

theorem parseAddress_literal (h : lib.parse t = some a) : lib.parseAddress t = some a := by
  rw [Addresses.parseAddress, stripText_eq fun c hc => (spaces_of_literal lib h c hc).1, if_neg (lib.parse_chars t a h).1,
    if_neg (not_or.mpr ⟨notMem_literal lib h (by decide), notMem_literal lib h (by decide)⟩),
    if_neg (head?_literal lib h), if_neg (count_colon lib h)]
  exact ipAddress_literal lib h

/-- Node reads a literal as IPv4 if it is of the form `::ffff:a.b.c.d`. -/
theorem normaliseAddress_literal (h : lib.parse t = some a) :
    (lib.normaliseAddress t).bind lib.parse = some (if (mappedMatch t).isSome then a.fold else a) := by
  obtain ⟨hne, -⟩ := lib.parse_chars t a h
  have hbracket : ¬ (t.head? = some '[' ∧ t.getLast? = some ']') := fun hboth => head?_literal lib h hboth.1
  rw [Addresses.normaliseAddress, if_neg hne, stripText_eq fun c hc => (spaces_of_literal lib h c hc).2.1]
  dsimp only
  rw [if_neg hbracket, takeWhile_ne (notMem_literal lib h (by decide)), if_neg hne]
  cases hmatch : mappedMatch t with
  | none =>
    rw [Option.getD_none, h, if_neg (by simp), Option.bind_some, h]
    rfl
  | some rest =>
    obtain ⟨bits, hrest, rfl⟩ := lib.parse_mapped t rest a hmatch h
    have hparse := (lib.parse_v4 rest bits).mpr hrest
    rw [Option.getD_some, hparse, if_neg (by simp), Option.bind_some, hparse, Addr.fold_mapped]
    rfl

end Literals

/-! ## What the programs make of an entry -/

namespace Cidr

variable {lib : Addresses} (c : Cidr lib)

theorem text_ne_nil : c.text ≠ [] := by
  intro h
  exact (lib.parse_chars _ _ c.parses).1 (append_eq_nil_iff.mp h).1

theorem spaces_of_text : ∀ ch ∈ c.text, isSpace ch = false ∧ jsSpace ch = false ∧ phpSpace ch = false := by
  intro ch hch
  rcases mem_append.mp hch with hliteral | hlength
  · exact spaces_of_literal lib c.parses ch hliteral
  · cases hn : c.length with
    | none =>
      rw [hn] at hlength
      cases hlength
    | some n =>
      rw [hn] at hlength
      rcases mem_cons.mp hlength with rfl | hdigit
      · exact spaces_of_graphic (by decide)
      · have hbounds := toNat_of_isDigit (isDigit_digits hdigit)
        exact spaces_of_graphic (by omega)

/-- The literal, and the digits behind the slash. -/
theorem splitLast_text : splitLast '/' c.text = (c.literal, c.length.map digits) := by
  have hliteral : '/' ∉ c.literal := notMem_literal lib c.parses (by decide)
  rw [text]
  cases hn : c.length with
  | none =>
    rw [Option.elim_none, append_nil]
    exact splitLast_of_notMem hliteral
  | some n => exact splitLast_append (slash_notMem_digits n)

theorem ipNetwork_text : lib.ipNetwork c.text = some c.range := by
  rw [text, range]
  cases hn : c.length with
  | none =>
    rw [Option.elim_none, append_nil]
    exact lib.ipNetwork_host _ _ c.parses
  | some n => exact lib.ipNetwork_length _ _ _ c.parses (c.valid n hn)

theorem length_le : c.length.getD c.address.width ≤ c.address.width := by
  cases hn : c.length with
  | none => exact Nat.le_refl _
  | some n => exact c.valid n hn

/-- Node reads the literal of an entry the way it reads a peer. -/
theorem sourceEntry_text : lib.sourceEntry c.text = if c.SpelledMapped then c.folded else some c.range := by
  have hread := normaliseAddress_literal lib c.parses
  have hlength : ∀ a : Addr, ((c.length.map digits).elim (some (a.width : ℤ)) Addresses.jsParseInt) =
      some ((c.length.getD a.width : ℕ) : ℤ) := by
    intro a
    cases c.length with
    | none => rfl
    | some n => exact jsParseInt_digits n
  rw [Addresses.sourceEntry, stripText_eq fun ch hch => (c.spaces_of_text ch hch).2.1]
  dsimp only
  rw [if_neg c.text_ne_nil, c.splitLast_text]
  dsimp only
  rw [hread]
  dsimp only
  rw [hlength]
  dsimp only
  by_cases hmapped : c.SpelledMapped
  · have hspelled : (mappedMatch c.literal).isSome = true := hmapped
    rw [if_pos hspelled, if_pos hmapped, folded]
    by_cases hfits : c.length.getD c.address.fold.width ≤ c.address.fold.width
    · rw [if_neg (by omega), if_pos hfits, Int.toNat_natCast]
    · rw [if_pos (by omega), if_neg hfits]
  · have hspelled : ¬ (mappedMatch c.literal).isSome = true := hmapped
    have hfits := c.length_le
    rw [if_neg hspelled, if_neg hmapped, if_neg (by omega), Int.toNat_natCast]
    rfl

end Cidr

/-! ## Bytes and bits -/

section Bits

variable {as bs : Bytes}

/-- Masked bytes are the same if they lead alike. -/
theorem mask_eq_iff {a b : ℕ} (ha : a < 256) (hb : b < 256) {r : ℕ} (hr : r < 8) :
    a &&& ((0xFF <<< (8 - r)) &&& 0xFF) = b &&& ((0xFF <<< (8 - r)) &&& 0xFF) ↔
      a / 2 ^ (8 - r) = b / 2 ^ (8 - r) := by
  have hall : ∀ r < 8, ∀ n < 256, n &&& ((0xFF <<< (8 - r)) &&& 0xFF) = n / 2 ^ (8 - r) * 2 ^ (8 - r) := by
    decide +kernel
  rw [hall r hr a ha, hall r hr b hb]
  exact Nat.mul_left_inj (by positivity)

/-- The bytes that are compared, and the bits of one more, are the leading bits. -/
theorem compared_iff (hlength : as.length = bs.length) {n : ℕ} (hn : n ≤ 8 * as.length) :
    (¬ (0 < n / 8 ∧ as.take (n / 8) ≠ bs.take (n / 8)) ∧
      (n % 8 = 0 ∨
        (as.getD (n / 8) 0).toNat &&& ((0xFF <<< (8 - n % 8)) &&& 0xFF) =
          (bs.getD (n / 8) 0).toNat &&& ((0xFF <<< (8 - n % 8)) &&& 0xFF))) ↔
      beNat as / 2 ^ (8 * as.length - n) = beNat bs / 2 ^ (8 * as.length - n) := by
  have hwhole : ¬ (0 < n / 8 ∧ as.take (n / 8) ≠ bs.take (n / 8)) ↔ as.take (n / 8) = bs.take (n / 8) := by
    by_cases hzero : n / 8 = 0
    · simp [hzero]
    · simp [Nat.pos_of_ne_zero hzero]
  rw [hwhole]
  by_cases hrest : n % 8 = 0
  · have hsplit : n = 8 * (n / 8) := by omega
    have hlead := leading_bytes hlength (show n / 8 ≤ as.length by omega)
    rw [← hsplit] at hlead
    rw [hlead]
    simp [hrest]
  · have hsplit : n = 8 * (n / 8) + n % 8 := by omega
    have hlead := leading_bits hlength (show n / 8 < as.length by omega) (Nat.mod_lt n (by decide))
    rw [← hsplit] at hlead
    rw [hlead, mask_eq_iff (UInt8.toNat_lt _) (UInt8.toNat_lt _) (Nat.mod_lt n (by decide))]
    simp [hrest]

end Bits

theorem contains_iff (p : Prefix) (a : Addr) :
    p.contains a = true ↔ a.packed.length = p.network.packed.length ∧
      beNat a.packed / 2 ^ (8 * a.packed.length - p.length) =
        beNat p.network.packed / 2 ^ (8 * a.packed.length - p.length) := by
  rw [Prefix.contains, Bool.and_eq_true, decide_eq_true_eq, beq_iff_eq, Prefix.leading, Prefix.leading,
    Addr.width_packed, Addr.width_packed, Addr.beNat_packed, Addr.beNat_packed]
  constructor
  · rintro ⟨hwidth, hlead⟩
    rw [← hwidth] at hlead
    exact ⟨by omega, hlead⟩
  · rintro ⟨hlength, hlead⟩
    rw [hlength] at hlead ⊢
    exact ⟨rfl, hlead⟩

/-- A prefix of the whole width is one address. -/
theorem contains_host (p : Prefix) (a : Addr) (hp : p.length = p.network.width) :
    p.contains a = true ↔ p.network.packed = a.packed := by
  rw [contains_iff, hp, Addr.width_packed]
  constructor
  · rintro ⟨hlength, hlead⟩
    rw [hlength, Nat.sub_self, pow_zero, Nat.div_one, Nat.div_one] at hlead
    exact ((beNat_inj hlength).mp hlead).symm
  · intro hpacked
    rw [hpacked]
    exact ⟨rfl, rfl⟩

namespace Cidr

variable {lib : Addresses} (c : Cidr lib)

theorem inetPton_literal : lib.inetPton c.literal = some c.address.packed := by
  rw [Addresses.inetPton, c.parses]
  rfl

/-- The digits of a length are read as the length. -/
theorem bits_of_length {n : ℕ} (hn : n ≤ c.address.width) :
    ¬ (digits n = [] ∨ ¬ (digits n).all Char.isDigit = true) ∧
      min (Nat.ofDigitChars 10 (digits n) 0) Addresses.phpIntMax = n := by
  constructor
  · rintro (hnil | hall)
    · exact Nat.toDigits_ne_nil hnil
    · exact hall (all_isDigit_digits n)
  · have hwidth : c.address.width ≤ 128 := by
      cases c.address with
      | v4 bits => exact (by decide : 32 ≤ 128)
      | v6 bits => exact Nat.le_refl _
    have hmax : (128 : ℕ) ≤ Addresses.phpIntMax := by decide
    rw [ofDigitChars_digits]
    exact Nat.min_eq_left (by omega)

/-- PHP compares the bits of the length of an entry. -/
theorem matchesCidr_text (a : Addr) : lib.matchesCidr a.packed c.text = c.range.contains a := by
  rw [Bool.eq_iff_iff, Addresses.matchesCidr, stripText_eq fun ch hch => (c.spaces_of_text ch hch).2.2]
  dsimp only
  rw [if_neg c.text_ne_nil, c.splitLast_text, range]
  cases hn : c.length with
  | none =>
    dsimp only [Option.map_none, Option.getD_none]
    rw [c.inetPton_literal, decide_eq_true_eq, Option.some.injEq]
    exact (contains_host { network := c.address, length := c.address.width } a rfl).symm
  | some n =>
    have hvalid := c.valid n hn
    obtain ⟨hdigits, hbits⟩ := c.bits_of_length hvalid
    rw [Addr.width_packed] at hvalid
    dsimp only [Option.map_some, Option.getD_some]
    rw [c.inetPton_literal, contains_iff]
    dsimp only
    rw [if_neg hdigits, hbits]
    by_cases hlength : a.packed.length = c.address.packed.length
    · have hsame := compared_iff hlength (show n ≤ 8 * a.packed.length by omega)
      rw [if_neg (fun hne => hne hlength.symm), if_neg (by omega), ← hsame]
      split_ifs with hfront hrest
      · exact ⟨fun h => h.elim, fun h => absurd hfront h.2.1⟩
      · exact ⟨fun _ => ⟨hlength, hfront, Or.inl hrest⟩, fun _ => rfl⟩
      · rw [decide_eq_true_eq]
        exact ⟨fun h => ⟨hlength, hfront, Or.inr h⟩, fun h => h.2.2.resolve_left hrest⟩
    · rw [if_pos (fun heq => hlength heq.symm)]
      simp [hlength]

end Cidr

/-! ## The rule of a deployment of the collector -/

/-! ## The peers -/

theorem dottedShape_dotted (bits : BitVec 32) : dottedShape (dotted bits) = true := by
  have hshape : ∀ n < 256, (1 ≤ (Nat.toDigits 10 n).length && (Nat.toDigits 10 n).length ≤ 3 &&
      (Nat.toDigits 10 n).all Char.isDigit) = true := by decide +kernel
  rw [dottedShape, splitOn_dotted]
  simp only [length_map, all_map, Bool.and_eq_true, decide_eq_true_eq, all_eq_true]
  exact ⟨rfl, fun n hn => by simpa using hshape n (octet_lt hn)⟩

theorem take_mappedStart (rest : Text) : (mappedStart ++ rest).take 7 = mappedStart :=
  @take_left _ mappedStart rest

theorem drop_mappedStart (rest : Text) : (mappedStart ++ rest).drop 7 = rest := @drop_left _ mappedStart rest

theorem mappedMatch_mapped (bits : BitVec 32) : mappedMatch (mappedStart ++ dotted bits) = some (dotted bits) := by
  rw [mappedMatch, take_mappedStart, drop_mappedStart, if_pos ⟨rfl, dottedShape_dotted bits⟩]

namespace Peer

variable {lib : Addresses} (peer : Peer lib)

/-- Node compares a peer read as IPv4. -/
theorem normaliseAddress_text : (lib.normaliseAddress peer.text).bind lib.parse = some peer.address.fold := by
  rw [normaliseAddress_literal lib peer.parses]
  cases hmatch : mappedMatch peer.text with
  | some rest => rfl
  | none =>
    rcases peer.address.fold_cases with hself | ⟨bits, hmapped⟩
    · rw [hself]
      rfl
    · rw [peer.reported bits hmapped, mappedMatch_mapped] at hmatch
      cases hmatch

end Peer

section Answers

variable {lib : Addresses} (peer : Peer lib) (cidrs : List (Cidr lib))

theorem filterMap_ipNetwork : (cidrs.map Cidr.text).filterMap lib.ipNetwork = cidrs.map Cidr.range := by
  rw [filterMap_map, ← filterMap_eq_map]
  exact filterMap_congr fun c _ => c.ipNetwork_text

/-- The collector compares a peer as it is reported. -/
theorem isSyntheticSource_iff :
    lib.isSyntheticSource (lib.parseCidrs (cidrs.map Cidr.text)) [some peer.text] = true ↔
      ∃ c ∈ cidrs, c.range.contains peer.address = true := by
  rw [Addresses.parseCidrs, filterMap_ipNetwork, Addresses.isSyntheticSource, List.findSome?_singleton,
    Option.bind_some, parseAddress_literal lib peer.parses]
  cases cidrs with
  | nil => simp
  | cons c cidrs => simp

theorem isSyntheticPeer_iff : lib.isSyntheticPeer (cidrs.map Cidr.text) peer.text = true ↔
    ∃ c ∈ cidrs, c.range.contains peer.address = true := by
  rw [Addresses.isSyntheticPeer, if_neg (lib.parse_chars _ _ peer.parses).1, filterMap_ipNetwork,
    stripText_eq fun c hc => (spaces_of_literal lib peer.parses c hc).1, ipAddress_literal lib peer.parses]
  cases cidrs with
  | nil => simp
  | cons c cidrs => simp

theorem inNetworks_iff : lib.inNetworks peer.text (cidrs.map Cidr.text) = true ↔
    ∃ c ∈ cidrs, c.range.contains peer.address = true := by
  have hpton : lib.inetPton peer.text = some peer.address.packed := by
    rw [Addresses.inetPton, peer.parses]
    rfl
  rw [Addresses.inNetworks, stripText_eq fun c hc => (spaces_of_literal lib peer.parses c hc).2.2, hpton]
  cases cidrs with
  | nil => simp
  | cons c cidrs =>
    rw [if_neg (by simp [(lib.parse_chars _ _ peer.parses).1])]
    simp [Cidr.matchesCidr_text]

theorem sourceMatches_iff : lib.sourceMatches (cidrs.map Cidr.text) peer.text = true ↔
    (∃ c ∈ cidrs, ¬ c.SpelledMapped ∧ c.range.contains peer.address.fold = true) ∨
      ∃ c ∈ cidrs, c.SpelledMapped ∧ ∃ p ∈ c.folded, p.contains peer.address.fold = true := by
  have hany : lib.sourceMatches (cidrs.map Cidr.text) peer.text =
      ((cidrs.map Cidr.text).filterMap lib.sourceEntry).any (·.contains peer.address.fold) := by
    rw [Addresses.sourceMatches, peer.normaliseAddress_text]
    dsimp only
    split_ifs with hnil
    · rw [length_eq_zero_iff.mp hnil]
      rfl
    · rfl
  rw [hany, any_eq_true]
  simp only [mem_filterMap, mem_map, exists_exists_and_eq_and, Cidr.sourceEntry_text]
  constructor
  · rintro ⟨p, ⟨c, hc, hentry⟩, hp⟩
    by_cases hmapped : c.SpelledMapped
    · rw [if_pos hmapped] at hentry
      exact Or.inr ⟨c, hc, hmapped, p, hentry, hp⟩
    · rw [if_neg hmapped] at hentry
      obtain rfl := Option.some.inj hentry
      exact Or.inl ⟨c, hc, hmapped, hp⟩
  · rintro (⟨c, hc, hmapped, hp⟩ | ⟨c, hc, hmapped, p, hfolded, hp⟩)
    · exact ⟨c.range, ⟨c, hc, if_neg hmapped⟩, hp⟩
    · exact ⟨p, ⟨c, hc, (if_pos hmapped).trans hfolded⟩, hp⟩

/-- What the collector, and the agents for Python, Node and PHP, answer. -/
def answers : List Bool :=
  [lib.isSyntheticSource (lib.parseCidrs (cidrs.map Cidr.text)) [some peer.text],
    lib.isSyntheticPeer (cidrs.map Cidr.text) peer.text,
    lib.sourceMatches (cidrs.map Cidr.text) peer.text,
    lib.inNetworks peer.text (cidrs.map Cidr.text)]

/-- An IPv4-mapped peer is in a network as IPv4 and in one as IPv6, or in none either way. -/
def MappedInBoth : Prop :=
  ∀ bits, peer.address = .mapped bits →
    ((∃ c ∈ cidrs, c.range.contains (.mapped bits) = true) ↔ ∃ c ∈ cidrs, c.range.contains (.v4 bits) = true)

/-- The peer is in a network that is not spelled `::ffff:a.b.c.d`, or those that are have it as they are and
read as IPv4, or neither way. -/
def SpellingHarmless : Prop :=
  (∃ c ∈ cidrs, ¬ c.SpelledMapped ∧ c.range.contains peer.address.fold = true) ∨
    ((∃ c ∈ cidrs, c.SpelledMapped ∧ ∃ p ∈ c.folded, p.contains peer.address.fold = true) ↔
      ∃ c ∈ cidrs, c.SpelledMapped ∧ c.range.contains peer.address.fold = true)

theorem mappedInBoth_iff : MappedInBoth peer cidrs ↔
    ((∃ c ∈ cidrs, c.range.contains peer.address = true) ↔ Recognised peer cidrs) := by
  constructor
  · intro h
    rw [Recognised]
    rcases peer.address.fold_cases with hself | ⟨bits, hmapped⟩
    · rw [hself]
    · rw [hmapped, Addr.fold_mapped]
      exact h bits hmapped
  · intro h bits hmapped
    rw [Recognised, hmapped, Addr.fold_mapped] at h
    exact h

theorem spellingHarmless_iff : SpellingHarmless peer cidrs ↔
    (lib.sourceMatches (cidrs.map Cidr.text) peer.text = true ↔ Recognised peer cidrs) := by
  have hsplit : Recognised peer cidrs ↔
      (∃ c ∈ cidrs, ¬ c.SpelledMapped ∧ c.range.contains peer.address.fold = true) ∨
        ∃ c ∈ cidrs, c.SpelledMapped ∧ c.range.contains peer.address.fold = true := by
    constructor
    · rintro ⟨c, hc, hin⟩
      by_cases hmapped : c.SpelledMapped
      · exact Or.inr ⟨c, hc, hmapped, hin⟩
      · exact Or.inl ⟨c, hc, hmapped, hin⟩
    · rintro (⟨c, hc, -, hin⟩ | ⟨c, hc, -, hin⟩)
      · exact ⟨c, hc, hin⟩
      · exact ⟨c, hc, hin⟩
  have hlogic : ∀ p q r : Prop, p ∨ (q ↔ r) ↔ (p ∨ q ↔ p ∨ r) := by
    intro p q r
    tauto
  rw [sourceMatches_iff, hsplit]
  exact hlogic _ _ _

/-- The four answers are whether the peer, read as IPv4 where it is IPv4-mapped, is in a network, if its two
readings are in networks alike and no entry misleads Node. -/
theorem recognised_alike_iff :
    (∀ answer ∈ answers peer cidrs, answer = true ↔ Recognised peer cidrs) ↔
      MappedInBoth peer cidrs ∧ SpellingHarmless peer cidrs := by
  simp only [answers, forall_mem_cons, isSyntheticSource_iff, isSyntheticPeer_iff, inNetworks_iff]
  rw [← mappedInBoth_iff, ← spellingHarmless_iff]
  constructor
  · rintro ⟨hmapped, -, hspelling, -⟩
    exact ⟨hmapped, hspelling⟩
  · rintro ⟨hmapped, hspelling⟩
    exact ⟨hmapped, hmapped, hspelling, hmapped, by simp⟩

end Answers

/-! ## A mapped peer of a network -/

/-- Literals with a dotted decimal only. -/
def readDotted (text : Text) : Option Addr :=
  if text.take 7 = mappedStart then (parseDotted (text.drop 7)).map .mapped else (parseDotted text).map .v4

def readNetwork (text : Text) : Option Prefix :=
  match splitLast '/' text with
  | (literal, none) => (readDotted literal).map fun a => { network := a, length := a.width }
  | (literal, some bits) => (readDotted literal).bind fun a =>
    let n := Nat.ofDigitChars 10 bits 0
    if bits ≠ [] ∧ bits.all Char.isDigit ∧ n ≤ a.width then some { network := a, length := n } else none

theorem colon_notMem_dotted {text : Text} {bits : BitVec 32} (h : parseDotted text = some bits) : ':' ∉ text := by
  intro hmem
  rcases digit_or_dot_of_parseDotted h ':' hmem with hdot | hdigit
  · exact absurd hdot (by decide)
  · exact absurd hdigit (by decide)

/-- A dotted decimal does not match the pattern of a mapped one. -/
theorem not_mappedMatch {text : Text} {bits : BitVec 32} (h : parseDotted text = some bits) :
    mappedMatch text = none := by
  refine if_neg fun hmatch => ?_
  have hcolon : ':' ∈ (text.take 7).map Char.toLower := by
    rw [hmatch.1]
    decide
  obtain ⟨c, hc, hlower⟩ := mem_map.mp hcolon
  have hlow : c.toNat < 58 := by
    rcases digit_or_dot_of_parseDotted h c (mem_of_mem_take hc) with rfl | hdigit
    · decide
    · have hbounds := toNat_of_isDigit hdigit
      omega
  have hall : ∀ n < 58, (Char.ofNat n).toLower ≠ ':' := by decide
  refine hall c.toNat hlow ?_
  rw [Char.ofNat_toNat]
  exact hlower

theorem readDotted_v4 {text : Text} {bits : BitVec 32} (h : parseDotted text = some bits) :
    readDotted text = some (.v4 bits) := by
  have hplain : ¬ text.take 7 = mappedStart := by
    intro htake
    refine colon_notMem_dotted h (mem_of_mem_take (i := 7) ?_)
    rw [htake]
    decide
  rw [readDotted, if_neg hplain, h]
  rfl

theorem readDotted_mapped (bits : BitVec 32) : readDotted (mappedStart ++ dotted bits) = some (.mapped bits) := by
  rw [readDotted, take_mappedStart, if_pos rfl, drop_mappedStart, parseDotted_dotted]
  rfl

theorem readDotted_cases {text : Text} {a : Addr} (h : readDotted text = some a) :
    (text.take 7 = mappedStart ∧ ∃ bits, parseDotted (text.drop 7) = some bits ∧ a = .mapped bits) ∨
      ∃ bits, parseDotted text = some bits ∧ a = .v4 bits := by
  unfold readDotted at h
  split_ifs at h with hmapped
  · obtain ⟨bits, hbits, rfl⟩ := Option.map_eq_some_iff.mp h
    exact Or.inl ⟨hmapped, bits, hbits, rfl⟩
  · obtain ⟨bits, hbits, rfl⟩ := Option.map_eq_some_iff.mp h
    exact Or.inr ⟨bits, hbits, rfl⟩

theorem literalChar_of_parseDotted {text : Text} {bits : BitVec 32} (h : parseDotted text = some bits) :
    ∀ c ∈ text, literalChar c = true := by
  intro c hc
  rcases digit_or_dot_of_parseDotted h c hc with rfl | hdigit
  · decide
  · rw [literalChar, hdigit]
    rfl

theorem literalChar_of_readDotted {text : Text} {a : Addr} (h : readDotted text = some a) :
    text ≠ [] ∧ ∀ c ∈ text, literalChar c = true := by
  constructor
  · rintro rfl
    cases h
  · rcases readDotted_cases h with ⟨htake, bits, hparse, -⟩ | ⟨bits, hparse, -⟩
    · have hstart : mappedStart.all literalChar = true := by decide
      intro c hc
      rw [← take_append_drop 7 text, htake] at hc
      rcases mem_append.mp hc with hc | hc
      · exact all_eq_true.mp hstart c hc
      · exact literalChar_of_parseDotted hparse c hc
    · exact literalChar_of_parseDotted hparse

def dottedOnly : Addresses where
  parse := readDotted
  ipNetwork := readNetwork
  parse_v4 text bits := by
    refine ⟨fun h => ?_, readDotted_v4⟩
    rcases readDotted_cases h with ⟨-, bits', -, hbits⟩ | ⟨bits', hparse, hbits⟩
    · cases hbits
    · obtain rfl := Addr.v4.inj hbits
      exact hparse
  parse_mapped text rest a hmatch h := by
    rcases readDotted_cases h with ⟨-, bits, hparse, rfl⟩ | ⟨bits, hparse, -⟩
    · unfold mappedMatch at hmatch
      split_ifs at hmatch
      obtain rfl := Option.some.inj hmatch
      exact ⟨bits, hparse, rfl⟩
    · rw [not_mappedMatch hparse] at hmatch
      cases hmatch
  parse_chars _ _ := literalChar_of_readDotted
  parse_colons text bits h := by
    rcases readDotted_cases h with ⟨htake, -⟩ | ⟨bits', -, hbits⟩
    · rw [← take_append_drop 7 text, htake, count_append]
      have hcolons : mappedStart.count ':' = 3 := by decide
      omega
    · cases hbits
  ipNetwork_length literal a n h hn := by
    rw [readNetwork, splitLast_append (slash_notMem_digits n)]
    dsimp only
    rw [h, Option.bind_some, ofDigitChars_digits, if_pos ⟨Nat.toDigits_ne_nil, all_isDigit_digits n, hn⟩]
  ipNetwork_host literal a h := by
    have hslash : '/' ∉ literal := fun hmem =>
      absurd ((literalChar_of_readDotted h).2 '/' hmem) (by decide)
    rw [readNetwork, splitLast_of_notMem hslash]
    dsimp only
    rw [h]
    rfl

/-- An IPv4 peer of a listener for both families. -/
def mappedPeer (bits : BitVec 32) : Peer dottedOnly where
  text := mappedStart ++ dotted bits
  address := .mapped bits
  parses := readDotted_mapped bits
  reported bits' h := by
    have hfold := congrArg Addr.fold h
    rw [Addr.fold_mapped, Addr.fold_mapped] at hfold
    rw [Addr.v4.inj hfold]

/-- A network of 256 addresses. -/
def smallNetwork (bits : BitVec 32) : Cidr dottedOnly where
  literal := dotted bits
  address := .v4 bits
  length := some 24
  parses := readDotted_v4 (parseDotted_dotted bits)
  valid n hn := by
    obtain rfl := Option.some.inj hn
    exact (by decide : 24 ≤ 32)

/-- `::ffff:10.77.0.5` is in `10.77.0.0/24` read as IPv4, and only Node says so. -/
theorem only_node_recognises : Recognised (mappedPeer 0x0a4d0005) [smallNetwork 0x0a4d0000] ∧
    answers (mappedPeer 0x0a4d0005) [smallNetwork 0x0a4d0000] = [false, false, true, false] :=
  ⟨⟨smallNetwork 0x0a4d0000, mem_singleton_self _, by rfl⟩, by rfl⟩

end PtaasBench.Sdk
