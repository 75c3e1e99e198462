import PtaasBench.Py.Utf8

/-!
# PtaasBench.Sdk.PhpParams — the sample of an input (`Params::clip`)
-/

namespace PtaasBench.Sdk.PhpParams

open Lib
open List hiding utf8Encode utf8Encode_append utf8Encode_cons
open Py

/-! ## The code -/

/-- How many bytes the sequence takes that this byte opens. -/
def needed (byte : ℕ) : ℕ := if 0xF0 ≤ byte then 4 else if 0xE0 ≤ byte then 3 else 2

/-- The loop of `clip`: `back` bytes at the end are continuation bytes, and `left` more may be looked at. -/
def walkBack (cut : Bytes) : ℕ → ℕ → Bytes
  | 0, _ => cut
  | left + 1, back =>
    match cut.reverse[back]? with
    | none => cut
    | some byte =>
      if 0x80 ≤ byte.toNat ∧ byte.toNat ≤ 0xBF then walkBack cut left (back + 1)
      else if 0xC0 ≤ byte.toNat ∧ back + 1 < needed byte.toNat then cut.take (cut.length - 1 - back)
      else cut

def clip (value : Bytes) (max : ℤ) : Bytes :=
  if max ≤ 0 ∨ (value.length : ℤ) ≤ max then value else walkBack (value.take max.toNat) 3 0

/-! ## How a character is written -/

def Continues (byte : UInt8) : Prop := 0x80 ≤ byte.toNat ∧ byte.toNat ≤ 0xBF

/-- A byte that stands first, with the number of continuation bytes it asks for. -/
def Leads (lead : UInt8) (more : ℕ) : Prop :=
  lead.toNat < 0x80 ∧ more = 0 ∨ 0xC0 ≤ lead.toNat ∧ needed lead.toNat = more + 1

def Sequence (bs : Bytes) : Prop :=
  ∃ lead tail, bs = lead :: tail ∧ Leads lead tail.length ∧ ∀ b ∈ tail, Continues b

theorem needed_le (byte : ℕ) : needed byte ≤ 4 := by
  unfold needed
  split_ifs <;> omega

theorem Leads.le_three {lead : UInt8} {more : ℕ} (h : Leads lead more) : more ≤ 3 := by
  have hle := needed_le lead.toNat
  rcases h with ⟨-, rfl⟩ | ⟨-, hmore⟩
  · omega
  · omega

theorem Leads.not_continues {lead : UInt8} {more : ℕ} (h : Leads lead more) :
    ¬ (0x80 ≤ lead.toNat ∧ lead.toNat ≤ 0xBF) := by
  rcases h with ⟨hlow, -⟩ | ⟨hhigh, -⟩
  · omega
  · omega

theorem sequence_of_numbers {lead : ℕ} {tail : List ℕ} (hlead : 0xC0 ≤ lead ∧ lead < 256)
    (hneeded : needed lead = tail.length + 1) (htail : ∀ n ∈ tail, 0x80 ≤ n ∧ n ≤ 0xBF) :
    Sequence ((lead :: tail).map UInt8.ofNat) := by
  refine ⟨UInt8.ofNat lead, tail.map UInt8.ofNat, rfl, Or.inr ?_, fun b hb => ?_⟩
  · rw [toNat_of_lt hlead.2, length_map]
    exact ⟨hlead.1, hneeded⟩
  · obtain ⟨n, hn, rfl⟩ := mem_map.mp hb
    have hbounds := htail n hn
    unfold Continues
    rw [toNat_of_lt (by omega)]
    exact hbounds

theorem sequence_char (c : Char) : Sequence (String.utf8EncodeChar c) := by
  have hvalid := char_toNat_valid c
  unfold String.utf8EncodeChar
  dsimp only
  rw [show c.val.toNat = c.toNat from rfl]
  split_ifs with h1 h2 h3
  · refine ⟨_, [], rfl, Or.inl ⟨?_, rfl⟩, nofun⟩
    rw [toNat_of_lt (by omega)]
    omega
  · refine @sequence_of_numbers (c.toNat / 64 % 32 + 0xc0) [c.toNat % 64 + 0x80] (by omega) ?_ ?_
    · rw [needed, if_neg (by omega), if_neg (by omega)]
      rfl
    · simp only [mem_singleton, forall_eq]
      omega
  · refine @sequence_of_numbers (c.toNat / 4096 % 16 + 0xe0)
      [c.toNat / 64 % 64 + 0x80, c.toNat % 64 + 0x80] (by omega) ?_ ?_
    · rw [needed, if_neg (by omega), if_pos (by omega)]
      rfl
    · simp only [mem_cons, not_mem_nil, or_false, forall_eq_or_imp, forall_eq]
      omega
  · refine @sequence_of_numbers (c.toNat / 262144 % 8 + 0xf0)
      [c.toNat / 4096 % 64 + 0x80, c.toNat / 64 % 64 + 0x80, c.toNat % 64 + 0x80] (by omega) ?_ ?_
    · rw [needed, if_pos (by omega)]
      rfl
    · simp only [mem_cons, not_mem_nil, or_false, forall_eq_or_imp, forall_eq]
      omega

/-! ## The walk back -/

theorem reverse_cut (front : Bytes) (lead : UInt8) (there : Bytes) :
    (front ++ lead :: there).reverse = there.reverse ++ lead :: front.reverse := by
  rw [reverse_append, reverse_cons, append_assoc, singleton_append]

theorem walkBack_over {cut : Bytes} {left back : ℕ} {b : UInt8} (hb : cut.reverse[back]? = some b) (h : Continues b) :
    walkBack cut (left + 1) back = walkBack cut left (back + 1) := by
  rw [walkBack]
  simp only [hb]
  exact if_pos h

/-- What happens at the byte that opens the last sequence, of which `more` did not fit. -/
theorem walkBack_lead (front : Bytes) {lead : UInt8} {there more : Bytes}
    (hlead : Leads lead (there ++ more).length) (left : ℕ) :
    walkBack (front ++ lead :: there) (left + 1) there.length =
      if more = [] then front ++ lead :: there else front := by
  have hbyte : (front ++ lead :: there).reverse[there.length]? = some lead := by
    rw [reverse_cut, List.getElem?_append_right (by rw [length_reverse]), length_reverse, Nat.sub_self]
    rfl
  have hfront : (front ++ lead :: there).take ((front ++ lead :: there).length - 1 - there.length) = front := by
    rw [length_append, length_cons,
      show front.length + (there.length + 1) - 1 - there.length = front.length by omega, take_left]
  rw [walkBack]
  simp only [hbyte]
  rw [if_neg hlead.not_continues, hfront]
  rw [length_append] at hlead
  by_cases hmore : more = []
  · rw [if_pos hmore, if_neg]
    rintro ⟨hhigh, hneeded⟩
    rcases hlead with ⟨hlow, -⟩ | ⟨-, hlead⟩
    · omega
    · rw [hlead, hmore, length_nil] at hneeded
      omega
  · have hpos := length_pos_iff.mpr hmore
    rw [if_neg hmore, if_pos]
    rcases hlead with ⟨-, hnone⟩ | ⟨hhigh, hlead⟩
    · omega
    · exact ⟨hhigh, by omega⟩

/-- A sequence that is cut short goes as a whole, everything else stays. -/
theorem walkBack_cut (front : Bytes) {lead : UInt8} {there more : Bytes}
    (hlead : Leads lead (there ++ more).length) (hthere : ∀ b ∈ there, Continues b) {left back : ℕ}
    (hback : left + back = 3) (hle : back ≤ there.length) :
    walkBack (front ++ lead :: there) left back = if more = [] then front ++ lead :: there else front := by
  have hthree := hlead.le_three
  rw [length_append] at hthree
  induction left generalizing back with
  | zero =>
    -- behind three continuation bytes nothing can be missing
    rw [walkBack, if_pos (eq_nil_of_length_eq_zero (by omega))]
  | succ left ih =>
    rcases Nat.lt_or_eq_of_le hle with hlt | rfl
    · have hreach : back < there.reverse.length := by rwa [length_reverse]
      have hbyte : (front ++ lead :: there).reverse[back]? = some there.reverse[back] := by
        rw [reverse_cut, List.getElem?_append_left hreach, List.getElem?_eq_getElem hreach]
      rw [walkBack_over hbyte (hthere _ (mem_reverse.mp (getElem_mem hreach)))]
      exact ih (by omega) (by omega)
    · exact walkBack_lead front hlead left

/-! ## The longest text that fits -/

/-- The bytes are valid UTF-8. -/
def Valid (bs : Bytes) : Prop := ∃ cs, utf8Encode cs = bs

/-- `front` is the longest beginning of `value` that is valid UTF-8 and takes at most `max` bytes. -/
structure LongestFit (value : Bytes) (max : ℤ) (front : Bytes) : Prop where
  start : front <+: value
  valid : Valid front
  fits : (front.length : ℤ) ≤ max
  longest : ∀ other, other <+: value → Valid other → (other.length : ℤ) ≤ max → other <+: front

theorem prefix_of_encoded {ds cs : List Char} (h : utf8Encode ds <+: utf8Encode cs) : ds <+: cs := by
  obtain ⟨rest, hrest⟩ := h
  refine ⟨decodeFrom 0 rest, ?_⟩
  have hread := decodeFrom_encode cs []
  rw [append_nil, ← hrest, decodeFrom_encode, decodeFrom, append_nil] at hread
  exact hread

theorem encoded_prefix {ds cs : List Char} (h : ds <+: cs) : utf8Encode ds <+: utf8Encode cs := by
  obtain ⟨rest, rfl⟩ := h
  rw [utf8Encode_append]
  exact prefix_append _ _

/-- The characters that fit, and the first one that does not. -/
theorem exists_cut (cs : List Char) (max : ℕ) :
    (utf8Encode cs).length ≤ max ∨
      ∃ kept c more, cs = kept ++ c :: more ∧ (utf8Encode kept).length ≤ max ∧
        max < (utf8Encode kept).length + (String.utf8EncodeChar c).length := by
  induction cs using List.reverseRecOn with
  | nil => exact Or.inl (Nat.zero_le _)
  | append_singleton cs c ih =>
    rcases ih with hfits | ⟨kept, d, more, rfl, hkept, hover⟩
    · by_cases hall : (utf8Encode (cs ++ [c])).length ≤ max
      · exact Or.inl hall
      · refine Or.inr ⟨cs, c, [], rfl, hfits, ?_⟩
        rw [utf8Encode_append, length_append, utf8Encode_cons, length_append] at hall
        simpa [utf8Encode] using hall
    · exact Or.inr ⟨kept, d, more ++ [c], by simp, hkept, hover⟩

theorem longestFit_kept {kept more : List Char} {c : Char} {max : ℕ} (hkept : (utf8Encode kept).length ≤ max)
    (hover : max < (utf8Encode kept).length + (String.utf8EncodeChar c).length) :
    LongestFit (utf8Encode (kept ++ c :: more)) max (utf8Encode kept) where
  start := encoded_prefix (prefix_append _ _)
  valid := ⟨kept, rfl⟩
  fits := by exact_mod_cast hkept
  longest := by
    rintro _ hstart ⟨ds, rfl⟩ hfits
    rcases List.prefix_or_prefix_of_prefix (prefix_of_encoded hstart) (prefix_append kept (c :: more)) with
      hshort | ⟨rest, rfl⟩
    · exact encoded_prefix hshort
    · cases rest with
      | nil => rw [append_nil]
      | cons d rest =>
        -- a longer text would hold the character that does not fit
        obtain ⟨behind, hbehind⟩ := prefix_of_encoded hstart
        rw [append_assoc, append_cancel_left_eq, cons_append, List.cons.injEq] at hbehind
        rw [hbehind.1, utf8Encode_append, utf8Encode_cons] at hfits
        simp only [length_append] at hfits
        omega

theorem walkBack_whole {kept : List Char} (h : kept ≠ []) : walkBack (utf8Encode kept) 3 0 = utf8Encode kept := by
  obtain ⟨lead, tail, hchar, hlead, htail⟩ := sequence_char (kept.getLast h)
  have hkept : utf8Encode kept = utf8Encode kept.dropLast ++ lead :: tail := by
    rw [← hchar, ← append_nil (String.utf8EncodeChar _), ← show utf8Encode [] = [] from rfl, ← utf8Encode_cons,
      ← utf8Encode_append, dropLast_append_getLast h]
  rw [← append_nil tail] at hlead
  rw [hkept, walkBack_cut _ hlead htail rfl (Nat.zero_le _), if_pos rfl]

theorem walkBack_short (kept : List Char) {c : Char} {k : ℕ} (hk : 0 < k) (hlt : k < (String.utf8EncodeChar c).length) :
    walkBack (utf8Encode kept ++ (String.utf8EncodeChar c).take k) 3 0 = utf8Encode kept := by
  obtain ⟨lead, tail, hchar, hlead, htail⟩ := sequence_char c
  obtain ⟨k, rfl⟩ := Nat.exists_eq_add_of_lt hk
  rw [hchar, length_cons] at hlt
  rw [← take_append_drop (0 + k) tail] at hlead
  rw [hchar, take_succ_cons,
    walkBack_cut _ hlead (fun b hb => htail b (mem_of_mem_take hb)) rfl (Nat.zero_le _), if_neg]
  intro hnone
  have hle := drop_eq_nil_iff.mp hnone
  omega

/-- A clipped value is the longest part of whole characters that fits. -/
theorem clip_longest {value : Bytes} (hvalid : Valid value) {max : ℤ} (hmax : 0 < max) :
    LongestFit value max (clip value max) := by
  obtain ⟨cs, rfl⟩ := hvalid
  lift max to ℕ using hmax.le
  rw [clip, Int.toNat_natCast]
  rcases exists_cut cs max with hfits | ⟨kept, c, more, rfl, hkept, hover⟩
  · rw [if_pos (Or.inr (by exact_mod_cast hfits))]
    exact ⟨prefix_rfl, ⟨cs, rfl⟩, by exact_mod_cast hfits, fun _ hstart _ _ => hstart⟩
  · have hlong : max < (utf8Encode (kept ++ c :: more)).length := by
      rw [utf8Encode_append, utf8Encode_cons, length_append, length_append]
      omega
    have hcut : (utf8Encode (kept ++ c :: more)).take max =
        utf8Encode kept ++ (String.utf8EncodeChar c).take (max - (utf8Encode kept).length) := by
      rw [utf8Encode_append, utf8Encode_cons, take_append, take_of_length_le hkept,
        take_append_of_le_length (by omega)]
    rw [if_neg (by omega), hcut]
    rcases Nat.eq_or_lt_of_le hkept with hexact | hroom
    · have hne : kept ≠ [] := by
        rintro rfl
        rw [← hexact] at hmax
        exact absurd hmax (lt_irrefl _)
      rw [hexact, Nat.sub_self, take_zero, append_nil, walkBack_whole hne]
      exact longestFit_kept hkept hover
    · rw [walkBack_short kept (by omega) (by omega)]
      exact longestFit_kept hkept hover

/-- Two bytes of the three that the second character takes would fit. -/
theorem clip_euro : LongestFit (utf8Encode ['a', '€', 'b']) 3 (clip (utf8Encode ['a', '€', 'b']) 3) ∧
    clip (utf8Encode ['a', '€', 'b']) 3 = utf8Encode ['a'] :=
  ⟨clip_longest ⟨['a', '€', 'b'], rfl⟩ (by decide), by decide⟩

end PtaasBench.Sdk.PhpParams
