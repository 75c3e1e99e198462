import Mathlib.Data.List.TakeWhile
import PtaasBench.Lib.Bytes

/-!
# PtaasBench.Py.Utf8 — `str.encode("utf-8")` and `bytes.decode("utf-8", "replace")`

What cannot be read is replaced piece by piece: a byte that starts nothing, or the longest beginning of
a character that is there.
-/

namespace PtaasBench.Py

open Lib List

/-- `str.encode("utf-8")` -/
def utf8Encode (cs : List Char) : Bytes := cs.flatMap String.utf8EncodeChar

/-- How many bytes follow a first byte. -/
def followers (first : ℕ) : ℕ :=
  if 0xC2 ≤ first ∧ first ≤ 0xDF then 1
  else if 0xE0 ≤ first ∧ first ≤ 0xEF then 2
  else if 0xF0 ≤ first ∧ first ≤ 0xF4 then 3
  else 0

/-- May this byte stand behind a first byte, at an index counted from it?  The first of them rules out
what is too long for its number, surrogates, and numbers that are too large. -/
def mayFollow (first : ℕ) (b : UInt8 × ℕ) : Bool :=
  if b.2 = 0 then
    (if first = 0xE0 then 0xA0 else if first = 0xF0 then 0x90 else 0x80) ≤ b.1.toNat &&
      b.1.toNat ≤ (if first = 0xED then 0x9F else if first = 0xF4 then 0x8F else 0xBF)
  else 0x80 ≤ b.1.toNat && b.1.toNat ≤ 0xBF

def replacement : Char := Char.ofNat 0xFFFD

/-- The next character, and how many bytes it takes behind its first. -/
def nextChar (first : UInt8) (rest : Bytes) : Char × ℕ :=
  if first.toNat < 0x80 then (Char.ofNat first.toNat, 0)
  else
    let want := followers first.toNat
    let there := ((rest.take want).zipIdx.takeWhile (mayFollow first.toNat)).map Prod.fst
    if want ≠ 0 ∧ there.length = want then
      (Char.ofNat (there.foldl (fun n b => n * 64 + b.toNat % 64) (first.toNat % 2 ^ (6 - want))), want)
    else (replacement, there.length)

/-- `bytes.decode("utf-8", "replace")`, with the bytes that are already read. -/
def decodeFrom : ℕ → Bytes → List Char
  | _, [] => []
  | skip + 1, _ :: rest => decodeFrom skip rest
  | 0, first :: rest => (nextChar first rest).1 :: decodeFrom (nextChar first rest).2 rest

def utf8Decode (bs : Bytes) : List Char := decodeFrom 0 bs

/-! ## Sizes -/

theorem length_utf8EncodeChar_le (c : Char) : (String.utf8EncodeChar c).length ≤ 4 := by
  rw [String.length_utf8EncodeChar]
  exact Char.utf8Size_le_four c

theorem utf8Encode_cons (c : Char) (cs : List Char) :
    utf8Encode (c :: cs) = String.utf8EncodeChar c ++ utf8Encode cs := flatMap_cons ..

/-- A character that takes one byte is written on at most three. -/
theorem size_nextChar (first : UInt8) (rest : Bytes) (h : (nextChar first rest).2 = 0) :
    (String.utf8EncodeChar (nextChar first rest).1).length ≤ 3 := by
  unfold nextChar at h ⊢
  dsimp only at h ⊢
  split_ifs at h ⊢ with hascii hwhole
  · have hall : ∀ n < 0x80, (String.utf8EncodeChar (Char.ofNat n)).length ≤ 3 := by decide
    exact hall _ hascii
  · exact absurd h hwhole.1
  · show (String.utf8EncodeChar replacement).length ≤ 3
    decide

/-- A character is made of bytes that are there. -/
theorem nextChar_le (first : UInt8) (rest : Bytes) : (nextChar first rest).2 ≤ rest.length := by
  have hthere : (((rest.take (followers first.toNat)).zipIdx.takeWhile (mayFollow first.toNat)).map
      Prod.fst).length ≤ rest.length := by
    have hwhile := (takeWhile_sublist (mayFollow first.toNat)
      (l := (rest.take (followers first.toNat)).zipIdx)).length_le
    rw [length_zipIdx, length_take] at hwhile
    rw [length_map]
    omega
  unfold nextChar
  dsimp only
  split_ifs with hascii hwhole
  · exact Nat.zero_le _
  · rw [← hwhole.2]
    exact hthere
  · exact hthere

/-- Decoding and encoding again at most triples the size. -/
theorem length_encode_decode (skip : ℕ) (bs : Bytes) :
    (utf8Encode (decodeFrom skip bs)).length + 3 * min skip bs.length ≤ 3 * bs.length := by
  induction bs generalizing skip with
  | nil => simp [decodeFrom, utf8Encode]
  | cons first rest ih =>
    cases skip with
    | succ skip =>
      have := ih skip
      rw [decodeFrom, length_cons]
      omega
    | zero =>
      have hrest := ih (nextChar first rest).2
      have hfour := length_utf8EncodeChar_le (nextChar first rest).1
      rw [decodeFrom, utf8Encode_cons, length_append, length_cons]
      by_cases hone : (nextChar first rest).2 = 0
      · have hthree := size_nextChar first rest hone
        omega
      · have hroom := nextChar_le first rest
        omega

theorem length_utf8_decode (bs : Bytes) : (utf8Encode (utf8Decode bs)).length ≤ 3 * bs.length := by
  have h := length_encode_decode 0 bs
  rw [Nat.zero_min, Nat.mul_zero, Nat.add_zero] at h
  exact h

/-! ## What is written is read -/

/-- A first byte and the bytes that belong to it. -/
theorem nextChar_of_tail {first : UInt8} {tail : Bytes} (hfirst : 0x80 ≤ first.toNat)
    (hwant : followers first.toNat = tail.length) (htail : tail ≠ [])
    (hfollow : ∀ b ∈ tail.zipIdx, mayFollow first.toNat b = true) (rest : Bytes) :
    nextChar first (tail ++ rest) =
      (Char.ofNat (tail.foldl (fun n b => n * 64 + b.toNat % 64) (first.toNat % 2 ^ (6 - tail.length))),
        tail.length) := by
  have hthere : (((tail ++ rest).take tail.length).zipIdx.takeWhile (mayFollow first.toNat)).map Prod.fst =
      tail := by
    rw [take_left, takeWhile_eq_self_iff.mpr hfollow, zipIdx_map_fst]
  have hsome : tail.length ≠ 0 := fun h => htail (eq_nil_of_length_eq_zero h)
  rw [nextChar, if_neg (by omega)]
  dsimp only
  rw [hwant, hthere, if_pos ⟨hsome, rfl⟩]

theorem toNat_of_lt {n : ℕ} (h : n < 256) : (UInt8.ofNat n).toNat = n := by
  rw [UInt8.toNat_ofNat']
  omega

/-- What rules out a byte as the first behind a first byte. -/
def startsBadly (first second : ℕ) : Prop :=
  first = 0xE0 ∧ second < 0xA0 ∨ first = 0xF0 ∧ second < 0x90 ∨ first = 0xED ∧ 0x9F < second ∨
    first = 0xF4 ∧ 0x8F < second

theorem mayFollow_of_bounds {first b i : ℕ} (hb : 0x80 ≤ b ∧ b ≤ 0xBF) (hstart : i = 0 → ¬ startsBadly first b) :
    mayFollow first (UInt8.ofNat b, i) = true := by
  have hbyte : (UInt8.ofNat b).toNat = b := toNat_of_lt (by omega)
  unfold startsBadly at hstart
  unfold mayFollow
  dsimp only
  rw [hbyte]
  by_cases hi : i = 0
  · have hgood := hstart hi
    rw [if_pos hi, Bool.and_eq_true, decide_eq_true_eq, decide_eq_true_eq]
    split_ifs <;> omega
  · rw [if_neg hi, Bool.and_eq_true, decide_eq_true_eq, decide_eq_true_eq]
    exact hb

/-- `nextChar_of_tail` in numbers. -/
theorem nextChar_ofNat {first : ℕ} {tail : List ℕ} {c : Char} (hfirst : 0x80 ≤ first ∧ first < 256)
    (hwant : followers first = tail.length) (htail : tail ≠ []) (hbounds : ∀ b ∈ tail, 0x80 ≤ b ∧ b ≤ 0xBF)
    (hstart : ∀ b ∈ tail.head?, ¬ startsBadly first b)
    (hvalue : Char.ofNat (tail.foldl (fun n b => n * 64 + b % 64) (first % 2 ^ (6 - tail.length))) = c)
    (rest : Bytes) :
    nextChar (UInt8.ofNat first) (tail.map UInt8.ofNat ++ rest) = (c, tail.length) := by
  have hbyte := toNat_of_lt hfirst.2
  have hfold : ∀ (n : ℕ) (bs : List ℕ), (∀ b ∈ bs, 0x80 ≤ b ∧ b ≤ 0xBF) →
      (bs.map UInt8.ofNat).foldl (fun n b => n * 64 + b.toNat % 64) n =
        bs.foldl (fun n b => n * 64 + b % 64) n := by
    intro n bs hbs
    induction bs generalizing n with
    | nil => rfl
    | cons b bs ih =>
      have hb := hbs b mem_cons_self
      rw [map_cons, foldl_cons, foldl_cons, toNat_of_lt (by omega)]
      exact ih _ fun b' h => hbs b' (mem_cons_of_mem _ h)
  have hfollow : ∀ b ∈ (tail.map UInt8.ofNat).zipIdx, mayFollow (UInt8.ofNat first).toNat b = true := by
    rintro ⟨byte, i⟩ hmem
    rw [mem_zipIdx_iff_getElem?, List.getElem?_map] at hmem
    obtain ⟨b, hb, rfl⟩ := Option.map_eq_some_iff.mp hmem
    rw [hbyte]
    refine mayFollow_of_bounds (hbounds b (mem_of_getElem? hb)) fun hi => hstart b ?_
    subst hi
    rw [List.head?_eq_getElem?]
    exact hb
  have hread := nextChar_of_tail (show 0x80 ≤ (UInt8.ofNat first).toNat by omega)
    (by rw [hbyte, hwant, length_map]) (by simpa using htail) hfollow rest
  rw [hread, hfold _ _ hbounds, hbyte, length_map, hvalue]

theorem char_toNat_valid (c : Char) : c.toNat < 0xD800 ∨ 0xDFFF < c.toNat ∧ c.toNat ≤ 0x10FFFF := by
  rcases c.valid with h | ⟨h, hmax⟩
  · exact Or.inl h
  · exact Or.inr ⟨h, Nat.le_of_lt_succ hmax⟩

/-- A first byte and what it takes to read the character again: one byte below 0x80, or only bytes from
there on. -/
def ReadAs (bs : Bytes) (c : Char) : Prop :=
  ∃ first tail, bs = first :: tail ∧ (∀ rest, nextChar first (tail ++ rest) = (c, tail.length)) ∧
    ((tail = [] ∧ first.toNat = c.toNat ∧ c.toNat < 0x80) ∨
      (∀ b ∈ first :: tail, 0x80 ≤ b.toNat) ∧ 0x80 ≤ c.toNat ∧ tail ≠ [])

theorem readAs_of_bytes (first : ℕ) (tail : List ℕ) {c : Char} (hc : 0x80 ≤ c.toNat)
    (hfirst : 0x80 ≤ first ∧ first < 256) (hwant : followers first = tail.length) (htail : tail ≠ [])
    (hbounds : ∀ b ∈ tail, 0x80 ≤ b ∧ b ≤ 0xBF) (hstart : ∀ b ∈ tail.head?, ¬ startsBadly first b)
    (hvalue : tail.foldl (fun n b => n * 64 + b % 64) (first % 2 ^ (6 - tail.length)) = c.toNat) :
    ReadAs ((first :: tail).map UInt8.ofNat) c := by
  refine ⟨UInt8.ofNat first, tail.map UInt8.ofNat, rfl, fun rest => ?_, Or.inr ⟨fun b hb => ?_, hc, ?_⟩⟩
  · rw [length_map]
    exact nextChar_ofNat hfirst hwant htail hbounds hstart (by rw [hvalue, Char.ofNat_toNat]) rest
  · obtain ⟨n, hn, rfl⟩ := mem_map.mp (map_cons ▸ hb : b ∈ (first :: tail).map UInt8.ofNat)
    rcases mem_cons.mp hn with rfl | hn
    · rw [toNat_of_lt hfirst.2]
      exact hfirst.1
    · have hbound := hbounds n hn
      rw [toNat_of_lt (by omega)]
      exact hbound.1
  · simpa using htail

theorem readAs_encodeChar (c : Char) : ReadAs (String.utf8EncodeChar c) c := by
  have hvalid := char_toNat_valid c
  have hself : Char.ofNat c.toNat = c := Char.ofNat_toNat c
  unfold String.utf8EncodeChar
  dsimp only
  rw [show c.val.toNat = c.toNat from rfl]
  by_cases h1 : c.toNat ≤ 0x7f
  · rw [if_pos h1]
    refine ⟨_, [], rfl, fun rest => ?_, Or.inl ⟨rfl, toNat_of_lt (by omega), by omega⟩⟩
    rw [nextChar, toNat_of_lt (by omega), if_pos (by omega), hself]
    rfl
  · rw [if_neg h1]
    by_cases h2 : c.toNat ≤ 0x7ff
    · rw [if_pos h2]
      refine readAs_of_bytes (c.toNat / 64 % 32 + 0xc0) [c.toNat % 64 + 0x80]
        (by omega) (by omega) ?_ (cons_ne_nil _ _) ?_ ?_ ?_
      · rw [followers, if_pos (by omega)]
        rfl
      · simp only [mem_cons, not_mem_nil, or_false, forall_eq]
        omega
      · simp only [List.head?_cons, Option.mem_def, Option.some.injEq, forall_eq', startsBadly]
        omega
      · simp only [foldl_cons, foldl_nil, length_cons, length_nil]
        omega
    · rw [if_neg h2]
      by_cases h3 : c.toNat ≤ 0xffff
      · rw [if_pos h3]
        refine readAs_of_bytes (c.toNat / 4096 % 16 + 0xe0) [c.toNat / 64 % 64 + 0x80, c.toNat % 64 + 0x80]
          (by omega) (by omega) ?_ (cons_ne_nil _ _) ?_ ?_ ?_
        · rw [followers, if_neg (by omega), if_pos (by omega)]
          rfl
        · simp only [mem_cons, not_mem_nil, or_false, forall_eq_or_imp, forall_eq]
          omega
        · simp only [List.head?_cons, Option.mem_def, Option.some.injEq, forall_eq', startsBadly]
          omega
        · simp only [foldl_cons, foldl_nil, length_cons, length_nil]
          omega
      · rw [if_neg h3]
        refine readAs_of_bytes (c.toNat / 262144 % 8 + 0xf0) [c.toNat / 4096 % 64 + 0x80, c.toNat / 64 % 64 + 0x80,
          c.toNat % 64 + 0x80]
          (by omega) (by omega) ?_ (cons_ne_nil _ _) ?_ ?_ ?_
        · rw [followers, if_neg (by omega), if_neg (by omega), if_pos (by omega)]
          rfl
        · simp only [mem_cons, not_mem_nil, or_false, forall_eq_or_imp, forall_eq]
          omega
        · simp only [List.head?_cons, Option.mem_def, Option.some.injEq, forall_eq', startsBadly]
          omega
        · simp only [foldl_cons, foldl_nil, length_cons, length_nil]
          omega

theorem decodeFrom_append_skip (tail rest : Bytes) : decodeFrom tail.length (tail ++ rest) = decodeFrom 0 rest := by
  induction tail with
  | nil => rfl
  | cons b tail ih => exact ih

/-- Text that was encoded is decoded to itself, whatever follows. -/
theorem decodeFrom_encode (cs : List Char) (rest : Bytes) :
    decodeFrom 0 (utf8Encode cs ++ rest) = cs ++ decodeFrom 0 rest := by
  induction cs with
  | nil => rfl
  | cons c cs ih =>
    obtain ⟨first, tail, hencode, hread, -⟩ := readAs_encodeChar c
    rw [utf8Encode_cons, hencode, append_assoc, cons_append, decodeFrom, hread, decodeFrom_append_skip, ih]
    rfl

theorem utf8Decode_encode (cs : List Char) : utf8Decode (utf8Encode cs) = cs := by
  have h := decodeFrom_encode cs []
  rw [append_nil, decodeFrom, append_nil] at h
  exact h

/-! ## Bytes and characters -/

theorem utf8Encode_append (as bs : List Char) : utf8Encode (as ++ bs) = utf8Encode as ++ utf8Encode bs :=
  flatMap_append

/-- A byte of encoded text is a character of its own, or is above them. -/
theorem mem_utf8Encode {cs : List Char} {b : UInt8} (h : b ∈ utf8Encode cs) :
    (∃ c ∈ cs, b.toNat = c.toNat) ∨ 0x80 ≤ b.toNat := by
  obtain ⟨c, hc, hb⟩ := mem_flatMap.mp h
  obtain ⟨first, tail, hencode, -, hkind⟩ := readAs_encodeChar c
  rw [hencode] at hb
  rcases hkind with ⟨rfl, hfirst, -⟩ | ⟨hhigh, -, -⟩
  · obtain rfl := mem_singleton.mp hb
    exact Or.inl ⟨c, hc, hfirst⟩
  · exact Or.inr (hhigh b hb)

theorem length_le_utf8Encode (cs : List Char) : cs.length ≤ (utf8Encode cs).length := by
  induction cs with
  | nil => exact Nat.le_refl _
  | cons c cs ih =>
    obtain ⟨first, tail, hencode, -, -⟩ := readAs_encodeChar c
    rw [utf8Encode_cons, hencode, length_append, length_cons, length_cons]
    omega

/-- A character below 0x80 takes one byte. -/
theorem length_utf8Encode_ascii {cs : List Char} (h : ∀ c ∈ cs, c.toNat < 0x80) :
    (utf8Encode cs).length = cs.length := by
  induction cs with
  | nil => rfl
  | cons c cs ih =>
    have hc := h c mem_cons_self
    obtain ⟨first, tail, hencode, -, hkind⟩ := readAs_encodeChar c
    rw [utf8Encode_cons, hencode, length_append, ih fun d hd => h d (mem_cons_of_mem _ hd)]
    rcases hkind with ⟨rfl, -, -⟩ | ⟨-, hlow, -⟩
    · rw [length_singleton, length_cons, Nat.add_comm]
    · omega

end PtaasBench.Py
