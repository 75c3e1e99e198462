import PtaasBench.Lib.Bytes
import PtaasBench.Lib.Fallible
import PtaasBench.Py.Utf8

/-!
# PtaasBench.EdgeResolver.Ber — the BER of LDAP messages (`ber.py`)

Identifiers of one byte and definite lengths of at most four octets.  A `BerError` is its text.
-/

namespace PtaasBench.EdgeResolver.Ber

open Py Lib

def tagInteger : UInt8 := 0x02
def tagOctetString : UInt8 := 0x04
def tagEnumerated : UInt8 := 0x0A
def tagSequence : UInt8 := 0x30
def tagSet : UInt8 := 0x31

def appBindRequest : UInt8 := 0x60
def appBindResponse : UInt8 := 0x61
def appUnbindRequest : UInt8 := 0x42
def appSearchRequest : UInt8 := 0x63
def appSearchEntry : UInt8 := 0x64
def appSearchDone : UInt8 := 0x65
def appExtendedRequest : UInt8 := 0x77
def appExtendedResponse : UInt8 := 0x78

structure Tlv where
  tag : UInt8
  content : Bytes
  stop : ℕ
deriving DecidableEq

/-- The `text` of an element. -/
def Tlv.text (t : Tlv) : List Char := utf8Decode t.content

/-- The `int` of an element. -/
def Tlv.int (t : Tlv) : ℤ := if t.content.isEmpty then 0 else beInt t.content

/-! ## Reading -/

def readLength (buf : Bytes) (pos : ℕ) : Except String (ℕ × ℕ) :=
  match buf[pos]? with
  | none => .error "truncated length"
  | some byte =>
    let first := byte.toNat
    let pos := pos + 1
    if first < 0x80 then .ok (first, pos)
    else if first = 0x80 then .error "indefinite length is not allowed in LDAP"
    else
      let count := first &&& 0x7F
      if 4 < count then .error "length field too large"
      else if buf.length < pos + count then .error "truncated long-form length"
      else .ok (beNat (slice buf pos (pos + count)), pos + count)

def readTlv (buf : Bytes) (pos : ℕ) : Except String Tlv :=
  match buf[pos]? with
  | none => .error "truncated element"
  | some tag =>
    if tag.toNat &&& 0x1F = 0x1F then .error "multi-byte tag numbers are not supported"
    else
      match readLength buf (pos + 1) with
      | .error e => .error e
      | .ok (length, pos) =>
        let stop := pos + length
        if buf.length < stop then .error "element runs past end of buffer"
        else .ok { tag := tag, content := slice buf pos stop, stop := stop }

/-- The loop of `iter_tlv`.  An element takes two bytes at least, so a turn for each byte is enough. -/
def iterFrom (buf : Bytes) : ℕ → ℕ → Except String (List Tlv)
  | 0, _ => .ok []
  | turns + 1, pos =>
    if pos < buf.length then
      match readTlv buf pos with
      | .error e => .error e
      | .ok element => (iterFrom buf turns element.stop).map fun rest => element :: rest
    else .ok []

/-- `list(iter_tlv(buf))` -/
def iterTlv (buf : Bytes) : Except String (List Tlv) := iterFrom buf buf.length 0

/-! ## Writing -/

/-- The length octets; no buffer has a length of more than eight bytes. -/
def encodeLength (length : ℕ) : Bytes :=
  if length < 0x80 then [UInt8.ofNat length]
  else
    let raw := beBytes ((length.size + 7) / 8) length
    UInt8.ofNat (0x80 ||| raw.length) :: raw

def tlv (tag : UInt8) (content : Bytes) : Bytes := tag :: (encodeLength content.length ++ content)

/-- The content of an integer, sign bit included. -/
def intContent (value : ℤ) : Bytes := beIntBytes (max 1 ((value.natAbs.size + 8) / 8)) value

def encInt (value : ℤ) (tag : UInt8 := tagInteger) : Bytes := tlv tag (intContent value)

def encEnum (value : ℤ) : Bytes := encInt value tagEnumerated

def encStr (value : List Char) (tag : UInt8 := tagOctetString) : Bytes := tlv tag (utf8Encode value)

def encSeq (parts : List Bytes) : Bytes := tlv tagSequence parts.flatten

def encSet (parts : List Bytes) : Bytes := tlv tagSet parts.flatten

/-! ## What is written is read -/

/-- A tag that is read: one byte, of a number below 31. -/
def ShortTag (tag : UInt8) : Prop := tag.toNat &&& 0x1F ≠ 0x1F

instance (tag : UInt8) : Decidable (ShortTag tag) := inferInstanceAs (Decidable (_ ≠ _))

section Reading

variable {before after : Bytes}

theorem size_div_le {n k : ℕ} (h : n < 2 ^ (8 * k)) : (n.size + 7) / 8 ≤ k := by
  have hsize := Nat.size_le.mpr h
  omega

theorem lt_pow_size (n : ℕ) : n < 256 ^ ((n.size + 7) / 8) := by
  have hself := Nat.lt_size_self n
  have hwide : (2 : ℕ) ^ n.size ≤ 2 ^ (8 * ((n.size + 7) / 8)) :=
    Nat.pow_le_pow_right (by decide) (by omega)
  rw [show (256 : ℕ) = 2 ^ 8 by rfl, ← pow_mul]
  omega

/-- The first octet of a long length, and the count it holds. -/
theorem long_first (count : ℕ) (h : count < 128) :
    (UInt8.ofNat (0x80 ||| count)).toNat = 0x80 + count ∧ (0x80 + count) &&& 0x7F = count := by
  have hall : ∀ n < 128, (UInt8.ofNat (0x80 ||| n)).toNat = 0x80 + n ∧ (0x80 + n) &&& 0x7F = n := by
    decide
  exact hall count h

theorem readLength_encodeLength {length : ℕ} (h : length < 2 ^ 32) :
    readLength (before ++ (encodeLength length ++ after)) before.length =
      .ok (length, before.length + (encodeLength length).length) := by
  unfold encodeLength
  by_cases hshort : length < 0x80
  · have hbyte : (UInt8.ofNat length).toNat = length := by
      rw [UInt8.toNat_ofNat']
      omega
    rw [if_pos hshort, readLength, List.singleton_append, getElem?_middle]
    dsimp only
    rw [hbyte, if_pos hshort]
    rfl
  · rw [if_neg hshort]
    have hcount : (length.size + 7) / 8 ≤ 4 := size_div_le (k := 4) h
    have hsome : 0 < (length.size + 7) / 8 := by
      have hsize : 0 < length.size := Nat.size_pos.mpr (by omega)
      omega
    obtain ⟨hfirst, hmask⟩ := long_first ((length.size + 7) / 8) (by omega)
    have hslice : slice (before ++ (UInt8.ofNat (0x80 ||| (length.size + 7) / 8) ::
        (beBytes ((length.size + 7) / 8) length ++ after))) (before.length + 1)
        (before.length + 1 + (length.size + 7) / 8) = beBytes ((length.size + 7) / 8) length := by
      rw [← List.singleton_append, ← List.append_assoc before]
      exact slice_append (by simp) (by simp)
    rw [readLength, List.cons_append, getElem?_middle]
    dsimp only
    rw [length_beBytes, hfirst, if_neg (by omega), if_neg (by omega), hmask, if_neg (by omega),
      if_neg (by simp only [List.length_append, List.length_cons, length_beBytes]; omega), hslice,
      beNat_beBytes (lt_pow_size length), List.length_cons, length_beBytes]
    congr 2
    omega

/-- An element is read where it stands, up to the end of it. -/
theorem readTlv_tlv {tag : UInt8} (htag : ShortTag tag) {content : Bytes}
    (h : content.length < 2 ^ 32) :
    readTlv (before ++ (tlv tag content ++ after)) before.length =
      .ok { tag := tag, content := content, stop := before.length + (tlv tag content).length } := by
  have hlength : readLength ((before ++ [tag]) ++ (encodeLength content.length ++ (content ++ after)))
      (before ++ [tag]).length = _ := readLength_encodeLength h
  rw [List.append_assoc, List.singleton_append, List.length_append, List.length_singleton] at hlength
  have hslice : slice (before ++ (tag :: (encodeLength content.length ++ (content ++ after))))
      (before.length + 1 + (encodeLength content.length).length)
      (before.length + 1 + (encodeLength content.length).length + content.length) = content := by
    rw [← List.singleton_append, ← List.append_assoc before, ← List.append_assoc (before ++ [tag])]
    exact slice_append (by simp; omega) (by simp; omega)
  rw [tlv, List.cons_append, List.append_assoc, readTlv, getElem?_middle]
  dsimp only
  rw [if_neg htag, hlength]
  dsimp only
  rw [if_neg (by simp only [List.length_append, List.length_cons]; omega), hslice]
  congr 2
  simp only [List.length_append, List.length_cons]
  omega

end Reading

/-- Elements with the places they end at, from a place on. -/
def placed (pos : ℕ) : List (UInt8 × Bytes) → List Tlv
  | [] => []
  | item :: items =>
    let stop := pos + (tlv item.1 item.2).length
    { tag := item.1, content := item.2, stop := stop } :: placed stop items

theorem length_lt_tlv (tag : UInt8) (content : Bytes) : 2 ≤ (tlv tag content).length := by
  have hsome : 1 ≤ (encodeLength content.length).length := by
    unfold encodeLength
    by_cases hshort : content.length < 0x80
    · rw [if_pos hshort, List.length_singleton]
    · rw [if_neg hshort, List.length_cons]
      omega
  rw [tlv, List.length_cons, List.length_append]
  omega

theorem iterFrom_tlvs (items : List (UInt8 × Bytes))
    (hitems : ∀ item ∈ items, ShortTag item.1 ∧ item.2.length < 2 ^ 32) (before : Bytes) {turns : ℕ}
    (hturns : items.length ≤ turns) :
    iterFrom (before ++ items.flatMap fun item => tlv item.1 item.2) turns before.length =
      .ok (placed before.length items) := by
  induction items generalizing before turns with
  | nil =>
    cases turns with
    | zero => rfl
    | succ turns =>
      rw [iterFrom, if_neg (by simp)]
      rfl
  | cons item items ih =>
    obtain ⟨turns, rfl⟩ : ∃ n, turns = n + 1 := ⟨turns - 1, by simp at hturns; omega⟩
    obtain ⟨htag, hlength⟩ := hitems item List.mem_cons_self
    have hrest := ih (fun i hi => hitems i (List.mem_cons_of_mem _ hi)) (before ++ tlv item.1 item.2)
      (show items.length ≤ turns by simpa using hturns)
    rw [List.append_assoc, List.length_append] at hrest
    have hsome := length_lt_tlv item.1 item.2
    rw [List.flatMap_cons, iterFrom,
      if_pos (by simp only [List.length_append]; omega), readTlv_tlv htag hlength]
    dsimp only
    rw [hrest]
    rfl

theorem length_le_flatMap_tlv (items : List (UInt8 × Bytes)) :
    items.length ≤ (items.flatMap fun item => tlv item.1 item.2).length := by
  induction items with
  | nil => exact Nat.le_refl _
  | cons item items ih =>
    have hsome := length_lt_tlv item.1 item.2
    rw [List.flatMap_cons, List.length_append, List.length_cons]
    omega

/-- Elements one behind the other are those elements. -/
theorem iterTlv_tlvs {items : List (UInt8 × Bytes)}
    (hitems : ∀ item ∈ items, ShortTag item.1 ∧ item.2.length < 2 ^ 32) :
    iterTlv (items.flatMap fun item => tlv item.1 item.2) = .ok (placed 0 items) :=
  iterFrom_tlvs items hitems [] (length_le_flatMap_tlv items)

/-! ## Integers -/

theorem length_intContent (value : ℤ) :
    (intContent value).length = max 1 ((value.natAbs.size + 8) / 8) := length_beIntBytes _ _

theorem beInt_intContent (value : ℤ) : beInt (intContent value) = value := by
  have hself := Nat.lt_size_self value.natAbs
  have hwide : (2 : ℕ) ^ (value.natAbs.size + 1) ≤ 2 ^ (8 * max 1 ((value.natAbs.size + 8) / 8)) :=
    Nat.pow_le_pow_right (by decide) (by omega)
  rw [pow_succ, pow_mul, show (2 : ℕ) ^ 8 = 256 by rfl] at hwide
  have hbound : 2 * value.natAbs < 256 ^ max 1 ((value.natAbs.size + 8) / 8) := by omega
  have hcast : 2 * (value.natAbs : ℤ) < (256 : ℤ) ^ max 1 ((value.natAbs.size + 8) / 8) := by
    exact_mod_cast hbound
  exact beInt_beIntBytes (by omega) (by omega)

/-- An integer is decoded from its content. -/
theorem int_intContent (tag : UInt8) (value : ℤ) (stop : ℕ) :
    ({ tag := tag, content := intContent value, stop := stop } : Tlv).int = value := by
  have hsome : (intContent value).isEmpty = false := by
    rw [List.isEmpty_eq_false_iff, ← List.length_pos_iff, length_intContent]
    omega
  unfold Tlv.int
  dsimp only
  rw [hsome, if_neg Bool.false_ne_true, beInt_intContent]

/-- More than four length octets are refused before they are read. -/
theorem readLength_too_long {buf : Bytes} {pos count : ℕ} {byte : UInt8} (hbyte : buf[pos]? = some byte)
    (hfirst : byte.toNat = 0x80 + count) (hmask : (0x80 + count) &&& 0x7F = count) (hcount : 4 < count) :
    readLength buf pos = .error "length field too large" := by
  have hlong : ¬ 0x80 + count < 0x80 := by omega
  have hdefinite : ¬ 0x80 + count = 0x80 := by omega
  rw [readLength, hbyte]
  dsimp only
  rw [hfirst, if_neg hlong, if_neg hdefinite, hmask, if_pos hcount]

/-- An element with a length of more than four octets is not read. -/
theorem readTlv_too_long {tag : UInt8} (htag : ShortTag tag) {content : Bytes}
    (hlow : 32 < content.length.size) (hhigh : content.length.size ≤ 1016) :
    readTlv (tlv tag content) 0 = .error "length field too large" := by
  have hlong : ¬ content.length < 0x80 := by
    intro hshort
    have hsize : content.length.size ≤ 7 := Nat.size_le.mpr hshort
    omega
  obtain ⟨hfirst, hmask⟩ := long_first ((content.length.size + 7) / 8) (by omega)
  have hbyte : (tlv tag content)[1]? = some (UInt8.ofNat (0x80 ||| (content.length.size + 7) / 8)) := by
    rw [tlv, encodeLength, if_neg hlong]
    dsimp only
    rw [length_beBytes]
    rfl
  have hlength := readLength_too_long hbyte hfirst hmask (by omega)
  have htagged : (tlv tag content)[0]? = some tag := rfl
  rw [readTlv, htagged]
  dsimp only
  rw [if_neg htag, hlength]

theorem readTlv_encInt_pow {n : ℕ} (hlow : 2 ^ 35 ≤ n) (hhigh : n < 2 ^ 36) :
    readTlv (encInt ((2 : ℤ) ^ n)) 0 = .error "length field too large" := by
  have hlength : (intContent ((2 : ℤ) ^ n)).length = (n + 9) / 8 := by
    rw [length_intContent, Int.natAbs_pow, show (2 : ℤ).natAbs = 2 by rfl, Nat.size_pow]
    omega
  refine readTlv_too_long (by decide) ?_ ?_
  · rw [hlength]
    exact Nat.lt_size.mpr (by omega)
  · have hsize : ((n + 9) / 8).size ≤ 34 := Nat.size_le.mpr (by omega)
    rw [hlength]
    omega

/-- `2 ^ 35` bits and a sign take one byte more than four octets can count. -/
theorem encInt_unreadable : readTlv (encInt ((2 : ℤ) ^ (2 ^ 35 : ℕ))) 0 = .error "length field too large" :=
  readTlv_encInt_pow (Nat.le_refl _) (by omega)

end PtaasBench.EdgeResolver.Ber
