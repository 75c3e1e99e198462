import Mathlib.Data.List.DropRight
import Mathlib.Data.List.Basic

/-!
# PtaasBench.Py.Text — the Python string operations the model is written over

Strings are Lean `String`s; the operations go through `toList`, so they compute in the kernel.
What depends on the Unicode tables, on a digest or on the URL grammar is a field of `Runtime`:
the model is generic in it, and only its behaviour on ASCII text is assumed.
-/

namespace PtaasBench.Py

open List

/-- Apply a character map to every character. -/
def mapChars (f : Char → Char) (s : String) : String := String.ofList (s.toList.map f)

/-- Text made of ASCII characters only. -/
def IsAscii (s : String) : Prop := ∀ c ∈ s.toList, c.toNat < 128

instance (s : String) : Decidable (IsAscii s) :=
  List.decidableBAll (fun c : Char => c.toNat < 128) s.toList

/-- The functions of the runtime that are not translated. -/
class Runtime where
  /-- `str.lower` -/
  lower : String → String
  /-- `str.upper` -/
  upper : String → String
  /-- `str.casefold` -/
  casefold : String → String
  /-- `hashlib.sha256(s.encode("utf-8")).hexdigest()` -/
  sha256 : String → String
  /-- `urllib.parse.urlsplit(url).path` -/
  urlPath : String → String
  /-- `repr` of a `str` -/
  reprStr : String → String
  /-- `str.isdigit` of one character -/
  isDigit : Char → Bool
  lower_ascii : ∀ s, IsAscii s → lower s = mapChars Char.toLower s
  upper_ascii : ∀ s, IsAscii s → upper s = mapChars Char.toUpper s
  casefold_ascii : ∀ s, IsAscii s → casefold s = mapChars Char.toLower s
  isDigit_ascii : ∀ c : Char, c.toNat < 128 → isDigit c = c.isDigit

export Runtime (lower upper casefold sha256 urlPath reprStr isDigit)

/-- A runtime for concrete runs over ASCII text that reach neither a digest nor a full URL. -/
@[reducible] def Runtime.ascii : Runtime where
  lower := mapChars Char.toLower
  upper := mapChars Char.toUpper
  casefold := mapChars Char.toLower
  sha256 := id
  urlPath := id
  reprStr s := "'" ++ s ++ "'"
  lower_ascii _ _ := rfl
  upper_ascii _ _ := rfl
  casefold_ascii _ _ := rfl
  isDigit := Char.isDigit
  isDigit_ascii _ _ := rfl

/-- `str.isspace` for one character. -/
def isSpace (c : Char) : Bool :=
  c.toNat ∈ [9, 10, 11, 12, 13, 28, 29, 30, 31, 32, 0x85, 0xa0, 0x1680, 0x2000, 0x2001, 0x2002,
    0x2003, 0x2004, 0x2005, 0x2006, 0x2007, 0x2008, 0x2009, 0x200a, 0x2028, 0x2029, 0x202f, 0x205f,
    0x3000]

/-- `str.strip` with the set of characters to remove. -/
def stripBy (p : Char → Bool) (s : String) : String :=
  String.ofList ((s.toList.dropWhile p).rdropWhile p)

/-- `str.strip()` -/
def strip (s : String) : String := stripBy isSpace s

/-- `str.rstrip(".")` -/
def rstripDot (s : String) : String := String.ofList (s.toList.rdropWhile (· == '.'))

/-- `str.startswith` -/
def startsWith (s t : String) : Bool := t.toList.isPrefixOf s.toList

/-- `str.endswith` -/
def endsWith (s t : String) : Bool := t.toList.isSuffixOf s.toList

/-- `str.split(sep)` for a one-character separator. -/
def splitChar (sep : Char) (s : String) : List String :=
  (s.toList.splitOn sep).map String.ofList

/-- `str.split(sep, 1)[0]`: the text before the first separator. -/
def beforeChar (sep : Char) (s : String) : String := String.ofList (s.toList.takeWhile (· != sep))

/-- The text after the first separator, empty without one. -/
def afterChar (sep : Char) (s : String) : String :=
  String.ofList ((s.toList.dropWhile (· != sep)).drop 1)

/-- `bool(x)` for text or `None`. -/
def given : Option String → Bool
  | none => false
  | some s => s ≠ ""

/-- `a or b` for text or `None`. -/
def textOr (a : Option String) (b : String) : String := if given a then a.getD b else b

/-- `s[1:-1]` -/
def inner (s : String) : String := String.ofList (s.toList.drop 1).dropLast

/-! ## Text without white space -/

theorem stripBy_eq_self {p : Char → Bool} {s : String} (h : ∀ c ∈ s.toList, p c = false) :
    stripBy p s = s := by
  have hfront : s.toList.dropWhile p = s.toList := by
    rw [dropWhile_eq_self_iff]
    exact fun hl => Bool.eq_false_iff.mp (h _ (getElem_mem _))
  have hback : s.toList.rdropWhile p = s.toList := by
    rw [rdropWhile_eq_self_iff]
    exact fun hl => Bool.eq_false_iff.mp (h _ (getLast_mem hl))
  rw [stripBy, hfront, hback, String.ofList_toList]

/-- A pattern of visible characters is read back as it stands. -/
theorem strip_of_visible {s : String} {p : Char → Bool} (hs : s.toList.all p = true)
    (hp : ∀ c, p c = true → isSpace c = false) : strip s = s :=
  stripBy_eq_self fun c hc => hp c (all_eq_true.mp hs c hc)

theorem isSpace_of_graphic {c : Char} (h : 33 ≤ c.toNat ∧ c.toNat ≤ 126) : isSpace c = false := by
  unfold isSpace
  simp only [mem_cons, not_mem_nil, or_false, decide_eq_false_iff_not]
  omega

theorem graphic_of_isLower {c : Char} (h : c.isLower = true) : 33 ≤ c.toNat ∧ c.toNat ≤ 126 := by
  have h : (decide ('a'.val ≤ c.val) && decide (c.val ≤ 'z'.val)) = true := h
  simp only [Bool.and_eq_true, decide_eq_true_eq, UInt32.le_iff_toNat_le] at h
  have h1 : (97 : ℕ) ≤ c.val.toNat := h.1
  have h2 : c.val.toNat ≤ (122 : ℕ) := h.2
  show 33 ≤ c.val.toNat ∧ c.val.toNat ≤ 126
  omega

theorem graphic_of_isUpper {c : Char} (h : c.isUpper = true) : 33 ≤ c.toNat ∧ c.toNat ≤ 126 := by
  have h : decide ('A'.val ≤ c.val ∧ c.val ≤ 'Z'.val) = true := h
  simp only [decide_eq_true_eq, UInt32.le_iff_toNat_le] at h
  have h1 : (65 : ℕ) ≤ c.val.toNat := h.1
  have h2 : c.val.toNat ≤ (90 : ℕ) := h.2
  show 33 ≤ c.val.toNat ∧ c.val.toNat ≤ 126
  omega

theorem graphic_of_isDigit {c : Char} (h : c.isDigit = true) : 33 ≤ c.toNat ∧ c.toNat ≤ 126 := by
  simp only [Char.isDigit, Bool.and_eq_true, decide_eq_true_eq, ge_iff_le, UInt32.le_iff_toNat_le] at h
  have h1 : (48 : ℕ) ≤ c.val.toNat := h.1
  have h2 : c.val.toNat ≤ (57 : ℕ) := h.2
  show 33 ≤ c.val.toNat ∧ c.val.toNat ≤ 126
  omega

/-! ## Case -/

theorem toLower_of_not_ascii {c : Char} (h : 128 ≤ c.toNat) : c.toLower = c := by
  delta Char.toLower
  rw [dif_neg]
  rintro ⟨-, hle⟩
  have hz : c.val.toNat ≤ 'Z'.val.toNat := UInt32.le_iff_toNat_le.mp hle
  have hnat : c.toNat = c.val.toNat := rfl
  have : 'Z'.val.toNat = 90 := rfl
  omega

theorem toLower_toLower (c : Char) : c.toLower.toLower = c.toLower := by
  by_cases h : c.toNat < 128
  · have hcode : ∀ n < 128, (Char.ofNat n).toLower.toLower = (Char.ofNat n).toLower := by decide
    have := hcode c.toNat h
    rwa [Char.ofNat_toNat] at this
  · rw [toLower_of_not_ascii (not_lt.mp h), toLower_of_not_ascii (not_lt.mp h)]

/-! ## Pieces between separators -/

/-- No piece of a split has what it was split on. -/
theorem forall_of_mem_splitOnP {α : Type*} {p : α → Bool} {l w : List α} (h : w ∈ l.splitOnP p) :
    ∀ c ∈ w, p c = false := by
  induction l generalizing w with
  | nil =>
    rw [splitOnP_nil, mem_singleton] at h
    rw [h]
    simp
  | cons x l ih =>
    rw [splitOnP_cons_eq_if_modifyHead] at h
    by_cases hx : p x = true
    · rw [if_pos hx] at h
      rcases mem_cons.mp h with rfl | h
      · simp
      · exact ih h
    · rw [if_neg hx] at h
      obtain ⟨first, rest, hsplit⟩ := exists_cons_of_ne_nil (splitOnP_ne_nil p l)
      rw [hsplit, modifyHead_cons] at h
      rcases mem_cons.mp h with rfl | h
      · intro c hc
        rcases mem_cons.mp hc with rfl | hc
        · exact Bool.eq_false_iff.mpr hx
        · exact ih (hsplit ▸ mem_cons_self) c hc
      · exact ih (hsplit ▸ mem_cons_of_mem _ h)

/-- A piece of a split is made of what was split. -/
theorem subset_of_mem_splitOnP {α : Type*} {p : α → Bool} {cs w : List α} (h : w ∈ cs.splitOnP p) : w ⊆ cs := by
  induction cs generalizing w with
  | nil =>
    rw [splitOnP_nil, mem_singleton] at h
    rw [h]
    exact List.Subset.refl _
  | cons c cs ih =>
    rw [splitOnP_cons_eq_if_modifyHead] at h
    split_ifs at h
    · rcases mem_cons.mp h with rfl | h
      · exact nil_subset _
      · exact subset_cons_of_subset _ (ih h)
    · obtain ⟨first, rest, hsplit⟩ := exists_cons_of_ne_nil (splitOnP_ne_nil p cs)
      rw [hsplit, modifyHead_cons] at h
      rcases mem_cons.mp h with rfl | h
      · exact cons_subset_cons _ (ih (hsplit ▸ mem_cons_self))
      · exact subset_cons_of_subset _ (ih (hsplit ▸ mem_cons_of_mem _ h))

theorem mem_of_mem_splitChar {sep : Char} {s piece : String} (h : piece ∈ splitChar sep s) {c : Char}
    (hc : c ∈ piece.toList) : c ∈ s.toList := by
  obtain ⟨w, hw, rfl⟩ := mem_map.mp h
  rw [String.toList_ofList] at hc
  rw [splitOn_eq_splitOnP] at hw
  exact subset_of_mem_splitOnP hw hc

theorem notMem_of_mem_splitChar {sep : Char} {s piece : String} (h : piece ∈ splitChar sep s) :
    sep ∉ piece.toList := by
  obtain ⟨w, hw, rfl⟩ := mem_map.mp h
  rw [splitOn_eq_splitOnP] at hw
  intro hsep
  rw [String.toList_ofList] at hsep
  have := forall_of_mem_splitOnP hw sep hsep
  simp at this

/-- Words behind separators can be told apart. -/
theorem flatMap_sep_injective {α : Type*} {sep : α} :
    ∀ {a b : List (List α)}, (∀ w ∈ a, sep ∉ w) → (∀ w ∈ b, sep ∉ w) →
      a.flatMap (sep :: ·) = b.flatMap (sep :: ·) → a = b
  | [], [], _, _, _ => rfl
  | [], _ :: _, _, _, h => by simp at h
  | _ :: _, [], _, _, h => by simp at h
  | x :: a, y :: b, ha, hb, h => by
    classical
    rw [flatMap_cons, flatMap_cons, cons_append, cons_append] at h
    have htail := (List.cons.inj h).2
    -- a word goes on to the next separator
    have htake : ∀ (w : List α) (l : List (List α)), sep ∉ w →
        (w ++ l.flatMap (sep :: ·)).takeWhile (fun c => decide (c ≠ sep)) = w := by
      intro w l hw
      have hall : ∀ c ∈ w, decide (c ≠ sep) = true :=
        fun c hc => decide_eq_true fun hcs => hw (hcs ▸ hc)
      rw [takeWhile_append_of_pos hall]
      cases l <;> simp
    have hx := htake x a (ha x mem_cons_self)
    rw [htail, htake y b (hb y mem_cons_self)] at hx
    subst hx
    rw [flatMap_sep_injective (fun w hw => ha w (mem_cons_of_mem _ hw))
      (fun w hw => hb w (mem_cons_of_mem _ hw)) (append_cancel_left htail)]

end PtaasBench.Py
