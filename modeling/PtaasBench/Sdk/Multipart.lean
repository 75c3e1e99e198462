import PtaasBench.Lib.Splitting
import PtaasBench.Py.Utf8
import PtaasBench.Sdk.Networks

/-!
# PtaasBench.Sdk.Multipart — the fields of a multipart body, three times

The walkers of the agents for Python (`_params.py`), Java (`Attributes.java`) and .NET (`RequestAttributes.cs`).
Java and .NET read names in Latin-1, one character for each byte, so their passes are modelled on the bytes.
-/

namespace PtaasBench.Sdk.Multipart

open Lib Py
open List hiding utf8Encode utf8Encode_cons

/-! ## Parts of a body -/

def crlf : Bytes := [13, 10]

def separator : Bytes := [13, 10, 13, 10]

def dashes : Bytes := [45, 45]

/-- `b"--" + boundary` -/
def delimiter (boundary : Bytes) : Bytes := 45 :: 45 :: boundary

def latin1 (bs : Bytes) : Text := bs.map fun b => Char.ofNat b.toNat

/-- `encode("latin-1", "replace")`, and `getBytes(ISO_8859_1)`. -/
def encodeLatin1 (s : Text) : Bytes := s.map fun c => if c.toNat < 256 then UInt8.ofNat c.toNat else 63

def lowerByte (b : UInt8) : UInt8 := if 65 ≤ b.toNat ∧ b.toNat ≤ 90 then b + 32 else b

/-- `(?:[^"\\]|\\.)*"` read from the front, within an escape or not: what is before the quote. -/
def quotedRest (dot : UInt8 → Bool) : Bool → Bytes → Option Bytes
  | _, [] => none
  | true, d :: t => if dot d then (quotedRest dot false t).map (d :: ·) else none
  | false, c :: t => if c = 34 then some [] else (quotedRest dot (c == 92) t).map (c :: ·)

/-- The group of the pattern `key="((?:[^"\\]|\\.)*)"` at its first match, without regard to case. -/
def search (dot : UInt8 → Bool) (key : Bytes) : Bytes → Option Bytes
  | [] => none
  | c :: t =>
    if key.isPrefixOf ((c :: t).map lowerByte) then
      (quotedRest dot false ((c :: t).drop key.length)).or (search dot key t)
    else search dot key t

/-- `name="` -/
def nameKey : Bytes := [110, 97, 109, 101, 61, 34]

/-- `filename="` -/
def filenameKey : Bytes := [102, 105, 108, 101, 110, 97, 109, 101, 61, 34]

/-- What `.` matches in the patterns of Python and .NET. -/
def anyButNewline (b : UInt8) : Bool := b != 10

/-- What `.` matches in a pattern of Java. -/
def anyButLineEnd (b : UInt8) : Bool := b != 10 && b != 13 && b != 0x85

/-- A part with a head that names it: the name, the name of its file, and its payload. -/
def namedPart (dot : UInt8 → Bool) (part : Bytes) : Option (Bytes × Option Bytes × Bytes) :=
  (cut separator part).bind fun p =>
    (search dot nameKey p.1).map fun name => (name, search dot filenameKey p.1, p.2)

def dropCrlf (payload : Bytes) : Bytes :=
  if crlf.isSuffixOf payload then payload.take (payload.length - 2) else payload

/-! ## Python -/

inductive Value
  | text (s : Text)
  | bytes (bs : Bytes)
deriving DecidableEq

def boundaryKey : Text := "boundary".toList

/-- `_multipart_boundary` on the chunks behind the first. -/
def boundaryIn : List Text → Option Bytes
  | [] => none
  | chunk :: chunks =>
    let chunk := stripText isSpace chunk
    let value := stripText (· == '"') (stripText isSpace ((chunk.dropWhile (· ≠ '=')).drop 1))
    if (stripText isSpace (chunk.takeWhile (· ≠ '='))).map Char.toLower = boundaryKey ∧ value ≠ [] then
      some (encodeLatin1 value)
    else boundaryIn chunks

def multipartBoundary (contentType : Text) : Option Bytes := boundaryIn ((contentType.splitOn ';').drop 1)

/-- The entries of one part. -/
def iterPart (part : Bytes) : List (Text × Value) :=
  if part = [] ∨ part = dashes ∨ part = dashes ++ crlf then []
  else
    match namedPart anyButNewline part with
    | none => []
    | some (name, file, payload) =>
      (file.map fun g => (utf8Decode name ++ ".filename".toList, Value.text (utf8Decode g))).toList ++
        [(utf8Decode name, .bytes (dropCrlf payload))]

def iterMultipart (body : Bytes) (contentType : Text) : List (Text × Value) :=
  match multipartBoundary contentType with
  | none => []
  | some boundary => (split (delimiter boundary) body).flatMap iterPart

/-! ## Java -/

/-- The group of `boundary="?([^";,]+)"?` at its first match, without regard to case. -/
def boundaryMatch : Text → Option Text
  | [] => none
  | c :: t =>
    let rest := (c :: t).drop 9
    let value := (if rest.head? = some '"' then rest.drop 1 else rest).takeWhile fun d => d ∉ ['"', ';', ',']
    if (boundaryKey ++ ['=']).isPrefixOf ((c :: t).map Char.toLower) ∧ value ≠ [] then some value
    else boundaryMatch t

def isLineEnd (b : UInt8) : Bool := b == 10 || b == 13

/-- `emitPart` on the bytes behind a delimiter, of which so many are the part's. -/
def emitPart (rest : Bytes) (size : ℕ) : List (Text × Bytes) :=
  match cut separator rest with
  | none => []
  | some (head, after) =>
    if size ≤ head.length then []
    else
      match search anyButLineEnd nameKey head with
      | none => []
      | some name =>
        match search anyButLineEnd filenameKey head with
        | some file => [(latin1 name ++ ".filename".toList, utf8Encode (latin1 file)), (latin1 name, [])]
        | none => [(latin1 name, (after.take (size - (head.length + 4))).rdropWhile isLineEnd)]

theorem length_behind {boundary rest part next : Bytes} (h : cut (delimiter boundary) rest = some (part, next)) :
    next.length < rest.length := by
  rw [cut_append h]
  simp only [delimiter, length_append, length_cons]
  omega

/-- The loop of `walkMultipart`, behind a delimiter. -/
def walkFrom (boundary rest : Bytes) : List (Text × Bytes) :=
  match _h : cut (delimiter boundary) rest with
  | none => emitPart rest rest.length
  | some (part, next) => emitPart rest part.length ++ walkFrom boundary next
termination_by rest.length
decreasing_by exact length_behind _h

def walkMultipart (body : Bytes) (contentType : Text) : List (Text × Bytes) :=
  match boundaryMatch contentType with
  | none => []
  | some boundary =>
    match cut (delimiter (encodeLatin1 boundary)) body with
    | none => []
    | some (_, rest) => walkFrom (encodeLatin1 boundary) rest

/-! ## .NET -/

structure MultipartField where
  name : Text
  fileName : Option Text
  value : Bytes
deriving DecidableEq

/-- `BoundaryOf` on the chunks behind the first. -/
def boundaryOfIn : List Text → Option Text
  | [] => none
  | chunk :: chunks =>
    let chunk := stripText dotnetSpace chunk
    if '=' ∈ chunk ∧ (stripText dotnetSpace (chunk.takeWhile (· ≠ '='))).map Char.toLower = boundaryKey then
      let value := stripText (· == '"') (stripText dotnetSpace ((chunk.dropWhile (· ≠ '=')).drop 1))
      if value = [] then none else some value
    else boundaryOfIn chunks

def boundaryOf (contentType : Text) : Option Text := boundaryOfIn ((contentType.splitOn ';').drop 1)

/-- The entry of one part. -/
def parsePart (part : Bytes) : List MultipartField :=
  match namedPart anyButNewline part with
  | none => []
  | some (name, file, payload) => [⟨latin1 name, file.map latin1, dropCrlf payload⟩]

/-- The loop of `ParseMultipart`, behind a delimiter. -/
def parseFrom (boundary rest : Bytes) : List MultipartField :=
  match _h : cut (delimiter boundary) rest with
  | none => if dashes.isPrefixOf rest then [] else parsePart rest
  | some (part, next) => if dashes.isPrefixOf part then [] else parsePart part ++ parseFrom boundary next
termination_by rest.length
decreasing_by exact length_behind _h

/-- Decided along the text. -/
instance decidableLatin1 (t : Text) : Decidable (∀ c ∈ t, c.toNat < 256) := List.decidableBAll _ t

/-- A character above 0xFF is none of the body's, so a delimiter with one occurs nowhere. -/
def parseMultipart (body : Bytes) (contentType : Text) : List MultipartField :=
  match boundaryOf contentType with
  | none => []
  | some boundary =>
    if ∀ c ∈ boundary, c.toNat < 256 then
      match cut (delimiter (encodeLatin1 boundary)) body with
      | none => []
      | some (_, rest) => parseFrom (encodeLatin1 boundary) rest
    else []

/-! ## The loops as pieces -/

theorem delimiter_ne_nil (boundary : Bytes) : delimiter boundary ≠ [] := cons_ne_nil _ _

/-- A separator does not reach over a delimiter. -/
theorem emitPart_append (part next boundary : Bytes) :
    emitPart (part ++ delimiter boundary ++ next) part.length = emitPart part part.length := by
  have hdash : (45 : UInt8) ∉ separator := by decide
  have hsep : separator ≠ [] := cons_ne_nil _ _
  cases hcut : cut separator part with
  | some p =>
    obtain ⟨head, after⟩ := p
    have hlength := congrArg List.length (cut_append hcut)
    have htake : (after ++ (delimiter boundary ++ next)).take (part.length - (head.length + 4)) =
        after.take (part.length - (head.length + 4)) := by
      rw [take_append_of_le_length]
      simp only [separator, length_append, length_cons, length_nil] at hlength
      omega
    rw [append_assoc, emitPart, emitPart, cut_append_right hcut, hcut]
    dsimp only
    rw [htake]
  | none =>
    rw [append_assoc, delimiter, cons_append, emitPart, emitPart, hcut,
      cut_around hsep hdash (cut_eq_none_iff.mp hcut)]
    cases cut separator (45 :: boundary ++ next) with
    | none => rfl
    | some p =>
      refine if_pos ?_
      rw [length_append]
      exact Nat.le_add_right _ _

theorem walkFrom_eq (boundary rest : Bytes) :
    walkFrom boundary rest = (split (delimiter boundary) rest).flatMap fun part => emitPart part part.length := by
  induction hn : rest.length using Nat.strongRecOn generalizing rest with
  | ind n ih =>
    rw [walkFrom, split_eq (delimiter_ne_nil boundary)]
    split
    · next hcut => rw [hcut, flatMap_singleton]
    · next part next hcut =>
      have hshorter := length_behind hcut
      rw [hcut, flatMap_cons, ih _ (hn ▸ hshorter) next rfl]
      rw [cut_append hcut, emitPart_append]

theorem parseFrom_eq (boundary rest : Bytes) :
    parseFrom boundary rest =
      ((split (delimiter boundary) rest).takeWhile fun part => !dashes.isPrefixOf part).flatMap parsePart := by
  induction hn : rest.length using Nat.strongRecOn generalizing rest with
  | ind n ih =>
    rw [parseFrom, split_eq (delimiter_ne_nil boundary)]
    split
    · next hcut =>
      rw [hcut]
      by_cases hdash : dashes.isPrefixOf rest = true
      · rw [if_pos hdash, takeWhile_cons_of_neg (by rw [hdash]; exact Bool.false_ne_true)]
        rfl
      · rw [if_neg hdash, takeWhile_cons_of_pos (Bool.not_eq_true' _ ▸ Bool.eq_false_iff.mpr hdash)]
        exact (flatMap_singleton parsePart rest).symm
    · next part next hcut =>
      have hshorter := length_behind hcut
      rw [hcut]
      by_cases hdash : dashes.isPrefixOf part = true
      · rw [if_pos hdash, takeWhile_cons_of_neg (by rw [hdash]; exact Bool.false_ne_true)]
        rfl
      · rw [if_neg hdash, takeWhile_cons_of_pos (Bool.not_eq_true' _ ▸ Bool.eq_false_iff.mpr hdash),
          flatMap_cons, ih _ (hn ▸ hshorter) next rfl]

/-! ## Encoded bodies -/

/-- A field that is no file. -/
structure Field where
  name : Text
  value : Bytes

/-- How `multipart/form-data` writes a name within quotes. -/
def escapeChar (c : Char) : Text :=
  if c = '"' then ['%', '2', '2'] else if c = '\r' then ['%', '0', 'D'] else if c = '\n' then ['%', '0', 'A'] else [c]

def Field.quoted (f : Field) : Bytes := utf8Encode (f.name.flatMap escapeChar)

/-- `CRLF Content-Disposition: form-data; name=` -/
def disposition : Bytes :=
  [13, 10, 67, 111, 110, 116, 101, 110, 116, 45, 68, 105, 115, 112, 111, 115, 105, 116, 105, 111, 110, 58, 32, 102,
    111, 114, 109, 45, 100, 97, 116, 97, 59, 32, 110, 97, 109, 101, 61]

example : disposition = crlf ++ encodeLatin1 "Content-Disposition: form-data; name=".toList := by decide

def Field.head (f : Field) : Bytes := disposition ++ 34 :: f.quoted

def Field.segment (f : Field) : Bytes := f.head ++ 34 :: (separator ++ (f.value ++ crlf))

/-- A body of fields, one behind each delimiter. -/
def encode (boundary : Bytes) (fields : List Field) : Bytes :=
  (fields.foldr (fun f rest => delimiter boundary ++ f.segment ++ rest) (delimiter boundary ++ (dashes ++ crlf)))

/-- Does every escape have its character? -/
def paired : Bool → Bytes → Bool
  | within, [] => !within
  | true, _ :: t => paired false t
  | false, c :: t => paired (c == 92) t

section heads

variable {dot : UInt8 → Bool}

theorem quotedRest_append (hquote : dot 34 = true) {e : Bytes} (he : (34 : UInt8) ∉ e)
    (hdot : ∀ c ∈ e, dot c = true) (within : Bool) : quotedRest dot within (e ++ [34]) = if paired within e then some e else none := by
  induction e generalizing within with
  | nil =>
    cases within with
    | true => rw [nil_append, quotedRest, if_pos hquote]; rfl
    | false => rfl
  | cons c e ih =>
    have hrest := ih (fun h => he (mem_cons_of_mem c h)) fun d hd => hdot d (mem_cons_of_mem c hd)
    have hc : c ≠ 34 := fun h => he (h ▸ mem_cons_self)
    cases within with
    | true =>
      rw [cons_append, quotedRest, if_pos (hdot c mem_cons_self), hrest, paired]
      split <;> rfl
    | false =>
      rw [cons_append, quotedRest, if_neg hc, hrest, paired]
      split <;> rfl

theorem quote_mem_of_quotedRest {within : Bool} {t g : Bytes} (h : quotedRest dot within t = some g) :
    (34 : UInt8) ∈ t := by
  induction t generalizing within g with
  | nil => cases within <;> exact absurd h (Option.some_ne_none g).symm
  | cons c t ih =>
    cases within with
    | true =>
      rw [quotedRest] at h
      split_ifs at h
      obtain ⟨g', hrest, -⟩ := Option.map_eq_some_iff.mp h
      exact mem_cons_of_mem c (ih hrest)
    | false =>
      rw [quotedRest] at h
      by_cases hc : c = 34
      · exact hc ▸ mem_cons_self
      · rw [if_neg hc] at h
        obtain ⟨g', hrest, -⟩ := Option.map_eq_some_iff.mp h
        exact mem_cons_of_mem c (ih hrest)

theorem lowerByte_eq_quote {b : UInt8} (h : lowerByte b = 34) : b = 34 := by
  rw [lowerByte] at h
  split_ifs at h with hb
  · have hsum := congrArg UInt8.toNat h
    rw [UInt8.toNat_add] at hsum
    simp only [UInt8.reduceToNat] at hsum
    omega
  · exact h

/-- A match has the quote of its key and the one that ends it. -/
theorem search_eq_none {key : Bytes} (hkey : (34 : UInt8) ∈ key) {t : Bytes} (h : t.count 34 ≤ 1) :
    search dot key t = none := by
  induction t with
  | nil => rfl
  | cons c t ih =>
    have hrest := ih ((count_le_count_cons).trans h)
    rw [search, hrest, Option.or_none]
    by_cases hp : key.isPrefixOf ((c :: t).map lowerByte) = true
    · rw [if_pos hp]
      obtain ⟨rest, hparts⟩ := List.isPrefixOf_iff_prefix.mp hp
      have htake : ((c :: t).take key.length).map lowerByte = key := by
        rw [map_take, ← hparts, take_left]
      have hfirst : (34 : UInt8) ∈ (c :: t).take key.length := by
        rw [← htake] at hkey
        obtain ⟨b, hb, hlower⟩ := mem_map.mp hkey
        exact lowerByte_eq_quote hlower ▸ hb
      cases hquoted : quotedRest dot false ((c :: t).drop key.length) with
      | none => rfl
      | some g =>
        have hsecond := quote_mem_of_quotedRest hquoted
        have hcount : ((c :: t).take key.length ++ (c :: t).drop key.length).count 34 =
            ((c :: t).take key.length).count 34 + ((c :: t).drop key.length).count 34 := count_append
        rw [take_append_drop] at hcount
        have hone := count_pos_iff.mpr hfirst
        have htwo := count_pos_iff.mpr hsecond
        omega
    · rw [if_neg hp]

theorem search_name (t : Bytes) :
    search dot nameKey (disposition ++ 34 :: t) = (quotedRest dot false t).or (search dot nameKey t) := rfl

theorem search_fileName (t : Bytes) :
    search dot filenameKey (disposition ++ 34 :: t) = search dot filenameKey t := rfl

end heads

/-! ## One segment -/

theorem forall_of_all {α : Type} {p : α → Prop} [DecidablePred p] {l : List α} (h : l.all (fun x => p x) = true) :
    ∀ x ∈ l, p x :=
  fun x hx => of_decide_eq_true (all_eq_true.mp h x hx)

theorem separator_ne_nil : separator ≠ [] := cons_ne_nil _ _

theorem escapeChar_plain {c d : Char} (h : c ∈ escapeChar d) : c ≠ '"' ∧ c ≠ '\r' ∧ c ≠ '\n' := by
  rw [escapeChar] at h
  split_ifs at h with hquote hcr hlf
  · exact (forall_of_all (by decide) : ∀ c ∈ ['%', '2', '2'], c ≠ '"' ∧ c ≠ '\r' ∧ c ≠ '\n') c h
  · exact (forall_of_all (by decide) : ∀ c ∈ ['%', '0', 'D'], c ≠ '"' ∧ c ≠ '\r' ∧ c ≠ '\n') c h
  · exact (forall_of_all (by decide) : ∀ c ∈ ['%', '0', 'A'], c ≠ '"' ∧ c ≠ '\r' ∧ c ≠ '\n') c h
  · obtain rfl := mem_singleton.mp h
    exact ⟨hquote, hcr, hlf⟩

theorem not_mem_quoted (f : Field) : ∀ c ∈ f.quoted, c ≠ 34 ∧ c ≠ 13 ∧ c ≠ 10 := by
  have hbyte : ∀ (n : UInt8) (d : Char), n.toNat = d.toNat → n.toNat < 0x80 →
      (∀ c ∈ f.name.flatMap escapeChar, c ≠ d) → n ∉ f.quoted := by
    intro n d hnd hn hnot hmem
    rcases mem_utf8Encode hmem with ⟨c, hc, heq⟩ | hhigh
    · exact hnot c hc (Char.toNat_inj.mp (heq.symm.trans hnd))
    · omega
  have hplain : ∀ c ∈ f.name.flatMap escapeChar, c ≠ '"' ∧ c ≠ '\r' ∧ c ≠ '\n' := by
    intro c hc
    obtain ⟨d, -, hd⟩ := mem_flatMap.mp hc
    exact escapeChar_plain hd
  intro c hc
  refine ⟨?_, ?_, ?_⟩
  · rintro rfl
    exact hbyte 34 '"' rfl (by decide) (fun c hc => (hplain c hc).1) hc
  · rintro rfl
    exact hbyte 13 '\r' rfl (by decide) (fun c hc => (hplain c hc).2.1) hc
  · rintro rfl
    exact hbyte 10 '\n' rfl (by decide) (fun c hc => (hplain c hc).2.2) hc

theorem cr_not_separates {t : Bytes} (h : (13 : UInt8) ∉ t) : ¬separator <:+: t :=
  fun hin => h (hin.subset mem_cons_self)

/-- No separator stands in a head. -/
theorem not_separates_head {t : Bytes} (h : (13 : UInt8) ∉ t) : ¬separator <:+: disposition ++ 34 :: t := by
  refine not_infix_around separator_ne_nil (by decide) (cut_eq_none_iff.mp ?_) (cr_not_separates h)
  rfl

theorem namedPart_of_head (dot : UInt8 → Bool) {head : Bytes} (h : ¬separator <:+: head) (payload : Bytes) :
    namedPart dot (head ++ 34 :: (separator ++ payload)) =
      (search dot nameKey (head ++ [34])).map fun name => (name, search dot filenameKey (head ++ [34]), payload) := by
  rw [namedPart, cut_around separator_ne_nil (by decide) h, cut_self_append separator_ne_nil]
  rfl

theorem count_quote {e : Bytes} (he : (34 : UInt8) ∉ e) : (e ++ [34]).count 34 ≤ 1 := by
  rw [count_append, count_eq_zero.mpr he]
  decide

theorem namedPart_segment (dot : UInt8 → Bool) (f : Field) (hquote : dot 34 = true)
    (hdot : ∀ c ∈ f.quoted, dot c = true) :
    namedPart dot f.segment = if paired false f.quoted then some (f.quoted, none, f.value ++ crlf) else none := by
  have hno : (34 : UInt8) ∉ f.quoted := fun h => (not_mem_quoted f _ h).1 rfl
  have hcr : (13 : UInt8) ∉ f.quoted := fun h => (not_mem_quoted f _ h).2.1 rfl
  have hname : search dot nameKey (f.head ++ [34]) = if paired false f.quoted then some f.quoted else none := by
    rw [Field.head, append_assoc, cons_append, search_name, quotedRest_append hquote hno hdot,
      search_eq_none (by decide) (count_quote hno), Option.or_none]
  have hfile : search dot filenameKey (f.head ++ [34]) = none := by
    rw [Field.head, append_assoc, cons_append, search_fileName,
      search_eq_none (by decide) (count_quote hno)]
  have hhead : ¬separator <:+: f.head := not_separates_head hcr
  rw [Field.segment, namedPart_of_head dot hhead, hname, hfile]
  split <;> rfl

/-- What follows a delimiter within a name has no name. -/
theorem namedPart_rest (dot : UInt8 → Bool) {a : Bytes} (hquote : (34 : UInt8) ∉ a) (hcr : (13 : UInt8) ∉ a)
    (payload : Bytes) : namedPart dot (a ++ 34 :: (separator ++ payload)) = none := by
  have hname : search dot nameKey (a ++ [34]) = none := search_eq_none (by decide) (count_quote hquote)
  rw [namedPart_of_head dot (cr_not_separates hcr), hname]
  rfl

theorem namedPart_of_not_separates (dot : UInt8 → Bool) {part : Bytes} (h : ¬separator <:+: part) :
    namedPart dot part = none := by
  rw [namedPart, cut_eq_none_iff.mpr h]
  rfl

theorem dropCrlf_append (v : Bytes) : dropCrlf (v ++ crlf) = v := by
  have hsuffix : crlf.isSuffixOf (v ++ crlf) = true := isSuffixOf_iff_suffix.mpr (suffix_append v crlf)
  have hlength : (v ++ crlf).length - 2 = v.length := by
    rw [length_append]
    rfl
  rw [dropCrlf, if_pos hsuffix, hlength, take_left]

theorem iterPart_of_none {part : Bytes} (h : namedPart anyButNewline part = none) : iterPart part = [] := by
  rw [iterPart, h]
  exact ite_self _

/-- A value that is read lies in its part. -/
theorem iterPart_value {part : Bytes} {name : Text} {v : Bytes} (h : (name, Value.bytes v) ∈ iterPart part) :
    v <:+: part := by
  rw [iterPart] at h
  split_ifs at h
  · exact absurd h not_mem_nil
  · cases hnamed : namedPart anyButNewline part with
    | none =>
      rw [hnamed] at h
      exact absurd h not_mem_nil
    | some p =>
      obtain ⟨g, file, payload⟩ := p
      rw [hnamed] at h
      rcases mem_append.mp h with hfile | hvalue
      · cases file with
        | none => exact absurd hfile not_mem_nil
        | some s => exact absurd (Prod.mk.inj (mem_singleton.mp hfile)).2 Value.noConfusion
      · obtain ⟨p, hcut, hp⟩ := Option.bind_eq_some_iff.mp hnamed
        obtain ⟨s, -, heq⟩ := Option.map_eq_some_iff.mp hp
        have hpayload : p.2 = payload := (Prod.mk.inj (Prod.mk.inj heq).2).2
        have hv : v = dropCrlf payload := Value.bytes.inj (Prod.mk.inj (mem_singleton.mp hvalue)).2
        have hfront : dropCrlf payload <+: payload := by
          rw [dropCrlf]
          split
          · exact List.take_prefix _ _
          · exact prefix_rfl
        have hsuffix : payload <:+ part := ⟨p.1 ++ separator, hpayload ▸ (cut_append hcut).symm⟩
        exact hv ▸ hfront.isInfix.trans hsuffix.isInfix

/-- The part that `emitPart` takes, where it is whole. -/
theorem emitPart_whole (part : Bytes) :
    emitPart part part.length =
      match namedPart anyButLineEnd part with
      | none => []
      | some (name, some file, _) => [(latin1 name ++ ".filename".toList, utf8Encode (latin1 file)), (latin1 name, [])]
      | some (name, none, payload) => [(latin1 name, payload.rdropWhile isLineEnd)] := by
  rw [emitPart, namedPart]
  cases hcut : cut separator part with
  | none => rfl
  | some p =>
    obtain ⟨head, after⟩ := p
    have hlength : part.length = head.length + 4 + after.length := by
      rw [cut_append hcut, length_append, length_append]
      rfl
    have htake : after.take (part.length - (head.length + 4)) = after := by
      rw [take_of_length_le]
      omega
    dsimp only [Option.bind_some]
    rw [if_neg (by omega), htake]
    cases search anyButLineEnd nameKey head with
    | none => rfl
    | some name => cases search anyButLineEnd filenameKey head <;> rfl

/-! ## The pieces of a body -/

section pieces

variable {boundary : Bytes}

theorem not_mem_delimiter {c : UInt8} (hc : c ∉ boundary) (hdash : c ≠ 45) : c ∉ delimiter boundary := by
  intro h
  rcases mem_cons.mp h with heq | h
  · exact hdash heq
  · rcases mem_cons.mp h with heq | h
    · exact hdash heq
    · exact hc h

theorem pieces_encode (hlf : (10 : UInt8) ∉ boundary) (fields : List Field) :
    split (delimiter boundary) (encode boundary fields) =
      [] :: (fields.flatMap fun f => split (delimiter boundary) f.segment) ++
        split (delimiter boundary) (dashes ++ crlf) := by
  have hd := not_mem_delimiter hlf (by decide)
  induction fields with
  | nil => exact split_self_append (delimiter_ne_nil boundary) _
  | cons f fields ih =>
    obtain ⟨t, ht⟩ : ∃ t, encode boundary fields = delimiter boundary ++ t := by
      cases fields with
      | nil => exact ⟨_, rfl⟩
      | cons g fields => exact ⟨_, append_assoc ..⟩
    have hsegment : f.segment = (f.head ++ 34 :: (separator ++ (f.value ++ [13]))) ++ [10] := by
      simp only [Field.segment, append_assoc, cons_append, nil_append, crlf]
    have hrest := split_behind (delimiter_ne_nil boundary) hd (f.head ++ 34 :: (separator ++ (f.value ++ [13]))) t
    rw [← hsegment] at hrest
    change split (delimiter boundary) (delimiter boundary ++ f.segment ++ encode boundary fields) = _
    rw [ht, split_self_append (delimiter_ne_nil boundary)] at ih
    have htail : split (delimiter boundary) t = (fields.flatMap fun f => split (delimiter boundary) f.segment) ++
        split (delimiter boundary) (dashes ++ crlf) := (List.cons.inj ih).2
    rw [append_assoc, split_self_append (delimiter_ne_nil boundary), ht, hrest, flatMap_cons, htail,
      cons_append, append_assoc]

theorem delimiter_absent {t : Bytes} (h : ¬dashes <:+: t) : ¬delimiter boundary <:+: t :=
  fun hin => h ((prefix_append dashes boundary).isInfix.trans hin)

theorem delimiter_absent_end (hb : boundary ≠ []) (hcr : (13 : UInt8) ∉ boundary) :
    ¬delimiter boundary <:+: dashes ++ crlf := by
  intro hin
  have hlength := hin.length_le
  have hpos := length_pos_iff.mpr hb
  have hd := delimiter_ne_nil boundary
  refine not_infix_around (x := dashes) (y := [10]) hd (not_mem_delimiter hcr (by decide)) ?_ ?_ hin
  · intro h
    have := h.length_le
    simp only [delimiter, dashes, length_cons, length_nil] at this
    omega
  · intro h
    have := h.length_le
    simp only [delimiter, length_cons, length_nil] at this
    omega

/-- Where the delimiter is in neither name nor value, the segment is one piece. -/
theorem split_segment (hcr : (13 : UInt8) ∉ boundary) (hlf : (10 : UInt8) ∉ boundary)
    (hquote : (34 : UInt8) ∉ boundary) {f : Field} (hname : ¬delimiter boundary <:+: f.quoted) (hvalue : ¬delimiter boundary <:+: f.value) :
    split (delimiter boundary) f.segment = [f.segment] := by
  have hd := delimiter_ne_nil boundary
  have h34 := not_mem_delimiter hquote (by decide)
  have h13 := not_mem_delimiter hcr (by decide)
  have h10 := not_mem_delimiter hlf (by decide)
  have hnil : ¬delimiter boundary <:+: [] := fun h => hd (infix_nil.mp h)
  have hdisposition : ¬delimiter boundary <:+: disposition := delimiter_absent (cut_eq_none_iff.mp rfl)
  have hend : ¬delimiter boundary <:+: f.value ++ crlf :=
    not_infix_around hd h13 hvalue (not_infix_around (x := []) hd h10 hnil hnil)
  refine split_of_absent hd (not_infix_around hd h34 (not_infix_around hd h34 hdisposition hname) ?_)
  refine not_infix_around (x := []) hd h13 hnil (not_infix_around (x := []) hd h10 hnil ?_)
  exact not_infix_around (x := []) hd h13 hnil (not_infix_around (x := []) hd h10 hnil hend)

/-- Where it is in the name, no piece has a name. -/
theorem namedPart_pieces (dot : UInt8 → Bool) (hcr : (13 : UInt8) ∉ boundary) (hlf : (10 : UInt8) ∉ boundary)
    (hquote : (34 : UInt8) ∉ boundary) {f : Field} (hname : delimiter boundary <:+: f.quoted)
    (hvalue : ¬delimiter boundary <:+: f.value) :
    ∀ p ∈ split (delimiter boundary) f.segment, namedPart dot p = none := by
  have hd := delimiter_ne_nil boundary
  have h34 := not_mem_delimiter hquote (by decide)
  have h13 := not_mem_delimiter hcr (by decide)
  have h10 := not_mem_delimiter hlf (by decide)
  have hnil : ¬delimiter boundary <:+: [] := fun h => hd (infix_nil.mp h)
  have hdisposition : ¬delimiter boundary <:+: disposition := delimiter_absent (cut_eq_none_iff.mp rfl)
  have hend : ¬delimiter boundary <:+: f.value ++ crlf :=
    not_infix_around hd h13 hvalue (not_infix_around (x := []) hd h10 hnil hnil)
  have htail : ¬delimiter boundary <:+: separator ++ (f.value ++ crlf) := by
    refine not_infix_around (x := []) hd h13 hnil (not_infix_around (x := []) hd h10 hnil ?_)
    exact not_infix_around (x := []) hd h13 hnil (not_infix_around (x := []) hd h10 hnil hend)
  have hinside : ∀ p ∈ split (delimiter boundary) f.quoted, (34 : UInt8) ∉ p ∧ (13 : UInt8) ∉ p := by
    intro p hp
    have hin := (split_pieces hd f.quoted p hp).2
    exact ⟨fun h => (not_mem_quoted f _ (hin.subset h)).1 rfl, fun h => (not_mem_quoted f _ (hin.subset h)).2.1 rfl⟩
  obtain ⟨⟨a, b⟩, hcut⟩ := Option.ne_none_iff_exists'.mp fun h => cut_eq_none_iff.mp h hname
  rcases eq_nil_or_concat' (split (delimiter boundary) b) with hnone | ⟨r, z, hrest⟩
  · exact absurd hnone (split_ne_nil hd b)
  have hquoted : split (delimiter boundary) f.quoted = a :: (r ++ [z]) := by
    rw [split_eq hd, hcut, ← hrest]
  have hhead : split (delimiter boundary) f.head = ((disposition ++ 34 :: a) :: r) ++ [z] :=
    split_around (p := []) hd h34 (split_of_absent hd hdisposition) hquoted
  rw [Field.segment, split_around hd h34 hhead (split_of_absent hd htail)]
  rw [hquoted] at hinside
  obtain ⟨ha, hinside⟩ := forall_mem_cons.mp hinside
  intro p hp
  rcases mem_append.mp hp with hp | hp
  · rcases mem_cons.mp hp with rfl | hp
    · exact namedPart_of_not_separates dot (not_separates_head ha.2)
    · exact namedPart_of_not_separates dot (cr_not_separates (hinside p (mem_append_left _ hp)).2)
  · obtain rfl := mem_singleton.mp hp
    have hz := hinside z (mem_append_right _ (mem_singleton_self z))
    exact namedPart_rest dot hz.1 hz.2 _

end pieces

/-! ## What the walkers read -/

/-- `latin1` reads encoded text back where every character takes one byte. -/
theorem latin1_utf8Encode_iff {cs : List Char} : latin1 (utf8Encode cs) = cs ↔ ∀ c ∈ cs, c.toNat < 0x80 := by
  induction cs with
  | nil => exact iff_of_true rfl fun c hc => absurd hc not_mem_nil
  | cons c cs ih =>
    obtain ⟨first, tail, hencode, -, hkind⟩ := readAs_encodeChar c
    rw [utf8Encode_cons, hencode, forall_mem_cons, ← ih]
    rcases hkind with ⟨rfl, hfirst, hlow⟩ | ⟨-, hhigh, htail⟩
    · have hchar : Char.ofNat first.toNat = c := by rw [hfirst, Char.ofNat_toNat]
      have hcons : latin1 ([first] ++ utf8Encode cs) = c :: latin1 (utf8Encode cs) :=
        congrArg (· :: latin1 (utf8Encode cs)) hchar
      rw [hcons, cons_inj_right]
      exact (and_iff_right hlow).symm
    · refine iff_of_false (fun h => ?_) fun h => absurd h.1 (Nat.not_lt.mpr hhigh)
      have hlength := congrArg List.length h
      have hrest := length_le_utf8Encode cs
      have hpos := length_pos_iff.mpr htail
      rw [latin1, length_map, length_append, length_cons, length_cons] at hlength
      omega

theorem escape_eq_iff {name : Text} :
    name.flatMap escapeChar = name ↔ ∀ c ∈ name, c ≠ '"' ∧ c ≠ '\r' ∧ c ≠ '\n' := by
  constructor
  · intro h c hc
    rw [← h] at hc
    obtain ⟨d, -, hd⟩ := mem_flatMap.mp hc
    exact escapeChar_plain hd
  · intro h
    induction name with
    | nil => rfl
    | cons c name ih =>
      obtain ⟨⟨hquote, hcr, hlf⟩, hrest⟩ := forall_mem_cons.mp h
      rw [flatMap_cons, ih hrest, escapeChar, if_neg hquote, if_neg hcr, if_neg hlf]
      rfl

/-- A header's content type with a boundary that the three agents find in it. -/
structure Admitted (contentType boundary : Text) : Prop where
  python : multipartBoundary contentType = some (encodeLatin1 boundary)
  java : boundaryMatch contentType = some boundary
  dotnet : boundaryOf contentType = some boundary
  header : ∀ c ∈ contentType, c.toNat < 256 ∧ c ≠ '\r' ∧ c ≠ '\n'

/-- What all three make of a body is its fields. -/
structure ReadBack (contentType : Text) (body : Bytes) (fields : List Field) : Prop where
  python : iterMultipart body contentType = fields.map fun f => (f.name, .bytes f.value)
  java : walkMultipart body contentType = fields.map fun f => (f.name, f.value)
  dotnet : parseMultipart body contentType = fields.map fun f => ⟨f.name, none, f.value⟩

/-- A field that all three read back. -/
structure Kept (boundary : Bytes) (f : Field) : Prop where
  ascii : ∀ c ∈ f.name, c.toNat < 0x80
  plain : ∀ c ∈ f.name, c ≠ '"' ∧ c ≠ '\r' ∧ c ≠ '\n'
  paired : paired false f.quoted = true
  name_apart : ¬delimiter boundary <:+: f.quoted
  value_apart : ¬delimiter boundary <:+: f.value
  line_end : ∀ b, f.value.getLast? = some b → isLineEnd b = false

theorem boundaryMatch_mem {ct boundary : Text} (h : boundaryMatch ct = some boundary) :
    boundary ≠ [] ∧ ∀ c ∈ boundary, c ∈ ct ∧ c ≠ '"' := by
  induction ct with
  | nil => exact absurd h (Option.some_ne_none boundary).symm
  | cons d t ih =>
    rw [boundaryMatch] at h
    split_ifs at h with hquote hvalue hvalue
    · obtain rfl := Option.some.inj h
      refine ⟨hvalue.2, fun c hc => ⟨?_, ?_⟩⟩
      · exact mem_of_mem_drop (mem_of_mem_drop ((takeWhile_sublist _).mem hc))
      · rintro rfl
        exact absurd (mem_takeWhile_imp hc) (by decide)
    · obtain ⟨hne, hmem⟩ := ih h
      exact ⟨hne, fun c hc => ⟨mem_cons_of_mem d (hmem c hc).1, (hmem c hc).2⟩⟩
    · obtain rfl := Option.some.inj h
      refine ⟨hvalue.2, fun c hc => ⟨?_, ?_⟩⟩
      · exact mem_of_mem_drop ((takeWhile_sublist _).mem hc)
      · rintro rfl
        exact absurd (mem_takeWhile_imp hc) (by decide)
    · obtain ⟨hne, hmem⟩ := ih h
      exact ⟨hne, fun c hc => ⟨mem_cons_of_mem d (hmem c hc).1, (hmem c hc).2⟩⟩

section reads

variable {ct text : Text} (h : Admitted ct text)

include h

theorem Admitted.ne_nil : encodeLatin1 text ≠ [] := by
  rw [encodeLatin1]
  exact fun hnil => (boundaryMatch_mem h.java).1 (map_eq_nil_iff.mp hnil)

theorem Admitted.byte {b : UInt8} (hb : b ∈ encodeLatin1 text) : b ≠ 13 ∧ b ≠ 10 ∧ b ≠ 34 := by
  obtain ⟨c, hc, rfl⟩ := mem_map.mp hb
  obtain ⟨hmem, hquote⟩ := (boundaryMatch_mem h.java).2 c hc
  obtain ⟨hlow, hcr, hlf⟩ := h.header c hmem
  have hbyte : ∀ (n : UInt8) (d : Char), n.toNat = d.toNat → c ≠ d → UInt8.ofNat c.toNat ≠ n := by
    intro n d hnd hne heq
    refine hne (Char.toNat_inj.mp ?_)
    rw [← hnd, ← heq, toNat_of_lt hlow]
  rw [if_pos hlow]
  exact ⟨hbyte 13 '\r' rfl hcr, hbyte 10 '\n' rfl hlf, hbyte 34 '"' rfl hquote⟩

theorem Admitted.pieces (fields : List Field) :
    split (delimiter (encodeLatin1 text)) (encode (encodeLatin1 text) fields) =
      [] :: (fields.flatMap fun f => split (delimiter (encodeLatin1 text)) f.segment) ++ [dashes ++ crlf] := by
  rw [pieces_encode (fun hb => (h.byte hb).2.1 rfl),
    split_of_absent (delimiter_ne_nil _) (delimiter_absent_end h.ne_nil fun hb => (h.byte hb).1 rfl)]

/-- The walkers of Java and .NET begin behind the first delimiter. -/
theorem Admitted.behind (fields : List Field) :
    ∃ t, cut (delimiter (encodeLatin1 text)) (encode (encodeLatin1 text) fields) = some ([], t) ∧
      split (delimiter (encodeLatin1 text)) t =
        (fields.flatMap fun f => split (delimiter (encodeLatin1 text)) f.segment) ++ [dashes ++ crlf] := by
  obtain ⟨t, ht⟩ : ∃ t, encode (encodeLatin1 text) fields = delimiter (encodeLatin1 text) ++ t := by
    cases fields with
    | nil => exact ⟨_, rfl⟩
    | cons g fields => exact ⟨_, append_assoc ..⟩
  have hpieces := h.pieces fields
  rw [ht, split_self_append (delimiter_ne_nil _)] at hpieces
  exact ⟨t, ht ▸ cut_self_append (delimiter_ne_nil _) t, (List.cons.inj hpieces).2⟩

theorem python_reads (fields : List Field) :
    iterMultipart (encode (encodeLatin1 text) fields) ct =
      fields.flatMap fun f => (split (delimiter (encodeLatin1 text)) f.segment).flatMap iterPart := by
  have hend : iterPart (dashes ++ crlf) = [] := if_pos (Or.inr (Or.inr rfl))
  rw [iterMultipart, h.python]
  dsimp only
  rw [h.pieces, flatMap_append, flatMap_cons, flatMap_singleton, hend, append_nil,
    flatMap_assoc]
  rfl

theorem java_reads (fields : List Field) :
    walkMultipart (encode (encodeLatin1 text) fields) ct =
      fields.flatMap fun f =>
        (split (delimiter (encodeLatin1 text)) f.segment).flatMap fun part => emitPart part part.length := by
  obtain ⟨t, hcut, hpieces⟩ := h.behind fields
  have hend : emitPart (dashes ++ crlf) (dashes ++ crlf).length = [] := rfl
  rw [walkMultipart, h.java]
  dsimp only
  rw [hcut]
  dsimp only
  rw [walkFrom_eq, hpieces, flatMap_append, flatMap_singleton, hend, append_nil, flatMap_assoc]

variable {f : Field}

theorem python_segment (hvalue : ¬delimiter (encodeLatin1 text) <:+: f.value) :
    (split (delimiter (encodeLatin1 text)) f.segment).flatMap iterPart =
      if ¬delimiter (encodeLatin1 text) <:+: f.quoted ∧ paired false f.quoted = true then
        [(f.name.flatMap escapeChar, .bytes f.value)]
      else [] := by
  have hcr : (13 : UInt8) ∉ encodeLatin1 text := fun hb => (h.byte hb).1 rfl
  have hlf : (10 : UInt8) ∉ encodeLatin1 text := fun hb => (h.byte hb).2.1 rfl
  have hquote : (34 : UInt8) ∉ encodeLatin1 text := fun hb => (h.byte hb).2.2 rfl
  by_cases hname : delimiter (encodeLatin1 text) <:+: f.quoted
  · rw [if_neg fun hboth => hboth.1 hname, flatMap_eq_nil_iff]
    exact fun p hp => iterPart_of_none (namedPart_pieces _ hcr hlf hquote hname hvalue p hp)
  · have hnamed := namedPart_segment anyButNewline f rfl fun c hc => bne_iff_ne.mpr (not_mem_quoted f c hc).2.2
    rw [split_segment hcr hlf hquote hname hvalue, flatMap_singleton]
    by_cases hpaired : paired false f.quoted = true
    · rw [if_pos hpaired] at hnamed
      have hstart : ¬(f.segment = [] ∨ f.segment = dashes ∨ f.segment = dashes ++ crlf) := by
        rintro (heq | heq | heq) <;> exact absurd (congrArg List.head? heq) (by simp [Field.segment, Field.head,
          disposition, dashes])
      rw [if_pos ⟨hname, hpaired⟩, iterPart, if_neg hstart, hnamed]
      dsimp only
      rw [dropCrlf_append, Field.quoted, utf8Decode_encode]
      rfl
    · rw [if_neg hpaired] at hnamed
      rw [if_neg fun hboth => hpaired hboth.2, iterPart_of_none hnamed]

theorem java_segment (hname : ¬delimiter (encodeLatin1 text) <:+: f.quoted)
    (hvalue : ¬delimiter (encodeLatin1 text) <:+: f.value) (hpaired : paired false f.quoted = true)
    (hdot : ∀ c ∈ f.quoted, anyButLineEnd c = true) :
    ((split (delimiter (encodeLatin1 text)) f.segment).flatMap fun part => emitPart part part.length) =
      [(latin1 f.quoted, f.value.rdropWhile isLineEnd)] := by
  have hcr : (13 : UInt8) ∉ encodeLatin1 text := fun hb => (h.byte hb).1 rfl
  have hlf : (10 : UInt8) ∉ encodeLatin1 text := fun hb => (h.byte hb).2.1 rfl
  have hquote : (34 : UInt8) ∉ encodeLatin1 text := fun hb => (h.byte hb).2.2 rfl
  have htrim : (f.value ++ crlf).rdropWhile isLineEnd = f.value.rdropWhile isLineEnd := by
    have hsplit : f.value ++ crlf = f.value ++ [13] ++ [10] := (append_assoc f.value [13] [10]).symm
    rw [hsplit, rdropWhile_concat_pos _ _ _ rfl, rdropWhile_concat_pos _ _ _ rfl]
  rw [split_segment hcr hlf hquote hname hvalue, flatMap_singleton, emitPart_whole,
    namedPart_segment anyButLineEnd f rfl hdot, if_pos hpaired]
  exact congrArg (fun v => [(latin1 f.quoted, v)]) htrim

theorem dotnet_segments {fields : List Field}
    (hall : ∀ f ∈ fields, ¬delimiter (encodeLatin1 text) <:+: f.quoted ∧
      ¬delimiter (encodeLatin1 text) <:+: f.value ∧ paired false f.quoted = true) :
    parseMultipart (encode (encodeLatin1 text) fields) ct =
      fields.map fun f => ⟨latin1 f.quoted, none, f.value⟩ := by
  have hcr : (13 : UInt8) ∉ encodeLatin1 text := fun hb => (h.byte hb).1 rfl
  have hlf : (10 : UInt8) ∉ encodeLatin1 text := fun hb => (h.byte hb).2.1 rfl
  have hquote : (34 : UInt8) ∉ encodeLatin1 text := fun hb => (h.byte hb).2.2 rfl
  have hlow : ∀ c ∈ text, c.toNat < 256 := fun c hc => (h.header c ((boundaryMatch_mem h.java).2 c hc).1).1
  obtain ⟨t, hcut, hpieces⟩ := h.behind fields
  have hsegments : (fields.flatMap fun f => split (delimiter (encodeLatin1 text)) f.segment) =
      fields.map Field.segment := by
    rw [← flatMap_singleton' fields, map_flatMap, flatMap_assoc]
    refine flatMap_congr fun f hf => ?_
    rw [flatMap_singleton]
    exact split_segment hcr hlf hquote (hall f hf).1 (hall f hf).2.1
  have hgoes : ∀ p ∈ fields.map Field.segment, (!dashes.isPrefixOf p) = true := by
    intro p hp
    obtain ⟨f, -, rfl⟩ := mem_map.mp hp
    rfl
  rw [parseMultipart, h.dotnet]
  dsimp only
  rw [if_pos hlow, hcut]
  dsimp only
  rw [parseFrom_eq, hpieces, hsegments, takeWhile_append_of_pos hgoes]
  have hend : [dashes ++ crlf].takeWhile (fun part => !dashes.isPrefixOf part) = [] := rfl
  rw [hend, append_nil, flatMap_map, map_eq_flatMap]
  refine flatMap_congr fun f hf => ?_
  have hnamed := namedPart_segment anyButNewline f rfl fun c hc => bne_iff_ne.mpr (not_mem_quoted f c hc).2.2
  rw [if_pos (hall f hf).2.2] at hnamed
  rw [parsePart, hnamed]
  dsimp only
  rw [dropCrlf_append]
  rfl

end reads

/-! ## Fields read back -/

/-- Lists of one entry at most each, that make up one entry each. -/
theorem each_of_flatMap_eq_map {α β : Type} {g : α → List β} {e : α → β} {l : List α}
    (hone : ∀ x ∈ l, (g x).length ≤ 1) (h : l.flatMap g = l.map e) : ∀ x ∈ l, g x = [e x] := by
  have hle : ∀ l : List α, (∀ x ∈ l, (g x).length ≤ 1) → (l.flatMap g).length ≤ l.length := by
    intro l hone
    induction l with
    | nil => exact Nat.le_refl 0
    | cons x l ih =>
      obtain ⟨hx, hrest⟩ := forall_mem_cons.mp hone
      have := ih hrest
      rw [flatMap_cons, length_append, length_cons]
      omega
  induction l with
  | nil => exact fun x hx => absurd hx not_mem_nil
  | cons x l ih =>
    obtain ⟨hx, hrest⟩ := forall_mem_cons.mp hone
    rw [flatMap_cons, map_cons] at h
    cases hg : g x with
    | nil =>
      have hlength := congrArg List.length h
      have hbound := hle l hrest
      rw [hg, nil_append, length_cons, length_map] at hlength
      omega
    | cons y ys =>
      rw [hg] at hx h
      have hys : ys = [] := length_eq_zero_iff.mp (Nat.le_zero.mp (Nat.le_of_succ_le_succ hx))
      subst hys
      obtain ⟨hy, htail⟩ := List.cons.inj h
      exact forall_mem_cons.mpr ⟨hg.trans (congrArg (fun z => [z]) hy), ih hrest htail⟩

theorem quoted_of_plain {f : Field} (h : ∀ c ∈ f.name, c ≠ '"' ∧ c ≠ '\r' ∧ c ≠ '\n') :
    f.quoted = utf8Encode f.name :=
  congrArg utf8Encode (escape_eq_iff.mpr h)

theorem dot_of_ascii {f : Field} (hplain : ∀ c ∈ f.name, c ≠ '"' ∧ c ≠ '\r' ∧ c ≠ '\n')
    (hascii : ∀ c ∈ f.name, c.toNat < 0x80) : ∀ b ∈ f.quoted, anyButLineEnd b = true := by
  intro b hb
  obtain ⟨-, hcr, hlf⟩ := not_mem_quoted f b hb
  have hnext : b ≠ 0x85 := by
    rintro rfl
    have hlatin := latin1_utf8Encode_iff.mpr hascii
    rw [quoted_of_plain hplain] at hb
    have hmem : Char.ofNat 0x85 ∈ latin1 (utf8Encode f.name) := mem_map_of_mem hb
    rw [hlatin] at hmem
    exact absurd (hascii _ hmem) (by decide)
  rw [anyButLineEnd, Bool.and_eq_true, Bool.and_eq_true, bne_iff_ne, bne_iff_ne, bne_iff_ne]
  exact ⟨⟨hlf, hcr⟩, hnext⟩

theorem rdropWhile_lineEnd_iff {v : Bytes} :
    v.rdropWhile isLineEnd = v ↔ ∀ b, v.getLast? = some b → isLineEnd b = false := by
  rw [rdropWhile_eq_self_iff]
  constructor
  · intro h b hb
    obtain ⟨hne, hlast⟩ := mem_getLast?_eq_getLast hb
    exact Bool.eq_false_iff.mpr (hlast ▸ h hne)
  · intro h hne
    exact Bool.eq_false_iff.mp (h _ (List.getLast?_eq_some_getLast hne))

/-- The three walkers read the fields of a body back exactly where each of them is kept. -/
theorem read_back_iff {ct text : Text} (h : Admitted ct text) (fields : List Field) :
    ReadBack ct (encode (encodeLatin1 text) fields) fields ↔ ∀ f ∈ fields, Kept (encodeLatin1 text) f := by
  constructor
  · rintro ⟨hpython, hjava, hdotnet⟩
    rw [python_reads h] at hpython
    -- a value that is read lies in a piece
    have hvalue : ∀ f ∈ fields, ¬delimiter (encodeLatin1 text) <:+: f.value := by
      intro f hf
      have hentry := mem_map_of_mem (f := fun f : Field => (f.name, Value.bytes f.value)) hf
      rw [← hpython] at hentry
      obtain ⟨g, -, hentry⟩ := mem_flatMap.mp hentry
      obtain ⟨p, hp, hentry⟩ := mem_flatMap.mp hentry
      exact fun hin => (split_pieces (delimiter_ne_nil _) _ p hp).1 (hin.trans (iterPart_value hentry))
    have hpython := each_of_flatMap_eq_map (fun f hf => by
      rw [python_segment h (hvalue f hf)]
      split <;> simp) hpython
    have hsegment : ∀ f ∈ fields, ¬delimiter (encodeLatin1 text) <:+: f.quoted ∧ paired false f.quoted = true ∧
        ∀ c ∈ f.name, c ≠ '"' ∧ c ≠ '\r' ∧ c ≠ '\n' := by
      intro f hf
      have hread := hpython f hf
      rw [python_segment h (hvalue f hf)] at hread
      split_ifs at hread with hboth
      exact ⟨hboth.1, hboth.2, escape_eq_iff.mp (Prod.mk.inj (List.cons.inj hread).1).1⟩
    rw [dotnet_segments h fun f hf => ⟨(hsegment f hf).1, hvalue f hf, (hsegment f hf).2.1⟩] at hdotnet
    have hascii : ∀ f ∈ fields, ∀ c ∈ f.name, c.toNat < 0x80 := by
      intro f hf
      have hname := (MultipartField.mk.inj (map_inj_left.mp hdotnet f hf)).1
      rw [quoted_of_plain (hsegment f hf).2.2] at hname
      exact latin1_utf8Encode_iff.mp hname
    rw [java_reads h] at hjava
    have hends : ∀ f ∈ fields, f.value.rdropWhile isLineEnd = f.value := by
      rw [map_eq_flatMap, flatMap_congr fun f hf => java_segment h (hsegment f hf).1 (hvalue f hf)
        (hsegment f hf).2.1 (dot_of_ascii (hsegment f hf).2.2 (hascii f hf)), ← map_eq_flatMap,
        ← map_eq_flatMap] at hjava
      exact fun f hf => (Prod.mk.inj (map_inj_left.mp hjava f hf)).2
    intro f hf
    obtain ⟨hname, hpaired, hplain⟩ := hsegment f hf
    exact ⟨hascii f hf, hplain, hpaired, hname, hvalue f hf, rdropWhile_lineEnd_iff.mp (hends f hf)⟩
  · intro hkept
    have hname : ∀ f ∈ fields, latin1 f.quoted = f.name := fun f hf => by
      rw [quoted_of_plain (hkept f hf).plain]
      exact latin1_utf8Encode_iff.mpr (hkept f hf).ascii
    refine ⟨?_, ?_, ?_⟩
    · rw [python_reads h, map_eq_flatMap]
      refine flatMap_congr fun f hf => ?_
      rw [python_segment h (hkept f hf).value_apart, if_pos ⟨(hkept f hf).name_apart, (hkept f hf).paired⟩,
        escape_eq_iff.mpr (hkept f hf).plain]
    · rw [java_reads h, map_eq_flatMap]
      refine flatMap_congr fun f hf => ?_
      rw [java_segment h (hkept f hf).name_apart (hkept f hf).value_apart (hkept f hf).paired
        (dot_of_ascii (hkept f hf).plain (hkept f hf).ascii), hname f hf,
        rdropWhile_lineEnd_iff.mpr (hkept f hf).line_end]
    · rw [dotnet_segments h fun f hf => ⟨(hkept f hf).name_apart, (hkept f hf).value_apart, (hkept f hf).paired⟩]
      refine map_congr_left fun f hf => ?_
      rw [hname f hf]

theorem admitted_bb : Admitted "multipart/form-data; boundary=BB".toList "BB".toList :=
  ⟨by decide, by decide, by decide, forall_of_all (by decide)⟩

theorem read_back_two :
    ReadBack "multipart/form-data; boundary=BB".toList
      (encode (encodeLatin1 "BB".toList) [⟨['a'], [13, 10, 45, 45]⟩, ⟨['b'], []⟩])
      [⟨['a'], [13, 10, 45, 45]⟩, ⟨['b'], []⟩] := by
  refine (read_back_iff admitted_bb _).mpr (forall_mem_cons.mpr ⟨?_, forall_mem_singleton.mpr ?_⟩)
  · refine ⟨forall_of_all (by decide), forall_of_all (by decide), by decide, cut_eq_none_iff.mp (by decide),
      cut_eq_none_iff.mp (by decide), fun b hb => ?_⟩
    obtain rfl := Option.some.inj (hb : some 45 = some b)
    rfl
  · exact ⟨forall_of_all (by decide), forall_of_all (by decide), by decide, cut_eq_none_iff.mp (by decide),
      cut_eq_none_iff.mp (by decide), fun b hb => absurd hb.symm (Option.some_ne_none b)⟩

/-- A value with a line break at its end: Java reads it without. -/
theorem line_break_lost :
    ∃ (ct text : Text) (fields : List Field), Admitted ct text ∧
      (∀ f ∈ fields, ¬crlf ++ delimiter (encodeLatin1 text) <:+: f.value) ∧
      ¬ReadBack ct (encode (encodeLatin1 text) fields) fields := by
  refine ⟨_, _, [⟨['a'], [97, 13, 10]⟩], admitted_bb,
    forall_mem_singleton.mpr (cut_eq_none_iff.mp (by decide)), fun h => ?_⟩
  have hjava := h.java
  rw [java_reads admitted_bb, flatMap_singleton, java_segment admitted_bb (cut_eq_none_iff.mp (by decide))
    (cut_eq_none_iff.mp (by decide)) (by decide) (forall_of_all (by decide))] at hjava
  exact absurd (Prod.mk.inj (List.cons.inj hjava).1).2 (by decide)

end PtaasBench.Sdk.Multipart
