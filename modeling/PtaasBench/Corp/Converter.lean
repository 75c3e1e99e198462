import Mathlib.Data.List.DropRight
import PtaasBench.Lib.Fields
import PtaasBench.Lib.Splitting
import PtaasBench.Py.JsonText

/-!
# PtaasBench.Corp.Converter — a render job, the daemon that reads it and the audit of its reply (`Converter`)

The profile of a job is written into its header block as it is, so that one with a line break adds fields of its own.
The daemon answers with the names of the fields it took, and the client's audit signals a name that it never writes.

Both ends read into a buffer of 8192 characters and stop at a blank line.  What the reads deliver at a time is left
open: any pieces that make up the text.  It does not matter, since both read on until the buffer decides.
-/

namespace PtaasBench.Corp.Converter

open Lib Py List

abbrev Text := List Char

/-! ## Text -/

/-- `Encoding.ASCII.GetBytes`, of one character: a question mark for each unit of another. -/
def asciiOf (c : Char) : Text :=
  if c.toNat < 128 then [c] else if c.toNat < 0x10000 then ['?'] else ['?', '?']

def getBytes (t : Text) : Text := t.flatMap asciiOf

/-- `char.IsWhiteSpace`, in ASCII. -/
def isWhiteSpace (c : Char) : Bool := (9 ≤ c.toNat && c.toNat ≤ 13) || c.toNat == 32

def trim (t : Text) : Text := (t.dropWhile isWhiteSpace).rdropWhile isWhiteSpace

/-- `StringComparison.OrdinalIgnoreCase`, in ASCII. -/
def sameName (a b : Text) : Bool := a.map Char.toUpper == b.map Char.toUpper

def crlf : Text := ['\r', '\n']

def blankLine : Text := crlf ++ crlf

/-- What stands before the first colon of a line and what behind it, where something stands before it. -/
def colonLine (line : Text) : Option (Text × Text) :=
  match cut [':'] line with
  | some (field, value) => if field = [] then none else some (trim field, trim value)
  | none => none

/-! ## The wire -/

/-- The pieces in which a text arrives. -/
structure Delivery (t : Text) where
  chunks : List Text
  nonempty : ∀ chunk ∈ chunks, chunk ≠ []
  whole : chunks.flatten = t

/-- The buffer when the reads of `ReadHeadAsync` and of `ReadAllAsync` end: it is full, or holds a blank line, or
nothing more comes. -/
def readAll (got : Text) : List Text → Text
  | [] => got
  | chunk :: chunks =>
    if 8192 ≤ got.length ∨ chunk = [] then got
    -- a piece that does not fit is cut here, and the rest is never read
    else
      let got := (got ++ chunk).take 8192
      if (cut blankLine got).isSome then got else readAll got chunks

/-- What is before the first blank line, or all. -/
def headOf (t : Text) : Text :=
  match cut blankLine t with
  | some (head, _) => head
  | none => t

def readHead (chunks : List Text) : Text := headOf (readAll [] chunks)

/-! ## The daemon -/

structure Parsed where
  accepted : List Text := []
  profile : Text := []
  document : Text := []

def Parsed.line (p : Parsed) (line : Text) : Parsed :=
  match colonLine line with
  | none => p
  | some (field, value) =>
    if field = [] then p
    else if sameName field "X-Render-Profile".toList then
      { p with accepted := p.accepted ++ [field], profile := value }
    else if sameName field "X-Render-Document".toList then
      { p with accepted := p.accepted ++ [field], document := value }
    else { p with accepted := p.accepted ++ [field] }

def parseHead (head : Text) : Parsed := ((split crlf head).drop 1).foldl Parsed.line {}

def sanitise (t : Text) : Text := t.filter fun c => 0x20 ≤ c.toNat && c.toNat < 0x7F

/-- The first eight digits of a new `Guid`. -/
structure Job where
  text : Text
  length_eq : text.length = 8
  digits : ∀ c ∈ text, c ∈ "0123456789abcdef".toList

def replyLines (job : Job) (p : Parsed) : List Text :=
  ["SPOOL/1.0 200 OK".toList,
    "X-Spool-Job: ".toList ++ job.text,
    "X-Spool-Document: ".toList ++ sanitise p.document,
    "X-Spool-Profile: ".toList ++ sanitise p.profile,
    "X-Spool-Accepted: ".toList ++ joined ',' (p.accepted.map sanitise),
    "X-Spool-Pages: ".toList ++ intText (p.accepted.length % 4 + 1 : ℕ)]

def writeLines (lines : List Text) : Text := lines.flatMap (· ++ crlf) ++ crlf

/-- `ServeAsync`: nothing is answered to an empty head. -/
def serve (job : Job) (head : Text) : Text :=
  if head = [] then [] else getBytes (writeLines (replyLines job (parseHead head)))

/-! ## The client -/

def emittedFields : List Text :=
  ["X-Render-Profile".toList, "X-Render-User".toList, "X-Render-Document".toList]

def request (documentId : ℤ) (profile : Text) (employeeId : ℤ) : Text :=
  "RENDER /doc/".toList ++ intText documentId ++ " SPOOL/1.0".toList ++ crlf ++
    "X-Render-Profile: ".toList ++ profile ++ crlf ++
    "X-Render-User: ".toList ++ intText employeeId ++ crlf ++
    "X-Render-Document: ".toList ++ intText documentId ++ crlf ++ crlf

/-- A dictionary that compares its keys ignoring case. -/
abbrev Fields := List (Text × Text)

def Fields.put (key value : Text) : Fields → Fields
  | [] => [(key, value)]
  | (k, v) :: rest => if sameName k key then (k, value) :: rest else (k, v) :: put key value rest

def Fields.tryGetValue (fields : Fields) (key : Text) : Option Text :=
  (fields.find? fun f => sameName f.1 key).map Prod.snd

structure RenderReply where
  completed : Bool := false
  status : Text := []
  fields : Fields := []

def Fields.line (fields : Fields) (line : Text) : Fields :=
  match colonLine line with
  | some (key, value) => fields.put key value
  | none => fields

def parse (t : Text) : RenderReply :=
  if t = [] then {}
  else
    let lines := split crlf t
    { completed := true, status := lines.headD [], fields := (lines.drop 1).foldl Fields.line [] }

structure Signal where
  payload : Text
  detail : Text

def isKnown (name : Text) : Bool := emittedFields.any (sameName name)

/-- The names of an accepted list that the client does not write. -/
def unexpected (accepted : Text) : List Text :=
  (((accepted.splitOn ',').filter (· ≠ [])).map trim).filter fun name => name ≠ [] ∧ ¬isKnown name

/-- `Audit`: `RenderFieldInjected` is signalled. -/
def audit (profile : Text) (reply : RenderReply) : Option Signal :=
  if !reply.completed then none
  else
    match reply.fields.tryGetValue "X-Spool-Accepted".toList with
    | none => none
    | some accepted =>
      if unexpected accepted = [] then none
      else some {
        payload := profile
        detail := "the converter parsed ".toList ++ [',', ' '].intercalate (unexpected accepted) ++
          ", which this client never writes; the job's header block gained structure from a value".toList }

section

variable (wire : (t : Text) → Delivery t) (job : Job) (documentId : ℤ) (profile : Text) (employeeId : ℤ)

/-- What the daemon reads of the client's job. -/
def received : Text := readHead (wire (getBytes (request documentId profile employeeId))).chunks

/-- `RenderAsync`, where the connection holds. -/
def renderAsync : RenderReply × Option Signal :=
  let reply := parse (readAll [] (wire (serve job (received wire documentId profile employeeId))).chunks)
  (reply, audit profile reply)

end

/-! ## Text that arrives in pieces -/

theorem take_take_append (x y : Text) (n : ℕ) : (x.take n ++ y).take n = (x ++ y).take n := by
  rw [take_append, take_append, take_take, length_take, min_self]
  congr 2
  omega

/-- The buffer holds the front of the text: all of it that fits, but where a blank line ended the reading. -/
theorem readAll_append {chunks : List Text} (hchunks : ∀ chunk ∈ chunks, chunk ≠ []) {got : Text}
    (hgot : got.length ≤ 8192) :
    ∃ more, (got ++ chunks.flatten).take 8192 = readAll got chunks ++ more ∧
      (more = [] ∨ (cut blankLine (readAll got chunks)).isSome = true) := by
  induction chunks generalizing got with
  | nil =>
    refine ⟨[], ?_, Or.inl rfl⟩
    rw [flatten_nil, append_nil, append_nil, take_of_length_le hgot]
    rfl
  | cons chunk chunks ih =>
    obtain ⟨hchunk, hrest⟩ := forall_mem_cons.mp hchunks
    unfold readAll
    dsimp only
    split_ifs with hend hfound
    · refine ⟨[], ?_, Or.inl rfl⟩
      have hfull := hend.resolve_right hchunk
      rw [take_append, take_of_length_le hgot, Nat.sub_eq_zero_of_le hfull, take_zero]
    · rw [flatten_cons, ← append_assoc, ← take_take_append, take_append, take_take, min_self]
      exact ⟨_, rfl, Or.inr hfound⟩
    · rw [flatten_cons, ← append_assoc, ← take_take_append]
      exact ih hrest (by rw [length_take]; exact min_le_left _ _)

theorem headOf_readAll {t : Text} (d : Delivery t) : readHead d.chunks = headOf (t.take 8192) := by
  obtain ⟨more, htake, hmore⟩ := @readAll_append _ d.nonempty [] (Nat.zero_le _)
  rw [nil_append, d.whole] at htake
  rw [readHead, htake]
  rcases hmore with rfl | hsome
  · rw [append_nil]
  · obtain ⟨⟨head, rest⟩, hcut⟩ := Option.isSome_iff_exists.mp hsome
    rw [headOf, headOf, cut_append_right hcut, hcut]

/-- A text that ends with its first blank line arrives whole, as far as it fits. -/
theorem readAll_of_cut {t a : Text} (d : Delivery t) (h : cut blankLine t = some (a, [])) :
    readAll [] d.chunks = t.take 8192 := by
  obtain ⟨more, htake, hmore⟩ := @readAll_append _ d.nonempty [] (Nat.zero_le _)
  rw [nil_append, d.whole] at htake
  rcases hmore with rfl | hsome
  · rw [htake, append_nil]
  · obtain ⟨⟨head, rest⟩, hcut⟩ := Option.isSome_iff_exists.mp hsome
    have hwhole := cut_append_right (cut_append_right hcut more) (t.drop 8192)
    rw [← htake, take_append_drop, h] at hwhole
    have hnil := (Prod.mk.inj (Option.some.inj hwhole)).2.symm
    rw [htake, (append_eq_nil_iff.mp (append_eq_nil_iff.mp hnil).1).2, append_nil]

theorem headOf_ne_nil {c : Char} (hc : c ≠ '\r') (t : Text) : headOf (c :: t) ≠ [] := by
  have hcut := cut_over (w := ['\n', '\r', '\n']) (a := [c]) (by simpa using hc.symm) t
  rw [singleton_append] at hcut
  rw [headOf, blankLine, crlf, cons_append, cons_append, nil_append, hcut]
  cases cut ['\r', '\n', '\r', '\n'] t with
  | none => exact cons_ne_nil c t
  | some p => exact cons_ne_nil c _

theorem writeLines_cons (line : Text) (lines : List Text) :
    writeLines (line :: lines) = line ++ (crlf ++ writeLines lines) := by
  rw [writeLines, flatMap_cons, append_assoc, append_assoc]
  rfl

/-- Lines that hold something are followed by the one blank line. -/
theorem cut_crlf_writeLines {lines : List Text} (h : ∀ line ∈ lines, line ≠ [] ∧ '\r' ∉ line) :
    ∃ a, cut blankLine (crlf ++ writeLines lines) = some (a, []) := by
  induction lines with
  | nil => exact ⟨[], by decide⟩
  | cons line lines ih =>
    obtain ⟨⟨hne, hline⟩, hrest⟩ := forall_mem_cons.mp h
    obtain ⟨a, ha⟩ := ih hrest
    obtain ⟨x, line, rfl⟩ := exists_cons_of_ne_nil hne
    have hover := @cut_line _ _ ['\n', '\r', '\n'] '\r' ('\n' :: x :: line) (by simpa using hline)
      (crlf ++ writeLines lines) (by
        intro hp
        obtain ⟨-, hp⟩ := cons_prefix_cons.mp hp
        exact hline ((cons_prefix_cons.mp hp).1 ▸ mem_cons_self))
    rw [show ('\r' :: ['\n', '\r', '\n'] : Text) = blankLine from rfl, ha] at hover
    refine ⟨'\r' :: '\n' :: x :: line ++ a, ?_⟩
    rw [writeLines_cons]
    exact hover

theorem cut_writeLines {lines : List Text} (hne : lines ≠ []) (h : ∀ line ∈ lines, line ≠ [] ∧ '\r' ∉ line) :
    ∃ a, cut blankLine (writeLines lines) = some (a, []) := by
  obtain ⟨line, lines, rfl⟩ := exists_cons_of_ne_nil hne
  obtain ⟨⟨-, hline⟩, hrest⟩ := forall_mem_cons.mp h
  obtain ⟨a, ha⟩ := cut_crlf_writeLines hrest
  have hover := cut_over (w := ['\n', '\r', '\n']) hline (crlf ++ writeLines lines)
  rw [show ('\r' :: ['\n', '\r', '\n'] : Text) = blankLine from rfl, ha] at hover
  exact ⟨line ++ a, by rw [writeLines_cons]; exact hover⟩

/-! ## A text of lines, read by its fields -/

theorem sameName_iff {a b : Text} : sameName a b = true ↔ a.map Char.toUpper = b.map Char.toUpper := beq_iff_eq

theorem tryGetValue_put (fields : Fields) (key value other : Text) :
    (fields.put key value).tryGetValue other = if sameName key other then some value else fields.tryGetValue other := by
  induction fields with
  | nil =>
    rw [Fields.put, Fields.tryGetValue, List.find?_singleton]
    split_ifs <;> rfl
  | cons f fields ih =>
    obtain ⟨k, v⟩ := f
    rw [Fields.put]
    by_cases hk : sameName k key = true
    · have hother : sameName k other = sameName key other := by
        rw [sameName, sameName, sameName_iff.mp hk]
      rw [if_pos hk, Fields.tryGetValue, Fields.tryGetValue, List.find?_cons, List.find?_cons]
      dsimp only
      rw [hother]
      cases sameName key other <;> rfl
    · rw [if_neg hk, Fields.tryGetValue, List.find?_cons]
      dsimp only
      cases hother : sameName k other with
      | true =>
        have hne : ¬sameName key other = true := fun h =>
          hk (sameName_iff.mpr ((sameName_iff.mp hother).trans (sameName_iff.mp h).symm))
        rw [if_neg hne, Fields.tryGetValue, List.find?_cons]
        dsimp only
        rw [hother]
      | false =>
        rw [Fields.tryGetValue, List.find?_cons]
        dsimp only
        rw [hother]
        exact ih

/-- What one line says under a key. -/
def saysOf (key line : Text) : Option Text :=
  (colonLine line).bind fun f => if sameName f.1 key then some f.2 else none

/-- What lines say under a key, where the last counts. -/
def said (key : Text) : List Text → Option Text
  | [] => none
  | line :: lines => (said key lines).or (saysOf key line)

theorem tryGetValue_foldl (key : Text) (lines : List Text) (fields : Fields) :
    (lines.foldl Fields.line fields).tryGetValue key = (said key lines).or (fields.tryGetValue key) := by
  induction lines generalizing fields with
  | nil => rfl
  | cons line lines ih =>
    rw [foldl_cons, ih, said, Option.or_assoc, Fields.line, saysOf]
    cases colonLine line with
    | none => rfl
    | some f =>
      obtain ⟨k, v⟩ := f
      dsimp only [Option.bind_some]
      rw [tryGetValue_put]
      split_ifs <;> rfl

theorem colonLine_take {name : Text} (hname : ':' ∉ name) (hne : name ≠ []) (t : Text) (n : ℕ) :
    colonLine ((name ++ ':' :: t).take n) =
      if n ≤ name.length then none else some (trim name, trim (t.take (n - name.length - 1))) := by
  rw [take_append]
  split_ifs with hn
  · have hnot : ¬[':'] <:+: name.take n := fun h =>
      hname (mem_of_mem_take (h.subset (mem_singleton_self ':')))
    rw [Nat.sub_eq_zero_of_le hn, take_zero, append_nil, colonLine, cut_eq_none_iff.mpr hnot]
  · obtain ⟨m, hm⟩ : ∃ m, n - name.length = m + 1 := ⟨n - name.length - 1, by omega⟩
    have hcut := cut_behind (w := []) hname (t.take m)
    rw [take_of_length_le (by omega), hm, take_succ_cons, colonLine]
    rw [show name ++ ':' :: t.take m = name ++ ([':'] ++ t.take m) from rfl, hcut]
    dsimp only
    rw [if_neg hne]
    rfl

section

variable {key name t : Text} (hname : ':' ∉ name) (hne : name ≠ []) (hline : '\r' ∉ name ++ ':' :: t) (rest : Text)
  (n : ℕ)

include hline in
theorem split_take_crlf : split crlf ((name ++ ':' :: t ++ (crlf ++ rest)).take n) =
    if n < (name ++ ':' :: t).length + 2 then [(name ++ ':' :: t ++ crlf).take n]
    else (name ++ ':' :: t) :: split crlf (rest.take (n - ((name ++ ':' :: t).length + 2))) :=
  split_take_line hline rest n

theorem said_take_zero (key rest : Text) : said key (split crlf (rest.take 0)) = none := rfl

include hname hne hline in
/-- A line under another key says nothing, whole or cut short. -/
theorem said_take_other (hkey : sameName (trim name) key = false) :
    said key (split crlf ((name ++ ':' :: t ++ (crlf ++ rest)).take n)) =
      said key (split crlf (rest.take (n - ((name ++ ':' :: t).length + 2)))) := by
  have hsays : ∀ more m, saysOf key ((name ++ ':' :: more).take m) = none := by
    intro more m
    rw [saysOf, colonLine_take hname hne]
    split_ifs with hm
    · rfl
    · rw [Option.bind_some, if_neg (Bool.eq_false_iff.mp hkey)]
  rw [split_take_crlf hline]
  split_ifs with hn
  · rw [Nat.sub_eq_zero_of_le hn.le, said_take_zero, said, append_assoc, cons_append, hsays]
    rfl
  · rw [said]
    have hwhole := hsays t (name ++ ':' :: t).length
    rw [take_length] at hwhole
    rw [hwhole, Option.or_none]

end

/-! ## Blanks around a text -/

def Blank (t : Text) : Prop := ∀ c ∈ t, isWhiteSpace c = true

instance (t : Text) : Decidable (Blank t) := List.decidableBAll (fun c : Char => isWhiteSpace c = true) t

theorem comma_notMem {t : Text} (h : Blank t) : ',' ∉ t := fun hc => absurd (h ',' hc) (by decide)

theorem trim_blank_append {front : Text} (h : Blank front) (t : Text) : trim (front ++ t) = trim t := by
  rw [trim, trim, dropWhile_append_of_pos h]

theorem trim_append_blank {behind : Text} (h : Blank behind) (t : Text) : trim (t ++ behind) = trim t := by
  induction behind using List.reverseRecOn with
  | nil => rw [append_nil]
  | append_singleton behind c ih =>
    have hc := h c (mem_append_right _ (mem_singleton_self c))
    have hone : ∀ x, trim (x ++ [c]) = trim x := by
      intro x
      rw [trim, trim, dropWhile_append]
      split_ifs with hnil
      · rw [List.isEmpty_iff.mp hnil, dropWhile_cons_of_pos hc]
        rfl
      · exact rdropWhile_concat_pos _ _ _ hc
    rw [← append_assoc, hone, ih fun d hd => h d (mem_append_left _ hd)]

theorem trim_between (t : Text) : ∃ front behind, Blank front ∧ Blank behind ∧ t = front ++ (trim t ++ behind) := by
  refine ⟨t.takeWhile isWhiteSpace, (t.dropWhile isWhiteSpace).rtakeWhile isWhiteSpace,
    fun c hc => mem_takeWhile_imp hc, fun c hc => mem_rtakeWhile_imp hc, ?_⟩
  rw [trim, rdropWhile_append_rtakeWhile, takeWhile_append_dropWhile]

theorem trim_splitOn_blank_append {front : Text} (h : Blank front) (t : Text) :
    ((front ++ t).splitOn ',').map trim = (t.splitOn ',').map trim := by
  induction front with
  | nil => rfl
  | cons c front ih =>
    obtain ⟨hc, hfront⟩ := forall_mem_cons.mp h
    have hcomma : ¬(c == ',') = true := fun heq => by
      rw [beq_iff_eq.mp heq] at hc
      exact absurd hc (by decide)
    rw [cons_append, splitOn_cons_eq_if_modifyHead, if_neg hcomma, ← ih hfront]
    cases (front ++ t).splitOn ',' with
    | nil => rfl
    | cons piece pieces =>
      exact congrArg (· :: pieces.map trim) (trim_blank_append (forall_mem_singleton.mpr hc) piece)

theorem trim_splitOn_append_blank {behind : Text} (h : Blank behind) (t : Text) :
    ((t ++ behind).splitOn ',').map trim = (t.splitOn ',').map trim := by
  obtain ⟨front, last, hsplit, hmore⟩ := splitOn_append_of_notMem (comma_notMem h) t
  rw [hsplit, hmore, map_append, map_append, map_singleton, map_singleton,
    trim_append_blank h]

/-- Trimming a list of names changes no name of it. -/
theorem trim_splitOn_trim (t : Text) : ((trim t).splitOn ',').map trim = (t.splitOn ',').map trim := by
  obtain ⟨front, behind, hfront, hbehind, heq⟩ := trim_between t
  calc ((trim t).splitOn ',').map trim
      = ((trim t ++ behind).splitOn ',').map trim := (trim_splitOn_append_blank hbehind _).symm
    _ = ((front ++ (trim t ++ behind)).splitOn ',').map trim := (trim_splitOn_blank_append hfront _).symm
    _ = (t.splitOn ',').map trim := by rw [← heq]

/-! ## The audit of a list of names -/

/-- A name in which the audit sees nothing but emitted fields. -/
def Disguised (name : Text) : Prop := ∀ piece ∈ name.splitOn ',', trim piece = [] ∨ isKnown (trim piece) = true

instance (name : Text) : Decidable (Disguised name) :=
  List.decidableBAll (fun piece : Text => trim piece = [] ∨ isKnown (trim piece) = true) (name.splitOn ',')

theorem unexpected_ne_nil_iff {t : Text} :
    unexpected t ≠ [] ↔ ∃ name ∈ (t.splitOn ',').map trim, name ≠ [] ∧ isKnown name = false := by
  constructor
  · intro hne
    obtain ⟨name, hname⟩ := exists_mem_of_ne_nil _ hne
    obtain ⟨hmem, hbad⟩ := mem_filter.mp hname
    obtain ⟨piece, hpiece, rfl⟩ := mem_map.mp hmem
    obtain ⟨hne, hknown⟩ := of_decide_eq_true hbad
    exact ⟨trim piece, mem_map_of_mem (mem_filter.mp hpiece).1, hne, Bool.eq_false_iff.mpr hknown⟩
  · rintro ⟨name, hname, hne, hknown⟩
    obtain ⟨piece, hpiece, rfl⟩ := mem_map.mp hname
    have hpiece' : piece ≠ [] := by
      rintro rfl
      exact hne rfl
    exact ne_nil_of_mem (mem_filter.mpr ⟨mem_map_of_mem
      (mem_filter.mpr ⟨hpiece, decide_eq_true hpiece'⟩), decide_eq_true ⟨hne, Bool.eq_false_iff.mp hknown⟩⟩)

/-- Of names joined and cut short, each is judged by what is left of it. -/
theorem unexpected_joined_iff (names : List Text) (n : ℕ) :
    unexpected (trim ((joined ',' names).take n)) ≠ [] ↔ ∃ name ∈ fieldsWithin n names, ¬Disguised name := by
  rw [unexpected_ne_nil_iff, trim_splitOn_trim]
  by_cases hne : names = []
  · rw [hne]
    constructor
    · rintro ⟨name, hname, hbad, -⟩
      have hnil : name ∈ [trim []] := by simpa [joined] using hname
      exact absurd (mem_singleton.mp hnil) hbad
    · rintro ⟨name, hname, -⟩
      cases hname
  · rw [splitOn_take_joined hne]
    constructor
    · rintro ⟨_, hname, hbad, hknown⟩
      obtain ⟨piece, hpiece, rfl⟩ := mem_map.mp hname
      obtain ⟨name, hmem, hin⟩ := mem_flatMap.mp hpiece
      refine ⟨name, hmem, fun h => ?_⟩
      rcases h piece hin with hnil | hk
      · exact hbad hnil
      · exact Bool.noConfusion (hknown.symm.trans hk)
    · rintro ⟨name, hmem, hnot⟩
      simp only [Disguised, not_forall, not_or] at hnot
      obtain ⟨piece, hin, hbad, hknown⟩ := hnot
      exact ⟨trim piece, mem_map_of_mem (mem_flatMap.mpr ⟨name, hmem, hin⟩), hbad,
        Bool.eq_false_iff.mpr hknown⟩

/-! ## What the reply says -/

theorem trim_take (v : Text) (n : ℕ) : trim ((' ' :: v ++ crlf).take n) = trim (v.take (n - 1)) := by
  cases n with
  | zero => rfl
  | succ n =>
    have hblank : Blank (crlf.take (n - v.length)) := fun c hc =>
      (show Blank crlf by decide) c (mem_of_mem_take hc)
    rw [cons_append, take_succ_cons, Nat.add_sub_cancel, take_append,
      ← singleton_append, trim_blank_append (show Blank [' '] by decide), trim_append_blank hblank]

/-- A line under the key says what is behind the colon, as far as it goes. -/
theorem said_take_key (key : Text) {v rest : Text} (hkey : ':' ∉ key) (hne : key ≠ []) (htrim : trim key = key)
    (hline : '\r' ∉ key ++ ':' :: ' ' :: v) (hrest : ∀ m, said key (split crlf (rest.take m)) = none) (n : ℕ) :
    said key (split crlf ((key ++ ':' :: ' ' :: v ++ (crlf ++ rest)).take n)) =
      if n ≤ key.length then none else some (trim (v.take (n - key.length - 2))) := by
  have hsays : ∀ more m, saysOf key ((key ++ ':' :: more).take m) =
      if m ≤ key.length then none else some (trim (more.take (m - key.length - 1))) := by
    intro more m
    rw [saysOf, colonLine_take hkey hne, htrim]
    split_ifs
    · rfl
    · rw [Option.bind_some, if_pos (sameName_iff.mpr rfl)]
  have hlength : (key ++ ':' :: ' ' :: v).length = key.length + (v.length + 2) := by
    rw [length_append, length_cons, length_cons]
  rw [split_take_crlf hline, hlength]
  by_cases hn : n < key.length + (v.length + 2) + 2
  · rw [if_pos hn, said, append_assoc, cons_append, hsays, trim_take, Nat.sub_sub _ 1 1]
    rfl
  · have hwhole := hsays (' ' :: v) (key ++ ':' :: ' ' :: v).length
    rw [take_length, hlength, if_neg (by omega)] at hwhole
    rw [if_neg hn, said, hrest, hwhole, if_neg (by omega), take_of_length_le (by rw [length_cons]; omega),
      take_of_length_le (by omega), ← singleton_append,
      trim_blank_append (show Blank [' '] by decide)]
    rfl

theorem printable_sanitise (t : Text) : Printable (sanitise t) := by
  intro c hc
  have h := (mem_filter.mp hc).2
  simp only [Bool.and_eq_true, decide_eq_true_eq] at h
  omega

theorem printable_joined {names : List Text} (h : ∀ name ∈ names, Printable name) : Printable (joined ',' names) := by
  induction names with
  | nil => exact printable_nil
  | cons name names ih =>
    obtain ⟨hname, hnames⟩ := forall_mem_cons.mp h
    rcases names with _ | ⟨next, names⟩
    · rwa [joined_singleton]
    · rw [joined_cons_cons]
      exact printable_append hname (printable_cons (by decide) (ih hnames))

theorem cr_notMem {t : Text} (h : Printable t) : '\r' ∉ t := fun hc => absurd (h '\r' hc) (by decide)

theorem printable_replyLines (job : Job) (p : Parsed) :
    ∀ line ∈ replyLines job p, line ≠ [] ∧ Printable line := by
  have hjob : Printable job.text := fun c hc =>
    (show Printable "0123456789abcdef".toList by decide) c (job.digits c hc)
  have hnames : Printable (joined ',' (p.accepted.map sanitise)) := by
    refine printable_joined fun name hname => ?_
    obtain ⟨field, -, rfl⟩ := mem_map.mp hname
    exact printable_sanitise field
  have happend : ∀ {front t : Text}, front ≠ [] → Printable front → Printable t →
      front ++ t ≠ [] ∧ Printable (front ++ t) := fun hne hfront ht =>
    ⟨append_ne_nil_of_left_ne_nil hne _, printable_append hfront ht⟩
  intro line hline
  simp only [replyLines, mem_cons, not_mem_nil, or_false] at hline
  rcases hline with rfl | rfl | rfl | rfl | rfl | rfl
  · exact ⟨by decide, by decide⟩
  · exact happend (by decide) (by decide) hjob
  · exact happend (by decide) (by decide) (printable_sanitise _)
  · exact happend (by decide) (by decide) (printable_sanitise _)
  · exact happend (by decide) (by decide) hnames
  · exact happend (by decide) (by decide) (printable_intText _)

theorem getBytes_of_ascii {t : Text} (h : ∀ c ∈ t, c.toNat < 128) : getBytes t = t := by
  induction t with
  | nil => rfl
  | cons c t ih =>
    obtain ⟨hc, ht⟩ := forall_mem_cons.mp h
    rw [getBytes, flatMap_cons, asciiOf, if_pos hc]
    exact congrArg (c :: ·) (ih ht)

theorem getBytes_writeLines {lines : List Text} (h : ∀ line ∈ lines, Printable line) :
    getBytes (writeLines lines) = writeLines lines := by
  refine getBytes_of_ascii fun c hc => ?_
  have hcrlf : ∀ c ∈ crlf, c.toNat < 128 := by simp [crlf]
  rcases mem_append.mp hc with hc | hc
  · obtain ⟨line, hline, hc⟩ := mem_flatMap.mp hc
    rcases mem_append.mp hc with hc | hc
    · exact Nat.lt_of_le_of_lt (h line hline c hc).2 (by decide)
    · exact hcrlf c hc
  · exact hcrlf c hc

/-! ## Where the audit and the daemon agree -/

section

variable (documentId : ℤ) (profile : Text) (employeeId : ℤ)

/-- The head of the job as it was written. -/
def jobHead : Text := headOf ((getBytes (request documentId profile employeeId)).take 8192)

/-- The names of the fields in it. -/
def fieldNames : List Text := (parseHead (jobHead documentId profile employeeId)).accepted

/-- What the client's buffer leaves to the list of names. -/
def room : ℕ :=
  let p := parseHead (jobHead documentId profile employeeId)
  8192 - (98 + (sanitise p.document).length + (sanitise p.profile).length)

/-- Fields were injected, dropped or moved, and every name that is echoed reads like names of the client's. -/
def Unnoticed : Prop :=
  fieldNames documentId profile employeeId ≠ emittedFields ∧
    ∀ name ∈ fieldsWithin (room documentId profile employeeId)
      ((fieldNames documentId profile employeeId).map sanitise), Disguised name

/-- The three fields arrived, and a long value leaves room for less than their names, and cuts one of them. -/
def FalseAlarm : Prop :=
  fieldNames documentId profile employeeId = emittedFields ∧
    room documentId profile employeeId < 48 ∧ room documentId profile employeeId ∉ [0, 16, 17, 30, 31]

end

/-- `said_take_other`, of a line as the daemon writes it. -/
theorem said_take_label (name : Text) {key label t : Text} (hlabel : label = name ++ [':', ' ']) (hname : ':' ∉ name)
    (hne : name ≠ []) (hkey : sameName (trim name) key = false) (ht : '\r' ∉ label ++ t) (rest : Text) (n : ℕ) :
    said key (split crlf ((label ++ t ++ (crlf ++ rest)).take n)) =
      said key (split crlf (rest.take (n - (label.length + t.length + 2)))) := by
  have heq : label ++ t = name ++ ':' :: ' ' :: t := by rw [hlabel, append_assoc]; rfl
  rw [heq] at ht
  rw [← length_append, heq]
  exact said_take_other hname hne ht rest n hkey

section

variable (job : Job) (p : Parsed)

/-- The names on the wire, where so much of the reply behind its first line arrives. -/
theorem said_reply (n : ℕ) :
    said "X-Spool-Accepted".toList (split crlf ((writeLines (replyLines job p).tail).take n)) =
      if n - (62 + (sanitise p.document).length + (sanitise p.profile).length) ≤ 16 then none
      else some (trim ((joined ',' (p.accepted.map sanitise)).take
        (n - (62 + (sanitise p.document).length + (sanitise p.profile).length) - 18))) := by
  have hcr : ∀ line ∈ replyLines job p, '\r' ∉ line := fun line hline =>
    cr_notMem (printable_replyLines job p line hline).2
  simp only [replyLines, forall_mem_cons] at hcr
  obtain ⟨-, hjob, hdocument, hprofile, haccepted, hpages, -⟩ := hcr
  have hrest : ∀ m, said "X-Spool-Accepted".toList (split crlf
      ((writeLines ["X-Spool-Pages: ".toList ++ intText (p.accepted.length % 4 + 1 : ℕ)]).take m)) = none := by
    intro m
    rw [writeLines_cons, said_take_label "X-Spool-Pages".toList (by decide) (by decide) (by decide) (by decide)
      hpages]
    generalize m - _ = k
    rcases k with _ | _ | k
    · rfl
    · rfl
    · rw [take_of_length_le (show (writeLines []).length ≤ k + 2 from Nat.le_add_left 2 k)]
      rfl
  have hnames := said_take_key "X-Spool-Accepted".toList (by decide) (by decide) (by decide) haccepted hrest
    (n - (62 + (sanitise p.document).length + (sanitise p.profile).length))
  rw [replyLines, tail_cons, writeLines_cons, writeLines_cons, writeLines_cons, writeLines_cons,
    said_take_label "X-Spool-Job".toList (by decide) (by decide) (by decide) (by decide) hjob,
    said_take_label "X-Spool-Document".toList (by decide) (by decide) (by decide) (by decide) hdocument,
    said_take_label "X-Spool-Profile".toList (by decide) (by decide) (by decide) (by decide) hprofile,
    job.length_eq, show "X-Spool-Job: ".toList.length = 13 from rfl,
    show "X-Spool-Document: ".toList.length = 18 from rfl, show "X-Spool-Profile: ".toList.length = 17 from rfl]
  have hleft : n - (13 + 8 + 2) - (18 + (sanitise p.document).length + 2) - (17 + (sanitise p.profile).length + 2) =
      n - (62 + (sanitise p.document).length + (sanitise p.profile).length) := by omega
  rw [hleft]
  exact hnames

/-- The list of names as the client finds it in the reply. -/
theorem tryGetValue_reply {head : Text} (hhead : head ≠ []) (d : Delivery (serve job head)) :
    (parse (readAll [] d.chunks)).completed = true ∧
      (parse (readAll [] d.chunks)).fields.tryGetValue "X-Spool-Accepted".toList =
        said "X-Spool-Accepted".toList
          (split crlf ((writeLines (replyLines job (parseHead head)).tail).take 8174)) := by
  have hlines := printable_replyLines job (parseHead head)
  have hserve : serve job head = writeLines (replyLines job (parseHead head)) := by
    rw [serve, if_neg hhead, getBytes_writeLines fun line hline => (hlines line hline).2]
  obtain ⟨a, ha⟩ := cut_writeLines (show replyLines job (parseHead head) ≠ [] from cons_ne_nil _ _)
    fun line hline => ⟨(hlines line hline).1, cr_notMem (hlines line hline).2⟩
  rw [← hserve] at ha
  have hstatus : '\r' ∉ "SPOOL/1.0 200 OK".toList := by decide
  have hsplit : split crlf ((writeLines (replyLines job (parseHead head))).take 8192) =
      "SPOOL/1.0 200 OK".toList :: split crlf ((writeLines (replyLines job (parseHead head)).tail).take 8174) := by
    have hline := split_take_line (w := ['\n']) hstatus (writeLines (replyLines job (parseHead head)).tail) 8192
    rw [if_neg (by decide)] at hline
    exact hline
  have hne : (writeLines (replyLines job (parseHead head))).take 8192 ≠ [] := by
    rw [replyLines, writeLines_cons]
    exact cons_ne_nil _ _
  rw [readAll_of_cut d ha, hserve, parse, if_neg hne, hsplit]
  refine ⟨rfl, ?_⟩
  dsimp only
  rw [tryGetValue_foldl, drop_one, tail_cons]
  exact Option.or_none

end

theorem audit_isSome_iff (profile : Text) {reply : RenderReply} (h : reply.completed = true) :
    (audit profile reply).isSome = true ↔
      ∃ accepted, reply.fields.tryGetValue "X-Spool-Accepted".toList = some accepted ∧ unexpected accepted ≠ [] := by
  rw [audit, h, if_neg (by decide)]
  cases reply.fields.tryGetValue "X-Spool-Accepted".toList with
  | none => exact ⟨nofun, fun ⟨_, hnone, _⟩ => nomatch hnone⟩
  | some accepted =>
    dsimp only
    by_cases hnil : unexpected accepted = []
    · rw [if_pos hnil]
      exact ⟨nofun, fun ⟨_, heq, hne⟩ => absurd (Option.some.inj heq ▸ hnil) hne⟩
    · rw [if_neg hnil]
      exact ⟨fun _ => ⟨accepted, rfl, hnil⟩, fun _ => rfl⟩

section

variable (wire : (t : Text) → Delivery t) (job : Job) (documentId : ℤ) (profile : Text) (employeeId : ℤ)

theorem received_eq : received wire documentId profile employeeId = jobHead documentId profile employeeId :=
  headOf_readAll _

theorem jobHead_ne_nil : jobHead documentId profile employeeId ≠ [] :=
  headOf_ne_nil (c := 'R') (by decide) _

/-- The counter is raised for a name, of those that are echoed, that does not read like the client's. -/
theorem raised_iff : (renderAsync wire job documentId profile employeeId).2.isSome = true ↔
    ∃ name ∈ fieldsWithin (room documentId profile employeeId)
      ((fieldNames documentId profile employeeId).map sanitise), ¬Disguised name := by
  rw [← unexpected_joined_iff]
  have hne : received wire documentId profile employeeId ≠ [] := by
    rw [received_eq]
    exact jobHead_ne_nil documentId profile employeeId
  obtain ⟨hcompleted, hvalue⟩ := tryGetValue_reply job hne (wire _)
  rw [renderAsync, audit_isSome_iff profile hcompleted, hvalue, said_reply, received_eq]
  have hroom : 8174 - (62 + (sanitise (parseHead (jobHead documentId profile employeeId)).document).length +
      (sanitise (parseHead (jobHead documentId profile employeeId)).profile).length) - 18 =
      room documentId profile employeeId := by
    rw [room]
    omega
  rw [hroom]
  split_ifs with hsmall
  · rw [← hroom, Nat.sub_eq_zero_of_le (by omega), take_zero]
    exact ⟨fun ⟨_, hnone, _⟩ => hnone.elim, fun h => absurd rfl h⟩
  · exact ⟨fun ⟨_, heq, h⟩ => Option.some.inj heq ▸ h, fun h => ⟨_, rfl, h⟩⟩

end

/-- Where the client's own three names are cut. -/
theorem emittedFields_cut_iff (n : ℕ) :
    (∃ name ∈ fieldsWithin n emittedFields, ¬Disguised name) ↔ n < 48 ∧ n ∉ [0, 16, 17, 30, 31] := by
  by_cases hn : n < 48
  · revert n
    decide
  · rw [fieldsWithin_of_le (show (joined ',' emittedFields).length ≤ n from Nat.le_of_not_lt hn)]
    exact ⟨fun ⟨name, hname, hnot⟩ => absurd ((by decide : ∀ name ∈ emittedFields, Disguised name) name hname) hnot,
      fun h => absurd h.1 hn⟩

/-- The counter and the daemon agree on what arrived, but for the two kinds of jobs above. -/
theorem audit_agrees_iff (wire : (t : Text) → Delivery t) (job : Job) (documentId : ℤ) (profile : Text)
    (employeeId : ℤ) :
    (((renderAsync wire job documentId profile employeeId).2.isSome = true ↔
        (parseHead (received wire documentId profile employeeId)).accepted ≠ emittedFields) ↔
      ¬Unnoticed documentId profile employeeId ∧ ¬FalseAlarm documentId profile employeeId) := by
  have hsanitised : emittedFields.map sanitise = emittedFields := by decide
  rw [raised_iff, received_eq, Unnoticed, FalseAlarm, ← fieldNames, ← emittedFields_cut_iff]
  by_cases hnames : fieldNames documentId profile employeeId = emittedFields
  · rw [hnames, hsanitised]
    exact ⟨fun h => ⟨fun hmissed => hmissed.1 rfl, fun hfalse => h.mp hfalse.2 rfl⟩,
      fun h => ⟨fun hraised => absurd ⟨rfl, hraised⟩ h.2, fun hne => absurd rfl hne⟩⟩
  · constructor
    · intro h
      refine ⟨fun hmissed => ?_, fun hfalse => hnames hfalse.1⟩
      obtain ⟨name, hname, hnot⟩ := h.mpr hnames
      exact hnot (hmissed.2 name hname)
    · rintro ⟨hmissed, -⟩
      refine ⟨fun _ => hnames, fun _ => Classical.byContradiction fun hnone => hmissed ⟨hnames, fun name hname => ?_⟩⟩
      exact Classical.byContradiction fun hnot => hnone ⟨name, hname, hnot⟩

/-- A text that arrives one character at a time. -/
def Delivery.single (t : Text) : Delivery t where
  chunks := t.map ([·])
  nonempty chunk hchunk := by
    obtain ⟨c, -, rfl⟩ := mem_map.mp hchunk
    exact cons_ne_nil c []
  whole := by
    induction t with
    | nil => rfl
    | cons c t ih => rw [map_cons, flatten_cons, ih]; rfl

def zeroJob : Job := ⟨List.replicate 8 '0', rfl, fun c hc => by rw [eq_of_mem_replicate hc]; decide⟩

/-- A profile that writes one field named like two. -/
def twoNames : Text := "a\r\nX-Render-User,X-Render-Document: 5".toList

theorem two_names_unnoticed :
    ¬((renderAsync Delivery.single zeroJob 1 twoNames 2).2.isSome = true ↔
      (parseHead (received Delivery.single 1 twoNames 2)).accepted ≠ emittedFields) := by
  have hnames : fieldNames 1 twoNames 2 = ["X-Render-Profile".toList, "X-Render-User,X-Render-Document".toList,
      "X-Render-User".toList, "X-Render-Document".toList] := by decide +kernel
  have hroom : room 1 twoNames 2 = 8092 := by decide +kernel
  have hdisguised : ∀ name ∈ fieldsWithin 8092 ((fieldNames 1 twoNames 2).map sanitise), Disguised name := by
    rw [hnames]
    decide +kernel
  rw [raised_iff, received_eq, ← fieldNames, hroom]
  intro h
  obtain ⟨name, hname, hnot⟩ := h.mpr (by rw [hnames]; decide)
  exact hnot (hdisguised name hname)

end PtaasBench.Corp.Converter
