import PtaasBench.Lib.Bytes
import PtaasBench.Py.Text

/-!
# PtaasBench.EdgeResolver.DnsWire — the DNS wire format (`dnswire.py`)

A label is one to 63 bytes: the parser makes no other, and the encoder refuses a longer one.
-/

namespace PtaasBench.EdgeResolver.DnsWire

open Py Lib

def typeA : ℕ := 1
def typeNs : ℕ := 2
def typeSoa : ℕ := 6
def typeMx : ℕ := 15
def typeTxt : ℕ := 16
def typeAny : ℕ := 255

def classIn : ℕ := 1
def classAny : ℕ := 255

def rcodeNoerror : ℕ := 0
def rcodeFormerr : ℕ := 1
def rcodeServfail : ℕ := 2
def rcodeNxdomain : ℕ := 3

def maxUdp : ℕ := 512

/-- `DnsFormatError`, and the errors of `struct.pack` and `str.encode`, as their texts. -/
abbrev Fallible := Except String

/-- A label of a name. -/
abbrev Label := { bs : Bytes // 1 ≤ bs.length ∧ bs.length ≤ 63 }

structure Question where
  labels : List Label
  qtype : ℕ
  qclass : ℕ

structure Query where
  txid : ℕ
  flags : ℕ
  question : Option Question
  qdcount : ℕ := 0
  raw : Bytes := []
  trailing : Bytes := []

def Query.opcode (q : Query) : ℕ := (q.flags >>> 11) &&& 0x0F

def Query.recursionDesired (q : Query) : Bool := q.flags &&& 0x0100 ≠ 0

/-- `bytes.decode("latin-1")` -/
def latin1 (bs : Bytes) : String := String.ofList (bs.map fun b => Char.ofNat b.toNat)

/-- Dotted, lowercased rendering. -/
def dotted [Runtime] (labels : List Label) : String :=
  lower (".".intercalate (labels.map fun l => latin1 l.1))

def Question.name [Runtime] (q : Question) : String := dotted q.labels

/-! ## Names -/

/-- `f"{n:02x}"` of a byte. -/
def hex2 (n : ℕ) : String := String.ofList [Nat.digitChar (n / 16), Nat.digitChar (n % 16)]

theorem label_length {byte : UInt8} (h0 : byte.toNat ≠ 0) (hbits : byte.toNat &&& 0xC0 = 0) :
    1 ≤ byte.toNat ∧ byte.toNat ≤ 63 := by
  have hall : ∀ n < 256, n &&& 0xC0 = 0 → n ≤ 63 := by decide +kernel
  exact ⟨Nat.one_le_iff_ne_zero.mpr h0, hall _ byte.toNat_lt hbits⟩

/-- The loop of `parse_name`, up to a compression pointer, which `pointed` follows.  Every turn goes
forward, so a turn for each byte and one past them are enough. -/
def parseLabels (data : Bytes) (pointed : ℕ → Fallible (List Label × ℕ)) :
    ℕ → ℕ → Fallible (List Label × ℕ)
  | 0, _ => .error "name runs past end of message"
  | turns + 1, pos =>
    match data[pos]? with
    | none => .error "name runs past end of message"
    | some byte =>
      if h0 : byte.toNat = 0 then .ok ([], pos + 1)
      else if byte.toNat &&& 0xC0 = 0xC0 then
        match data[pos + 1]? with
        | none => .error "truncated compression pointer"
        | some low =>
          (pointed (((byte.toNat &&& 0x3F) <<< 8) ||| low.toNat)).map fun sub => (sub.1, pos + 2)
      else if hbits : byte.toNat &&& 0xC0 = 0 then
        let stop := pos + 1 + byte.toNat
        if hstop : stop ≤ data.length then
          let label : Label := ⟨slice data (pos + 1) stop, by
            rw [length_slice hstop, Nat.add_sub_cancel_left]
            exact label_length h0 hbits⟩
          (parseLabels data pointed turns stop).map fun rest => (label :: rest.1, rest.2)
        else .error "label runs past end of message"
      else .error ("reserved label type 0x" ++ hex2 byte.toNat)

/-- `parse_name`, with the depth that is left. -/
def parseNameAt (data : Bytes) : ℕ → ℕ → Fallible (List Label × ℕ)
  | 0, _ => .error "compression pointer loop"
  | depth + 1, offset => parseLabels data (parseNameAt data depth) (data.length + 1) offset

/-- `parse_name`: eleven names may be nested. -/
def parseName (data : Bytes) (offset : ℕ) : Fallible (List Label × ℕ) := parseNameAt data 11 offset

/-- What `encode_name` makes of labels. -/
def encodeLabels (labels : List Label) : Bytes :=
  (labels.flatMap fun l => UInt8.ofNat l.1.length :: l.1) ++ [0]

/-- The parts of a name between its dots. -/
def nameParts (name : String) : List String :=
  (splitChar '.' (stripBy (· == '.') name)).filter (· ≠ "")

/-- `part.encode("latin-1")` -/
def encodeLatin1 (part : String) : Fallible Bytes :=
  if part.toList.all (·.toNat < 256) then .ok (part.toList.map fun c => UInt8.ofNat c.toNat)
  else .error "'latin-1' codec can't encode character: ordinal not in range(256)"

/-- The length check of `encode_name`; no part of a name is empty. -/
def checkLabel (bs : Bytes) : Fallible Label :=
  if h : 1 ≤ bs.length ∧ bs.length ≤ 63 then .ok ⟨bs, h⟩ else .error "label longer than 63 bytes"

def labelsOf (name : String) : Fallible (List Label) := do
  let encoded ← (nameParts name).mapM encodeLatin1
  encoded.mapM checkLabel

/-- `encode_name` of a name in text. -/
def encodeName (name : String) : Fallible Bytes := (labelsOf name).map encodeLabels

/-! ## Numbers -/

/-- One number of `struct.pack`. -/
def pack (width n : ℕ) : Fallible Bytes :=
  if n < 256 ^ width then .ok (beBytes width n) else .error "argument out of range"

/-- `struct.pack("!6H", …)` and its likes: numbers with their widths. -/
def packAll (fields : List (ℕ × ℕ)) : Fallible Bytes :=
  (fields.mapM fun f => pack f.1 f.2).map List.flatten

/-- The number on two bytes at an offset. -/
def word (data : Bytes) (offset : ℕ) : ℕ := beNat (slice data offset (offset + 2))

/-! ## Queries -/

def parseQuery (data : Bytes) : Fallible Query :=
  if data.length < 12 then .error "message shorter than a DNS header"
  else if word data 4 = 0 then
    .ok { txid := word data 0, flags := word data 2, question := none, qdcount := 0, raw := data }
  else
    match parseName data 12 with
    | .error e => .error e
    | .ok (labels, pos) =>
      if data.length < pos + 4 then .error "truncated question"
      else
        .ok
          { txid := word data 0
            flags := word data 2
            question := some { labels := labels, qtype := word data pos, qclass := word data (pos + 2) }
            qdcount := word data 4
            raw := data
            trailing := data.drop (pos + 4) }

def buildQuery (name : String) (qtype txid : ℕ) : Fallible Bytes := do
  let header ← packAll [(2, txid), (2, 0x0100), (2, 1), (2, 0), (2, 0), (2, 0)]
  let encoded ← encodeName name
  let tail ← packAll [(2, qtype), (2, classIn)]
  return header ++ encoded ++ tail

/-! ## Responses -/

/-- `_record` -/
def record (nameField : Bytes) (rrtype ttl : ℕ) (rdata : Bytes) : Fallible Bytes := do
  let fixed ← packAll [(2, rrtype), (2, classIn), (4, ttl), (2, rdata.length)]
  return nameField ++ fixed ++ rdata

/-- `QNAME_POINTER`: offset 12, where the question name is written. -/
def qnamePointer : Bytes := [0xC0, 0x0C]

/-- The keyword arguments of `build_response`. -/
structure ResponseArgs where
  answers : List (ℕ × Bytes) := []
  authority : List (String × ℕ × Bytes) := []
  rcode : ℕ := rcodeNoerror
  authoritative : Bool := true
  recursionAvailable : Bool := true
  ttl : ℕ := 30

/-- The flags of a response. -/
def responseFlags (query : Query) (args : ResponseArgs) : ℕ :=
  0x8000 ||| (query.opcode &&& 0x0F) <<< 11 ||| (if args.authoritative then 0x0400 else 0) |||
    (if query.recursionDesired then 0x0100 else 0) ||| (if args.recursionAvailable then 0x0080 else 0) |||
    args.rcode &&& 0x0F

/-- The question of a response, as bytes. -/
def questionBytes : Option Question → Fallible Bytes
  | none => .ok []
  | some question => do
    let tail ← packAll [(2, question.qtype), (2, question.qclass)]
    return encodeLabels question.labels ++ tail

def buildResponse (query : Query) (args : ResponseArgs) : Fallible Bytes := do
  let flags := responseFlags query args
  let question ← questionBytes query.question
  let qdcount := if query.question.isSome then 1 else 0
  let body ← args.answers.mapM fun a => record qnamePointer a.1 args.ttl a.2
  let ns ← args.authority.mapM fun a => do
    let owner ← encodeName a.1
    record owner a.2.1 args.ttl a.2.2
  let header ← packAll [(2, query.txid), (2, flags), (2, qdcount), (2, args.answers.length),
    (2, args.authority.length), (2, 0)]
  let message := header ++ question ++ body.flatten ++ ns.flatten
  if maxUdp < message.length then
    -- header and question only, and the client is told to retry over TCP
    let header ← packAll [(2, query.txid), (2, flags ||| 0x0200), (2, qdcount), (2, 0), (2, 0), (2, 0)]
    return header ++ question
  else return message

structure Record where
  name : String
  rrtype : ℕ
  rrclass : ℕ
  ttl : ℕ
  rdata : Bytes
deriving DecidableEq

structure Response where
  txid : ℕ
  flags : ℕ
  rcode : ℕ
  question : Option Question
  answers : List Record := []

/-- The questions of a message; the first is kept. -/
def parseQuestions (data : Bytes) : ℕ → ℕ → Fallible (Option Question × ℕ)
  | 0, pos => .ok (none, pos)
  | count + 1, pos =>
    match parseName data pos with
    | .error e => .error e
    | .ok (labels, pos) =>
      if data.length < pos + 4 then .error "truncated question"
      else
        (parseQuestions data count (pos + 4)).map fun rest =>
          (some { labels := labels, qtype := word data pos, qclass := word data (pos + 2) }, rest.2)

def parseRecords [Runtime] (data : Bytes) : ℕ → ℕ → Fallible (List Record)
  | 0, _ => .ok []
  | count + 1, pos =>
    match parseName data pos with
    | .error e => .error e
    | .ok (labels, pos) =>
      if data.length < pos + 10 then .error "truncated record header"
      else
        let rdlength := word data (pos + 8)
        if data.length < pos + 10 + rdlength then .error "truncated record data"
        else
          (parseRecords data count (pos + 10 + rdlength)).map fun rest =>
            { name := dotted labels
              rrtype := word data pos
              rrclass := word data (pos + 2)
              ttl := beNat (slice data (pos + 4) (pos + 8))
              rdata := slice data (pos + 10) (pos + 10 + rdlength) } :: rest

def parseResponse [Runtime] (data : Bytes) : Fallible Response :=
  if data.length < 12 then .error "message shorter than a DNS header"
  else
    match parseQuestions data (word data 4) 12 with
    | .error e => .error e
    | .ok (question, pos) =>
      (parseRecords data (word data 6) pos).map fun answers =>
        { txid := word data 0
          flags := word data 2
          rcode := word data 2 &&& 0x0F
          question := question
          answers := answers }

def buildFormatError (data : Bytes) : Fallible Bytes :=
  let txid := if 2 ≤ data.length then word data 0 else 0
  packAll [(2, txid), (2, 0x8000 ||| rcodeFormerr), (2, 0), (2, 0), (2, 0), (2, 0)]

end PtaasBench.EdgeResolver.DnsWire
