import PtaasBench.Py.Text
import PtaasBench.Py.Utf8

/-!
# PtaasBench.EdgeResolver.Smtp — mail transactions (`listeners/smtp.py`)

A connection is the list of what its reads return: a line with its end, an empty one at the end of the stream, a line
that is late or over the limit of the reader, or an exception.  A write that raises is an exception at the next read.
-/

namespace PtaasBench.EdgeResolver.Smtp

open Py
open Lib (Bytes)

/-! ## The listener -/

def maxLine : ℕ := 4096

def maxMessage : ℕ := 262144

/-- What `reader.readline()` gives; at the end of the list the stream is at its end. -/
inductive Read where
  | line (raw : Bytes)
  | failed
  | raised

/-- `raw.decode("utf-8", "replace").rstrip("\r\n")` -/
def lineText (raw : Bytes) : String :=
  String.ofList ((utf8Decode raw).rdropWhile fun c => c = '\r' || c = '\n')

/-- `_read_line`, and the reads that are left; an error is an exception. -/
def readLine : List Read → Except Unit (Option String) × List Read
  | [] => (.ok none, [])
  | .line raw :: rest => (.ok (if raw = [] then none else some (lineText (raw.take maxLine))), rest)
  | .failed :: rest => (.ok none, rest)
  | .raised :: rest => (.error (), rest)

/-- `_read_message`: the headers and the number of bytes. -/
def readMessage (headers : List String) (inHeaders : Bool) (size : ℕ) :
    List Read → Except Unit (List String × ℕ) × List Read
  | [] => (.ok (headers, size), [])
  | .failed :: rest => (.ok (headers, size), rest)
  | .raised :: rest => (.error (), rest)
  | .line raw :: rest =>
    if raw = [] then (.ok (headers, size), rest)
    else
      let size := size + raw.length
      let line := lineText raw
      if line = "." then (.ok (headers, size), rest)
      else
        let kept := if inHeaders && line ≠ "" && headers.length < 64 then
            headers ++ [String.ofList (line.toList.take 512)] else headers
        -- what comes after is drained, not kept
        readMessage kept (inHeaders && line ≠ "" && size ≤ maxMessage) size rest

section

variable [Runtime]

/-- `text.strip() or None` -/
def stripped (text : List Char) : Option String :=
  let text := strip (String.ofList text)
  if text = "" then none else some text

/-- `_extract_address` -/
def extractAddress (argument start : String) : Option String :=
  let text := strip argument
  let text := if startsWith (upper text) start then strip (String.ofList (text.toList.drop start.length)) else text
  match text.toList with
  | '<' :: inside => if '>' ∈ inside then stripped (inside.takeWhile (· ≠ '>')) else stripped inside
  | chars => stripped (chars.takeWhile (· ≠ ' '))

/-- Who sends a mail, and who gets it. -/
structure Envelope where
  mailFrom : Option String
  rcpts : List String
deriving DecidableEq

def Envelope.empty : Envelope := ⟨none, []⟩

/-- `mail_from or rcpts` -/
def Envelope.pending (e : Envelope) : Bool := given e.mailFrom || e.rcpts ≠ []

structure Session where
  helo : Option String
  envelope : Envelope

/-- A recorded transaction: the arguments of `_record`. -/
structure Transaction where
  envelope : Envelope
  helo : Option String
  headers : List String
  size : ℕ
  aborted : Bool
deriving DecidableEq

inductive Out where
  | reply (line : String)
  | record (transaction : Transaction)
deriving DecidableEq

/-- The verb of a command line, and its argument. -/
def verb (line : String) : String := upper (strip (beforeChar ' ' line))

def argument (line : String) : String := strip (afterChar ' ' line)

/-- The name of the host, and the identifier of a message accepted. -/
structure Texts where
  hostname : String
  queueId : String

variable (texts : Texts)

/-- A command other than `DATA` and `QUIT`. -/
def dispatch (s : Session) (line : String) : Session × List Out :=
  let verb := verb line
  let argument := argument line
  if verb = "EHLO" then
    ({ s with helo := some argument },
      [.reply ("250-" ++ texts.hostname), .reply "250-PIPELINING", .reply "250-SIZE 262144", .reply "250 8BITMIME"])
  else if verb = "HELO" then ({ s with helo := some argument }, [.reply ("250 " ++ texts.hostname)])
  else if verb = "MAIL" then
    ({ s with envelope.mailFrom := extractAddress argument "FROM:" }, [.reply "250 2.1.0 Ok"])
  else if verb = "RCPT" then
    ({ s with envelope.rcpts := s.envelope.rcpts ++ (extractAddress argument "TO:").toList }, [.reply "250 2.1.5 Ok"])
  else if verb = "RSET" then ({ s with envelope := .empty }, [.reply "250 2.0.0 Ok"])
  else if verb = "NOOP" then (s, [.reply "250 2.0.0 Ok"])
  else if verb = "VRFY" then (s, [.reply "252 2.0.0 Cannot VRFY user"])
  else if verb = "STARTTLS" ∨ verb = "AUTH" then (s, [.reply "502 5.5.1 Error: command not implemented"])
  else (s, [.reply "250 2.0.0 Ok"])

/-- `_record` of the envelope of a session. -/
def recorded (s : Session) (headers : List String) (size : ℕ) (aborted : Bool) : Out :=
  .record ⟨s.envelope, s.helo, headers, size, aborted⟩

/-- The `finally` of a connection. -/
def finish (s : Session) : List Out := if s.envelope.pending then [recorded s [] 0 true] else []

def startData : Out := .reply "354 End data with <CR><LF>.<CR><LF>"

def queued : Out := .reply ("250 2.0.0 Ok: queued as " ++ texts.queueId)

/-- The loop of a connection; every turn takes a read, so a turn for each of them and one more are enough. -/
def loop : ℕ → Session → List Read → List Out
  | 0, _, _ => []
  | turns + 1, s, reads =>
    match readLine reads with
    | (.error _, _) => finish s
    | (.ok none, _) => finish s
    | (.ok (some line), rest) =>
      if verb line = "DATA" then
        startData ::
          match readMessage [] true 0 rest with
          | (.error _, _) => finish s
          | (.ok (headers, size), rest) =>
            recorded s headers size false :: queued texts :: loop turns { s with envelope := .empty } rest
      else if verb line = "QUIT" then .reply "221 2.0.0 Bye" :: finish s
      else (dispatch texts s line).2 ++ loop turns (dispatch texts s line).1 rest

/-- A connection. -/
def session (reads : List Read) : List Out :=
  .reply ("220 " ++ texts.hostname ++ " ESMTP Postfix") :: loop texts (reads.length + 1) ⟨none, .empty⟩ reads

/-! ## Dialogues

What a client sends, command by command and message by message. -/

/-- The line a read is taken as by the session. -/
def commandText (raw : Bytes) : String := lineText (raw.take maxLine)

/-- A command line other than `DATA` and `QUIT`. -/
structure Command where
  raw : Bytes
  isRead : raw ≠ []
  plain : verb (commandText raw) ≠ "DATA" ∧ verb (commandText raw) ≠ "QUIT"

/-- The lines of a body, none of which is a dot with nothing but line ends behind it. -/
structure Body where
  lines : List Bytes
  isRead : ∀ raw ∈ lines, raw ≠ []
  noDot : ∀ raw ∈ lines, lineText raw ≠ "."

/-- `DATA`, a body, and the dot that ends it. -/
structure Message where
  start : Bytes
  isRead : start ≠ []
  isData : verb (commandText start) = "DATA"
  body : Body
  dot : Bytes
  isDot : lineText dot = "."

inductive Item where
  | command (c : Command)
  | message (m : Message)

/-- How a connection ends: the stream, a read that fails or an exception between two commands, `QUIT`, or the stream
or an exception in a body. -/
inductive Ending where
  | closed
  | failed (rest : List Read)
  | raised (rest : List Read)
  | quit (raw : Bytes) (isRead : raw ≠ []) (isQuit : verb (commandText raw) = "QUIT") (rest : List Read)
  | cut (start : Bytes) (isRead : start ≠ []) (isData : verb (commandText start) = "DATA") (body : Body)
  | broken (start : Bytes) (isRead : start ≠ []) (isData : verb (commandText start) = "DATA") (body : Body)
      (rest : List Read)

def Item.reads : Item → List Read
  | .command c => [.line c.raw]
  | .message m => .line m.start :: (m.body.lines.map .line ++ [.line m.dot])

def Ending.reads : Ending → List Read
  | .closed => []
  | .failed rest => .failed :: rest
  | .raised rest => .raised :: rest
  | .quit raw _ _ rest => .line raw :: rest
  | .cut start _ _ body => .line start :: body.lines.map .line
  | .broken start _ _ body rest => .line start :: (body.lines.map .line ++ .raised :: rest)

/-- The headers and the size of the lines of a body, with the dot when there is one. -/
def Body.content (body : Body) (dot : List Read) : List String × ℕ :=
  match (readMessage [] true 0 (body.lines.map .line ++ dot)).1 with
  | .ok content => content
  | .error _ => ([], 0)

/-- What an item does to a session, where a body is a whole. -/
def Item.run (s : Session) : Item → Session × List Out
  | .command c => dispatch texts s (commandText c.raw)
  | .message m =>
    let content := m.body.content [.line m.dot]
    ({ s with envelope := .empty }, [startData, recorded s content.1 content.2 false, queued texts])

def Ending.run (s : Session) : Ending → List Out
  | .quit _ _ _ _ => .reply "221 2.0.0 Bye" :: finish s
  | .cut _ _ _ body =>
    let content := body.content []
    [startData, recorded s content.1 content.2 false, queued texts]
  | .broken _ _ _ _ _ => startData :: finish s
  | _ => finish s

/-- A dialogue, item by item. -/
def runItems (s : Session) (ending : Ending) : List Item → List Out
  | [] => ending.run texts s
  | item :: items => (item.run texts s).2 ++ runItems (item.run texts s).1 ending items

/-! ## Envelopes -/

/-- The recipient an item adds. -/
def Item.recipient : Item → Option String
  | .command c =>
    if verb (commandText c.raw) = "RCPT" then extractAddress (argument (commandText c.raw)) "TO:" else none
  | .message _ => none

/-- The sender an item names, if it is a `MAIL`. -/
def Item.sender : Item → Option (Option String)
  | .command c =>
    if verb (commandText c.raw) = "MAIL" then some (extractAddress (argument (commandText c.raw)) "FROM:") else none
  | .message _ => none

/-- A message, or `RSET`. -/
def Item.closes : Item → Bool
  | .command c => verb (commandText c.raw) = "RSET"
  | .message _ => true

/-- The envelope of the items since the last message or `RSET`: the last sender, and every recipient. -/
def envelopeOf (items : List Item) : Envelope where
  mailFrom := ((items.filterMap Item.sender).getLast?).getD none
  rcpts := items.filterMap Item.recipient

/-- The items cut behind every message and `RSET`; the last piece has no end of its own. -/
def pieces : List Item → List (List Item × Option Item)
  | [] => [([], none)]
  | item :: items =>
    if item.closes then ([], some item) :: pieces items
    else
      match pieces items with
      | [] => []
      | (inside, closing) :: rest => (item :: inside, closing) :: rest

/-- The transactions an envelope is recorded as, with whether they are aborted, by what ends its piece. -/
def transactionOf (ending : Ending) (e : Envelope) : Option Item → List (Envelope × Bool)
  | some (.message _) => [(e, false)]
  | some (.command _) => []
  | none =>
    match ending with
    | .cut _ _ _ _ => [(e, false)]
    | _ => if e.pending then [(e, true)] else []

def Out.transaction : Out → Option Transaction
  | .reply _ => none
  | .record transaction => some transaction

/-- The recorded transactions. -/
def transactions (outs : List Out) : List (Envelope × Bool) :=
  (outs.filterMap Out.transaction).map fun t => (t.envelope, t.aborted)

/-! ## A body is read as a whole -/

variable {texts}

omit [Runtime] in
theorem readMessage_lines (body : Body) (headers : List String) (inHeaders : Bool) (size : ℕ) :
    ∃ headers' inHeaders' size', ∀ tail, readMessage headers inHeaders size (body.lines.map .line ++ tail) =
      readMessage headers' inHeaders' size' tail := by
  obtain ⟨lines, isRead, noDot⟩ := body
  dsimp only
  induction lines generalizing headers inHeaders size with
  | nil => exact ⟨headers, inHeaders, size, fun tail => rfl⟩
  | cons raw lines ih =>
    obtain ⟨headers', inHeaders', size', h⟩ := ih _ _ _ (fun r hr => isRead r (List.mem_cons_of_mem _ hr))
      fun r hr => noDot r (List.mem_cons_of_mem _ hr)
    refine ⟨headers', inHeaders', size', fun tail => ?_⟩
    rw [List.map_cons, List.cons_append, readMessage, if_neg (isRead raw List.mem_cons_self)]
    dsimp only
    rw [if_neg (noDot raw List.mem_cons_self), h tail]

omit [Runtime] in
theorem readMessage_dot (body : Body) {dot : Bytes} (hdot : lineText dot = ".") (rest : List Read) :
    readMessage [] true 0 (body.lines.map .line ++ .line dot :: rest) = (.ok (body.content [.line dot]), rest) := by
  obtain ⟨headers, inHeaders, size, h⟩ := readMessage_lines body [] true 0
  have hsome : dot ≠ [] := by
    rintro rfl
    exact absurd hdot (by decide)
  have hstop (tail : List Read) : readMessage headers inHeaders size (.line dot :: tail) =
      (.ok (headers, size + dot.length), tail) := by
    rw [readMessage, if_neg hsome]
    dsimp only
    rw [if_pos hdot]
  rw [Body.content, h, h, hstop, hstop]

omit [Runtime] in
theorem readMessage_cut (body : Body) :
    readMessage [] true 0 (body.lines.map .line) = (.ok (body.content []), []) := by
  obtain ⟨headers, inHeaders, size, h⟩ := readMessage_lines body [] true 0
  have hcut := h []
  rw [List.append_nil] at hcut
  rw [Body.content, h, hcut]
  rfl

omit [Runtime] in
theorem readMessage_broken (body : Body) (rest : List Read) :
    readMessage [] true 0 (body.lines.map .line ++ .raised :: rest) = (.error (), rest) := by
  obtain ⟨headers, inHeaders, size, h⟩ := readMessage_lines body [] true 0
  rw [h]
  rfl

omit [Runtime] in
theorem readLine_line {raw : Bytes} (h : raw ≠ []) (rest : List Read) :
    readLine (.line raw :: rest) = (.ok (some (commandText raw)), rest) := by
  rw [readLine, if_neg h]
  rfl

omit [Runtime] in
/-- Nothing is left to record behind a message. -/
theorem finish_empty (s : Session) : finish { s with envelope := .empty } = [] := rfl

theorem loop_ending (ending : Ending) {turns : ℕ} (hturns : ending.reads.length < turns) (s : Session) :
    loop texts turns s ending.reads = ending.run texts s := by
  obtain ⟨turns, rfl⟩ := Nat.exists_eq_add_one_of_ne_zero (Nat.ne_of_gt (Nat.zero_lt_of_lt hturns))
  cases ending with
  | closed => rfl
  | failed rest => rfl
  | raised rest => rfl
  | quit raw isRead isQuit rest =>
    have hdata : verb (commandText raw) ≠ "DATA" := by
      rw [isQuit]
      decide
    rw [Ending.reads, loop, readLine_line isRead]
    dsimp only
    rw [if_neg hdata, if_pos isQuit]
    rfl
  | cut start isRead isData body =>
    rw [Ending.reads, loop, readLine_line isRead]
    dsimp only
    rw [if_pos isData, readMessage_cut]
    dsimp only
    have hrest : loop texts turns { s with envelope := .empty } [] = [] := by
      cases turns with
      | zero => rfl
      | succ turns => exact finish_empty s
    rw [hrest]
    rfl
  | broken start isRead isData body rest =>
    rw [Ending.reads, loop, readLine_line isRead]
    dsimp only
    rw [if_pos isData, readMessage_broken]
    rfl

theorem loop_item (item : Item) (turns : ℕ) (s : Session) (rest : List Read) :
    loop texts (turns + 1) s (item.reads ++ rest) = (item.run texts s).2 ++ loop texts turns (item.run texts s).1 rest := by
  cases item with
  | command c =>
    rw [Item.reads, List.singleton_append, loop, readLine_line c.isRead]
    dsimp only
    rw [if_neg c.plain.1, if_neg c.plain.2]
    rfl
  | message m =>
    rw [Item.reads, List.cons_append, List.append_assoc, List.singleton_append, loop, readLine_line m.isRead]
    dsimp only
    rw [if_pos m.isData, readMessage_dot m.body m.isDot]
    rfl

theorem length_reads_pos (item : Item) : 0 < item.reads.length := by
  cases item <;> exact Nat.zero_lt_succ _

/-- No line of a body is taken as a command. -/
theorem loop_items (items : List Item) (ending : Ending) {turns : ℕ}
    (hturns : (items.flatMap Item.reads ++ ending.reads).length < turns) (s : Session) :
    loop texts turns s (items.flatMap Item.reads ++ ending.reads) = runItems texts s ending items := by
  induction items generalizing turns s with
  | nil => exact loop_ending ending hturns s
  | cons item items ih =>
    obtain ⟨turns, rfl⟩ := Nat.exists_eq_add_one_of_ne_zero (Nat.ne_of_gt (Nat.zero_lt_of_lt hturns))
    have hpos := length_reads_pos item
    rw [List.flatMap_cons, List.append_assoc, List.length_append] at hturns
    rw [List.flatMap_cons, List.append_assoc, loop_item, ih (by omega), runItems]

/-! ## Transactions -/

omit [Runtime] in
theorem transactions_append (outs more : List Out) :
    transactions (outs ++ more) = transactions outs ++ transactions more := by
  rw [transactions, List.filterMap_append, List.map_append]
  rfl

omit [Runtime] in
theorem transactions_reply (line : String) (outs : List Out) : transactions (.reply line :: outs) = transactions outs := rfl

/-- An envelope with what items add to it. -/
def Envelope.after (e : Envelope) (items : List Item) : Envelope where
  mailFrom := ((items.filterMap Item.sender).getLast?).getD e.mailFrom
  rcpts := e.rcpts ++ items.filterMap Item.recipient

theorem after_nil (e : Envelope) : e.after [] = e := by
  rw [Envelope.after, List.filterMap_nil, List.filterMap_nil, List.append_nil]
  rfl

theorem after_cons (e : Envelope) (item : Item) (items : List Item) :
    e.after (item :: items) = (e.after [item]).after items := by
  have hlast : ((item :: items).filterMap Item.sender).getLast?.getD e.mailFrom =
      (items.filterMap Item.sender).getLast?.getD (([item].filterMap Item.sender).getLast?.getD e.mailFrom) := by
    rw [show item :: items = [item] ++ items from rfl, List.filterMap_append, List.getLast?_append]
    cases (items.filterMap Item.sender).getLast? <;> rfl
  rw [Envelope.after, hlast, show item :: items = [item] ++ items from rfl, List.filterMap_append, ← List.append_assoc]
  rfl

theorem empty_after (items : List Item) : Envelope.empty.after items = envelopeOf items := rfl

/-- A command that closes nothing adds what it names to the envelope. -/
theorem dispatch_envelope (c : Command) (s : Session) :
    transactions (dispatch texts s (commandText c.raw)).2 = [] ∧
      (dispatch texts s (commandText c.raw)).1.envelope =
        if (Item.command c).closes then .empty else s.envelope.after [.command c] := by
  rw [dispatch, Envelope.after, Item.closes, List.filterMap_cons, List.filterMap_cons, Item.sender, Item.recipient]
  generalize verb (commandText c.raw) = v
  generalize argument (commandText c.raw) = address
  by_cases hmail : v = "MAIL"
  · subst hmail
    exact ⟨rfl, by simp⟩
  · by_cases hrcpt : v = "RCPT"
    · subst hrcpt
      refine ⟨rfl, ?_⟩
      cases extractAddress address "TO:" <;> simp
    · by_cases hrset : v = "RSET"
      · subst hrset
        exact ⟨rfl, by simp⟩
      · rw [if_neg hmail, if_neg hrcpt, if_neg hrset, if_neg hmail, if_neg hrcpt, decide_eq_false hrset,
          if_neg Bool.false_ne_true]
        dsimp only
        split_ifs <;> simp [transactions, Out.transaction]

/-- The transactions of pieces, where the first goes on from an envelope. -/
def recordedFrom (ending : Ending) (e : Envelope) : List (List Item × Option Item) → List (Envelope × Bool)
  | [] => []
  | (inside, closing) :: rest =>
    transactionOf ending (e.after inside) closing ++ rest.flatMap fun p => transactionOf ending (envelopeOf p.1) p.2

theorem recordedFrom_empty (ending : Ending) (ps : List (List Item × Option Item)) :
    recordedFrom ending .empty ps = ps.flatMap fun p => transactionOf ending (envelopeOf p.1) p.2 := by
  cases ps with
  | nil => rfl
  | cons p ps => rw [recordedFrom, empty_after, List.flatMap_cons]

theorem pieces_eq_cons (items : List Item) : ∃ inside closing rest, pieces items = (inside, closing) :: rest := by
  induction items with
  | nil => exact ⟨_, _, _, rfl⟩
  | cons item items ih =>
    obtain ⟨inside, closing, rest, h⟩ := ih
    rw [pieces, h]
    cases item.closes with
    | true => exact ⟨_, _, _, rfl⟩
    | false => exact ⟨_, _, _, rfl⟩

omit [Runtime] in
theorem transactions_finish (s : Session) :
    transactions (finish s) = if s.envelope.pending then [(s.envelope, true)] else [] := by
  rw [finish]
  split_ifs <;> rfl

theorem transactions_ending (ending : Ending) (s : Session) :
    transactions (ending.run texts s) = transactionOf ending s.envelope none := by
  cases ending with
  | closed => exact transactions_finish s
  | failed rest => exact transactions_finish s
  | raised rest => exact transactions_finish s
  | quit raw isRead isQuit rest => exact transactions_finish s
  | cut start isRead isData body => rfl
  | broken start isRead isData body rest => exact transactions_finish s

/-- Every piece of a dialogue is recorded with its own envelope. -/
theorem transactions_run (items : List Item) (ending : Ending) (s : Session) :
    transactions (runItems texts s ending items) = recordedFrom ending s.envelope (pieces items) := by
  induction items generalizing s with
  | nil => rw [runItems, transactions_ending, pieces, recordedFrom, after_nil, List.flatMap_nil, List.append_nil]
  | cons item items ih =>
    rw [runItems, transactions_append, ih, pieces]
    cases item with
    | message m =>
      have hcloses : (Item.message m).closes = true := rfl
      rw [hcloses, if_pos rfl, recordedFrom, after_nil, ← recordedFrom_empty]
      rfl
    | command c =>
      obtain ⟨houts, henvelope⟩ := dispatch_envelope c s
      rw [Item.run, houts, henvelope, List.nil_append]
      cases hcloses : (Item.command c).closes with
      | true =>
        rw [if_pos rfl, if_pos rfl, recordedFrom_empty]
        rfl
      | false =>
        obtain ⟨inside, closing, rest, h⟩ := pieces_eq_cons items
        rw [if_neg Bool.false_ne_true, if_neg Bool.false_ne_true, h]
        dsimp only
        rw [recordedFrom, recordedFrom, after_cons s.envelope (.command c) inside]

theorem pieces_join (items : List Item) : (pieces items).flatMap (fun p => p.1 ++ p.2.toList) = items := by
  induction items with
  | nil => rfl
  | cons item items ih =>
    rw [pieces]
    cases item.closes with
    | true => rw [if_pos rfl, List.flatMap_cons, ih]; rfl
    | false =>
      obtain ⟨inside, closing, rest, h⟩ := pieces_eq_cons items
      rw [h, List.flatMap_cons] at ih
      rw [if_neg Bool.false_ne_true, h]
      dsimp only
      rw [List.flatMap_cons, List.cons_append, List.cons_append, ih]

variable (texts)

/-- A dialogue is taken item by item, with every body as a whole; it is cut behind every message and `RSET`, and each
piece is recorded once, with the sender and the recipients of its own items, unless `RSET` ends it. -/
theorem session_records (items : List Item) (ending : Ending) :
    session texts (items.flatMap Item.reads ++ ending.reads) =
        .reply ("220 " ++ texts.hostname ++ " ESMTP Postfix") :: runItems texts ⟨none, .empty⟩ ending items ∧
      transactions (session texts (items.flatMap Item.reads ++ ending.reads)) =
        (pieces items).flatMap (fun p => transactionOf ending (envelopeOf p.1) p.2) ∧
      (pieces items).flatMap (fun p => p.1 ++ p.2.toList) = items := by
  have hrun : session texts (items.flatMap Item.reads ++ ending.reads) =
      .reply ("220 " ++ texts.hostname ++ " ESMTP Postfix") :: runItems texts ⟨none, .empty⟩ ending items :=
    congrArg _ (loop_items items ending (Nat.lt_succ_self _) _)
  refine ⟨hrun, ?_, pieces_join items⟩
  rw [hrun, transactions_reply, transactions_run, recordedFrom_empty]

end

/-! ## `RSET` and a new greeting -/

/-- A line of a client. -/
def sent (line : String) : Read := .line (utf8Encode (line ++ "\r\n").toList)

/-- A recipient that was accepted is in no transaction behind `RSET`, and in the next one behind a greeting. -/
theorem reset_and_greeting :
    transactions (@session Runtime.ascii ⟨"mx", "0"⟩ [sent "RCPT TO:<a@b>", sent "RSET"]) = [] ∧
      transactions (@session Runtime.ascii ⟨"mx", "0"⟩ [sent "RCPT TO:<a@b>", sent "EHLO c", sent "DATA", sent "."]) =
        [(⟨none, ["a@b"]⟩, false)] := by
  decide

end PtaasBench.EdgeResolver.Smtp
