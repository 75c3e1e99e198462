import Mathlib.Algebra.Group.Nat.Defs
import PtaasBench.Lib.Fields
import PtaasBench.Py.Text

/-!
# PtaasBench.Infra.AccessLog — one line of the web server's log (`httplog.py`, `httpd.conf`)

What the server writes for a response, and what `parse` makes of it.
-/

namespace PtaasBench.Infra

open Py Lib List

abbrev Text := List Char

class DigitRuntime extends Runtime where
  /-- `unicodedata.decimal` -/
  decimal : Char → Option ℕ
  decimal_ascii : ∀ c : Char, c.toNat < 128 → decimal c = if c.isDigit then some (c.toNat - 48) else none

export DigitRuntime (decimal)

/-- Python's limit on the digits of a number in text. -/
def maxStrDigits : ℕ := 4300

section Numbers

variable [DigitRuntime]

/-- `str.isdigit` -/
def isDigits (s : Text) : Bool := !s.isEmpty && s.all isDigit

/-- The sign of a number, and what follows it. -/
def splitSign : Text → Bool × Text
  | '-' :: rest => (true, rest)
  | '+' :: rest => (false, rest)
  | rest => (false, rest)

/-- `int(s)`; `none` is a `ValueError`. -/
def parseInt (s : Text) : Option ℤ := do
  let (negative, body) := splitSign ((s.dropWhile isSpace).rdropWhile isSpace)
  let groups := body.splitOn '_'
  if groups.any (·.isEmpty) then none
  else
    let digits ← groups.flatten.mapM decimal
    if maxStrDigits < digits.length then none
    else
      let n : ℕ := digits.foldl (fun n d => n * 10 + d) 0
      return if negative then -n else n

/-! ## `parse` -/

/-- `FIELDS`, as texts. -/
structure Fields where
  time : Text
  peer : Text
  method : Text
  path : Text
  query : Text
  status : Text
  sent : Text
  received : Text
  host : Text
  agent : Text

structure Record extends Fields where
  statusCode : Option ℤ
  sentBytes : ℤ
  receivedBytes : ℤ

omit [DigitRuntime] in
/-- `dict(zip(FIELDS, parts))`, of as many parts as there are fields. -/
def fieldsOf : List Text → Option Fields
  | [time, peer, method, path, query, status, sent, received, host, agent] =>
    some
      { time := time, peer := peer, method := method, path := path, query := query, status := status
        sent := sent, received := received, host := host, agent := agent }
  | _ => none

omit [DigitRuntime] in
/-- `s.split(sep, n)` -/
def splitMax (sep : Char) (n : ℕ) (s : Text) : List Text :=
  let ps := s.splitOn sep
  if ps.length ≤ n then ps else ps.take n ++ [joined sep (ps.drop n)]

/-- The test of a status. -/
def statusLike (s : Text) : Bool := isDigits (s.take 3)

/-- The test of a byte count. -/
def countLike (s : Text) : Bool := isDigits (s.dropWhile (· = '-'))

/-- A byte count, zero where it is none. -/
def byteCount (s : Text) : ℤ := (parseInt s).elim 0 (max · 0)

def numbered (f : Fields) : Record :=
  { f with
    statusCode := parseInt (f.status.take 3)
    sentBytes := byteCount f.sent
    receivedBytes := byteCount f.received }

@[simp] theorem numbered_statusCode (f : Fields) :
    (numbered f).statusCode = parseInt (f.status.take 3) := rfl

@[simp] theorem numbered_sentBytes (f : Fields) : (numbered f).sentBytes = byteCount f.sent := rfl

@[simp] theorem numbered_receivedBytes (f : Fields) :
    (numbered f).receivedBytes = byteCount f.received := rfl

/-- The fields of more pieces than there are fields, what is too many taken for the path's. -/
def rejoin (head : List Text) : Option Fields :=
  let extra := head.length - 10
  fieldsOf (head.take 3 ++ [joined '|' ((head.drop 3).take (1 + extra))] ++ head.drop (4 + extra))

def parse (line : Text) : Option Record :=
  let parts := splitMax '|' 9 (line.rdropWhile (· = '\n'))
  match fieldsOf parts with
  | none => none
  | some record =>
    if statusLike record.status && countLike record.sent then some (numbered record)
    else
      let head := (joined '|' parts).splitOn '|'
      if head.length ≤ 10 then none
      else
        match rejoin head with
        | none => none
        | some record => if statusLike record.status then some (numbered record) else none

end Numbers

/-! ## What the server writes -/

/-- What a client chooses. -/
structure Request where
  method : Text
  path : Text
  query : Text
  host : Text
  agent : Text
  /-- The server escapes line breaks. -/
  oneLine : '\n' ∉ agent

/-- What the server knows. -/
structure Served where
  time : Text
  peer : Text
  status : ℕ
  sent : ℕ
  received : ℕ
  time_plain : '|' ∉ time
  peer_plain : '|' ∉ peer
  status_digits : 100 ≤ status ∧ status < 1000
  sent_lt : sent < 2 ^ 63
  received_lt : received < 2 ^ 63

def digits (n : ℕ) : Text := Nat.toDigits 10 n

/-- `LogFormat … estate` -/
def logFields (w : Served) (r : Request) : List Text :=
  [w.time, w.peer, r.method, r.path, r.query, digits w.status, digits w.sent, digits w.received, r.host, r.agent]

def logLine (w : Served) (r : Request) : Text := joined '|' (logFields w r) ++ ['\n']

/-- The line of a response is refused, or is read as it was written. -/
def Faithful [DigitRuntime] (w : Served) (r : Request) : Prop :=
  ∀ record ∈ parse (logLine w r), record.peer = w.peer ∧ record.path = r.path ∧
    record.statusCode = some (w.status : ℤ) ∧ record.sentBytes = w.sent ∧ record.receivedBytes = w.received

/-- The pieces in front of the numbers of the server that a client wrote, and those behind them. -/
def Request.front (r : Request) : List Text := pieces '|' [r.method, r.path, r.query]

def Request.back (r : Request) : List Text := pieces '|' [r.host, r.agent]

/-- The pieces a client wrote where a line without separators has its status and its bytes sent; the
latter may also be the server's status. -/
def Request.Anchored [DigitRuntime] (r : Request) : Prop :=
  statusLike (r.front.getD 3 []) = true ∧ (r.front.length = 4 ∨ countLike (r.front.getD 4 []) = true)

/-- Only the path has separators. -/
def Request.PathOnly (r : Request) : Prop :=
  '|' ∉ r.method ∧ '|' ∉ r.query ∧ '|' ∉ r.host ∧ '|' ∉ r.agent

/-- Behind the numbers are so many pieces that the status is looked for among them, and not found. -/
def Request.Refused [DigitRuntime] (r : Request) : Prop :=
  5 ≤ r.back.length ∧ statusLike (r.back.getD (r.back.length - 5) []) = false

/-- No line of a response to the request is misread. -/
def Request.Unforging [DigitRuntime] (r : Request) : Prop :=
  ('|' ∉ r.method ∧ '|' ∉ r.path ∧ '|' ∉ r.query) ∨ ¬ r.Anchored ∧ (r.PathOnly ∨ r.Refused)

/-! ## Numbers of the server -/

section Digits

theorem isDigit_of_mem_digits {n : ℕ} {c : Char} (h : c ∈ digits n) : c.isDigit = true :=
  Nat.isDigit_of_mem_toDigits (by decide) (by decide) h

theorem notMem_digits {n : ℕ} {c : Char} (hc : c.isDigit = false) : c ∉ digits n := by
  intro h
  rw [isDigit_of_mem_digits h] at hc
  cases hc

theorem digits_ne_nil (n : ℕ) : digits n ≠ [] := Nat.toDigits_ne_nil

theorem length_digits_le {n k : ℕ} (hk : 0 < k) (h : n < 10 ^ k) : (digits n).length ≤ k :=
  (Nat.length_toDigits_le_iff (by decide) hk).mpr h

variable [DigitRuntime]

theorem isDigits_of_digits {s : Text} (hs : s ≠ []) (h : ∀ c ∈ s, c.isDigit = true) : isDigits s = true := by
  have hall : s.all isDigit = true := by
    rw [all_eq_true]
    intro c hc
    have hgraphic := graphic_of_isDigit (h c hc)
    rw [Runtime.isDigit_ascii c (by omega)]
    exact h c hc
  rw [isDigits, hall, Bool.and_true, Bool.not_eq_true', isEmpty_eq_false_iff]
  exact hs

theorem statusLike_digits (n : ℕ) : statusLike (digits n) = true := by
  refine isDigits_of_digits ?_ fun c hc => isDigit_of_mem_digits (mem_of_mem_take hc)
  rw [ne_eq, take_eq_nil_iff]
  rintro (h | h)
  · cases h
  · exact digits_ne_nil n h

theorem countLike_digits (n : ℕ) : countLike (digits n) = true := by
  have hself : (digits n).dropWhile (· = '-') = digits n := by
    rw [dropWhile_eq_self_iff]
    intro hl hdash
    refine notMem_digits (n := n) (c := '-') (by decide) ?_
    rw [← of_decide_eq_true hdash]
    exact getElem_mem hl
  rw [countLike, hself]
  exact isDigits_of_digits (digits_ne_nil n) fun c hc => isDigit_of_mem_digits hc

theorem decimal_digit {c : Char} (h : c.isDigit = true) : decimal c = some (c.toNat - 48) := by
  have hgraphic := graphic_of_isDigit h
  rw [DigitRuntime.decimal_ascii c (by omega), if_pos h]

theorem mapM_decimal {s : Text} (h : ∀ c ∈ s, c.isDigit = true) :
    s.mapM decimal = some (s.map fun c => c.toNat - 48) := by
  induction s with
  | nil => rfl
  | cons c s ih =>
    rw [mapM_cons, decimal_digit (h c mem_cons_self), ih fun d hd => h d (mem_cons_of_mem _ hd)]
    rfl

omit [DigitRuntime] in
theorem foldl_decimal (s : Text) (n : ℕ) :
    (s.map fun c => c.toNat - 48).foldl (fun n d => n * 10 + d) n = Nat.ofDigitChars 10 s n := by
  induction s generalizing n with
  | nil => rfl
  | cons c s ih =>
    rw [map_cons, foldl_cons, ih, Nat.ofDigitChars_cons, Nat.mul_comm]
    rfl

omit [DigitRuntime] in
theorem splitSign_of_digit {s : Text} (h : ∀ c ∈ s, c.isDigit = true) : splitSign s = (false, s) := by
  unfold splitSign
  split
  · have := h '-' mem_cons_self
    exact absurd this (by decide)
  · have := h '+' mem_cons_self
    exact absurd this (by decide)
  · rfl

/-- A number the server writes is the number that is read. -/
theorem parseInt_digits {n : ℕ} (h : (digits n).length ≤ maxStrDigits) : parseInt (digits n) = some (n : ℤ) := by
  have hspace : ∀ c ∈ digits n, isSpace c = false := fun c hc =>
    isSpace_of_graphic (by have := graphic_of_isDigit (isDigit_of_mem_digits hc); omega)
  have hleft : (digits n).dropWhile isSpace = digits n := by
    rw [dropWhile_eq_self_iff]
    intro hl
    rw [hspace _ (getElem_mem hl)]
    exact Bool.false_ne_true
  have hright : (digits n).rdropWhile isSpace = digits n := by
    rw [rdropWhile_eq_self_iff]
    intro hl
    rw [hspace _ (getLast_mem hl)]
    exact Bool.false_ne_true
  have hsplit : (digits n).splitOn '_' = [digits n] :=
    splitOn_eq_singleton (notMem_digits (by decide))
  have hsome : ([digits n].any (·.isEmpty)) = false := by
    rw [any_cons, any_nil, Bool.or_false, isEmpty_eq_false_iff]
    exact digits_ne_nil n
  unfold parseInt
  rw [hleft, hright, splitSign_of_digit fun c hc => isDigit_of_mem_digits hc]
  dsimp only
  rw [hsplit, hsome, if_neg Bool.false_ne_true, flatten_singleton,
    mapM_decimal fun c hc => isDigit_of_mem_digits hc]
  show (if maxStrDigits < ((digits n).map fun c => c.toNat - 48).length then none else _) = _
  rw [length_map, if_neg (not_lt.mpr h), foldl_decimal, digits, Nat.ofDigitChars_ten_toDigits]
  rfl

end Digits

end PtaasBench.Infra
