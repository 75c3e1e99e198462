import PtaasBench.Infra.LogForgery
import PtaasBench.Infra.SearchTap

/-!
# PtaasBench.Infra.SearchForgery — which requests the search cluster's log can be forged with

The cluster numbers its requests and writes the caller's header and target as they are.  A line whose
bracketed fields hold no bracket of the client's is read as it was written.
-/

namespace PtaasBench.Infra.StoreTaps

open Py Lib Lib.Pattern

/-! ## What the cluster writes -/

/-- The time of a line. -/
structure Stamp where
  text : Text
  plain : '[' ∉ text ∧ ']' ∉ text
  dash : '-' ∈ text

structure Cluster where
  node : Text
  localAddress : Text
  node_plain : '[' ∉ node ∧ ']' ∉ node
  local_host : ∀ c ∈ localAddress, isHost c = true

/-- What a client chooses, and where it calls from. -/
structure Request where
  peer : Text
  port : ℕ
  method : Text
  target : Text
  correlation : Text
  peer_host : peer ≠ [] ∧ ∀ c ∈ peer, isHost c = true
  method_upper : method ≠ [] ∧ ∀ c ∈ method, isUpper c = true
  target_some : target ≠ []

structure Outcome where
  status : Text
  type : Text
  length : ℕ
  status_outcome : status ≠ [] ∧ ∀ c ∈ status, isOutcome c = true
  type_plain : ']' ∉ type
  length_lt : length < 2 ^ 63

def lineHead (cluster : Cluster) (stamp : Stamp) : Text :=
  '[' :: stamp.text ++ chars "][TRACE][o.e.h.HttpTracer         ] [" ++ cluster.node ++ chars "] "

def channel (cluster : Cluster) (r : Request) : Text :=
  chars "Netty4HttpChannel\x7blocalAddress=/" ++ cluster.localAddress ++ chars ", remoteAddress=/" ++ r.peer ++
    ':' :: digits r.port ++ ['}']

def requestFields (cluster : Cluster) (number : ℕ) (r : Request) : Text :=
  '[' :: digits number ++ chars "][" ++ r.correlation ++ chars "][" ++ r.method ++ chars "][" ++ r.target ++
    chars "] received request from [" ++ channel cluster r ++ chars "]\n"

def responseFields (cluster : Cluster) (number : ℕ) (r : Request) (o : Outcome) : Text :=
  '[' :: digits number ++ chars "][" ++ r.correlation ++ chars "][" ++ o.status ++ chars "][" ++ o.type ++
    chars "][" ++ digits o.length ++ chars "] sent response to [" ++ channel cluster r ++
    chars "] success [true]\n"

def requestLine (cluster : Cluster) (stamp : Stamp) (number : ℕ) (r : Request) : Text :=
  lineHead cluster stamp ++ requestFields cluster number r

def responseLine (cluster : Cluster) (stamp : Stamp) (number : ℕ) (r : Request) (o : Outcome) : Text :=
  lineHead cluster stamp ++ responseFields cluster number r o

/-- The client writes no closing bracket. -/
def Request.Plain (r : Request) : Prop := ']' ∉ r.correlation ∧ ']' ∉ r.target

instance (r : Request) : Decidable r.Plain := inferInstanceAs (Decidable (_ ∧ _))

/-! ## Reading the head of a line -/

section Head

variable [DigitRuntime] {β : Type}

theorem isDecimal_of_isDigit {c : Char} (h : c.isDigit = true) : isDecimal c = true := by
  rw [isDecimal, decimal_digit h, Option.isSome_some]

theorem isDecimal_digits {n : ℕ} : ∀ c ∈ digits n, isDecimal c = true :=
  fun _ hc => isDecimal_of_isDigit (isDigit_of_mem_digits hc)

theorem isDecimal_ascii {c : Char} (hc : c.toNat < 128) (h : c.isDigit = false) : isDecimal c = false := by
  rw [isDecimal, DigitRuntime.decimal_ascii c hc, h, if_neg Bool.false_ne_true, Option.isSome_none]

/-- The start of a line's fields: a number in brackets, and another field. -/
def numbered (k : Text → Pattern Char β) : Pattern Char β :=
  word ['['] >>= fun _ => many1 isDecimal >>= fun x => word [']', '['] >>= fun _ => k x

/-- A field that is not a number is not taken for one. -/
theorem run_numbered_text {x : Text} {c : Char} (hc : c ∈ x) (hdecimal : isDecimal c = false) (hx : ']' ∉ x)
    (k : Text → Pattern Char β) (s : Text) : (numbered k).run ('[' :: (x ++ s)) = [] := by
  have hrest : x.dropWhile isDecimal ≠ [] := by
    rw [ne_eq, List.dropWhile_eq_nil_iff]
    intro hall
    rw [hall c hc] at hdecimal
    cases hdecimal
  obtain ⟨d, rest, hd⟩ := List.exists_cons_of_ne_nil hrest
  have hhead : isDecimal d = false := by
    have hnot := List.head_dropWhile_not isDecimal hrest
    simp only [hd, List.head_cons] at hnot
    exact hnot
  have hmem : d ∈ x := by
    have hsub := List.dropWhile_sublist isDecimal (l := x)
    rw [hd] at hsub
    exact hsub.subset List.mem_cons_self
  have hsplit : x ++ s = x.takeWhile isDecimal ++ (d :: rest ++ s) := by
    rw [← hd, ← List.append_assoc, List.takeWhile_append_dropWhile]
  have hword : (word ['['] >>= fun _ => many1 isDecimal >>= fun x => word [']', '['] >>= fun _ => k x).run
      (['['] ++ (x ++ s)) = _ := run_word_bind ['['] (x ++ s) _
  refine hword.trans ?_
  rw [hsplit]
  cases htake : x.takeWhile isDecimal with
  | nil => exact run_many1_bind_nil (by simpa using hhead) _
  | cons e es =>
    rw [← htake, run_many1_word (isDecimal_ascii (by decide) (by decide)) _ _ (by simp [htake])
      (fun c hc => List.mem_takeWhile_imp hc) (by simpa using hhead)]
    apply run_word_bind_nil
    intro hstart
    have heq := (List.cons_prefix_cons.mp hstart).1
    rw [← heq] at hmem
    exact hx hmem

/-- The node's name is no number of a request, whatever it is. -/
theorem run_numbered_node {x : Text} (hx : ']' ∉ x) (k : Text → Pattern Char β) (s : Text) :
    (numbered k).run ('[' :: (x ++ (']' :: ' ' :: s))) = [] := by
  by_cases hall : ∀ c ∈ x, isDecimal c = true
  · refine (run_word_bind ['['] (x ++ (']' :: ' ' :: s)) _).trans ?_
    have hbracket : isDecimal ']' = false := isDecimal_ascii (by decide) (by decide)
    cases hnil : x with
    | nil => exact run_many1_bind_nil (by simpa using hbracket) _
    | cons c cs =>
      rw [← hnil, run_many1_word hbracket _ _ (by simp [hnil]) hall (by simpa using hbracket)]
      apply run_word_bind_nil
      simp
  · rw [not_forall] at hall
    obtain ⟨c, hall⟩ := hall
    rw [Classical.not_imp, Bool.not_eq_true] at hall
    exact run_numbered_text hall.1 hall.2 hx k _

omit [DigitRuntime] in
/-- Nothing is read at a bracket where nothing matches, nor behind it up to the next. -/
theorem search_skip {p : Pattern Char β} {x s : Text} (hrun : p.run ('[' :: (x ++ s)) = [])
    (hp : ∀ c, c ≠ '[' → ∀ t, p.run (c :: t) = []) (hx : '[' ∉ x) :
    p.search ('[' :: (x ++ s)) = p.search s := by
  rw [search_cons hrun]
  exact search_append fun c hc => hp c fun heq => hx (heq ▸ hc)

/-- The first number in brackets that is followed by a field is behind the head of the line. -/
theorem search_lineHead (cluster : Cluster) (stamp : Stamp) (k : Text → Pattern Char β) (s : Text) :
    (numbered k).search (lineHead cluster stamp ++ s) = (numbered k).search s := by
  have hp : ∀ c, c ≠ '[' → ∀ t, (numbered k).run (c :: t) = [] := by
    intro c hc t
    apply run_word_bind_nil
    intro hstart
    exact hc (List.cons_prefix_cons.mp hstart).1.symm
  have htext : lineHead cluster stamp ++ s =
      '[' :: ((stamp.text ++ [']']) ++ ('[' :: ((chars "TRACE" ++ [']']) ++
        ('[' :: ((chars "o.e.h.HttpTracer         " ++ [']', ' ']) ++
          ('[' :: ((cluster.node ++ [']', ' ']) ++ s))))))) := by
    simp [lineHead, chars]
  have hdash : isDecimal '-' = false := isDecimal_ascii (by decide) (by decide)
  have hupper : isDecimal 'T' = false := isDecimal_ascii (by decide) (by decide)
  have hlower : isDecimal 'o' = false := isDecimal_ascii (by decide) (by decide)
  rw [htext, search_skip _ hp (by simp [stamp.plain.1]), search_skip _ hp (by decide),
    search_skip _ hp (by decide), search_skip _ hp (by simp [cluster.node_plain.1])]
  · rw [List.append_assoc]
    exact run_numbered_node cluster.node_plain.2 k s
  · rw [List.append_assoc]
    exact run_numbered_text (c := 'o') (by decide) hlower (by decide) k _
  · rw [List.append_assoc]
    exact run_numbered_text (c := 'T') (by decide) hupper (by decide) k _
  · rw [List.append_assoc]
    exact run_numbered_text stamp.dash hdash stamp.plain.2 k _

end Head

/-! ## Reading a line of a plain request -/

section Lines

variable [DigitRuntime] (cluster : Cluster) (stamp : Stamp) (number : ℕ) {r : Request}

theorem notDecimal_bracket : isDecimal ']' = false := isDecimal_ascii (by decide) (by decide)

omit [DigitRuntime] in
theorem all_notBracket {x : Text} (h : ']' ∉ x) : ∀ c ∈ x, notBracket c = true := by
  intro c hc
  rw [notBracket, decide_eq_true_eq]
  rintro rfl
  exact h hc

omit [DigitRuntime] in
theorem notMem_of_all {p : Char → Bool} {x : Text} {d : Char} (hd : p d = false) (h : ∀ c ∈ x, p c = true) :
    d ∉ x := by
  intro hmem
  rw [h d hmem] at hd
  cases hd

omit [DigitRuntime] in
theorem inLine_channel : ∀ c ∈ channel cluster r, inLine c = true := by
  intro c hc
  rw [inLine, decide_eq_true_eq]
  rintro rfl
  have hlocal := notMem_of_all (d := '\n') (by decide) cluster.local_host
  have hpeer := notMem_of_all (d := '\n') (by decide) r.peer_host.2
  have hport : '\n' ∉ digits r.port := notMem_digits (by decide)
  simp [channel, chars, hlocal, hpeer, hport] at hc

omit [DigitRuntime] in
theorem bracket_notMem_channel : ']' ∉ channel cluster r := by
  have hlocal := notMem_of_all (d := ']') (by decide) cluster.local_host
  have hpeer := notMem_of_all (d := ']') (by decide) r.peer_host.2
  have hport : ']' ∉ digits r.port := notMem_digits (by decide)
  simp [channel, chars, hlocal, hpeer, hport]

/-- A request is read as it was written. -/
theorem search_requestLine (hr : r.Plain) :
    RECEIVED.search (requestLine cluster stamp number r) =
      some { identifier := digits number, correlation := r.correlation, method := r.method, path := r.target
             channel := channel cluster r } := by
  refine (search_lineHead cluster stamp _ _).trans ?_
  have hfields : requestFields cluster number r =
      ['['] ++ (digits number ++ ([']', '['] ++ (r.correlation ++ ([']', '['] ++ (r.method ++ ([']', '['] ++
        (r.target ++ ((']' :: chars " received request from [") ++
          (channel cluster r ++ (']' :: ['\n'])))))))))) := by
    simp [requestFields, chars]
  have hreceived : chars "] received request from [" = ']' :: chars " received request from [" := rfl
  obtain ⟨others, hothers⟩ := run_many_last (p := inLine) (d := ']')
    (fun x => (pure { identifier := digits number, correlation := r.correlation, method := r.method
                      path := r.target, channel := x } : Pattern Char Received))
    (inLine_channel cluster (r := r)) (by decide : ']' ∉ ['\n'])
  rw [hfields]
  refine search_of_run (t := ['\n']) (?_ : _ = _ :: others)
  refine (run_word_bind _ _ _).trans ?_
  rw [run_many1_word notDecimal_bracket _ _ (digits_ne_nil number) isDecimal_digits
      (by simpa using notDecimal_bracket), run_word_bind,
    run_many_word (by decide) _ _ (all_notBracket hr.1) (by simp [notBracket]), run_word_bind,
    run_many1_word (by decide) _ _ r.method_upper.1 r.method_upper.2 (by simp; decide), run_word_bind,
    hreceived, run_many1_word (by decide) _ _ r.target_some (all_notBracket hr.2) (by simp [notBracket]),
    run_word_bind, hothers]
  rfl

/-- A response is no request. -/
theorem needs_received : RECEIVED.Needs (chars "] received request from [") := by
  refine Needs.bind (consumes_word _) fun _ => Needs.bind (consumes_many1 _) fun _ => ?_
  refine Needs.bind (consumes_word _) fun _ => Needs.bind (consumes_many _) fun _ => ?_
  refine Needs.bind (consumes_word _) fun _ => Needs.bind (consumes_many1 _) fun _ => ?_
  refine Needs.bind (consumes_word _) fun _ => Needs.bind (consumes_many1 _) fun _ => ?_
  exact needs_word _ _

theorem search_received_responseLine (hr : r.Plain) (o : Outcome) :
    RECEIVED.search (responseLine cluster stamp number r o) = none := by
  apply needs_received.search_eq_none
  have hreceived : chars "] received request from [" = ']' :: chars " received request from [" := rfl
  have htext : responseLine cluster stamp number r o =
      (['['] ++ stamp.text) ++ (chars "][TRACE][o.e.h.HttpTracer         ] [" ++ (cluster.node ++ (chars "] [" ++
        (digits number ++ (chars "][" ++ (r.correlation ++ (chars "][" ++ (o.status ++ (chars "][" ++
          (o.type ++ (chars "][" ++ (digits o.length ++ (chars "] sent response to [" ++
            (channel cluster r ++ chars "] success [true]\n")))))))))))))) := by
    simp [responseLine, lineHead, responseFields, chars]
  have hdigits : ∀ n, ']' ∉ digits n := fun n => notMem_digits (by decide)
  have hstatus := notMem_of_all (d := ']') (by decide) o.status_outcome.2
  rw [htext, hreceived, infix_append_iff (by simp [stamp.plain.2])]
  simp [chars, List.infix_cons_iff, infix_append_iff, cluster.node_plain.2, hdigits, hr.1, hstatus,
    o.type_plain, bracket_notMem_channel]

/-- A response is read as it was written. -/
theorem search_responseLine (hr : r.Plain) (o : Outcome) :
    SENT.search (responseLine cluster stamp number r o) =
      some { identifier := digits number, correlation := r.correlation, status := o.status, type := o.type
             length := digits o.length } := by
  refine (search_lineHead cluster stamp _ _).trans ?_
  have hfields : responseFields cluster number r o =
      ['['] ++ (digits number ++ ([']', '['] ++ (r.correlation ++ ([']', '['] ++ (o.status ++ ([']', '['] ++
        (o.type ++ ([']', '['] ++ (digits o.length ++ ((']' :: chars " sent response to [") ++
          (channel cluster r ++ (']' :: chars " success [true]\n")))))))))))) := by
    simp [responseFields, chars]
  have hsent : chars "] sent response to [" = ']' :: chars " sent response to [" := rfl
  obtain ⟨others, hothers⟩ := run_few_word (p := inLine) (d := ']')
    (fun _ => (pure { identifier := digits number, correlation := r.correlation, status := o.status
                      type := o.type, length := digits o.length } : Pattern Char Sent))
    (inLine_channel cluster) (bracket_notMem_channel cluster (r := r))
  rw [hfields]
  refine search_of_run (t := chars " success [true]\n") (?_ : _ = _ :: others)
  refine (run_word_bind _ _ _).trans ?_
  rw [run_many1_word notDecimal_bracket _ _ (digits_ne_nil number) isDecimal_digits
      (by simpa using notDecimal_bracket), run_word_bind,
    run_many_word (by decide) _ _ (all_notBracket hr.1) (by simp [notBracket]), run_word_bind,
    run_many1_word (by decide) _ _ o.status_outcome.1 o.status_outcome.2 (by simp; decide), run_word_bind,
    run_many_word (by decide) _ _ (all_notBracket o.type_plain) (by simp [notBracket]), run_word_bind,
    hsent, run_many1_word notDecimal_bracket _ _ (digits_ne_nil o.length) isDecimal_digits
      (by simpa using notDecimal_bracket), run_word_bind, hothers]
  rfl

/-- The peer is read as it was written. -/
theorem search_channel : ADDRESS.search (channel cluster r) = some (r.peer, digits r.port) := by
  have hlocal := notMem_of_all (d := 'r') (by decide) cluster.local_host
  have hp : ∀ c, c ≠ 'r' → ∀ t, ADDRESS.run (c :: t) = [] := by
    intro c hc t
    apply run_word_bind_nil
    intro hstart
    exact hc (List.cons_prefix_cons.mp hstart).1.symm
  have htext : channel cluster r = chars "Netty4HttpChannel\x7blocalAdd" ++ ('r' :: ((chars "ess=/" ++
      (cluster.localAddress ++ chars ", ")) ++ (chars "remoteAddress=" ++ (['/'] ++ (r.peer ++ (':' ::
        (digits r.port ++ ['}']))))))) := by
    simp [channel, chars]
  have hcolon : ':' ∉ digits r.port ++ ['}'] := by
    simp [notMem_digits (n := r.port) (c := ':') (by decide)]
  have hbrace : isDecimal '}' = false := isDecimal_ascii (by decide) (by decide)
  obtain ⟨tails, htails⟩ := run_many1_last (p := isHost) (d := ':')
    (fun host => many1 isDecimal >>= fun port => (pure (host, port) : Pattern Char (Text × Text)))
    r.peer_host.1 r.peer_host.2 hcolon
  obtain ⟨ports, hports⟩ := run_many1_bind_first isDecimal
    (fun port => (pure (r.peer, port) : Pattern Char (Text × Text))) (digits_ne_nil r.port)
    isDecimal_digits (by simpa using hbrace : ∀ c ∈ (['}'] : Text).head?, isDecimal c = false)
  rw [htext, search_append (fun c hc => hp c (by rintro rfl; revert hc; decide)), search_cons,
    search_append (fun c hc => hp c (by rintro rfl; simp [hlocal, chars] at hc))]
  · have haddress : ADDRESS = word (chars "remoteAddress=") >>= fun _ => optional (word ['/']) >>= fun _ =>
        many1 isHost >>= fun host => word [':'] >>= fun _ => many1 isDecimal >>= fun port =>
          pure (host, port) := rfl
    have hrun := congrArg (fun p => p.run (chars "remoteAddress=" ++ (['/'] ++ (r.peer ++ (':' ::
      (digits r.port ++ ['}'])))))) haddress
    rw [run_word_bind, run_optional_word, htails, hports] at hrun
    exact search_of_run hrun
  · apply run_word_bind_nil
    simp [chars]

end Lines

/-! ## A cluster and its follower -/

/-- What the cluster answers to a request. -/
def answerTo [DigitRuntime] (r : Request) (o : Outcome) : Answer where
  peer := r.peer
  method := r.method
  path := r.target
  status := statusCode o.status
  length := o.length
  route := routeFor r.target

/-- The requests without a response, the answers that were given, and what was made of the log. -/
structure World where
  number : ℕ := 0
  pending : Dict ℕ Request := Dict.empty
  served : List Answer := []
  tap : SearchTap := {}

inductive Op where
  | request (stamp : Stamp) (r : Request)
  | respond (stamp : Stamp) (number : ℕ) (o : Outcome)

def Op.Plain : Op → Prop
  | .request _ r => r.Plain
  | .respond .. => True

instance : DecidablePred Op.Plain := fun op => by cases op <;> unfold Op.Plain <;> infer_instance

def Answer.recordable (a : Answer) : Bool := (a.route.dropWhile (· = '/')).rdropWhile (· = '/') ≠ []

def Answer.record (a : Answer) : Recorded where
  method := a.method
  route := a.route
  path := a.path
  status := a.status
  peer := a.peer

section Runs

variable [DigitRuntime] (cluster : Cluster)

def World.step (w : World) : Op → World
  | .request stamp r =>
    { w with
      number := w.number + 1
      pending := w.pending.set w.number r
      tap := w.tap.handle (requestLine cluster stamp w.number r) }
  | .respond stamp number o =>
    match w.pending.get? number with
    | none => w
    | some r =>
      { w with
        pending := w.pending.pop number
        served := w.served ++ [answerTo r o]
        tap := w.tap.handle (responseLine cluster stamp number r o) }

/-- What is kept of a request until its response. -/
def Request.entry (r : Request) : Text × Text × Text := (r.method, r.target, r.peer)

/-- The answers that are recorded while the budget lasts. -/
def recorded (served : List Answer) : List Recorded := ((served.filter Answer.recordable).map Answer.record).take 500

/-- The log was read as it was written. -/
structure World.Read (w : World) : Prop where
  plain : ∀ number r, w.pending.get? number = some r → r.Plain
  pending : ∀ number, w.tap.pending.get? (digits number) = (w.pending.get? number).map Request.entry
  answers : w.tap.answers = w.served
  records : w.tap.records = recorded w.served
  budget : w.tap.budget = 500 - (w.served.filter Answer.recordable).length
  matched : w.tap.matched = w.served.length

omit [DigitRuntime] in
theorem digits_inj {m n : ℕ} : digits m = digits n ↔ m = n := by
  refine ⟨fun h => ?_, fun h => by rw [h]⟩
  have hread := congrArg (fun x => Nat.ofDigitChars 10 x 0) h
  rwa [digits, digits, Nat.ofDigitChars_ten_toDigits, Nat.ofDigitChars_ten_toDigits] at hread

theorem handle_requestLine (tap : SearchTap) (stamp : Stamp) (number : ℕ) {r : Request} (hr : r.Plain) :
    tap.handle (requestLine cluster stamp number r) =
      { tap with pending := tap.pending.set (digits number) r.entry } := by
  rw [SearchTap.handle, search_requestLine cluster stamp number hr]
  dsimp only
  rw [search_channel]
  rfl

theorem handle_responseLine {tap : SearchTap} (stamp : Stamp) {number : ℕ} {r : Request} (hr : r.Plain)
    (o : Outcome) (hpending : tap.pending.get? (digits number) = some r.entry) :
    tap.handle (responseLine cluster stamp number r o) =
      { tap with pending := tap.pending.pop (digits number) }.answer r.entry
        { identifier := digits number, correlation := r.correlation, status := o.status, type := o.type
          length := digits o.length } := by
  rw [SearchTap.handle, search_received_responseLine cluster stamp number hr,
    search_responseLine cluster stamp number hr]
  dsimp only
  rw [hpending]

theorem parseInt_length (o : Outcome) : parseInt (digits o.length) = some (o.length : ℤ) := by
  have hlt := o.length_lt
  have hlen : (digits o.length).length ≤ 19 := length_digits_le (by decide) (by omega)
  exact parseInt_digits (by rw [maxStrDigits]; omega)

/-- The response of the cluster to `r`, as it is read. -/
def sentOf (number : ℕ) (r : Request) (o : Outcome) : Sent where
  identifier := digits number
  correlation := r.correlation
  status := o.status
  type := o.type
  length := digits o.length

/-- A response adds its answer, and a record if one fits the budget. -/
theorem answer_eq (tap : SearchTap) (number : ℕ) (r : Request) (o : Outcome) :
    tap.answer r.entry (sentOf number r o) =
      { tap with
        matched := tap.matched + 1
        budget := if 0 < tap.budget ∧ (answerTo r o).recordable then tap.budget - 1 else tap.budget
        records :=
          if 0 < tap.budget ∧ (answerTo r o).recordable then tap.records ++ [(answerTo r o).record]
          else tap.records
        answers := tap.answers ++ [answerTo r o] } := by
  have hlength : parseInt (sentOf number r o).length = some (o.length : ℤ) := parseInt_length o
  have hrecordable : (answerTo r o).recordable = true ↔
      ((routeFor r.target).dropWhile (· = '/')).rdropWhile (· = '/') ≠ [] := decide_eq_true_iff
  rw [SearchTap.answer, Request.entry]
  dsimp only
  rw [hlength]
  simp only [hrecordable]
  split_ifs
  · rfl
  · rfl

omit [DigitRuntime] in
theorem recorded_concat (served : List Answer) (a : Answer) :
    recorded (served ++ [a]) =
      if 0 < 500 - (served.filter Answer.recordable).length ∧ a.recordable then recorded served ++ [a.record]
      else recorded served := by
  rw [recorded, recorded, List.filter_append, List.map_append, List.take_append, List.length_map]
  rw [List.filter_singleton]
  by_cases ha : a.recordable = true
  · rw [ha, cond_true, List.map_singleton]
    split_ifs with hroom
    · rw [List.take_of_length_le (l := [a.record])]
      rw [List.length_singleton]
      omega
    · rw [not_and_or, not_lt] at hroom
      have hnone : 500 - (served.filter Answer.recordable).length = 0 := by
        rcases hroom with h | h
        · omega
        · exact absurd rfl h
      rw [hnone, List.take_zero, List.append_nil]
  · rw [if_neg fun h => ha h.2, Bool.not_eq_true _ |>.mp ha, cond_false, List.map_nil, List.take_nil, List.append_nil]

omit [DigitRuntime] in
theorem length_recordable_concat (served : List Answer) (a : Answer) :
    500 - ((served ++ [a]).filter Answer.recordable).length =
      if 0 < 500 - (served.filter Answer.recordable).length ∧ a.recordable then
        500 - (served.filter Answer.recordable).length - 1
      else 500 - (served.filter Answer.recordable).length := by
  rw [List.filter_append, List.length_append, List.filter_singleton]
  cases ha : a.recordable with
  | true =>
    rw [cond_true, List.length_singleton]
    split_ifs with hroom
    · omega
    · have hfull : ¬ 0 < 500 - (served.filter Answer.recordable).length := fun h => hroom ⟨h, rfl⟩
      omega
  | false =>
    rw [cond_false, List.length_nil, if_neg fun h => Bool.false_ne_true h.2]
    omega

/-- A plain request is read as it was written, and so is a response to one. -/
theorem read_step {w : World} (h : w.Read) {op : Op} (hop : op.Plain) : (w.step cluster op).Read := by
  cases op with
  | request stamp r =>
    rw [World.step, handle_requestLine cluster _ stamp w.number hop]
    refine ⟨fun number r' hr' => ?_, fun number => ?_, h.answers, h.records, h.budget, h.matched⟩
    · dsimp only at hr'
      rw [Dict.get?_set] at hr'
      split_ifs at hr' with hn
      · rw [← Option.some.inj hr']
        exact hop
      · exact h.plain number r' hr'
    · dsimp only
      rw [Dict.get?_set, Dict.get?_set, h.pending number]
      simp only [digits_inj]
      split_ifs
      · rfl
      · rfl
  | respond stamp number o =>
    rw [World.step]
    cases hget : w.pending.get? number with
    | none => exact h
    | some r =>
      have hpending : w.tap.pending.get? (digits number) = some r.entry := by
        rw [h.pending, hget, Option.map_some]
      dsimp only
      rw [handle_responseLine cluster stamp (h.plain number r hget) o hpending]
      have hanswer := answer_eq { w.tap with pending := w.tap.pending.pop (digits number) } number r o
      rw [sentOf] at hanswer
      rw [hanswer]
      refine ⟨fun n r' hr' => ?_, fun n => ?_, ?_, ?_, ?_, ?_⟩
      · dsimp only at hr'
        rw [Dict.get?_pop] at hr'
        split_ifs at hr'
        exact h.plain n r' hr'
      · dsimp only
        rw [Dict.get?_pop, Dict.get?_pop, h.pending n]
        simp only [digits_inj]
        split_ifs
        · rfl
        · rfl
      · dsimp only
        rw [h.answers]
      · dsimp only
        rw [recorded_concat, h.records, h.budget]
      · dsimp only
        rw [length_recordable_concat, h.budget]
      · dsimp only
        rw [h.matched, List.length_append, List.length_singleton]

omit [DigitRuntime] in
theorem read_start (number : ℕ) : World.Read { number := number } where
  plain _ _ h := by cases h
  pending _ := rfl
  answers := rfl
  records := rfl
  budget := rfl
  matched := rfl

/-- In a run of plain requests every answer counts as the cluster gave it, and it is recorded so. -/
theorem answers_of_plain (number : ℕ) (ops : List Op) (h : ∀ op ∈ ops, op.Plain) :
    (run (World.step cluster) { number := number } ops).tap.answers =
        (run (World.step cluster) { number := number } ops).served ∧
      (run (World.step cluster) { number := number } ops).tap.records =
        recorded (run (World.step cluster) { number := number } ops).served := by
  have hread : (run (World.step cluster) { number := number } ops).Read := by
    induction ops using List.reverseRecOn with
    | nil => exact read_start number
    | append_singleton ops op ih =>
      rw [run_concat]
      exact read_step cluster (ih fun op' hop' => h op' (List.mem_append_left _ hop'))
        (h op (List.mem_append_right _ List.mem_cons_self))
  exact ⟨hread.answers, hread.records⟩

end Runs

/-! ## A listing that was never given -/

def stamp : Stamp where
  text := chars "2026-07-20T10:00:00,000"
  plain := by decide
  dash := by decide

def search01 : Cluster where
  node := chars "search01"
  localAddress := chars "10.0.0.9:9200"
  node_plain := by decide
  local_host := List.all_eq_true.mp (by decide)

/-- A request for the cluster's greeting. -/
def greeting (correlation : Text) : Request where
  peer := chars "172.16.0.4"
  port := 40000
  method := chars "GET"
  target := chars "/"
  correlation := correlation
  peer_host := ⟨by simp [chars], List.all_eq_true.mp (by decide)⟩
  method_upper := ⟨by simp [chars], List.all_eq_true.mp (by decide)⟩
  target_some := by decide

def greeted : Outcome where
  status := chars "OK"
  type := chars "application/json; charset=UTF-8"
  length := 530
  status_outcome := ⟨by simp [chars], List.all_eq_true.mp (by decide)⟩
  type_plain := by simp [chars]
  length_lt := by decide

/-- The greeting is asked for, and given. -/
def plainRun : List Op := [.request stamp (greeting (chars "null")), .respond stamp 7 greeted]

theorem answers_of_plain_greeting :
    let _ := DigitRuntime.ascii
    (run (World.step search01) { number := 7 } plainRun).served = [answerTo (greeting (chars "null")) greeted] ∧
      (run (World.step search01) { number := 7 } plainRun).tap.answers =
          (run (World.step search01) { number := 7 } plainRun).served ∧
        (run (World.step search01) { number := 7 } plainRun).tap.records =
          recorded (run (World.step search01) { number := 7 } plainRun).served := by
  intro rt
  exact ⟨rfl, answers_of_plain search01 7 plainRun (by decide)⟩

/-- The greeting is asked for twice, first with the end of a request line in the header, then with the start of
a response line. -/
def forgingRun : List Op :=
  [.request stamp (greeting (chars
      "x][GET][/customers/_search] received request from [remoteAddress=/172.16.0.9:1")),
    .respond stamp 7 greeted,
    .request stamp (greeting (chars "x] [7][x][OK][json][48213] sent response to [x")),
    .respond stamp 8 greeted]

/-- Nobody asked for the customers, and nobody was given any. -/
theorem customers_are_counted :
    let _ := DigitRuntime.ascii
    (run (World.step search01) { number := 7 } forgingRun).tap.answers.filter (discloses 300) ≠ [] ∧
      (run (World.step search01) { number := 7 } forgingRun).served.filter (discloses 300) = [] := by
  intro rt
  constructor
  · decide +kernel
  · rfl

end PtaasBench.Infra.StoreTaps
