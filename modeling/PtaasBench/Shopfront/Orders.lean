import Mathlib.Data.List.Nodup
import Mathlib.Tactic.SplitIfs
import PtaasBench.Lib.Requests

/-!
# PtaasBench.Shopfront.Orders — the states of an order and its audit rows (`routes/orders.js`)

The routes that write, one statement of SQL at a time: each `sql` runs on its own connection of the pool, so that the
statements of two requests mix in any order.  Of the checkout, the statements about the order and its first audit row.

A move is checked against the state that was read, and written when others may have moved the order on.  So the audit
rows of an order need not be one chain.  What holds in every order of the statements is that they contain a walk of
allowed moves to the state the order is in; they are one chain where requests are served one after the other.
-/

namespace PtaasBench.Shopfront.Orders

open Lib List

inductive OrderState where
  | draft
  | created
  | placed
  | paid
  | picking
  | fulfilled
  | cancelled
  | refunded
  | comped
  | returned
deriving DecidableEq

namespace OrderState

def name : OrderState → String
  | draft => "draft"
  | created => "created"
  | placed => "placed"
  | paid => "paid"
  | picking => "picking"
  | fulfilled => "fulfilled"
  | cancelled => "cancelled"
  | refunded => "refunded"
  | comped => "comped"
  | returned => "returned"

/-- `TRANSITIONS` -/
def allowed : OrderState → List OrderState
  | placed => [paid, cancelled]
  | paid => [picking, cancelled, refunded]
  | picking => [fulfilled, cancelled]
  | fulfilled => [returned, refunded, comped]
  | returned => [refunded]
  | _ => []

/-- `STAFF_ONLY` -/
def staffOnly : List OrderState := [refunded, fulfilled, comped, picking, paid]

/-- A number that every move makes larger. -/
def rank : OrderState → ℕ
  | draft => 0
  | created => 0
  | placed => 1
  | paid => 2
  | picking => 3
  | fulfilled => 4
  | returned => 5
  | comped => 5
  | refunded => 6
  | cancelled => 6

theorem rank_lt {s s' : OrderState} (h : s' ∈ s.allowed) : s.rank < s'.rank := by
  revert h
  cases s <;> cases s' <;> decide

theorem allowed_returned {s : OrderState} (h : .returned ∈ s.allowed) : s = .fulfilled := by
  revert h
  cases s <;> decide

end OrderState

structure Session where
  customerId : ℤ
  role : String

structure Order where
  id : ℤ
  reference : String
  customerId : ℤ
  state : OrderState

/-- A row of `order_transitions`. -/
structure Transition where
  orderId : ℤ
  fromState : OrderState
  toState : OrderState
  actorSubject : String
  actorRole : String

/-- A row of `order_returns`. -/
structure Return where
  orderId : ℤ
  reason : String

structure Tables where
  orders : List Order
  transitions : List Transition
  returns : List Return
  /-- The counter `nextId("orders")` counts on. -/
  lastOrder : ℤ

namespace Tables

/-- `SELECT … FROM orders WHERE id = $1` -/
def order? (t : Tables) (id : ℤ) : Option Order := t.orders.find? fun o => o.id = id

/-- The audit rows of an order. -/
def audit (t : Tables) (id : ℤ) : List Transition := t.transitions.filter fun row => row.orderId = id

/-- `INSERT INTO orders`; the id is the primary key. -/
def insertOrder (t : Tables) (o : Order) : Option Tables :=
  if (t.order? o.id).isSome then none else some { t with orders := t.orders ++ [o] }

/-- `INSERT INTO order_transitions` -/
def insertTransition (t : Tables) (row : Transition) : Tables := { t with transitions := t.transitions ++ [row] }

/-- `INSERT INTO order_returns` -/
def insertReturn (t : Tables) (row : Return) : Tables := { t with returns := t.returns ++ [row] }

/-- `UPDATE orders SET state = $2 WHERE id = $1` -/
def setState (t : Tables) (id : ℤ) (s : OrderState) : Tables :=
  { t with orders := t.orders.map fun o => if o.id = id then { o with state := s } else o }

end Tables

/-! ## The routes -/

/-- The counter `transitionActorRole`: the order, the move and whose it is. -/
structure Signal where
  reference : String
  fromState : OrderState
  toState : OrderState
  customerId : ℤ
  role : String

/-- What a route was asked; `none` where its body is refused. -/
inductive Request where
  | place (me : Session)
  | transition (me : Session) (orderId : ℤ) (into : Option String)
  | returns (me : Session) (orderId : ℤ) (reason : Option String)

/-- What a request has done last, and what it remembers. -/
inductive Phase where
  | start
  | refused
  | numbered (id : ℤ)
  | inserted (id : ℤ)
  | read (row : Order)
  | recorded (row : Order) (into : OrderState)
  | answered

/-- `ORD-2026-` and the number on five digits -/
def referenceOf (id : ℤ) : String :=
  "ORD-2026-" ++ String.ofList (List.replicate (5 - (toString id).length) '0') ++ toString id

/-- The counter of a move. -/
def moveSignals (me : Session) (row : Order) (into : OrderState) : List Signal :=
  if into ∈ OrderState.staffOnly ∧ me.role ≠ "staff" then
    [⟨row.reference, row.state, into, me.customerId, me.role⟩]
  else []

/-- The audit row of a move. -/
def moveRow (me : Session) (id : ℤ) (row : Order) (into : OrderState) : Transition :=
  ⟨id, row.state, into, toString me.customerId, me.role⟩

/-- The state of this name, if the order may become it. -/
def target (row : Order) (into : Option String) : Option OrderState :=
  into.bind fun name => row.state.allowed.find? fun s => s.name = name

/-- The next statement of a request, with the code behind it. -/
def turn : Request → Tables → Phase → Tables × Phase × List Signal
  | .place _, t, .start => ({ t with lastOrder := t.lastOrder + 1 }, .numbered (t.lastOrder + 1), [])
  | .place me, t, .numbered id =>
    ((t.insertOrder ⟨id, referenceOf id, me.customerId, .placed⟩).map fun t' => (t', .inserted id, [])).getD
      (t, .refused, [])
  | .place me, t, .inserted id =>
    (t.insertTransition ⟨id, .draft, .placed, toString me.customerId, me.role⟩, .answered, [])
  | .transition _ id into, t, .start =>
    if into = none then (t, .refused, []) else (t, ((t.order? id).map Phase.read).getD .refused, [])
  | .transition me id into, t, .read row =>
    -- the state is the one that was read, not the one that the order may be in by now
    ((target row into).map fun s => (t.insertTransition (moveRow me id row s), .recorded row s, [])).getD
      (t, .refused, [])
  | .transition me id _, t, .recorded row into => (t.setState id into, .answered, moveSignals me row into)
  | .returns me id reason, t, .start =>
    if reason = none then (t, .refused, [])
    else (t, (((t.order? id).filter fun o => o.customerId = me.customerId ∧ o.state ∈ [.fulfilled, .returned]).map
      Phase.read).getD .refused, [])
  | .returns _ id reason, t, .read _ => (t.insertReturn ⟨id, reason.getD ""⟩, .answered, [])
  | _, t, phase => (t, phase, [])

/-! ## Reading after writing -/

section Tables

variable {t t' : Tables} {id : ℤ}

theorem order?_id {o : Order} (h : t.order? id = some o) : o.id = id := by simpa using List.find?_some h

theorem audit_insertTransition (t : Tables) (row : Transition) (id : ℤ) :
    (t.insertTransition row).audit id = if row.orderId = id then t.audit id ++ [row] else t.audit id := by
  unfold Tables.audit Tables.insertTransition
  rw [filter_append]
  split_ifs with h
  · rw [filter_cons_of_pos (by simpa using h)]
    rfl
  · rw [filter_cons_of_neg (by simpa using h)]
    exact append_nil _

theorem order?_setState (t : Tables) (id : ℤ) (s : OrderState) (id' : ℤ) :
    (t.setState id s).order? id' = (t.order? id').map fun o => if o.id = id then { o with state := s } else o := by
  have hid : ∀ o : Order, (if o.id = id then { o with state := s } else o : Order).id = o.id := by
    intro o
    split_ifs <;> rfl
  rw [Tables.order?, Tables.setState, List.find?_map]
  simp only [Function.comp_def, hid]
  rfl

theorem order?_insertOrder {o : Order} (h : t.insertOrder o = some t') :
    t.order? o.id = none ∧ t' = { t with orders := t.orders ++ [o] } ∧
      ∀ id, t'.order? id = if id = o.id then some o else t.order? id := by
  unfold Tables.insertOrder at h
  split_ifs at h with hsome
  obtain rfl := Option.some.inj h
  have hnone : t.order? o.id = none := by simpa using hsome
  refine ⟨hnone, rfl, fun id => ?_⟩
  show (t.orders ++ [o]).find? _ = _
  rw [List.find?_append, List.find?_singleton]
  by_cases hid : id = o.id
  · rw [if_pos hid, hid, if_pos (decide_eq_true rfl), show t.orders.find? _ = none from hnone, Option.none_or]
  · rw [if_neg hid, if_neg (by simpa using fun h => hid h.symm), Option.or_none]
    rfl

end Tables

/-! ## Statements of any requests, in any order -/

/-- Audit rows that lead from `placed` to a state, each by a move that is allowed. -/
inductive Walk : List Transition → OrderState → Prop where
  | placed : Walk [] .placed
  | move {rows row} : Walk rows row.fromState → row.toState ∈ row.fromState.allowed → Walk (rows ++ [row]) row.toState

/-- There is such a walk among the audit rows of the order, in the order in which they were written. -/
def Reached (t : Tables) (id : ℤ) (s : OrderState) : Prop := ∃ rows, rows.Sublist (t.audit id) ∧ Walk rows s

/-- The audit rows account for the state of every order, for every row and for every return. -/
structure Accounted (t : Tables) : Prop where
  orders : ∀ id o, t.order? id = some o → Reached t id o.state
  rows : ∀ row ∈ t.transitions, Reached t row.orderId row.toState
  returns : ∀ row ∈ t.returns, Reached t row.orderId .fulfilled

/-- Rows are only added. -/
def Later (t t' : Tables) : Prop := ∃ added, t'.transitions = t.transitions ++ added

section Accounted

variable {t t' : Tables} {id : ℤ} {s : OrderState}

theorem Later.refl (t : Tables) : Later t t := ⟨[], (append_nil _).symm⟩

theorem Later.of_eq (h : t'.transitions = t.transitions) : Later t t' := ⟨[], by rw [h, append_nil]⟩

theorem Later.insertTransition (t : Tables) (row : Transition) : Later t (t.insertTransition row) := ⟨[row], rfl⟩

theorem Reached.later (h : Reached t id s) (hlater : Later t t') : Reached t' id s := by
  obtain ⟨rows, hsub, hwalk⟩ := h
  obtain ⟨added, hadded⟩ := hlater
  refine ⟨rows, hsub.trans ?_, hwalk⟩
  rw [Tables.audit, Tables.audit, hadded, filter_append]
  exact sublist_append_left _ _

theorem reached_placed (t : Tables) (id : ℤ) : Reached t id .placed := ⟨[], nil_sublist _, .placed⟩

/-- A row that was just written is the last of a walk. -/
theorem Reached.move (h : Reached t id s) {row : Transition} (hid : row.orderId = id) (hfrom : row.fromState = s)
    (hallowed : row.toState ∈ s.allowed) : Reached (t.insertTransition row) id row.toState := by
  obtain ⟨rows, hsub, hwalk⟩ := h
  subst hfrom
  refine ⟨rows ++ [row], ?_, .move hwalk hallowed⟩
  rw [audit_insertTransition, if_pos hid]
  exact hsub.append_right [row]

/-- Nothing but a cancelled order has come further without being paid. -/
theorem Walk.paid {rows : List Transition} (h : Walk rows s) (hs : s ∉ [.placed, .cancelled]) :
    ∃ row ∈ rows, row.toState = .paid := by
  have hrest : ∀ s s' : OrderState, s' ∈ s.allowed → s' ∉ [OrderState.placed, .cancelled] → s' ≠ .paid →
      s ∉ [OrderState.placed, .cancelled] := by
    intro s s'
    cases s <;> cases s' <;> decide
  -- from the end of the walk backwards, up to the move that paid
  induction h with
  | placed => exact absurd (mem_cons_self) hs
  | @move rows row _ hallowed ih =>
    by_cases hpaid : row.toState = .paid
    · exact ⟨row, by simp, hpaid⟩
    · obtain ⟨earlier, hmem, hearlier⟩ := ih (hrest _ _ hallowed hs hpaid)
      exact ⟨earlier, mem_append_left _ hmem, hearlier⟩

/-- What was returned was fulfilled before. -/
theorem Reached.fulfilled (h : Reached t id s) (hs : s ∈ [.fulfilled, .returned]) : Reached t id .fulfilled := by
  rcases mem_cons.mp hs with rfl | hs
  · exact h
  · obtain rfl := mem_singleton.mp hs
    obtain ⟨rows, hsub, hwalk⟩ := h
    generalize hreturned : OrderState.returned = s at hwalk
    cases hwalk with
    | placed => cases hreturned
    | @move before row hbefore hallowed =>
      rw [← hreturned] at hallowed
      rw [OrderState.allowed_returned hallowed] at hbefore
      exact ⟨before, (sublist_append_left _ _).trans hsub, hbefore⟩

/-- What a request knows, whatever runs beside it. -/
def Standing : Request → Tables → Phase → Prop
  | .transition _ id _, t, .read row => Reached t id row.state
  | .transition _ id _, t, .recorded _ into => Reached t id into
  | .returns _ id _, t, .read _ => Reached t id .fulfilled
  | _, _, _ => True

theorem Standing.later {r : Request} {p : Phase} (h : Standing r t p) (hlater : Later t t') : Standing r t' p := by
  cases r with
  | place me => trivial
  | transition me id into =>
    cases p with
    | read row => exact Reached.later h hlater
    | recorded row s => exact Reached.later h hlater
    | _ => trivial
  | returns me id reason =>
    cases p with
    | read row => exact Reached.later h hlater
    | _ => trivial

theorem target_mem {row : Order} {into : Option String} (h : target row into = some s) : s ∈ row.state.allowed := by
  obtain ⟨name, -, hfind⟩ := Option.bind_eq_some_iff.mp h
  exact mem_of_find?_eq_some hfind

theorem Accounted.insertTransition (h : Accounted t) {row : Transition}
    (hrow : Reached (t.insertTransition row) row.orderId row.toState) : Accounted (t.insertTransition row) where
  orders id o ho := (h.orders id o ho).later (Later.insertTransition t row)
  rows r hr := by
    rcases mem_append.mp hr with hold | hnew
    · exact (h.rows r hold).later (Later.insertTransition t row)
    · rw [mem_singleton.mp hnew]
      exact hrow
  returns r hr := (h.returns r hr).later (Later.insertTransition t row)

/-- A turn of the request itself: rows are only added, they account for the tables, and the request knows what it needs
to know next. -/
theorem turn_keeps {r : Request} {p : Phase} (h : Accounted t) (hr : Standing r t p) :
    Later t (turn r t p).1 ∧ Accounted (turn r t p).1 ∧ Standing r (turn r t p).1 (turn r t p).2.1 := by
  have hself := Later.refl t
  cases r with
  | place me =>
    cases p with
    | start => exact ⟨Later.of_eq rfl, ⟨h.orders, h.rows, h.returns⟩, trivial⟩
    | numbered id =>
      rw [turn]
      cases hinsert : t.insertOrder ⟨id, referenceOf id, me.customerId, .placed⟩ with
      | none => exact ⟨hself, h, trivial⟩
      | some t' =>
        obtain ⟨-, rfl, hget⟩ := order?_insertOrder hinsert
        refine ⟨Later.of_eq rfl, ⟨fun id' o ho => ?_, h.rows, h.returns⟩, trivial⟩
        replace ho := (hget id').symm.trans ho
        split_ifs at ho
        · obtain rfl := Option.some.inj ho
          exact reached_placed _ _
        · exact h.orders id' o ho
    | inserted id => exact ⟨Later.insertTransition t _, h.insertTransition (reached_placed _ _), trivial⟩
    | _ => exact ⟨hself, h, trivial⟩
  | transition me id into =>
    cases p with
    | start =>
      rw [turn]
      split_ifs
      · exact ⟨hself, h, trivial⟩
      · cases horder : t.order? id with
        | none => exact ⟨hself, h, trivial⟩
        | some o => exact ⟨hself, h, h.orders id o horder⟩
    | read row =>
      rw [turn]
      cases htarget : target row into with
      | none => exact ⟨hself, h, trivial⟩
      | some s =>
        have hmove : Reached (t.insertTransition (moveRow me id row s)) id s :=
          Reached.move hr rfl rfl (target_mem htarget)
        exact ⟨Later.insertTransition t _, h.insertTransition hmove, hmove⟩
    | recorded row s =>
      refine ⟨Later.of_eq rfl, ⟨fun id' o ho => ?_, h.rows, h.returns⟩, trivial⟩
      rw [turn, order?_setState] at ho
      obtain ⟨o', ho', rfl⟩ := Option.map_eq_some_iff.mp ho
      split_ifs with hid
      · -- whatever the order was by now, there is a walk to the state that is written
        obtain rfl := (order?_id ho').symm.trans hid
        exact hr
      · exact h.orders id' o' ho'
    | _ => exact ⟨hself, h, trivial⟩
  | returns me id reason =>
    cases p with
    | start =>
      rw [turn]
      split_ifs
      · exact ⟨hself, h, trivial⟩
      · cases horder : t.order? id with
        | none => exact ⟨hself, h, trivial⟩
        | some o =>
          by_cases hmay : o.customerId = me.customerId ∧ o.state ∈ [OrderState.fulfilled, .returned]
          · rw [Option.filter_some_pos (by simpa using hmay)]
            exact ⟨hself, h, (h.orders id o horder).fulfilled hmay.2⟩
          · rw [Option.filter_some_neg (by simpa using hmay)]
            exact ⟨hself, h, trivial⟩
    | read row =>
      refine ⟨Later.of_eq rfl, ⟨h.orders, h.rows, fun r hr' => ?_⟩, trivial⟩
      rcases mem_append.mp hr' with hold | hnew
      · exact h.returns r hold
      · rw [mem_singleton.mp hnew]
        exact hr
    | _ => exact ⟨hself, h, trivial⟩

end Accounted

/-! ## All requests -/

variable {ι : Type} [DecidableEq ι] (requests : ι → Request)

/-- The requests at their first statement. -/
def opened (t : Tables) : Desk ι Tables Phase Signal := ⟨t, fun _ => .start, fun _ => []⟩

def serving : ι → Tables → Phase → Tables × Phase × List Signal := fun i => turn (requests i)

theorem accounted_run {t : Tables} (h : Accounted t) (schedule : List ι) :
    Accounted (run (Desk.step (serving requests)) (opened t) schedule).shared :=
  (Desk.run_both (serving requests) (P := fun i t p _ => Standing (requests i) t p)
    (fun _ _ _ _ h hr => (turn_keeps h hr).2.1) (fun _ _ _ _ h hr => (turn_keeps h hr).2.2)
    (fun _ _ _ _ _ _ _ _ h hr hj => hr.later (turn_keeps h hj).1) (s := opened t) h
    (fun i => by cases requests i <;> trivial) schedule).1

/-- Whatever the order of the statements, the audit rows of an order hold a walk of allowed moves from `placed` to the
state it is in, and to the state of each of the rows; what somebody returns was fulfilled; and an order that is past
`placed` and not cancelled has a row by which it was paid. -/
theorem state_accounted {t : Tables} (h : Accounted t) (schedule : List ι) :
    let s := run (Desk.step (serving requests)) (opened t) schedule
    Accounted s.shared ∧ ∀ id o, s.shared.order? id = some o → o.state ∉ [.placed, .cancelled] →
      ∃ row ∈ s.shared.audit id, row.toState = .paid := by
  intro s
  have haccounted : Accounted s.shared := accounted_run requests h schedule
  refine ⟨haccounted, fun id o ho hs => ?_⟩
  obtain ⟨rows, hsub, hwalk⟩ := haccounted.orders id o ho
  obtain ⟨row, hmem, hpaid⟩ := hwalk.paid hs
  exact ⟨row, hsub.subset hmem, hpaid⟩

/-! ## Moves that only staff makes -/

/-- Such a move, made by somebody else. -/
def OutOfRole (row : Transition) : Prop := row.toState ∈ OrderState.staffOnly ∧ row.actorRole ≠ "staff"

def Tells (signal : Signal) (row : Transition) : Prop :=
  signal.fromState = row.fromState ∧ signal.toState = row.toState ∧ row.actorSubject = toString signal.customerId ∧
    row.actorRole = signal.role

/-- The audit row that a request has written, and what it has told of it. -/
def Book : Request → Phase → List Signal → Option Transition → Prop
  | .transition me id _, .recorded o s, told, entry => told = [] ∧ entry = some (moveRow me id o s)
  | .transition me id _, .answered, told, entry =>
    ∃ o s, told = moveSignals me o s ∧ entry = some (moveRow me id o s)
  | .place _, .answered, told, entry => told = [] ∧ ∃ row, entry = some row ∧ row.toState = .placed
  | _, _, told, entry => told = [] ∧ entry = none

/-- A request writes one row at most. -/
theorem turn_book {r : Request} {p : Phase} {told : List Signal} {entry : Option Transition} (t : Tables)
    (h : Book r p told entry) :
    (turn r t p).1.transitions = t.transitions ∧ Book r (turn r t p).2.1 (told ++ (turn r t p).2.2) entry ∨
      entry = none ∧ ∃ row, (turn r t p).1.transitions = t.transitions ++ [row] ∧
        Book r (turn r t p).2.1 (told ++ (turn r t p).2.2) (some row) := by
  have hstay : Book r p (told ++ []) entry := by rwa [append_nil]
  cases r with
  | place me =>
    cases p with
    | start =>
      obtain ⟨rfl, rfl⟩ := h
      exact Or.inl ⟨rfl, rfl, rfl⟩
    | numbered id =>
      obtain ⟨rfl, rfl⟩ := h
      rw [turn]
      cases hinsert : t.insertOrder ⟨id, referenceOf id, me.customerId, .placed⟩ with
      | none => exact Or.inl ⟨rfl, rfl, rfl⟩
      | some t' =>
        obtain ⟨-, rfl, -⟩ := order?_insertOrder hinsert
        exact Or.inl ⟨rfl, rfl, rfl⟩
    | inserted id =>
      obtain ⟨rfl, rfl⟩ := h
      exact Or.inr ⟨rfl, _, rfl, rfl, _, rfl, rfl⟩
    | _ => exact Or.inl ⟨rfl, hstay⟩
  | transition me id into =>
    cases p with
    | start =>
      obtain ⟨rfl, rfl⟩ := h
      rw [turn]
      split_ifs
      · exact Or.inl ⟨rfl, rfl, rfl⟩
      · cases t.order? id with
        | none => exact Or.inl ⟨rfl, rfl, rfl⟩
        | some o => exact Or.inl ⟨rfl, rfl, rfl⟩
    | read row =>
      obtain ⟨rfl, rfl⟩ := h
      rw [turn]
      cases target row into with
      | none => exact Or.inl ⟨rfl, rfl, rfl⟩
      | some s => exact Or.inr ⟨rfl, _, rfl, rfl, rfl⟩
    | recorded row s =>
      obtain ⟨rfl, rfl⟩ := h
      exact Or.inl ⟨rfl, row, s, rfl, rfl⟩
    | _ => exact Or.inl ⟨rfl, hstay⟩
  | returns me id reason =>
    cases p with
    | start =>
      obtain ⟨rfl, rfl⟩ := h
      rw [turn]
      split_ifs
      · exact Or.inl ⟨rfl, rfl, rfl⟩
      · cases (t.order? id).filter fun o => o.customerId = me.customerId ∧ o.state ∈ [.fulfilled, .returned] with
        | none => exact Or.inl ⟨rfl, rfl, rfl⟩
        | some o => exact Or.inl ⟨rfl, rfl, rfl⟩
    | read row =>
      obtain ⟨rfl, rfl⟩ := h
      exact Or.inl ⟨rfl, rfl, rfl⟩
    | _ => exact Or.inl ⟨rfl, hstay⟩

/-- The rows that were added, each with the request that wrote it. -/
structure Written (t : Tables) (s : Desk ι Tables Phase Signal) (written : List (ι × Transition)) : Prop where
  rows : s.shared.transitions = t.transitions ++ written.map Prod.snd
  once : (written.map Prod.fst).Nodup
  book : ∀ i, ∃ entry, Book (requests i) (s.phase i) (s.told i) entry ∧ ∀ row, (i, row) ∈ written ↔ entry = some row

variable {requests}

theorem Written.step {t : Tables} {s : Desk ι Tables Phase Signal} {written : List (ι × Transition)}
    (h : Written requests t s written) (j : ι) :
    ∃ written', Written requests t (Desk.step (serving requests) s j) written' := by
  obtain ⟨entry, hbook, hentry⟩ := h.book j
  rcases turn_book s.shared hbook with ⟨hsame, hbook'⟩ | ⟨rfl, row, hadded, hbook'⟩
  · refine ⟨written, hsame.trans h.rows, h.once, fun i => ?_⟩
    by_cases hij : i = j
    · subst hij
      refine ⟨entry, ?_, hentry⟩
      show Book _ (Function.update s.phase i _ i) (Function.update s.told i _ i) _
      rw [Function.update_self, Function.update_self]
      exact hbook'
    · obtain ⟨entry', hbook', hentry'⟩ := h.book i
      refine ⟨entry', ?_, hentry'⟩
      show Book _ (Function.update s.phase j _ i) (Function.update s.told j _ i) _
      rw [Function.update_of_ne hij, Function.update_of_ne hij]
      exact hbook'
  · have hnew : j ∉ written.map Prod.fst := by
      intro hmem
      obtain ⟨⟨j', row'⟩, hw, rfl⟩ := mem_map.mp hmem
      cases (hentry row').mp hw
    refine ⟨written ++ [(j, row)], ?_, ?_, fun i => ?_⟩
    · rw [map_append, ← append_assoc, ← h.rows]
      exact hadded
    · rw [map_append, nodup_append]
      refine ⟨h.once, nodup_singleton _, ?_⟩
      rintro a ha b hb rfl
      obtain rfl := mem_singleton.mp hb
      exact hnew ha
    · by_cases hij : i = j
      · subst hij
        refine ⟨some row, ?_, fun row' => ?_⟩
        · show Book _ (Function.update s.phase i _ i) (Function.update s.told i _ i) _
          rw [Function.update_self, Function.update_self]
          exact hbook'
        · rw [mem_append, hentry row', mem_singleton, Prod.mk.injEq, Option.some.injEq, eq_comm (a := row)]
          simp
      · obtain ⟨entry', hbook', hentry'⟩ := h.book i
        refine ⟨entry', ?_, fun row' => ?_⟩
        · show Book _ (Function.update s.phase j _ i) (Function.update s.told j _ i) _
          rw [Function.update_of_ne hij, Function.update_of_ne hij]
          exact hbook'
        · rw [← hentry', mem_append, mem_singleton, Prod.mk.injEq]
          simp [hij]

/-- What a request has told is about its row, and a row that is out of role is told of in the end. -/
theorem Book.tells {r : Request} {p : Phase} {told : List Signal} {entry : Option Transition}
    (h : Book r p told entry) :
    told.length ≤ 1 ∧
      (∀ row, entry = some row → OutOfRole row → p = .answered → ∃ signal ∈ told, Tells signal row) ∧
      ∀ signal ∈ told, ∃ row, entry = some row ∧ OutOfRole row ∧ Tells signal row := by
  have hnone (hempty : told = [] ∧ entry = none) : told.length ≤ 1 ∧
      (∀ row, entry = some row → OutOfRole row → p = .answered → ∃ signal ∈ told, Tells signal row) ∧
      ∀ signal ∈ told, ∃ row, entry = some row ∧ OutOfRole row ∧ Tells signal row := by
    obtain ⟨rfl, rfl⟩ := hempty
    simp
  cases r with
  | place me =>
    cases p with
    | answered =>
      obtain ⟨rfl, row, rfl, hplaced⟩ := h
      refine ⟨Nat.zero_le _, ?_, forall_mem_nil _⟩
      rintro row' hrow' ⟨hstaff, -⟩ -
      obtain rfl := Option.some.inj hrow'
      rw [hplaced] at hstaff
      exact absurd hstaff (by decide)
    | _ => exact hnone h
  | transition me id into =>
    cases p with
    | answered =>
      obtain ⟨o, s, rfl, rfl⟩ := h
      unfold moveSignals
      split_ifs with hstaff
      · refine ⟨le_rfl, ?_, ?_⟩
        · rintro row hrow - -
          obtain rfl := Option.some.inj hrow
          exact ⟨_, mem_singleton_self _, rfl, rfl, rfl, rfl⟩
        · intro signal hsignal
          obtain rfl := mem_singleton.mp hsignal
          exact ⟨_, rfl, hstaff, rfl, rfl, rfl, rfl⟩
      · refine ⟨Nat.zero_le _, ?_, forall_mem_nil _⟩
        rintro row hrow hout -
        obtain rfl := Option.some.inj hrow
        exact absurd hout hstaff
    | recorded o s =>
      obtain ⟨rfl, rfl⟩ := h
      exact ⟨Nat.zero_le _, fun _ _ _ hanswered => Phase.noConfusion hanswered, forall_mem_nil _⟩
    | _ => exact hnone h
  | returns me id reason => exact hnone (by cases p <;> exact h)

variable (requests)

/-- Whatever the order of the statements: every audit row that is added is some request's only one; a request that wrote
one for a move that only staff makes, not being staff, has told of it when it is answered; and it is told once, and of
nothing else. -/
theorem staff_moves_noticed (t : Tables) (schedule : List ι) :
    let s := run (Desk.step (serving requests)) (opened t) schedule
    ∃ written : List (ι × Transition), s.shared.transitions = t.transitions ++ written.map Prod.snd ∧
      (written.map Prod.fst).Nodup ∧
      (∀ i row, (i, row) ∈ written → OutOfRole row → s.phase i = .answered →
        ∃ signal, s.told i = [signal] ∧ Tells signal row) ∧
      ∀ i, ∀ signal ∈ s.told i, s.told i = [signal] ∧ ∃ row, (i, row) ∈ written ∧ OutOfRole row ∧ Tells signal row := by
  intro s
  have hsingle {told : List Signal} (hlength : told.length ≤ 1) {signal : Signal} (hmem : signal ∈ told) :
      told = [signal] := by
    obtain ⟨only, rfl⟩ := length_eq_one_iff.mp (hlength.antisymm (length_pos_of_mem hmem))
    rw [mem_singleton.mp hmem]
  have hwritten : ∃ written, Written requests t s written := by
    refine run_invariant _ (P := fun s => ∃ written, Written requests t s written) ⟨[], ?_, nodup_nil, fun i => ?_⟩
      (fun s j ⟨written, h⟩ => h.step j) schedule
    · exact (append_nil _).symm
    · exact ⟨none, by cases requests i <;> exact ⟨rfl, rfl⟩, by simp⟩
  obtain ⟨written, h⟩ := hwritten
  refine ⟨written, h.rows, h.once, fun i row hrow hout hanswered => ?_, fun i signal hsignal => ?_⟩
  · obtain ⟨entry, hbook, hentry⟩ := h.book i
    obtain ⟨hlength, htold, -⟩ := hbook.tells
    obtain ⟨signal, hmem, htells⟩ := htold row ((hentry row).mp hrow) hout hanswered
    exact ⟨signal, hsingle hlength hmem, htells⟩
  · obtain ⟨entry, hbook, hentry⟩ := h.book i
    obtain ⟨hlength, -, hrow⟩ := hbook.tells
    obtain ⟨row, hsome, hout, htells⟩ := hrow signal hsignal
    exact ⟨hsingle hlength hsignal, row, (hentry row).mpr hsome, hout, htells⟩

/-! ## One request after the other -/

/-- All the audit rows of an order, each where the one before has led. -/
inductive Trail : List Transition → OrderState → Prop where
  | placed {row} : row.toState = .placed → Trail [row] .placed
  | move {rows row} : Trail rows row.fromState → row.toState ∈ row.fromState.allowed →
      Trail (rows ++ [row]) row.toState

theorem Trail.rank_le {rows : List Transition} {s : OrderState} (h : Trail rows s) :
    ∀ row ∈ rows, row.toState.rank ≤ s.rank := by
  induction h with
  | placed hplaced =>
    intro row hrow
    rw [mem_singleton.mp hrow, hplaced]
  | @move rows row _ hallowed ih =>
    intro row' hrow'
    have hlt := OrderState.rank_lt hallowed
    rcases mem_append.mp hrow' with hold | hnew
    · exact (ih row' hold).trans hlt.le
    · rw [mem_singleton.mp hnew]

/-- An order is in no state twice. -/
theorem Trail.nodup {rows : List Transition} {s : OrderState} (h : Trail rows s) :
    (rows.map Transition.toState).Nodup := by
  induction h with
  | placed hplaced => exact nodup_singleton _
  | @move rows row htrail hallowed ih =>
    rw [map_append, nodup_append]
    refine ⟨ih, nodup_singleton _, ?_⟩
    rintro a ha b hb rfl
    obtain ⟨earlier, hearlier, rfl⟩ := mem_map.mp ha
    have hle := htrail.rank_le earlier hearlier
    have hlt := OrderState.rank_lt hallowed
    rw [← mem_singleton.mp hb] at hlt
    omega

/-- The audit rows of every order are one trail to the state it is in. -/
structure Chained (t : Tables) : Prop where
  known : ∀ row ∈ t.transitions, (t.order? row.orderId).isSome
  trail : ∀ id o, t.order? id = some o → Trail (t.audit id) o.state

theorem Chained.audit_eq_nil {t : Tables} (h : Chained t) {id : ℤ} (hnone : t.order? id = none) : t.audit id = [] := by
  rw [Tables.audit, filter_eq_nil_iff]
  intro row hrow hid
  have hknown := h.known row hrow
  rw [of_decide_eq_true hid, hnone] at hknown
  cases hknown

theorem Chained.place {t t' : Tables} (h : Chained t) {o : Order} (hplaced : o.state = .placed)
    (hinsert : t.insertOrder o = some t') {row : Transition} (hid : row.orderId = o.id) (hrow : row.toState = .placed) :
    Chained (t'.insertTransition row) := by
  obtain ⟨hnone, rfl, hget⟩ := order?_insertOrder hinsert
  constructor
  · intro r hr
    show ((Tables.order? _ _).isSome : Bool) = true
    refine (congrArg Option.isSome (hget r.orderId)).trans ?_
    split_ifs with hnew
    · rfl
    · rcases mem_append.mp hr with hold | hlast
      · exact h.known r hold
      · exact absurd ((congrArg Transition.orderId (mem_singleton.mp hlast)).trans hid) hnew
  · intro id o' ho'
    replace ho' := (hget id).symm.trans ho'
    rw [audit_insertTransition]
    split_ifs at ho' with hnew
    · obtain rfl := Option.some.inj ho'
      rw [if_pos (hid.trans hnew.symm), hplaced, hnew]
      show Trail (t.audit o.id ++ [row]) _
      rw [h.audit_eq_nil hnone]
      exact .placed hrow
    · rw [if_neg fun heq => hnew (heq.symm.trans hid)]
      exact h.trail id o' ho'

theorem Chained.move {t : Tables} (h : Chained t) {id : ℤ} {o : Order} (ho : t.order? id = some o) {me : Session}
    {s : OrderState} (hallowed : s ∈ o.state.allowed) :
    Chained ((t.insertTransition (moveRow me id o s)).setState id s) := by
  have hget (id' : ℤ) : ((t.insertTransition (moveRow me id o s)).setState id s).order? id' =
      (t.order? id').map fun o => if o.id = id then { o with state := s } else o := order?_setState _ id s id'
  constructor
  · intro row hrow
    rw [hget, Option.isSome_map]
    rcases mem_append.mp hrow with hold | hnew
    · exact h.known row hold
    · rw [mem_singleton.mp hnew]
      exact Option.isSome_iff_exists.mpr ⟨o, ho⟩
  · intro id' o' ho'
    rw [hget] at ho'
    obtain ⟨before, hbefore, rfl⟩ := Option.map_eq_some_iff.mp ho'
    have haudit : ((t.insertTransition (moveRow me id o s)).setState id s).audit id' =
        if id = id' then t.audit id' ++ [moveRow me id o s] else t.audit id' :=
      audit_insertTransition t (moveRow me id o s) id'
    rw [haudit]
    by_cases hid : id = id'
    · subst hid
      obtain rfl := Option.some.inj (hbefore.symm.trans ho)
      rw [if_pos rfl, if_pos (order?_id hbefore)]
      exact .move (h.trail id before hbefore) hallowed
    · rw [if_neg hid, if_neg fun heq => hid (heq.symm.trans (order?_id hbefore))]
      exact h.trail id' before hbefore

/-- Nothing is left to do. -/
def Finished (p : Phase) : Prop := p = .refused ∨ p = .answered

theorem turn_finished (r : Request) (t : Tables) {p : Phase} (h : Finished p) : turn r t p = (t, p, []) := by
  rcases h with rfl | rfl
  · cases r <;> rfl
  · cases r <;> rfl

/-- Served alone, the request comes to an end that leaves trails. -/
abbrev Ends (r : Request) (n : ℕ) (x : Tables × Phase × List Signal) : Prop :=
  Desk.Ends (turn r) Finished (fun t _ => Chained t) n x

theorem ends_refused (r : Request) {t : Tables} (h : Chained t) (n : ℕ) : Ends r n (t, .refused, []) :=
  .idle (turn_finished r t (Or.inl rfl)) (Or.inl rfl) h n

theorem ends_answered (r : Request) {t : Tables} (h : Chained t) (told : List Signal) (n : ℕ) :
    Ends r n (t, .answered, told) :=
  .idle (turn_finished r t (Or.inr rfl)) (Or.inr rfl) h n

/-- Three turns are enough for any request that runs alone. -/
theorem ends_start (r : Request) {t : Tables} (h : Chained t) : Ends r 3 (t, .start, []) := by
  cases r with
  | place me =>
    let counted : Tables := { t with lastOrder := t.lastOrder + 1 }
    have hcounted : Chained counted := ⟨h.known, h.trail⟩
    have hstart : turn (.place me) t .start = (counted, .numbered (t.lastOrder + 1), []) := rfl
    refine .succ hstart ?_
    cases hinsert : counted.insertOrder ⟨t.lastOrder + 1, referenceOf (t.lastOrder + 1), me.customerId, .placed⟩ with
    | none =>
      have hturn : turn (.place me) counted (.numbered (t.lastOrder + 1)) = (counted, .refused, []) := by
        rw [turn, hinsert]
        rfl
      exact .succ hturn (ends_refused _ hcounted 1)
    | some t' =>
      have hturn : turn (.place me) counted (.numbered (t.lastOrder + 1)) = (t', .inserted (t.lastOrder + 1), []) := by
        rw [turn, hinsert]
        rfl
      exact .succ hturn (.succ rfl (ends_answered _ (hcounted.place rfl hinsert rfl rfl) [] 0))
  | transition me id into =>
    by_cases hinto : into = none
    · exact .succ (by rw [turn, if_pos hinto]) (ends_refused _ h 2)
    · refine .succ (by rw [turn, if_neg hinto]) ?_
      cases horder : t.order? id with
      | none => exact ends_refused _ h 2
      | some row =>
        cases htarget : target row into with
        | none =>
          have hturn : turn (.transition me id into) t (.read row) = (t, .refused, []) := by
            rw [turn, htarget]
            rfl
          exact .succ hturn (ends_refused _ h 1)
        | some s =>
          have hturn : turn (.transition me id into) t (.read row) =
              (t.insertTransition (moveRow me id row s), .recorded row s, []) := by
            rw [turn, htarget]
            rfl
          exact .succ hturn (.succ rfl (ends_answered _ (h.move horder (target_mem htarget)) _ 0))
  | returns me id reason =>
    by_cases hreason : reason = none
    · exact .succ (by rw [turn, if_pos hreason]) (ends_refused _ h 2)
    · refine .succ (by rw [turn, if_neg hreason]) ?_
      cases (t.order? id).filter fun o => o.customerId = me.customerId ∧ o.state ∈ [.fulfilled, .returned] with
      | none => exact ends_refused _ h 2
      | some row =>
        have hreturned : Chained (t.insertReturn ⟨id, reason.getD ""⟩) := ⟨h.known, h.trail⟩
        exact .succ rfl (ends_answered _ hreturned [] 1)

/-- Requests that are served one after the other: the audit rows of an order are one trail to the state it is in, and it
is in no state twice. -/
theorem served_in_chain {t : Tables} (h : Chained t) (order : List ι) :
    let s := run (Desk.step (serving requests)) (opened t) (order.flatMap (List.replicate 3))
    ∀ id o, s.shared.order? id = some o →
      Trail (s.shared.audit id) o.state ∧ ((s.shared.audit id).map Transition.toState).Nodup := by
  intro s id o ho
  have hchained : Chained s.shared := by
    refine (Desk.run_served (serving requests) (R := fun _ _ => True) (fun i t p => turn_finished (requests i) t)
      (fun i t ht => ?_) h order).1
    obtain ⟨t', p, told, hsolo, hfinished, hchained⟩ := ends_start (requests i) ht
    exact ⟨t', p, told, hsolo, hfinished, hchained, fun _ _ => trivial⟩
  have htrail := hchained.trail id o ho
  exact ⟨htrail, htrail.nodup⟩

/-- An order that was just placed. -/
def onePlaced : Tables :=
  ⟨[⟨1, referenceOf 1, 7, .placed⟩], [⟨1, .draft, .placed, "7", "customer"⟩], [], 1⟩

theorem order?_onePlaced {id : ℤ} {o : Order} (h : onePlaced.order? id = some o) :
    id = 1 ∧ o = ⟨1, referenceOf 1, 7, .placed⟩ := by
  have hmem := mem_singleton.mp (mem_of_find?_eq_some h)
  exact ⟨(order?_id h).symm.trans (congrArg Order.id hmem), hmem⟩

theorem chained_onePlaced : Chained onePlaced := by
  constructor
  · intro row hrow
    rw [mem_singleton.mp hrow]
    rfl
  · intro id o ho
    obtain ⟨rfl, rfl⟩ := order?_onePlaced ho
    exact .placed rfl

theorem accounted_onePlaced : Accounted onePlaced := by
  refine ⟨fun id o ho => ?_, fun row hrow => ?_, forall_mem_nil _⟩
  · obtain ⟨rfl, rfl⟩ := order?_onePlaced ho
    exact reached_placed _ _
  · rw [mem_singleton.mp hrow]
    exact reached_placed _ _

/-- A customer who moves the order along. -/
def customerMoves : Bool → Request := fun second =>
  .transition ⟨7, "customer"⟩ 1 (if second then "picking" else "paid")

theorem served_in_chain_onePlaced :
    let s := run (Desk.step (serving customerMoves)) (opened onePlaced) ([false, true].flatMap (List.replicate 3))
    ∀ id o, s.shared.order? id = some o →
      Trail (s.shared.audit id) o.state ∧ ((s.shared.audit id).map Transition.toState).Nodup :=
  served_in_chain customerMoves chained_onePlaced [false, true]

theorem state_accounted_onePlaced :
    let s := run (Desk.step (serving customerMoves)) (opened onePlaced) [false, true, false, true, false, true]
    Accounted s.shared ∧ ∀ id o, s.shared.order? id = some o → o.state ∉ [.placed, .cancelled] →
      ∃ row ∈ s.shared.audit id, row.toState = .paid :=
  state_accounted customerMoves accounted_onePlaced [false, true, false, true, false, true]

/-- Two payments whose statements mix: the order is paid twice, as it is not when they come one after the other. -/
example :
    ((run (Desk.step (serving fun _ : Bool => .transition ⟨7, "customer"⟩ 1 (some "paid"))) (opened onePlaced)
      [false, true, false, true, false, true]).shared.audit 1).map Transition.toState = [.placed, .paid, .paid] := by
  decide

end PtaasBench.Shopfront.Orders
