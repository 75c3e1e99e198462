import Mathlib.Algebra.Order.Ring.Rat
import Mathlib.Data.Nat.Cast.Order.Ring
import PtaasBench.Lib.Backlog
import PtaasBench.Lib.Machine
import PtaasBench.Lib.Threads

/-!
# PtaasBench.Sdk.NodeTransport — the exporter of the Node agent (`transport.ts`, `config.ts`)

One thread: a call of `enqueue` or `flush` runs up to the awaited requests, and a request settles
later.  The events are numbered in the order of the calls of `enqueue`.  The lists at the end of the
state only note what happened.
-/

namespace PtaasBench.Sdk.NodeTransport

open Lib List

/-! ## Numbers -/

/-- A number of JavaScript. -/
inductive Number where
  | nan
  | finite (q : ℚ)
  | infinite (negative : Bool)
deriving DecidableEq

namespace Number

/-- `<=` -/
def le : Number → Number → Bool
  | nan, _ => false
  | _, nan => false
  | finite a, finite b => a ≤ b
  | infinite negative, finite _ => negative
  | finite _, infinite negative => !negative
  | infinite negative, infinite negative' => negative || !negative'

instance (n : ℕ) : OfNat Number n := ⟨finite n⟩

instance : Coe ℕ Number := ⟨fun n => finite n⟩

/-- `Math.min` -/
def min : Number → Number → Number
  | nan, _ => nan
  | _, nan => nan
  | a, b => if a.le b then a else b

/-- The number of places `splice(0, count)` takes out of `len`. -/
def deleteCount (count : Number) (len : ℕ) : ℕ :=
  match count with
  | nan => 0
  | finite q => Nat.min q.floor.toNat len
  | infinite negative => if negative then 0 else len

/-- The least count from it on, up to a given one. -/
def ceil (most : ℕ) : Number → ℕ
  | nan => 0
  | finite q => Nat.min q.ceil.toNat most
  | infinite negative => if negative then 0 else most

/-- `a + n` for a count. -/
def plus : Number → ℕ → Number
  | nan, _ => nan
  | finite q, n => finite (q + n)
  | infinite negative, _ => infinite negative

/-- No count lies strictly between it and the next whole number. -/
def Whole : Number → Prop
  | nan => False
  | finite q => (q.floor : ℚ) = q
  | infinite _ => True

instance : ∀ a : Number, Decidable a.Whole
  | nan => instDecidableFalse
  | finite q => inferInstanceAs (Decidable ((q.floor : ℚ) = q))
  | infinite _ => instDecidableTrue

/-- It is positive. -/
def Positive : Number → Prop
  | nan => False
  | finite q => 0 < q
  | infinite negative => negative = false

instance : ∀ a : Number, Decidable a.Positive
  | nan => instDecidableFalse
  | finite q => inferInstanceAs (Decidable (0 < q))
  | infinite negative => inferInstanceAs (Decidable (negative = false))

/-- A count that stays within a limit. -/
def Fits (n : ℕ) (limit : Number) : Prop := (n : Number).le limit = true

instance (n : ℕ) (limit : Number) : Decidable (Fits n limit) :=
  inferInstanceAs (Decidable (_ = true))

theorem Fits.mono {m n : ℕ} {limit : Number} (h : Fits n limit) (hmn : m ≤ n) : Fits m limit := by
  cases limit with
  | nan => exact h
  | finite q =>
    have hn : (n : ℚ) ≤ q := of_decide_eq_true h
    have hm : (m : ℚ) ≤ n := Nat.cast_le.mpr hmn
    exact decide_eq_true (hm.trans hn)
  | infinite negative => exact h

theorem Fits.plus {n : ℕ} {limit : Number} (h : Fits n limit) (k : ℕ) :
    Fits (n + k) (limit.plus k) := by
  cases limit with
  | nan => exact h
  | finite q =>
    have hn : (n : ℚ) ≤ q := of_decide_eq_true h
    refine decide_eq_true ?_
    rw [Nat.cast_add]
    exact add_le_add_left hn _
  | infinite negative => exact h

theorem plus_zero (limit : Number) : limit.plus 0 = limit := by
  cases limit with
  | nan | infinite => rfl
  | finite q => rw [plus, Nat.cast_zero, add_zero]

theorem Positive.fits_zero {limit : Number} (h : limit.Positive) : Fits 0 limit := by
  cases limit with
  | nan => exact h.elim
  | finite q => exact decide_eq_true (by rw [Nat.cast_zero]; exact le_of_lt h)
  | infinite negative =>
    obtain rfl : negative = false := h
    rfl

/-- Nothing reaches a positive limit by being empty. -/
theorem Positive.not_le_zero {limit : Number} (h : limit.Positive) : ¬ limit.le (0 : ℕ) = true := by
  cases limit with
  | nan => exact h.elim
  | finite q =>
    intro hle
    have hq : q ≤ ((0 : ℕ) : ℚ) := of_decide_eq_true hle
    rw [Nat.cast_zero] at hq
    exact absurd h (not_lt.mpr hq)
  | infinite negative =>
    obtain rfl : negative = false := h
    exact Bool.false_ne_true

/-- Below a limit there is room for what lies below it, and for one more if the limit is whole. -/
theorem Positive.fits_of_not_le {limit : Number} (h : limit.Positive) {n : ℕ}
    (hn : ¬ limit.le n = true) : Fits n limit ∧ (limit.Whole → Fits (n + 1) limit) := by
  cases limit with
  | nan => exact h.elim
  | finite q =>
    have hlt : (n : ℚ) < q := not_le.mp fun hle => hn (decide_eq_true hle)
    refine ⟨decide_eq_true hlt.le, fun hwhole => decide_eq_true ?_⟩
    have hq : (q.floor : ℚ) = q := hwhole
    have hfloor : (n : ℤ) < q.floor := by
      rw [← hq] at hlt
      exact_mod_cast hlt
    rw [← hq]
    exact_mod_cast hfloor
  | infinite negative =>
    obtain rfl : negative = false := h
    exact ⟨rfl, fun _ => rfl⟩

theorem deleteCount_le (count : Number) (len : ℕ) : count.deleteCount len ≤ len := by
  cases count with
  | nan => exact Nat.zero_le _
  | finite q => exact Nat.min_le_right _ _
  | infinite negative => cases negative <;> simp [deleteCount]

theorem floor_pos {q : ℚ} (h : ((1 : ℕ) : ℚ) ≤ q) : 1 ≤ q.floor.toNat := by
  have hfloor : (1 : ℤ) ≤ q.floor := Rat.le_floor_iff.mpr (by exact_mod_cast h)
  omega

theorem deleteCount_pos {count : Number} (h : Fits 1 count) {len : ℕ} (hlen : 0 < len) :
    0 < count.deleteCount len := by
  cases count with
  | nan => exact absurd h Bool.false_ne_true
  | finite q => exact lt_min (floor_pos (of_decide_eq_true h)) hlen
  | infinite negative =>
    cases negative with
    | false => exact hlen
    | true => exact absurd h Bool.false_ne_true

theorem deleteCount_eq_zero {count : Number} (h : ¬ Fits 1 count) (len : ℕ) :
    count.deleteCount len = 0 := by
  cases count with
  | nan => rfl
  | finite q =>
    have hlt : q < ((1 : ℕ) : ℚ) := not_le.mp fun hle => h (decide_eq_true hle)
    have hfloor : q.floor < 1 := Rat.floor_lt_iff.mpr (by exact_mod_cast hlt)
    have hzero : q.floor.toNat = 0 := by omega
    rw [deleteCount, hzero]
    exact Nat.zero_min _
  | infinite negative =>
    cases negative with
    | false => exact absurd rfl h
    | true => rfl

/-- What lies below a number lies below the count from it on. -/
theorem lt_ceil {limit : Number} (hnan : limit ≠ nan) {n most : ℕ} (hn : ¬ limit.le n = true)
    (hmost : n < most) : n < limit.ceil most := by
  cases limit with
  | nan => exact absurd rfl hnan
  | finite q =>
    have hlt : (n : ℚ) < q := not_le.mp fun hle => hn (decide_eq_true hle)
    have hceil : (n : ℤ) < q.ceil := Rat.lt_ceil_iff.mpr (by exact_mod_cast hlt)
    exact lt_min (by omega) hmost
  | infinite negative =>
    cases negative with
    | false => exact hmost
    | true => exact absurd rfl hn

/-- What lies below a bounded number lies below its bound. -/
theorem lt_of_le {limit : Number} {n most : ℕ} (hmost : limit.le most = true) (h : Fits 1 limit)
    (hn : ¬ limit.le n = true) : n < most := by
  cases limit with
  | nan => exact absurd h Bool.false_ne_true
  | finite q =>
    have hq : q ≤ (most : ℚ) := of_decide_eq_true hmost
    have hlt : (n : ℚ) < q := not_le.mp fun hle => hn (decide_eq_true hle)
    exact_mod_cast hlt.trans_le hq
  | infinite negative =>
    cases negative with
    | false => exact absurd hmost Bool.false_ne_true
    | true => exact absurd h Bool.false_ne_true

theorem ceil_le_deleteCount {count : Number} (most : ℕ) :
    count.ceil most ≤ count.deleteCount most + 1 := by
  cases count with
  | nan => exact Nat.zero_le _
  | finite q =>
    have hceil : q.ceil ≤ q.floor + 1 := Rat.ceil_le_iff.mpr (Rat.lt_floor_add_one q).le
    show Min.min q.ceil.toNat most ≤ Min.min q.floor.toNat most + 1
    omega
  | infinite negative =>
    cases negative with
    | false => exact Nat.le_succ _
    | true => exact Nat.zero_le _

end Number

/-! ## Configuration -/

structure TelemetryOptions where
  service : Option String := none
  endpoint : Option String := none
  batchSize : Option Number := none
  maxQueueSize : Option Number := none
  reportDiscards : Option Bool := none
  /-- Is what `fetchImpl` comes to a function? -/
  fetches : Bool := true

structure Env where
  TELEMETRY_SERVICE : Option String := none
  TELEMETRY_ENDPOINT : Option String := none

structure ResolvedConfig where
  service : String
  endpoint : Option String
  batchSize : Number
  maxQueueSize : Number
  reportDiscards : Bool
  fetches : Bool

def MAX_BATCH : ℕ := 500

def stripTrailingSlash (url : String) : String :=
  if url.toList.getLast? = some '/' then String.ofList url.toList.dropLast else url

def resolveConfig (options : TelemetryOptions) (env : Env) : ResolvedConfig :=
  let endpointRaw := (options.endpoint.or env.TELEMETRY_ENDPOINT).getD ""
  { service := (options.service.or env.TELEMETRY_SERVICE).getD ""
    endpoint := if endpointRaw = "" then none else some (stripTrailingSlash endpointRaw)
    batchSize := (options.batchSize.getD MAX_BATCH).min MAX_BATCH
    maxQueueSize := options.maxQueueSize.getD 10000
    reportDiscards := options.reportDiscards.getD true
    fetches := options.fetches }

/-- A batch is no larger than the ingest limit. -/
theorem resolveConfig_batchSize (options : TelemetryOptions) (env : Env)
    (h : Number.Fits 1 (resolveConfig options env).batchSize) :
    (resolveConfig options env).batchSize.le MAX_BATCH = true := by
  rw [resolveConfig] at h ⊢
  dsimp only at h ⊢
  cases hsize : options.batchSize.getD (MAX_BATCH : Number) with
  | nan => rw [hsize] at h; exact absurd h Bool.false_ne_true
  | finite q =>
    dsimp only [Number.min]
    split_ifs with hle
    · exact hle
    · exact decide_eq_true (le_refl (MAX_BATCH : ℚ))
  | infinite negative =>
    cases negative with
    | false => rfl
    | true => rfl

/-! ## The transport -/

inductive TelemetryEvent (ρ : Type*) where
  | event (record : Tagged ρ)
  | note (app : String) (message : String)

def discardMessage (discarded : ℕ) : String :=
  "telemetry: discarded " ++ toString discarded ++ " event(s), queue limit reached"

structure Transport (ρ : Type*) where
  queue : List (TelemetryEvent ρ) := []
  timer : Bool := false
  closed : Bool := false
  unreportedDiscards : ℕ := 0
  enqueued : ℕ := 0
  discarded : ℕ := 0
  sent : ℕ := 0
  failed : ℕ := 0
  batches : ℕ := 0
  /-- The batches whose `POST` has not settled. -/
  posts : List (List (TelemetryEvent ρ)) := []
  /-- The loop of `flush` goes round for ever. -/
  hung : Bool := false
  calls : ℕ := 0
  /-- The events the queue took. -/
  arrived : List (Tagged ρ) := []
  evictions : List (Eviction ρ) := []
  /-- The events taken off the queue by `flush`. -/
  posted : List (Tagged ρ) := []

def events {ρ : Type*} (l : List (TelemetryEvent ρ)) : List (Tagged ρ) :=
  l.filterMap fun
    | .event record => some record
    | .note _ _ => none

section Step

variable {ρ : Type*} (cfg : ResolvedConfig)
  -- does `serializeBatch` come to a body?
  (serializes : List (TelemetryEvent ρ) → Bool)

def full (t : Transport ρ) : Bool := cfg.maxQueueSize.le t.queue.length

/-- `enqueue` up to `push`: an empty queue that counts as full has nothing to shift. -/
def shift (t : Transport ρ) : Transport ρ :=
  if full cfg t then
    { t with
      queue := t.queue.tail
      discarded := t.discarded + 1
      unreportedDiscards := t.unreportedDiscards + 1
      evictions := t.evictions ++
        ((events t.queue).head?.map fun oldest => { entry := oldest, queue := events t.queue }).toList }
  else t

def append (t : Transport ρ) (record : Tagged ρ) : Transport ρ :=
  { t with
    queue := t.queue ++ [.event record]
    enqueued := t.enqueued + 1
    calls := t.calls + 1
    arrived := t.arrived ++ [record] }

def push (t : Transport ρ) (body : ρ) : Transport ρ :=
  append (shift cfg t) { number := t.calls, body := body }

def arm (t : Transport ρ) : Transport ρ :=
  if t.timer || t.closed then t else { t with timer := true }

/-- `post` up to its request. -/
def post (batch : List (TelemetryEvent ρ)) (t : Transport ρ) : Transport ρ :=
  let t := { t with batches := t.batches + 1, posted := t.posted ++ events batch }
  if cfg.endpoint.isSome && serializes batch then { t with posts := t.posts ++ [batch] }
  else { t with failed := t.failed + batch.length }

/-- The loop of `flush`; a queue that is not empty has fuel left. -/
def drain : ℕ → Transport ρ → Transport ρ
  | 0, t => t
  | fuel + 1, t =>
    if t.queue = [] then t
    else
      let count := cfg.batchSize.deleteCount t.queue.length
      if count = 0 then { t with hung := true }
      else drain fuel (post cfg serializes (t.queue.take count) { t with queue := t.queue.drop count })

def noteDue (t : Transport ρ) : Bool := cfg.reportDiscards && 0 < t.unreportedDiscards

/-- `flush` up to its loop. -/
def report (t : Transport ρ) : Transport ρ :=
  if noteDue cfg t then
    { t with
      unreportedDiscards := 0
      queue := .note cfg.service (discardMessage t.unreportedDiscards) :: t.queue }
  else t

def flush (t : Transport ρ) : Transport ρ :=
  let t := report cfg t
  drain cfg serializes t.queue.length t

def enqueue (t : Transport ρ) (body : ρ) : Transport ρ :=
  if t.closed then t
  else
    let t := push cfg t body
    if cfg.batchSize.le t.queue.length then flush cfg serializes t else arm t

/-- The timer goes off, if it is set. -/
def tick (t : Transport ρ) : Transport ρ :=
  if t.timer then flush cfg serializes { t with timer := false } else t

def shutdown (t : Transport ρ) : Transport ρ :=
  flush cfg serializes { t with closed := true, timer := false }

/-- The `k`-th outstanding request settles; `ok` says that the answer was a success. -/
def settle (t : Transport ρ) (k : ℕ) (ok : Bool) : Transport ρ :=
  match t.posts[k]? with
  | none => t
  | some batch =>
    let t := { t with posts := t.posts.eraseIdx k }
    if ok && cfg.fetches then { t with sent := t.sent + batch.length }
    else { t with failed := t.failed + batch.length }

inductive Op (ρ : Type*) where
  | enqueue (body : ρ)
  | tick
  | flush
  | shutdown
  | settle (k : ℕ) (ok : Bool)

def step (t : Transport ρ) (op : Op ρ) : Transport ρ :=
  if t.hung then t
  else
    match op with
    | .enqueue body => enqueue cfg serializes t body
    | .tick => tick cfg serializes t
    | .flush => flush cfg serializes t
    | .shutdown => shutdown cfg serializes t
    | .settle k ok => settle cfg t k ok

abbrev run (ops : List (Op ρ)) : Transport ρ := Lib.run (step cfg serializes) {} ops

end Step

/-! ## Discarding the oldest -/

section Flow

variable {ρ : Type*} {cfg : ResolvedConfig} {serializes : List (TelemetryEvent ρ) → Bool}

theorem events_append (l l' : List (TelemetryEvent ρ)) : events (l ++ l') = events l ++ events l' :=
  filterMap_append

theorem events_map (rs : List (Tagged ρ)) : events (rs.map TelemetryEvent.event) = rs := by
  rw [events, filterMap_map]
  exact filterMap_some

/-- The events arrive at the end of the queue, are discarded at its front and leave it there. -/
structure Flow (cfg : ResolvedConfig) (t : Transport ρ) : Prop where
  backlog : Backlog t.arrived t.evictions t.posted (events t.queue)
  fresh : ∀ r ∈ t.arrived, r.number < t.calls
  discarded : t.discarded = t.evictions.length
  limit : ∀ e ∈ t.evictions, cfg.maxQueueSize.le e.queue.length = true
  plain : t.hung = false → ∃ rs : List (Tagged ρ), t.queue = rs.map TelemetryEvent.event

/-- What `flush` leaves as it is. -/
structure Drained (t t' : Transport ρ) : Prop where
  arrived : t'.arrived = t.arrived
  evictions : t'.evictions = t.evictions
  calls : t'.calls = t.calls
  discarded : t'.discarded = t.discarded
  moved : t'.posted ++ events t'.queue = t.posted ++ events t.queue

theorem drained_drain (fuel : ℕ) (t : Transport ρ) : Drained t (drain cfg serializes fuel t) := by
  induction fuel generalizing t with
  | zero => exact ⟨rfl, rfl, rfl, rfl, rfl⟩
  | succ fuel ih =>
    unfold drain
    dsimp only
    split_ifs with hempty hcount
    · exact ⟨rfl, rfl, rfl, rfl, rfl⟩
    · exact ⟨rfl, rfl, rfl, rfl, rfl⟩
    · set count := cfg.batchSize.deleteCount t.queue.length
      have hrest := ih (post cfg serializes (t.queue.take count) { t with queue := t.queue.drop count })
      have hpost : Drained t
          (post cfg serializes (t.queue.take count) { t with queue := t.queue.drop count }) := by
        have hmoved : (t.posted ++ events (t.queue.take count)) ++ events (t.queue.drop count) =
            t.posted ++ events t.queue := by
          rw [append_assoc, ← events_append, take_append_drop]
        unfold post
        dsimp only
        split_ifs
        · exact ⟨rfl, rfl, rfl, rfl, hmoved⟩
        · exact ⟨rfl, rfl, rfl, rfl, hmoved⟩
      exact ⟨hrest.arrived.trans hpost.arrived, hrest.evictions.trans hpost.evictions,
        hrest.calls.trans hpost.calls, hrest.discarded.trans hpost.discarded,
        hrest.moved.trans hpost.moved⟩

/-- The loop ends with an empty queue, or does not end. -/
theorem drain_queue {fuel : ℕ} {t : Transport ρ} (h : t.queue.length ≤ fuel) :
    (drain cfg serializes fuel t).hung = true ∨ (drain cfg serializes fuel t).queue = [] := by
  induction fuel generalizing t with
  | zero => exact .inr (length_eq_zero_iff.mp (Nat.le_zero.mp h))
  | succ fuel ih =>
    unfold drain
    dsimp only
    split_ifs with hempty hcount
    · exact .inr hempty
    · exact .inl rfl
    · apply ih
      have hqueue : ∀ (batch : List (TelemetryEvent ρ)) (t : Transport ρ),
          (post cfg serializes batch t).queue = t.queue := by
        intro batch t
        unfold post
        dsimp only
        split_ifs <;> rfl
      rw [hqueue, length_drop]
      omega

theorem drained_flush (t : Transport ρ) : Drained t (flush cfg serializes t) := by
  have hreport : Drained t (report cfg t) := by
    unfold report
    split_ifs
    · exact ⟨rfl, rfl, rfl, rfl, rfl⟩
    · exact ⟨rfl, rfl, rfl, rfl, rfl⟩
  have hdrain := @drained_drain _ cfg serializes
    (report cfg t).queue.length (report cfg t)
  exact ⟨hdrain.arrived.trans hreport.arrived, hdrain.evictions.trans hreport.evictions,
    hdrain.calls.trans hreport.calls, hdrain.discarded.trans hreport.discarded,
    hdrain.moved.trans hreport.moved⟩

theorem Flow.flush {t : Transport ρ} (h : Flow cfg t) : Flow cfg (flush cfg serializes t) := by
  have hd := @drained_flush _ cfg serializes t
  refine ⟨?_, ?_, ?_, ?_, ?_⟩
  · rw [hd.arrived, hd.evictions]
    exact h.backlog.leave hd.moved
  · rw [hd.arrived, hd.calls]
    exact h.fresh
  · rw [hd.discarded, hd.evictions]
    exact h.discarded
  · rw [hd.evictions]
    exact h.limit
  · intro hhung
    rcases @drain_queue _ cfg serializes _ _ (le_refl (report cfg t).queue.length) with
      hloop | hempty
    · exact absurd (hloop.symm.trans hhung) Bool.noConfusion
    · exact ⟨[], hempty⟩

/-- A queue that reached a positive limit has an oldest event to discard. -/
theorem full_cons (hlimit : cfg.maxQueueSize.Positive) {t : Transport ρ} {rs : List (Tagged ρ)}
    (hqueue : t.queue = rs.map TelemetryEvent.event) (hfull : full cfg t = true) :
    ∃ oldest rest, rs = oldest :: rest := by
  cases rs with
  | nil =>
    rw [full, hqueue] at hfull
    exact absurd hfull hlimit.not_le_zero
  | cons oldest rest => exact ⟨oldest, rest, rfl⟩

theorem Flow.shift (hlimit : cfg.maxQueueSize.Positive) {t : Transport ρ} (h : Flow cfg t)
    (hhung : t.hung = false) : Flow cfg (shift cfg t) := by
  unfold NodeTransport.shift
  split_ifs with hfull
  · obtain ⟨rs, hqueue⟩ := h.plain hhung
    obtain ⟨oldest, rest, rfl⟩ := full_cons hlimit hqueue hfull
    have hevents : events t.queue = oldest :: rest := by rw [hqueue, events_map]
    have hbacklog := h.backlog
    rw [hevents] at hbacklog
    refine ⟨?_, h.fresh, ?_, ?_, fun _ => ⟨rest, ?_⟩⟩
    · dsimp only
      rw [hevents, hqueue, map_cons, tail_cons, events_map]
      exact hbacklog.evict
    · dsimp only
      rw [hevents, h.discarded, length_append]
      rfl
    · intro e he
      dsimp only at he
      rw [hevents] at he
      rcases mem_append.mp he with he | he
      · exact h.limit e he
      · obtain rfl : e = { entry := oldest, queue := oldest :: rest } := by simpa using he
        rw [full, hqueue, length_map] at hfull
        exact hfull
    · dsimp only
      rw [hqueue, map_cons, tail_cons]
  · exact h

theorem Flow.append {t : Transport ρ} (h : Flow cfg t) {record : Tagged ρ}
    (hrecord : record.number = t.calls) : Flow cfg (append t record) := by
  have hevents : events (NodeTransport.append t record).queue = events t.queue ++ [record] :=
    events_append _ _
  refine ⟨?_, fun r hr => ?_, h.discarded, h.limit, fun hhung => ?_⟩
  · rw [hevents]
    apply h.backlog.push
    rw [hrecord]
    exact h.fresh
  · show r.number < t.calls + 1
    rcases mem_append.mp hr with hr | hr
    · exact (h.fresh r hr).trans (Nat.lt_succ_self _)
    · rw [mem_singleton.mp hr, hrecord]
      exact Nat.lt_succ_self _
  · obtain ⟨rs, hqueue⟩ := h.plain hhung
    refine ⟨rs ++ [record], ?_⟩
    rw [NodeTransport.append, hqueue, map_append, map_singleton]

theorem shift_calls (t : Transport ρ) : (shift cfg t).calls = t.calls := by
  unfold shift
  split_ifs <;> rfl

theorem Flow.push (hlimit : cfg.maxQueueSize.Positive) {t : Transport ρ} (h : Flow cfg t)
    (hhung : t.hung = false) (body : ρ) : Flow cfg (push cfg t body) :=
  (h.shift hlimit hhung).append (shift_calls t).symm

theorem flow_step (hlimit : cfg.maxQueueSize.Positive) (t : Transport ρ) (op : Op ρ) (h : Flow cfg t) :
    Flow cfg (step cfg serializes t op) := by
  unfold step
  cases hhung : t.hung with
  | true => exact h
  | false =>
    rw [if_neg Bool.false_ne_true]
    cases op with
    | enqueue body =>
      dsimp only [enqueue]
      split_ifs with hclosed hbatch
      · exact h
      · exact (h.push hlimit hhung body).flush
      · have hpush := h.push hlimit hhung body
        unfold arm
        split_ifs
        · exact hpush
        · exact ⟨hpush.backlog, hpush.fresh, hpush.discarded, hpush.limit, hpush.plain⟩
    | tick =>
      dsimp only [tick]
      split_ifs with htimer
      · exact Flow.flush ⟨h.backlog, h.fresh, h.discarded, h.limit, h.plain⟩
      · exact h
    | flush => exact h.flush
    | shutdown => exact Flow.flush ⟨h.backlog, h.fresh, h.discarded, h.limit, h.plain⟩
    | settle k ok =>
      dsimp only [settle]
      cases t.posts[k]? with
      | none => exact h
      | some batch =>
        dsimp only
        split_ifs
        · exact ⟨h.backlog, h.fresh, h.discarded, h.limit, h.plain⟩
        · exact ⟨h.backlog, h.fresh, h.discarded, h.limit, h.plain⟩

theorem flow_run (hlimit : cfg.maxQueueSize.Positive) (ops : List (Op ρ)) :
    Flow cfg (run cfg serializes ops) := by
  refine run_invariant _ (P := Flow cfg) ?_ (flow_step hlimit) ops
  exact ⟨Backlog.empty, fun _ hr => absurd hr not_mem_nil, rfl,
    fun _ he => absurd he not_mem_nil, fun _ => ⟨[], rfl⟩⟩

end Flow

/-! ## What is held in memory -/

section Memory

variable {ρ : Type*} (cfg : ResolvedConfig) {serializes : List (TelemetryEvent ρ) → Bool}

/-- The events in batches whose `POST` has not settled. -/
def unsettled (t : Transport ρ) : ℕ := total List.length t.posts

def held (t : Transport ρ) : ℕ := t.queue.length + unsettled t

/-- The size of a full batch. -/
def oneBatch : ℕ := cfg.batchSize.deleteCount MAX_BATCH

/-- No more than the queue limit and one batch. -/
def Capped (t : Transport ρ) : Prop := Number.Fits (held t) (cfg.maxQueueSize.plus (oneBatch cfg))

instance (t : Transport ρ) : Decidable (Capped cfg t) := inferInstanceAs (Decidable (Number.Fits _ _))

/-- The queue limit is positive, and whole unless a batch has room for an event. -/
structure Sound : Prop where
  positive : cfg.maxQueueSize.Positive
  whole : Number.Fits 1 cfg.batchSize ∨ cfg.maxQueueSize.Whole

/-- How long the queue gets between two calls of `flush`. -/
def longest : ℕ := min (cfg.batchSize.ceil MAX_BATCH - 1) (cfg.maxQueueSize.ceil MAX_BATCH)

/-- So many events leave room for the queue, within the queue limit and one batch. -/
def LeavesRoom (n : ℕ) : Prop := Number.Fits (n + longest cfg) (cfg.maxQueueSize.plus (oneBatch cfg))

instance (n : ℕ) : Decidable (LeavesRoom cfg n) := inferInstanceAs (Decidable (Number.Fits _ _))

/-- How long the queue is when one more event has arrived. -/
def lengthAfter (t : Transport ρ) : ℕ :=
  if full cfg t then t.queue.length else t.queue.length + 1

/-- A discard is to be reported once one more event has arrived. -/
def noteDueAfter (t : Transport ρ) : Bool :=
  cfg.reportDiscards && (full cfg t || 0 < t.unreportedDiscards)

/-- What `flush` moves and what is unsettled leave room for the queue. -/
def Roomy (t : Transport ρ) : Op ρ → Prop
  | .enqueue _ =>
    t.closed = false → cfg.batchSize.le (lengthAfter cfg t) = true →
      LeavesRoom cfg (unsettled t + lengthAfter cfg t + (noteDueAfter cfg t).toNat)
  | .tick => t.timer = true → LeavesRoom cfg (unsettled t + t.queue.length + (noteDue cfg t).toNat)
  | .flush => LeavesRoom cfg (unsettled t + t.queue.length + (noteDue cfg t).toNat)
  | .shutdown => LeavesRoom cfg (unsettled t + t.queue.length + (noteDue cfg t).toNat)
  | .settle _ _ => True

instance (t : Transport ρ) : ∀ op, Decidable (Roomy cfg t op)
  | .enqueue _ => inferInstanceAs (Decidable (_ → _ → _))
  | .tick => inferInstanceAs (Decidable (_ → _))
  | .flush => inferInstanceAs (Decidable (LeavesRoom _ _))
  | .shutdown => inferInstanceAs (Decidable (LeavesRoom _ _))
  | .settle _ _ => instDecidableTrue

variable {cfg}

theorem unsettled_settle (t : Transport ρ) (k : ℕ) (ok : Bool) :
    unsettled (settle cfg t k ok) ≤ unsettled t := by
  unfold settle
  cases hbatch : t.posts[k]? with
  | none => exact le_rfl
  | some batch =>
    have herase : unsettled { t with posts := t.posts.eraseIdx k } ≤ unsettled t :=
      total_eraseIdx_le _ _ _
    dsimp only
    split_ifs
    · exact herase
    · exact herase

theorem settle_queue (t : Transport ρ) (k : ℕ) (ok : Bool) :
    (settle cfg t k ok).queue = t.queue ∧ (settle cfg t k ok).hung = t.hung := by
  unfold settle
  cases t.posts[k]? with
  | none => exact ⟨rfl, rfl⟩
  | some batch =>
    dsimp only
    split_ifs
    · exact ⟨rfl, rfl⟩
    · exact ⟨rfl, rfl⟩

theorem unsettled_post (batch : List (TelemetryEvent ρ)) (t : Transport ρ) :
    unsettled (post cfg serializes batch t) ≤ unsettled t + batch.length := by
  unfold post
  dsimp only
  split_ifs
  · exact (total_append _ _ _).trans_le (by rw [total_singleton]; exact le_rfl)
  · exact Nat.le_add_right _ _

theorem post_queue (batch : List (TelemetryEvent ρ)) (t : Transport ρ) :
    (post cfg serializes batch t).queue = t.queue ∧ (post cfg serializes batch t).hung = t.hung := by
  unfold post
  dsimp only
  split_ifs
  · exact ⟨rfl, rfl⟩
  · exact ⟨rfl, rfl⟩

theorem push_spec (hlimit : cfg.maxQueueSize.Positive) (t : Transport ρ) (body : ρ) :
    (push cfg t body).queue.length = lengthAfter cfg t ∧ (push cfg t body).posts = t.posts ∧
      (push cfg t body).hung = t.hung ∧ noteDue cfg (push cfg t body) = noteDueAfter cfg t := by
  unfold push append shift lengthAfter noteDueAfter noteDue
  by_cases hfull : full cfg t = true
  · rw [if_pos hfull, if_pos hfull]
    have hpos : 0 < t.queue.length := by
      rw [Nat.pos_iff_ne_zero]
      intro hzero
      rw [full, hzero] at hfull
      exact hlimit.not_le_zero hfull
    refine ⟨?_, rfl, rfl, ?_⟩
    · rw [length_append, length_tail, length_singleton]
      omega
    · simp [hfull]
  · rw [if_neg hfull, if_neg hfull]
    refine ⟨length_append, rfl, rfl, ?_⟩
    simp [hfull]

theorem report_spec (t : Transport ρ) :
    (report cfg t).queue.length = t.queue.length + (noteDue cfg t).toNat ∧
      (report cfg t).posts = t.posts ∧ (report cfg t).hung = t.hung := by
  unfold report
  cases hdue : noteDue cfg t with
  | true => exact ⟨rfl, rfl, rfl⟩
  | false => exact ⟨rfl, rfl, rfl⟩

theorem drain_batched (hbatch : Number.Fits 1 cfg.batchSize) {fuel : ℕ} {t : Transport ρ}
    (hfuel : t.queue.length ≤ fuel) :
    (drain cfg serializes fuel t).hung = t.hung ∧ (drain cfg serializes fuel t).queue = [] ∧
      unsettled (drain cfg serializes fuel t) ≤ unsettled t + t.queue.length := by
  induction fuel generalizing t with
  | zero => exact ⟨rfl, length_eq_zero_iff.mp (Nat.le_zero.mp hfuel), Nat.le_add_right _ _⟩
  | succ fuel ih =>
    unfold drain
    dsimp only
    split_ifs with hempty hcount
    · exact ⟨rfl, hempty, Nat.le_add_right _ _⟩
    · have hpos := Number.deleteCount_pos hbatch (length_pos_iff.mpr hempty)
      exact absurd hcount hpos.ne'
    · set count := cfg.batchSize.deleteCount t.queue.length
      set t' : Transport ρ := { t with queue := t.queue.drop count }
      obtain ⟨hqueue, hhung⟩ := @post_queue _ cfg serializes (t.queue.take count) t'
      have hlength : t'.queue.length = t.queue.length - count := length_drop
      obtain ⟨ihhung, ihqueue, ihle⟩ := ih (t := post cfg serializes (t.queue.take count) t')
        (by rw [hqueue, hlength]; omega)
      have hpost := @unsettled_post _ cfg serializes (t.queue.take count) t'
      have hsame : unsettled t' = unsettled t := rfl
      have htake : (t.queue.take count).length ≤ count := length_take_le _ _
      have hcountle : count ≤ t.queue.length := Number.deleteCount_le _ _
      refine ⟨ihhung.trans hhung, ihqueue, ihle.trans ?_⟩
      rw [hqueue, hlength]
      omega

/-- Where no batch has room for an event, the loop posts nothing. -/
theorem drain_stuck (hbatch : ¬ Number.Fits 1 cfg.batchSize) (fuel : ℕ) (t : Transport ρ) :
    (drain cfg serializes fuel t).queue = t.queue ∧ (drain cfg serializes fuel t).posts = t.posts := by
  cases fuel with
  | zero => exact ⟨rfl, rfl⟩
  | succ fuel =>
    unfold drain
    dsimp only
    rw [if_pos (Number.deleteCount_eq_zero hbatch _)]
    split_ifs
    · exact ⟨rfl, rfl⟩
    · exact ⟨rfl, rfl⟩

/-- Batches are posted: less than one is waiting, and the others leave room for it. -/
structure Posting (cfg : ResolvedConfig) (t : Transport ρ) : Prop where
  running : t.hung = false
  queue : t.queue.length ≤ longest cfg
  unsettled : LeavesRoom cfg (unsettled t)

theorem LeavesRoom.mono {m n : ℕ} (h : LeavesRoom cfg n) (hmn : m ≤ n) : LeavesRoom cfg m :=
  Number.Fits.mono h (Nat.add_le_add_right hmn _)

theorem posting_flush (hbatch : Number.Fits 1 cfg.batchSize) {t : Transport ρ} (hhung : t.hung = false)
    (hroom : LeavesRoom cfg (unsettled t + t.queue.length + (noteDue cfg t).toNat)) :
    Posting cfg (flush cfg serializes t) := by
  obtain ⟨hlength, hposts, hreport⟩ := @report_spec _ cfg t
  obtain ⟨hdrain, hempty, hle⟩ := @drain_batched _ _ serializes hbatch _ _
    (le_refl (report cfg t).queue.length)
  have hsame : unsettled (report cfg t) = unsettled t := congrArg (total List.length) hposts
  refine ⟨(hdrain.trans hreport).trans hhung, ?_, hroom.mono ?_⟩
  · show (drain cfg serializes _ (report cfg t)).queue.length ≤ _
    rw [hempty]
    exact Nat.zero_le _
  · refine hle.trans ?_
    rw [hsame, hlength]
    omega

/-- A queue that is not sent off stays within what it gets to. -/
theorem lengthAfter_le (hlimit : cfg.maxQueueSize.Positive) (hbatch : Number.Fits 1 cfg.batchSize)
    (hmost : cfg.batchSize.le MAX_BATCH = true) {t : Transport ρ} (h : t.queue.length ≤ longest cfg)
    (hfull : ¬ cfg.batchSize.le (lengthAfter cfg t) = true) : lengthAfter cfg t ≤ longest cfg := by
  have hnan : cfg.batchSize ≠ Number.nan := fun heq => by
    rw [heq] at hbatch
    exact absurd hbatch Bool.false_ne_true
  have hlt := Number.lt_of_le hmost hbatch hfull
  have hbelow := Number.lt_ceil hnan hfull hlt
  refine le_min (by omega) ?_
  rw [lengthAfter] at hlt ⊢
  split_ifs at hlt ⊢ with hlimited
  · exact h.trans (min_le_right _ _)
  · have hne : cfg.maxQueueSize ≠ Number.nan := fun heq => by
      rw [heq] at hlimit
      exact hlimit
    exact Number.lt_ceil hne hlimited (Nat.lt_of_succ_lt hlt)

theorem posting_step (hlimit : cfg.maxQueueSize.Positive) (hbatch : Number.Fits 1 cfg.batchSize)
    (hmost : cfg.batchSize.le MAX_BATCH = true) (t : Transport ρ) (op : Op ρ) (h : Posting cfg t)
    (hroom : Roomy cfg t op) : Posting cfg (step cfg serializes t op) := by
  unfold step
  rw [if_neg (by rw [h.running]; exact Bool.false_ne_true)]
  cases op with
  | enqueue body =>
    obtain ⟨hlength, hposts, hhung, hdue⟩ := push_spec hlimit t body
    have hsame : unsettled (push cfg t body) = unsettled t := congrArg (total List.length) hposts
    dsimp only [enqueue]
    split_ifs with hclosed hfull
    · exact h
    · apply posting_flush hbatch (hhung.trans h.running)
      rw [hsame, hlength, hdue]
      rw [hlength] at hfull
      exact hroom (by simpa using hclosed) hfull
    · have hqueue : (push cfg t body).queue.length ≤ longest cfg := by
        rw [hlength] at hfull ⊢
        exact lengthAfter_le hlimit hbatch hmost h.queue hfull
      have hunsettled : LeavesRoom cfg (unsettled (push cfg t body)) := by
        rw [hsame]
        exact h.unsettled
      unfold arm
      split_ifs
      · exact ⟨hhung.trans h.running, hqueue, hunsettled⟩
      · exact ⟨hhung.trans h.running, hqueue, hunsettled⟩
  | tick =>
    dsimp only [tick]
    split_ifs with htimer
    · exact posting_flush hbatch h.running (hroom htimer)
    · exact h
  | flush => exact posting_flush hbatch h.running hroom
  | shutdown => exact posting_flush hbatch h.running hroom
  | settle k ok =>
    obtain ⟨hqueue, hhung⟩ := @settle_queue _ cfg t k ok
    refine ⟨hhung.trans h.running, ?_, h.unsettled.mono (unsettled_settle t k ok)⟩
    show (settle cfg t k ok).queue.length ≤ _
    rw [hqueue]
    exact h.queue

/-- No batch is ever posted: the events wait in the queue. -/
structure Waiting (cfg : ResolvedConfig) (t : Transport ρ) : Prop where
  posts : t.posts = []
  queue : Number.Fits t.queue.length cfg.maxQueueSize

theorem waiting_flush (hbatch : ¬ Number.Fits 1 cfg.batchSize) {t : Transport ρ} (hposts : t.posts = [])
    (hroom : LeavesRoom cfg (unsettled t + t.queue.length + (noteDue cfg t).toNat)) :
    Waiting cfg (flush cfg serializes t) := by
  obtain ⟨hlength, hreport, -⟩ := @report_spec _ cfg t
  obtain ⟨hqueue, hdrain⟩ := @drain_stuck _ _ serializes hbatch
    (report cfg t).queue.length (report cfg t)
  refine ⟨(hdrain.trans hreport).trans hposts, ?_⟩
  show Number.Fits (drain cfg serializes _ (report cfg t)).queue.length _
  rw [hqueue, hlength]
  rw [LeavesRoom, oneBatch, Number.deleteCount_eq_zero hbatch, Number.plus_zero] at hroom
  exact hroom.mono (by omega)

theorem waiting_step (hlimit : cfg.maxQueueSize.Positive) (hbatch : ¬ Number.Fits 1 cfg.batchSize)
    (hwhole : cfg.maxQueueSize.Whole) (t : Transport ρ) (op : Op ρ) (h : Waiting cfg t)
    (hroom : Roomy cfg t op) : Waiting cfg (step cfg serializes t op) := by
  unfold step
  split_ifs with hrunning
  · exact h
  cases op with
  | enqueue body =>
    obtain ⟨hlength, hposts, -, hdue⟩ := push_spec hlimit t body
    have hsame : unsettled (push cfg t body) = unsettled t := congrArg (total List.length) hposts
    dsimp only [enqueue]
    split_ifs with hclosed hfull
    · exact h
    · apply waiting_flush hbatch (hposts.trans h.posts)
      rw [hsame, hlength, hdue]
      rw [hlength] at hfull
      exact hroom (by simpa using hclosed) hfull
    · have hqueue : Number.Fits (push cfg t body).queue.length cfg.maxQueueSize := by
        rw [hlength, lengthAfter]
        split_ifs with hlimited
        · exact h.queue
        · exact (hlimit.fits_of_not_le hlimited).2 hwhole
      unfold arm
      split_ifs
      · exact ⟨hposts.trans h.posts, hqueue⟩
      · exact ⟨hposts.trans h.posts, hqueue⟩
  | tick =>
    dsimp only [tick]
    split_ifs with htimer
    · exact waiting_flush hbatch h.posts (hroom htimer)
    · exact h
  | flush => exact waiting_flush hbatch h.posts hroom
  | shutdown => exact waiting_flush hbatch h.posts hroom
  | settle k ok =>
    dsimp only [settle]
    rw [h.posts]
    exact h

theorem Posting.capped {t : Transport ρ} (h : Posting cfg t) : Capped cfg t := by
  apply Number.Fits.mono h.unsettled
  have hqueue := h.queue
  rw [held]
  omega

theorem leavesRoom_zero (hlimit : cfg.maxQueueSize.Positive) : LeavesRoom cfg 0 := by
  have hlongest : longest cfg ≤ oneBatch cfg := by
    refine (min_le_left _ _).trans ?_
    have hceil := cfg.batchSize.ceil_le_deleteCount MAX_BATCH
    rw [oneBatch]
    omega
  exact (hlimit.fits_zero.plus (oneBatch cfg)).mono (Nat.add_le_add_left hlongest 0)

theorem Waiting.capped {t : Transport ρ} (h : Waiting cfg t) : Capped cfg t := by
  have hplus := h.queue.plus (oneBatch cfg)
  apply hplus.mono
  rw [held, NodeTransport.unsettled, h.posts, total_nil]
  exact Nat.le_add_right _ _

theorem capped_run (hsound : Sound cfg) (hmost : Number.Fits 1 cfg.batchSize → cfg.batchSize.le MAX_BATCH = true)
    {ops : List (Op ρ)} (hroom : Along (step cfg serializes) (Roomy cfg) {} ops) :
    Capped cfg (run cfg serializes ops) := by
  by_cases hbatch : Number.Fits 1 cfg.batchSize
  · have hstart : Posting cfg ({} : Transport ρ) := 
      ⟨rfl, Nat.zero_le _, leavesRoom_zero hsound.positive⟩
    exact (run_along _ (posting_step hsound.positive hbatch (hmost hbatch)) hstart hroom).capped
  · have hwhole := hsound.whole.resolve_left hbatch
    have hstart : Waiting cfg ({} : Transport ρ) := ⟨rfl, hsound.positive.fits_zero⟩
    exact (run_along _ (waiting_step hsound.positive hbatch hwhole) hstart hroom).capped

/-- The queue discards its oldest events, counts them, and what it keeps leaves in order. -/
structure DiscardsOldest (cfg : ResolvedConfig) (t : Transport ρ) : Prop where
  counted : t.discarded = t.evictions.length
  oldest : ∀ e ∈ t.evictions, e.Oldest
  limit : ∀ e ∈ t.evictions, cfg.maxQueueSize.le e.queue.length = true
  kept : survivors t.arrived t.evictions = t.posted ++ events t.queue

/-- Where every flush leaves room, the queue stays within its limit, and what is discarded is the oldest. -/
theorem memory_capped (options : TelemetryOptions) (env : Env)
    (serializes : List (TelemetryEvent ρ) → Bool) (hsound : Sound (resolveConfig options env))
    {ops : List (Op ρ)}
    (hroom : Along (step (resolveConfig options env) serializes) (Roomy (resolveConfig options env)) {} ops) :
    Capped (resolveConfig options env) (run (resolveConfig options env) serializes ops) ∧
      DiscardsOldest (resolveConfig options env) (run (resolveConfig options env) serializes ops) := by
  have hflow := @flow_run _ _ serializes hsound.positive ops
  refine ⟨capped_run hsound (resolveConfig_batchSize options env) hroom, ?_⟩
  exact ⟨hflow.discarded, hflow.backlog.oldest, hflow.limit, hflow.backlog.survivors⟩

/-- A queue limit of four and batches of two. -/
def smallOptions : TelemetryOptions :=
  { service := some "shop"
    endpoint := some "http://collector:8900/"
    batchSize := some 2
    maxQueueSize := some 4 }

def twoBatches : List (Op ℕ) := [.enqueue 0, .enqueue 1, .settle 0 true, .enqueue 2, .enqueue 3, .enqueue 4]

theorem two_batches_capped :
    Capped (resolveConfig smallOptions {}) (run (resolveConfig smallOptions {}) (fun _ => true) twoBatches) ∧
      DiscardsOldest (resolveConfig smallOptions {})
        (run (resolveConfig smallOptions {}) (fun _ => true) twoBatches) :=
  memory_capped smallOptions {} (fun _ => true) ⟨by decide +kernel, by decide +kernel⟩ (by decide +kernel)

/-- A backend that does not answer while seven events arrive. -/
def burst : List (Op ℕ) := (List.range 7).map .enqueue

theorem burst_exceeds_cap :
    ¬ Capped (resolveConfig smallOptions {})
      (run (resolveConfig smallOptions {}) (fun _ => true) burst) := by decide +kernel

end Memory

end PtaasBench.Sdk.NodeTransport
