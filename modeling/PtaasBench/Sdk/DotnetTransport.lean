import PtaasBench.Lib.Backlog
import PtaasBench.Lib.Machine
import PtaasBench.Lib.Threads

/-!
# PtaasBench.Sdk.DotnetTransport — the exporter of the .NET agent (`Transport.cs`)

Any number of threads enqueue, one loop reads the channel and posts, and one caller of
`FlushAsync` waits for both of its counters.  Every operation on a counter and on the channel is a
step of its own; the records are numbered in the order of the calls of `Enqueue`.  The lists of record numbers at the
end of the state only note what happened.
-/

namespace PtaasBench.Sdk.DotnetTransport

open Lib List

/-- `resolve` leaves a batch size and a queue limit of at least one.  `writable` says which records
the serialiser can write, `clientBuilds` that the endpoint is an address for the HTTP client. -/
structure TelemetryConfig (ρ : Type*) where
  batchSize : ℤ
  maxQueueSize : ℤ
  reportDiscards : Bool
  endpoint : Bool
  clientBuilds : Bool
  writable : ρ → Bool

/-- Where a call of `Enqueue` stands. -/
inductive Writer (ρ : Type*) where
  /-- Counted as queued; `TryWrite` is next. -/
  | announced (record : Tagged ρ)
  /-- Written in the place of another; `OnDropped` is to take it out of `_queued`. -/
  | evicting (oldest : Tagged ρ)
  /-- `OnDropped` is to count it in `_dropped`. -/
  | discarding (oldest : Tagged ρ)
  /-- `OnDropped` is to count it in `_unreportedDrops`. -/
  | reporting
  | written
  /-- The channel is closed. -/
  | rejected
  | finished

/-- Where the loop stands. -/
inductive Reader (ρ : Type*) where
  | waiting
  | opening
  | filling (batch : List (Tagged ρ)) (room : ℤ)
  /-- `TryRead` returned a record that is still counted as queued. -/
  | reading (record : Tagged ρ) (batch : List (Tagged ρ)) (room : ℤ)
  | noting (batch : List (Tagged ρ))
  /-- The batch is complete and not yet counted in flight. -/
  | launching (batch : List (Tagged ρ)) (note : Option ℤ)
  | posting (batch : List (Tagged ρ)) (note : Option ℤ)
  | sending (batch : List (Tagged ρ)) (note : Option ℤ)
  | landing
  /-- `PostAsync` raised. -/
  | crashing
  | stopped

/-- Where a call of `FlushAsync` stands, and the records that were enqueued before it. -/
inductive Flusher where
  | idle
  | calling (before : List ℕ)
  /-- It read `_queued` as zero; `_inFlight` is next. -/
  | sawEmpty (before : List ℕ)
  | returned (before : List ℕ)
deriving DecidableEq

structure Transport (ρ : Type*) where
  channel : List (Tagged ρ) := []
  completed : Bool := false
  closed : Bool := false
  stopping : Bool := false
  queued : ℤ := 0
  inFlight : ℤ := 0
  unreportedDrops : ℤ := 0
  enqueued : ℕ := 0
  dropped : ℕ := 0
  sent : ℕ := 0
  failed : ℕ := 0
  batches : ℕ := 0
  writers : List (Writer ρ) := []
  reader : Reader ρ := .waiting
  flusher : Flusher := .idle
  calls : ℕ := 0
  /-- The records the channel took. -/
  writtenRecords : List ℕ := []
  droppedRecords : List ℕ := []
  postedRecords : List ℕ := []
  failedRecords : List ℕ := []
  /-- Records of a posted batch that could not be written into its body. -/
  leftOut : List ℕ := []
  /-- Records of the batch the loop died with. -/
  lost : List ℕ := []

section Step

variable {ρ : Type*} (cfg : TelemetryConfig ρ)

def capacity : ℤ := max 1 cfg.maxQueueSize

def numbers (l : List (Tagged ρ)) : List ℕ := l.map Tagged.number

/-- `Enqueue` up to `TryWrite`. -/
def enqueue (t : Transport ρ) (body : ρ) : Transport ρ :=
  if t.closed then t
  else
    { t with
      queued := t.queued + 1
      writers := t.writers ++ [.announced { number := t.calls, body := body }]
      calls := t.calls + 1 }

/-- The next operation of the `i`-th call of `Enqueue`. -/
def stepWriter (t : Transport ρ) (i : ℕ) : Writer ρ → Transport ρ
  | .announced record =>
    if t.completed then { t with writers := t.writers.set i .rejected }
    else
      let t := { t with writtenRecords := t.writtenRecords ++ [record.number] }
      if (t.channel.length : ℤ) < capacity cfg then
        { t with channel := t.channel ++ [record], writers := t.writers.set i .written }
      else
        match t.channel with
        | [] => t
        | oldest :: rest =>
          { t with channel := rest ++ [record], writers := t.writers.set i (.evicting oldest) }
  | .evicting oldest =>
    { t with queued := t.queued - 1, writers := t.writers.set i (.discarding oldest) }
  | .discarding oldest =>
    { t with
      dropped := t.dropped + 1
      droppedRecords := t.droppedRecords ++ [oldest.number]
      writers := t.writers.set i .reporting }
  | .reporting =>
    { t with unreportedDrops := t.unreportedDrops + 1, writers := t.writers.set i .written }
  | .written => { t with enqueued := t.enqueued + 1, writers := t.writers.set i .finished }
  | .rejected => { t with queued := t.queued - 1, writers := t.writers.set i .finished }
  | .finished => t

/-- How many events a batch has, the note among them. -/
def batchCount (batch : List (Tagged ρ)) (note : Option ℤ) : ℕ := batch.length + note.toList.length

/-- The batch is over; nobody read an answer below 500. -/
def fail (t : Transport ρ) (batch : List (Tagged ρ)) (note : Option ℤ) : Transport ρ :=
  { t with
    failed := t.failed + batchCount batch note
    failedRecords := t.failedRecords ++ numbers batch
    reader := .landing }

/-- The batch was answered; its body is made of the records that can be written. -/
def deliver (t : Transport ρ) (batch : List (Tagged ρ)) (note : Option ℤ) : Transport ρ :=
  { t with
    sent := t.sent + batchCount batch note
    postedRecords := t.postedRecords ++ numbers (batch.filter fun r => cfg.writable r.body)
    leftOut := t.leftOut ++ numbers (batch.filter fun r => !cfg.writable r.body)
    reader := .landing }

/-- `AppendDropNote` -/
def dropNote (t : Transport ρ) : Option ℤ :=
  if t.unreportedDrops ≤ 0 || !cfg.reportDiscards then none else some t.unreportedDrops

/-- The next operation of the loop; `ok` is what comes of the request. -/
def stepReader (t : Transport ρ) (ok : Bool) : Transport ρ :=
  match t.reader with
  | .waiting =>
    if t.stopping then { t with reader := .stopped }
    else if t.channel ≠ [] then { t with reader := .opening }
    else if t.completed then { t with reader := .stopped }
    else t
  | .opening =>
    { t with
      reader := .filling [] (if 0 < t.unreportedDrops then cfg.batchSize - 1 else cfg.batchSize) }
  | .filling batch room =>
    match t.channel with
    | [] => { t with reader := .noting batch }
    | record :: rest =>
      if (batch.length : ℤ) < room then
        { t with channel := rest, reader := .reading record batch room }
      else { t with reader := .noting batch }
  | .reading record batch room =>
    { t with queued := t.queued - 1, reader := .filling (batch ++ [record]) room }
  | .noting batch =>
    { t with
      unreportedDrops := 0
      reader :=
        if batch = [] ∧ dropNote cfg t = none then .waiting
        else .launching batch (dropNote cfg t) }
  | .launching batch note => { t with inFlight := t.inFlight + 1, reader := .posting batch note }
  | .posting batch note => { t with batches := t.batches + 1, reader := .sending batch note }
  | .sending batch note =>
    if !cfg.endpoint then fail t batch note
    else if !cfg.clientBuilds then
      { t with lost := t.lost ++ numbers batch, reader := .crashing }
    else if ok then deliver cfg t batch note
    else fail t batch note
  | .landing => { t with inFlight := t.inFlight - 1, reader := .waiting }
  | .crashing => { t with inFlight := t.inFlight - 1, reader := .stopped }
  | .stopped => t

inductive Op (ρ : Type*) where
  | enqueue (body : ρ)
  | writer (i : ℕ)
  | reader (ok : Bool)
  | flush
  /-- The flusher reads the counter it is at. -/
  | flusher
  | close
  | complete
  | cancel

def step (t : Transport ρ) : Op ρ → Transport ρ
  | .enqueue body => enqueue t body
  | .writer i =>
    match t.writers[i]? with
    | none => t
    | some w => stepWriter cfg t i w
  | .reader ok => stepReader cfg t ok
  | .flush => { t with flusher := .calling t.writtenRecords }
  | .flusher =>
    match t.flusher with
    | .calling before => if t.queued = 0 then { t with flusher := .sawEmpty before } else t
    | .sawEmpty before =>
      { t with flusher := if t.inFlight = 0 then .returned before else .calling before }
    | _ => t
  | .close => { t with closed := true }
  | .complete => { t with completed := true }
  | .cancel => { t with stopping := true }

abbrev run (ops : List (Op ρ)) : Transport ρ := Lib.run (step cfg) {} ops

end Step

/-! ## Where a record is -/

section Places

variable {ρ : Type*} {cfg : TelemetryConfig ρ}

/-- The records read off the channel and not yet counted in flight. -/
def Reader.inHand : Reader ρ → List ℕ
  | .filling batch _ => numbers batch
  | .reading _ batch _ => numbers batch
  | .noting batch => numbers batch
  | .launching batch _ => numbers batch
  | _ => []

def Reader.inFlight : Reader ρ → List ℕ
  | .posting batch _ => numbers batch
  | .sending batch _ => numbers batch
  | _ => []

/-- The record that is read and still counted as queued. -/
def Reader.unread : Reader ρ → List ℕ
  | .reading record _ _ => [record.number]
  | _ => []

def Writer.fresh (n : ℕ) : Writer ρ → ℕ
  | .announced record => if record.number = n then 1 else 0
  | _ => 0

def Writer.evicts (n : ℕ) : Writer ρ → ℕ
  | .evicting oldest => if oldest.number = n then 1 else 0
  | _ => 0

def Writer.discards (n : ℕ) : Writer ρ → ℕ
  | .discarding oldest => if oldest.number = n then 1 else 0
  | _ => 0

/-- Posted, counted as failed or counted as dropped. -/
def Settled (t : Transport ρ) (n : ℕ) : Prop :=
  n ∈ t.postedRecords ∨ n ∈ t.failedRecords ∨ n ∈ t.droppedRecords

/-- In no counter: in the hand of the loop before the batch is counted in flight, discarded and not
counted yet, left out of its body as unwritable, or in a batch whose posting raised. -/
def Adrift (t : Transport ρ) (n : ℕ) : Prop :=
  n ∈ t.reader.inHand ∨ (∃ r, Writer.discarding r ∈ t.writers ∧ r.number = n) ∨ n ∈ t.leftOut ∨
    n ∈ t.lost

/-- How often a record is where `_queued` counts it. -/
def awaited (t : Transport ρ) (n : ℕ) : ℕ :=
  (numbers t.channel).count n + total (Writer.evicts n) t.writers + t.reader.unread.count n

def adrift (t : Transport ρ) (n : ℕ) : ℕ :=
  t.reader.inHand.count n + total (Writer.discards n) t.writers + t.leftOut.count n + t.lost.count n

def settled (t : Transport ρ) (n : ℕ) : ℕ :=
  t.postedRecords.count n + t.failedRecords.count n + t.droppedRecords.count n

/-- How often a record is past `_queued`. -/
def passed (t : Transport ρ) (n : ℕ) : ℕ := adrift t n + t.reader.inFlight.count n + settled t n

/-- How often a record is anywhere. -/
def tally (t : Transport ρ) (n : ℕ) : ℕ :=
  total (Writer.fresh n) t.writers + awaited t n + passed t n

theorem settled_pos_iff {t : Transport ρ} {n : ℕ} : 0 < settled t n ↔ Settled t n := by
  rw [settled, Settled, ← count_pos_iff, ← count_pos_iff, ← count_pos_iff]
  omega

theorem adrift_pos_iff {t : Transport ρ} {n : ℕ} : 0 < adrift t n ↔ Adrift t n := by
  have hdiscards : 0 < total (Writer.discards n) t.writers ↔
      ∃ r, Writer.discarding r ∈ t.writers ∧ r.number = n := by
    rw [total_pos_iff]
    refine ⟨?_, ?_⟩
    · rintro ⟨w, hw, hpos⟩
      cases w with
      | discarding r =>
        refine ⟨r, hw, ?_⟩
        by_contra hne
        rw [Writer.discards, if_neg hne] at hpos
        exact hpos.ne rfl
      | announced | evicting | reporting | written | rejected | finished =>
        exact absurd hpos (lt_irrefl 0)
    · rintro ⟨r, hw, heq⟩
      refine ⟨_, hw, ?_⟩
      rw [Writer.discards, if_pos heq]
      exact Nat.one_pos
  rw [adrift, Adrift, ← hdiscards, ← count_pos_iff, ← count_pos_iff, ← count_pos_iff]
  omega

/-- What a step does to one record: it stays, or moves on. -/
structure Moves (t t' : Transport ρ) (n : ℕ) : Prop where
  tally : tally t' n ≤ tally t n
  late : awaited t n + passed t n ≤ awaited t' n + passed t' n
  passed : passed t n ≤ passed t' n

theorem Moves.refl (t : Transport ρ) (n : ℕ) : Moves t t n := ⟨le_rfl, le_rfl, le_rfl⟩

theorem count_numbers_append (l l' : List (Tagged ρ)) (n : ℕ) :
    (numbers (l ++ l')).count n = (numbers l).count n + (numbers l').count n := by
  rw [numbers, map_append, count_append, numbers, numbers]

theorem count_numbers_nil (n : ℕ) : (numbers ([] : List (Tagged ρ))).count n = 0 := rfl

theorem count_numbers_cons (r : Tagged ρ) (l : List (Tagged ρ)) (n : ℕ) :
    (numbers (r :: l)).count n = (if r.number = n then 1 else 0) + (numbers l).count n := by
  rw [numbers, map_cons, count_cons, add_comm, numbers]
  simp only [beq_iff_eq]

theorem moves_writer {t : Transport ρ} {i : ℕ} {w : Writer ρ} (hw : t.writers[i]? = some w) (n : ℕ) :
    Moves t (stepWriter cfg t i w) n := by
  have hset : ∀ y, total (Writer.fresh n) (t.writers.set i y) + w.fresh n =
        total (Writer.fresh n) t.writers + y.fresh n ∧
      total (Writer.evicts n) (t.writers.set i y) + w.evicts n =
        total (Writer.evicts n) t.writers + y.evicts n ∧
      total (Writer.discards n) (t.writers.set i y) + w.discards n =
        total (Writer.discards n) t.writers + y.discards n :=
    fun y => ⟨total_set _ hw y, total_set _ hw y, total_set _ hw y⟩
  unfold stepWriter
  cases w with
  | announced record =>
    dsimp only
    split_ifs with hcompleted hroom
    · obtain ⟨h1, h2, h3⟩ := hset .rejected
      simp only [Writer.fresh, Writer.evicts, Writer.discards] at h1 h2 h3
      constructor <;> simp only [tally, awaited, passed, adrift, settled] <;> omega
    · obtain ⟨h1, h2, h3⟩ := hset .written
      simp only [Writer.fresh, Writer.evicts, Writer.discards] at h1 h2 h3
      constructor <;> simp only [tally, awaited, passed, adrift, settled, count_numbers_append,
        count_numbers_cons, count_numbers_nil] <;> omega
    · cases hchannel : t.channel with
      | nil =>
        constructor <;> simp only [tally, awaited, passed, adrift, settled, hchannel] <;> omega
      | cons oldest rest =>
        obtain ⟨h1, h2, h3⟩ := hset (.evicting oldest)
        simp only [Writer.fresh, Writer.evicts, Writer.discards] at h1 h2 h3
        constructor <;> simp only [tally, awaited, passed, adrift, settled, hchannel,
          count_numbers_append, count_numbers_cons, count_numbers_nil] <;> omega
  | evicting oldest =>
    obtain ⟨h1, h2, h3⟩ := hset (.discarding oldest)
    simp only [Writer.fresh, Writer.evicts, Writer.discards] at h1 h2 h3
    constructor <;> simp only [tally, awaited, passed, adrift, settled] <;> omega
  | discarding oldest =>
    obtain ⟨h1, h2, h3⟩ := hset .reporting
    simp only [Writer.fresh, Writer.evicts, Writer.discards] at h1 h2 h3
    constructor <;> simp only [tally, awaited, passed, adrift, settled, count_append,
      count_singleton, beq_iff_eq] <;> omega
  | reporting =>
    obtain ⟨h1, h2, h3⟩ := hset .written
    simp only [Writer.fresh, Writer.evicts, Writer.discards] at h1 h2 h3
    constructor <;> simp only [tally, awaited, passed, adrift, settled] <;> omega
  | written | rejected =>
    obtain ⟨h1, h2, h3⟩ := hset .finished
    simp only [Writer.fresh, Writer.evicts, Writer.discards] at h1 h2 h3
    constructor <;> simp only [tally, awaited, passed, adrift, settled] <;> omega
  | finished => exact Moves.refl t n

theorem count_filter_numbers (p : ρ → Bool) (batch : List (Tagged ρ)) (n : ℕ) :
    (numbers (batch.filter fun r => p r.body)).count n +
      (numbers (batch.filter fun r => !p r.body)).count n = (numbers batch).count n := by
  induction batch with
  | nil => rfl
  | cons r batch ih =>
    cases hp : p r.body with
    | true =>
      rw [filter_cons_of_pos (by simp [hp]), filter_cons_of_neg (by simp [hp]),
        count_numbers_cons, count_numbers_cons]
      omega
    | false =>
      rw [filter_cons_of_neg (by simp [hp]), filter_cons_of_pos (by simp [hp]),
        count_numbers_cons, count_numbers_cons]
      omega

/-- How often a record is ahead of the loop. -/
def ahead (t : Transport ρ) (n : ℕ) : ℕ :=
  (numbers t.channel).count n + t.reader.unread.count n

/-- How often a record is in the loop or behind it. -/
def behind (t : Transport ρ) (n : ℕ) : ℕ :=
  t.reader.inHand.count n + t.reader.inFlight.count n + t.leftOut.count n + t.lost.count n + settled t n

/-- A step of the loop takes records from ahead of it. -/
theorem Moves.of_reader {t t' : Transport ρ} {n : ℕ} (hwriters : t'.writers = t.writers)
    (hsum : ahead t' n + behind t' n = ahead t n + behind t n) (hbehind : behind t n ≤ behind t' n) :
    Moves t t' n := by
  simp only [ahead, behind] at hsum hbehind
  constructor <;> simp only [DotnetTransport.tally, awaited, DotnetTransport.passed, adrift, hwriters] <;>
    omega

theorem behind_fail (t : Transport ρ) (batch : List (Tagged ρ)) (note : Option ℤ) (n : ℕ) :
    behind (fail t batch note) n + t.reader.inHand.count n + t.reader.inFlight.count n =
      behind t n + (numbers batch).count n := by
  simp only [behind, fail, settled, Reader.inHand, Reader.inFlight, count_nil, count_append]
  omega

theorem behind_deliver (t : Transport ρ) (batch : List (Tagged ρ)) (note : Option ℤ) (n : ℕ) :
    behind (deliver cfg t batch note) n + t.reader.inHand.count n + t.reader.inFlight.count n =
      behind t n + (numbers batch).count n := by
  have hcount := count_filter_numbers cfg.writable batch n
  simp only [behind, deliver, settled, Reader.inHand, Reader.inFlight, count_nil,
    count_append]
  omega

theorem moves_reader (t : Transport ρ) (ok : Bool) (n : ℕ) : Moves t (stepReader cfg t ok) n := by
  unfold stepReader
  cases hreader : t.reader with
  | waiting =>
    dsimp only
    split_ifs
    · refine Moves.of_reader rfl ?_ ?_ <;>
        simp [ahead, behind, settled, hreader, Reader.unread, Reader.inHand, Reader.inFlight]
    · refine Moves.of_reader rfl ?_ ?_ <;>
        simp [ahead, behind, settled, hreader, Reader.unread, Reader.inHand, Reader.inFlight]
    · refine Moves.of_reader rfl ?_ ?_ <;>
        simp [ahead, behind, settled, hreader, Reader.unread, Reader.inHand, Reader.inFlight]
    · exact Moves.refl t n
  | opening =>
    refine Moves.of_reader rfl ?_ ?_ <;>
      simp [ahead, behind, settled, hreader, Reader.unread, Reader.inHand, Reader.inFlight, numbers]
  | filling batch room =>
    cases hchannel : t.channel with
    | nil =>
      refine Moves.of_reader rfl ?_ ?_ <;>
        simp [ahead, behind, settled, hreader, hchannel, Reader.unread, Reader.inHand, Reader.inFlight]
    | cons record rest =>
      dsimp only
      split_ifs
      · refine Moves.of_reader rfl ?_ ?_ <;>
          simp only [ahead, behind, settled, hreader, hchannel, Reader.unread, Reader.inHand,
            Reader.inFlight, count_numbers_cons, count_singleton, count_nil, beq_iff_eq] <;>
          omega
      · refine Moves.of_reader rfl ?_ ?_ <;>
          simp [ahead, behind, settled, hreader, hchannel, Reader.unread, Reader.inHand,
            Reader.inFlight]
  | reading record batch room =>
    refine Moves.of_reader rfl ?_ ?_ <;>
      simp only [ahead, behind, settled, hreader, Reader.unread, Reader.inHand, Reader.inFlight,
        count_numbers_append, count_numbers_cons, count_numbers_nil, count_singleton,
        count_nil, beq_iff_eq] <;>
      omega
  | noting batch =>
    dsimp only
    by_cases hempty : batch = [] ∧ dropNote cfg t = none
    · rw [if_pos hempty]
      refine Moves.of_reader rfl ?_ ?_ <;>
        simp [ahead, behind, settled, hreader, Reader.unread, Reader.inHand, Reader.inFlight, numbers,
          hempty.1]
    · rw [if_neg hempty]
      refine Moves.of_reader rfl ?_ ?_ <;>
        simp [ahead, behind, settled, hreader, Reader.unread, Reader.inHand, Reader.inFlight]
  | launching batch note =>
    refine Moves.of_reader rfl ?_ ?_ <;>
      simp only [ahead, behind, settled, hreader, Reader.unread, Reader.inHand, Reader.inFlight,
        count_nil] <;>
      omega
  | posting batch note =>
    refine Moves.of_reader rfl ?_ ?_ <;>
      simp [ahead, behind, settled, hreader, Reader.unread, Reader.inHand, Reader.inFlight]
  | sending batch note =>
    have hfail := behind_fail t batch note n
    have hdeliver := @behind_deliver _ cfg t batch note n
    simp only [hreader, Reader.inHand, Reader.inFlight, count_nil, add_zero] at hfail hdeliver
    have hfailed : ahead (fail t batch note) n = ahead t n := by
      rw [ahead, ahead, hreader]
      rfl
    have hdelivered : ahead (deliver cfg t batch note) n = ahead t n := by
      rw [ahead, ahead, hreader]
      rfl
    dsimp only
    split_ifs
    · exact Moves.of_reader rfl (by omega) (by omega)
    · refine Moves.of_reader rfl ?_ ?_ <;>
        simp only [ahead, behind, settled, hreader, Reader.unread, Reader.inHand, Reader.inFlight,
          count_nil, count_append] <;>
        omega
    · exact Moves.of_reader rfl (by omega) (by omega)
    · exact Moves.of_reader rfl (by omega) (by omega)
  | landing | crashing =>
    refine Moves.of_reader rfl ?_ ?_ <;>
      simp [ahead, behind, settled, hreader, Reader.unread, Reader.inHand, Reader.inFlight]
  | stopped => exact Moves.refl t n

end Places

/-! ## The two counters -/

section Counters

variable {ρ : Type*} {cfg : TelemetryConfig ρ}

/-- Is the call of `Enqueue` still counted as queued, with nothing in the channel for it? -/
def Writer.pending : Writer ρ → ℕ
  | .announced _ => 1
  | .evicting _ => 1
  | .rejected => 1
  | _ => 0

/-- Is the batch of the loop counted in flight? -/
def Reader.counted : Reader ρ → ℤ
  | .posting _ _ => 1
  | .sending _ _ => 1
  | .landing => 1
  | .crashing => 1
  | _ => 0

/-- What the counters count. -/
structure Counts (t : Transport ρ) : Prop where
  queued : t.queued =
    t.channel.length + (total Writer.pending t.writers : ℤ) + t.reader.unread.length
  inFlight : t.inFlight = t.reader.counted

theorem counts_writer {t : Transport ρ} (h : Counts t) {i : ℕ} {w : Writer ρ}
    (hw : t.writers[i]? = some w) : Counts (stepWriter cfg t i w) := by
  obtain ⟨hqueued, hinFlight⟩ := h
  have hset : ∀ y, total Writer.pending (t.writers.set i y) + w.pending =
      total Writer.pending t.writers + y.pending := fun y => total_set _ hw y
  unfold stepWriter
  cases w with
  | announced record =>
    dsimp only
    split_ifs with hcompleted hroom
    · have hpending := hset .rejected
      simp only [Writer.pending] at hpending
      refine ⟨?_, hinFlight⟩
      simp only
      omega
    · have hpending := hset .written
      simp only [Writer.pending] at hpending
      refine ⟨?_, hinFlight⟩
      simp only [length_append, length_singleton]
      push_cast
      omega
    · cases hchannel : t.channel with
      | nil => exact ⟨by simpa [hchannel] using hqueued, hinFlight⟩
      | cons oldest rest =>
        have hpending := hset (.evicting oldest)
        simp only [Writer.pending] at hpending
        rw [hchannel, length_cons] at hqueued
        refine ⟨?_, hinFlight⟩
        simp only [length_append, length_singleton]
        push_cast at hqueued ⊢
        omega
  | evicting oldest =>
    have hpending := hset (.discarding oldest)
    simp only [Writer.pending] at hpending
    refine ⟨?_, hinFlight⟩
    simp only
    omega
  | discarding oldest =>
    have hpending := hset .reporting
    simp only [Writer.pending] at hpending
    refine ⟨?_, hinFlight⟩
    simp only
    omega
  | reporting =>
    have hpending := hset .written
    simp only [Writer.pending] at hpending
    refine ⟨?_, hinFlight⟩
    simp only
    omega
  | written | rejected =>
    have hpending := hset .finished
    simp only [Writer.pending] at hpending
    refine ⟨?_, hinFlight⟩
    simp only
    omega
  | finished => exact ⟨hqueued, hinFlight⟩

theorem counts_reader {t : Transport ρ} (h : Counts t) (ok : Bool) :
    Counts (stepReader cfg t ok) := by
  obtain ⟨hqueued, hinFlight⟩ := h
  unfold stepReader
  cases hreader : t.reader with
  | waiting =>
    simp only [hreader, Reader.unread, Reader.counted] at hqueued hinFlight
    dsimp only
    split_ifs
    · exact ⟨hqueued, hinFlight⟩
    · exact ⟨hqueued, hinFlight⟩
    · exact ⟨hqueued, hinFlight⟩
    · exact ⟨by rw [hreader]; exact hqueued, by rw [hreader]; exact hinFlight⟩
  | opening => exact ⟨by rw [hqueued, hreader]; rfl, by rw [hinFlight, hreader]; rfl⟩
  | filling batch room =>
    simp only [hreader, Reader.unread, Reader.counted] at hqueued hinFlight
    cases hchannel : t.channel with
    | nil => exact ⟨by rw [hqueued]; simp [hchannel, Reader.unread], hinFlight⟩
    | cons record rest =>
      rw [hchannel, length_cons] at hqueued
      dsimp only
      split_ifs
      · refine ⟨?_, hinFlight⟩
        simp only [Reader.unread, length_singleton]
        simp only [length_nil] at hqueued
        push_cast at hqueued ⊢
        omega
      · exact ⟨hqueued, hinFlight⟩
  | reading record batch room =>
    simp only [hreader, Reader.unread, Reader.counted, length_singleton] at hqueued hinFlight
    refine ⟨?_, hinFlight⟩
    simp only [Reader.unread, length_nil]
    push_cast at hqueued ⊢
    omega
  | noting batch =>
    simp only [hreader, Reader.unread, Reader.counted] at hqueued hinFlight
    dsimp only
    split_ifs <;> exact ⟨hqueued, hinFlight⟩
  | launching batch note | landing | crashing =>
    simp only [hreader, Reader.unread, Reader.counted] at hqueued hinFlight
    refine ⟨hqueued, ?_⟩
    simp only [Reader.counted]
    omega
  | posting batch note => exact ⟨by rw [hqueued, hreader]; rfl, by rw [hinFlight, hreader]; rfl⟩
  | sending batch note =>
    simp only [hreader, Reader.unread, Reader.counted] at hqueued hinFlight
    dsimp only
    split_ifs
    · exact ⟨hqueued, hinFlight⟩
    · exact ⟨hqueued, hinFlight⟩
    · exact ⟨hqueued, hinFlight⟩
    · exact ⟨hqueued, hinFlight⟩
  | stopped => exact ⟨hqueued, hinFlight⟩

/-- What `_queued` counts is no less than what is awaited. -/
theorem awaited_le_queued {t : Transport ρ} (h : Counts t) (n : ℕ) : (awaited t n : ℤ) ≤ t.queued := by
  have hchannel : (numbers t.channel).count n ≤ t.channel.length := by
    have hle := count_le_length (a := n) (l := numbers t.channel)
    rwa [numbers, length_map] at hle
  have hevicts : total (Writer.evicts n) t.writers ≤ total Writer.pending t.writers := by
    refine total_le_total fun w _ => ?_
    cases w with
    | evicting oldest =>
      rw [Writer.evicts, Writer.pending]
      split_ifs <;> omega
    | announced | discarding | reporting | written | rejected | finished => exact Nat.zero_le _
  have hunread : t.reader.unread.count n ≤ t.reader.unread.length := count_le_length
  rw [h.queued, awaited]
  push_cast
  omega

end Counters

/-! ## Flushing -/

section Flushing

variable {ρ : Type*} {cfg : TelemetryConfig ρ}

/-- Every record is in one place, and what the flusher read of the counters still says where not to
look for the records before it. -/
structure Tracked (t : Transport ρ) : Prop where
  counts : Counts t
  once : ∀ n, tally t n ≤ if n < t.calls then 1 else 0
  written : ∀ n ∈ t.writtenRecords, 0 < awaited t n + passed t n
  calling : ∀ before, t.flusher = .calling before → ∀ n ∈ before, 0 < awaited t n + passed t n
  sawEmpty : ∀ before, t.flusher = .sawEmpty before → ∀ n ∈ before, 0 < passed t n

theorem Tracked.of_moves {t t' : Transport ρ} (h : Tracked t) (hmoves : ∀ n, Moves t t' n)
    (hcounts : Counts t') (hcalls : t'.calls = t.calls) (hflusher : t'.flusher = t.flusher)
    (hwritten : ∀ n ∈ t'.writtenRecords, n ∈ t.writtenRecords ∨ 0 < awaited t' n + passed t' n) :
    Tracked t' := by
  refine ⟨hcounts, fun n => ?_, fun n hn => ?_, fun before hf n hn => ?_, fun before hf n hn => ?_⟩
  · rw [hcalls]
    exact (hmoves n).tally.trans (h.once n)
  · rcases hwritten n hn with hold | hnew
    · exact (h.written n hold).trans_le (hmoves n).late
    · exact hnew
  · exact (h.calling before (hflusher ▸ hf) n hn).trans_le (hmoves n).late
  · exact (h.sawEmpty before (hflusher ▸ hf) n hn).trans_le (hmoves n).passed

/-- A record the channel takes is in the channel. -/
theorem written_writer (t : Transport ρ) (i : ℕ) (w : Writer ρ) :
    ∀ n ∈ (stepWriter cfg t i w).writtenRecords, n ∈ t.writtenRecords ∨
      0 < awaited (stepWriter cfg t i w) n + passed (stepWriter cfg t i w) n := by
  intro n hn
  unfold stepWriter at hn ⊢
  cases w with
  | announced record =>
    dsimp only at hn ⊢
    split_ifs at hn ⊢ with hcompleted hroom
    · exact .inl hn
    · rcases mem_append.mp hn with hn | hn
      · exact .inl hn
      · obtain rfl := mem_singleton.mp hn
        right
        simp only [awaited, count_numbers_append, count_numbers_cons, if_pos]
        omega
    · cases hchannel : t.channel with
      | nil =>
        rw [hchannel, length_nil, capacity] at hroom
        exact absurd (lt_of_lt_of_le Int.zero_lt_one (le_max_left 1 cfg.maxQueueSize)) hroom
      | cons oldest rest =>
        rw [hchannel] at hn
        rcases mem_append.mp hn with hn | hn
        · exact .inl hn
        · obtain rfl := mem_singleton.mp hn
          right
          simp only [awaited, count_numbers_append, count_numbers_cons, if_pos]
          omega
  | evicting | discarding | reporting | written | rejected | finished => exact .inl hn

theorem flusher_writer (t : Transport ρ) (i : ℕ) (w : Writer ρ) :
    (stepWriter cfg t i w).flusher = t.flusher ∧ (stepWriter cfg t i w).calls = t.calls := by
  unfold stepWriter
  cases w with
  | announced record =>
    dsimp only
    split_ifs
    · exact ⟨rfl, rfl⟩
    · exact ⟨rfl, rfl⟩
    · cases t.channel <;> exact ⟨rfl, rfl⟩
  | evicting | discarding | reporting | written | rejected | finished => exact ⟨rfl, rfl⟩

theorem flusher_reader (t : Transport ρ) (ok : Bool) :
    (stepReader cfg t ok).flusher = t.flusher ∧ (stepReader cfg t ok).calls = t.calls ∧
      (stepReader cfg t ok).writtenRecords = t.writtenRecords := by
  unfold stepReader
  cases t.reader with
  | filling batch room =>
    cases t.channel with
    | nil => exact ⟨rfl, rfl, rfl⟩
    | cons record rest =>
      dsimp only
      split_ifs <;> exact ⟨rfl, rfl, rfl⟩
  | waiting | sending =>
    dsimp only
    split_ifs <;> exact ⟨rfl, rfl, rfl⟩
  | opening | reading | noting | launching | posting | landing | crashing | stopped =>
    exact ⟨rfl, rfl, rfl⟩

theorem tracked_enqueue {t : Transport ρ} (h : Tracked t) (body : ρ) : Tracked (enqueue t body) := by
  unfold enqueue
  split_ifs
  · exact h
  · obtain ⟨⟨hqueued, hinFlight⟩, honce, hwritten, hcalling, hsawEmpty⟩ := h
    refine ⟨⟨?_, hinFlight⟩, fun n => ?_, ?_, ?_, ?_⟩
    · simp only [total_append, total_singleton, Writer.pending]
      push_cast
      omega
    · have hn := honce n
      simp only [tally, awaited, passed, adrift, settled, total_append, total_singleton, Writer.fresh,
        Writer.evicts, Writer.discards] at hn ⊢
      split_ifs at hn ⊢ <;> omega
    · simpa [awaited, passed, adrift, settled, Writer.evicts, Writer.discards] using hwritten
    · simpa [awaited, passed, adrift, settled, Writer.evicts, Writer.discards] using hcalling
    · simpa [passed, adrift, settled, Writer.discards] using hsawEmpty

/-- The flusher looks at a counter. -/
theorem tracked_flusher {t : Transport ρ} (h : Tracked t) : Tracked (step cfg t .flusher) := by
  unfold step
  cases hflusher : t.flusher with
  | calling before =>
    dsimp only
    split_ifs with hqueued
    · refine ⟨⟨h.counts.queued, h.counts.inFlight⟩, h.once, h.written, ?_, ?_⟩
      · rintro b ⟨⟩
      · rintro b ⟨⟩ n hn
        have hpos := h.calling _ hflusher n hn
        have hle := awaited_le_queued h.counts n
        show 0 < passed t n
        omega
    · exact h
  | sawEmpty before =>
    dsimp only
    split_ifs with hinFlight
    · refine ⟨⟨h.counts.queued, h.counts.inFlight⟩, h.once, h.written, ?_, ?_⟩ <;> rintro b ⟨⟩
    · refine ⟨⟨h.counts.queued, h.counts.inFlight⟩, h.once, h.written, ?_, ?_⟩
      · rintro b ⟨⟩ n hn
        exact (h.sawEmpty _ hflusher n hn).trans_le (Nat.le_add_left _ _)
      · rintro b ⟨⟩
  | idle | returned => exact h

theorem tracked_step {t : Transport ρ} (h : Tracked t) (op : Op ρ) : Tracked (step cfg t op) := by
  cases op with
  | enqueue body => exact tracked_enqueue h body
  | writer i =>
    rw [step]
    cases hw : t.writers[i]? with
    | none => exact h
    | some w =>
      obtain ⟨hflusher, hcalls⟩ := @flusher_writer _ cfg t i w
      exact h.of_moves (moves_writer hw) (counts_writer h.counts hw) hcalls hflusher
        (written_writer t i w)
  | reader ok =>
    obtain ⟨hflusher, hcalls, hwritten⟩ := @flusher_reader _ cfg t ok
    refine h.of_moves (moves_reader t ok) (counts_reader h.counts ok) hcalls hflusher fun n hn => ?_
    exact .inl (hwritten ▸ hn)
  | flush =>
    refine ⟨⟨h.counts.queued, h.counts.inFlight⟩, h.once, h.written, ?_, ?_⟩
    · rintro b ⟨⟩ n hn
      exact h.written n hn
    · rintro b ⟨⟩
  | flusher => exact tracked_flusher h
  | close | complete | cancel => exact ⟨⟨h.counts.queued, h.counts.inFlight⟩, h.once, h.written, h.calling, h.sawEmpty⟩

theorem tracked_run (cfg : TelemetryConfig ρ) (ops : List (Op ρ)) : Tracked (run cfg ops) := by
  refine run_invariant (step cfg) (P := Tracked) ⟨⟨rfl, rfl⟩, fun n => ?_, ?_, ?_, ?_⟩
    (fun _ op h => tracked_step h op) ops
  · exact Nat.zero_le _
  · exact fun n hn => absurd hn not_mem_nil
  · rintro before ⟨⟩
  · rintro before ⟨⟩

/-- The next thing `FlushAsync` does is to return true. -/
def Flushes (t : Transport ρ) (before : List ℕ) : Prop :=
  t.flusher = .sawEmpty before ∧ t.inFlight = 0

/-- `FlushAsync` returns true with every record before it settled, except for those adrift. -/
theorem flush_settles_iff (cfg : TelemetryConfig ρ) (ops : List (Op ρ)) {before : List ℕ}
    (hflush : Flushes (run cfg ops) before) :
    (∀ n ∈ before, Settled (run cfg ops) n) ↔ ∀ n ∈ before, ¬ Adrift (run cfg ops) n := by
  have h := tracked_run cfg ops
  obtain ⟨hflusher, hinFlight⟩ := hflush
  have hlanded : ∀ n, (run cfg ops).reader.inFlight.count n = 0 := by
    intro n
    rw [h.counts.inFlight] at hinFlight
    revert hinFlight
    cases (run cfg ops).reader <;> intro hcounted <;> first | rfl | cases hcounted
  refine forall₂_congr fun n hn => ?_
  have hpassed := h.sawEmpty before hflusher n hn
  have honce := h.once n
  rw [← settled_pos_iff, ← adrift_pos_iff]
  rw [tally, passed, hlanded] at honce
  rw [passed, hlanded] at hpassed
  split_ifs at honce <;> omega

/-- An agent with the defaults and a collector. -/
def plain : TelemetryConfig Unit where
  batchSize := 500
  maxQueueSize := 10000
  reportDiscards := true
  endpoint := true
  clientBuilds := true
  writable _ := true

/-- A record is enqueued, and the loop reads it. -/
def readOne : List (Op Unit) :=
  [.enqueue (), .writer 0, .writer 0, .reader true, .reader true, .reader true, .reader true]

/-- The loop finds the channel empty, posts its batch and is answered; then flush looks. -/
def flushAfterPost : List (Op Unit) :=
  readOne ++ [.reader true, .reader true, .reader true, .reader true, .reader true, .reader true,
    .flush, .flusher]

/-- Flush looks as soon as the record is read. -/
def flushAfterRead : List (Op Unit) := readOne ++ [.flush, .flusher]

instance (t : Transport ρ) (n : ℕ) : Decidable (Settled t n) :=
  inferInstanceAs (Decidable (n ∈ t.postedRecords ∨ n ∈ t.failedRecords ∨ n ∈ t.droppedRecords))

instance (t : Transport ρ) (before : List ℕ) : Decidable (Flushes t before) :=
  inferInstanceAs (Decidable (t.flusher = .sawEmpty before ∧ t.inFlight = 0))

theorem flush_after_post :
    Flushes (run plain flushAfterPost) [0] ∧ ¬ Adrift (run plain flushAfterPost) 0 := by
  have hflushes : Flushes (run plain flushAfterPost) [0] := by decide
  refine ⟨hflushes, (flush_settles_iff plain flushAfterPost hflushes).mp ?_ 0 mem_cons_self⟩
  decide

theorem flush_with_batch_in_hand :
    Flushes (run plain flushAfterRead) [0] ∧ ¬ Settled (run plain flushAfterRead) 0 := by
  decide

end Flushing

end PtaasBench.Sdk.DotnetTransport
