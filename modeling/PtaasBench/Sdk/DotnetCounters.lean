import PtaasBench.Sdk.DotnetTransport
import PtaasBench.Sdk.NodeCounters

/-!
# PtaasBench.Sdk.DotnetCounters — the counters of the .NET exporter over a run (`Transport.cs`)

The loop takes every answer below 500 for a success.  Beside the exporter, a list says which records were in the
body of a request that was answered with a status of the two hundreds.
-/

namespace PtaasBench.Sdk.DotnetTransport

open Lib List

section Audit

variable {ρ : Type*} (cfg : TelemetryConfig ρ)

/-- The collector answered with success. -/
def success (status : Option ℕ) : Bool := status.any fun s => 200 ≤ s && s < 300

/-- An operation, with the status of the answer where the loop gets one. -/
structure Act (ρ : Type*) where
  op : Op ρ
  status : Option ℕ := none
  answered : ∀ ok, op = .reader ok → ok = status.any fun s => s < 500

structure Audit (ρ : Type*) where
  transport : Transport ρ := {}
  acknowledged : List ℕ := []

/-- The records in the body that an operation sees answered with success. -/
def acknowledges (t : Transport ρ) (act : Act ρ) : List ℕ :=
  match act.op, t.reader with
  | .reader ok, .sending batch _ =>
    if cfg.endpoint && cfg.clientBuilds && ok && success act.status then
      numbers (batch.filter fun r => cfg.writable r.body)
    else []
  | _, _ => []

def auditStep (a : Audit ρ) (act : Act ρ) : Audit ρ where
  transport := step cfg a.transport act.op
  acknowledged := a.acknowledged ++ acknowledges cfg a.transport act

abbrev audit (acts : List (Act ρ)) : Audit ρ := Lib.run (auditStep cfg) {} acts

/-- An operation that keeps the counters right: no note is added to a batch, a client can be built for the
endpoint, and what is taken for a success is one, with the whole batch in the body. -/
def honest (a : Audit ρ) (act : Act ρ) : Bool :=
  match act.op, a.transport.reader with
  | .reader _, .noting _ => (dropNote cfg a.transport).isNone
  | .reader ok, .sending batch _ =>
    !cfg.endpoint || cfg.clientBuilds && (!ok || success act.status && batch.all fun r => cfg.writable r.body)
  | _, _ => true

/-- Nothing is queued or in flight, and no call of `Enqueue` is under way. -/
def Quiet (t : Transport ρ) : Prop :=
  t.channel = [] ∧ (∀ w ∈ t.writers, w = .finished) ∧ t.reader.inHand = [] ∧ t.reader.inFlight = [] ∧
    t.reader.unread = []

/-- The records counted as sent: those in a body, and those left out of it. -/
def sentRecords (t : Transport ρ) : List ℕ := t.postedRecords ++ t.leftOut

/-- The counters add up, each accepted record is in one of them, and what is counted as sent was acknowledged. -/
structure Reconciled (a : Audit ρ) : Prop where
  sum : a.transport.enqueued = a.transport.sent + a.transport.failed + a.transport.dropped
  accepted : a.transport.enqueued = a.transport.writtenRecords.length
  sent : a.transport.sent = (sentRecords a.transport).length
  failed : a.transport.failed = a.transport.failedRecords.length
  dropped : a.transport.dropped = a.transport.droppedRecords.length
  distinct : a.transport.writtenRecords.Nodup
  one : a.transport.writtenRecords.Perm
    (sentRecords a.transport ++ a.transport.failedRecords ++ a.transport.droppedRecords)
  acknowledged : ∀ n ∈ sentRecords a.transport, n ∈ a.acknowledged

end Audit

/-! ## Honest operations -/

section Kept

variable {ρ : Type*} {cfg : TelemetryConfig ρ}

/-- Was the record of the call written and not counted yet? -/
def Writer.uncounted : Writer ρ → ℕ
  | .evicting _ => 1
  | .discarding _ => 1
  | .reporting => 1
  | .written => 1
  | _ => 0

def Reader.note : Reader ρ → Option ℤ
  | .launching _ note => note
  | .posting _ note => note
  | .sending _ note => note
  | _ => none

/-- Every record the channel took is in one place, and the counters count what was counted. -/
structure Kept (t : Transport ρ) (acknowledged : List ℕ) : Prop where
  place : ∀ n, t.writtenRecords.count n = awaited t n + passed t n
  whole : t.leftOut = [] ∧ t.lost = []
  noteless : t.reader.note = none
  accepted : t.enqueued + total Writer.uncounted t.writers = t.writtenRecords.length
  sent : t.sent = t.postedRecords.length
  failed : t.failed = t.failedRecords.length
  dropped : t.dropped = t.droppedRecords.length
  acknowledged : ∀ n ∈ t.postedRecords, n ∈ acknowledged

theorem kept_writer {t : Transport ρ} {ack : List ℕ} (h : Kept t ack) {i : ℕ} {w : Writer ρ}
    (hw : t.writers[i]? = some w) : Kept (stepWriter cfg t i w) ack := by
  obtain ⟨hplace, hwhole, hnote, haccepted, hsent, hfailed, hdropped, hack⟩ := h
  have hset (n : ℕ) (y : Writer ρ) :
      total (Writer.evicts n) (t.writers.set i y) + w.evicts n = total (Writer.evicts n) t.writers + y.evicts n ∧
      total (Writer.discards n) (t.writers.set i y) + w.discards n =
        total (Writer.discards n) t.writers + y.discards n := ⟨total_set _ hw y, total_set _ hw y⟩
  have hcount (y : Writer ρ) : total Writer.uncounted (t.writers.set i y) + w.uncounted =
      total Writer.uncounted t.writers + y.uncounted := total_set _ hw y
  unfold stepWriter
  cases w with
  | announced record =>
    dsimp only
    split_ifs with hcompleted hroom
    · refine ⟨fun n => ?_, hwhole, hnote, ?_, hsent, hfailed, hdropped, hack⟩
      · obtain ⟨h1, h2⟩ := hset n .rejected
        have hn := hplace n
        simp only [Writer.evicts, Writer.discards, awaited, passed, adrift, settled] at h1 h2 hn ⊢
        omega
      · have hc := hcount .rejected
        simp only [Writer.uncounted] at hc ⊢
        omega
    · refine ⟨fun n => ?_, hwhole, hnote, ?_, hsent, hfailed, hdropped, hack⟩
      · obtain ⟨h1, h2⟩ := hset n .written
        have hn := hplace n
        simp only [Writer.evicts, Writer.discards, awaited, passed, adrift, settled, count_numbers_append,
          count_numbers_cons, count_numbers_nil, count_append, count_singleton, beq_iff_eq] at h1 h2 hn ⊢
        omega
      · have hc := hcount .written
        simp only [Writer.uncounted, length_append, length_singleton] at hc ⊢
        omega
    · cases hchannel : t.channel with
      | nil =>
        rw [hchannel, length_nil, capacity] at hroom
        exact absurd (lt_of_lt_of_le Int.zero_lt_one (le_max_left 1 cfg.maxQueueSize)) hroom
      | cons oldest rest =>
        refine ⟨fun n => ?_, hwhole, hnote, ?_, hsent, hfailed, hdropped, hack⟩
        · obtain ⟨h1, h2⟩ := hset n (.evicting oldest)
          have hn := hplace n
          simp only [Writer.evicts, Writer.discards, awaited, passed, adrift, settled, hchannel, count_numbers_append,
            count_numbers_cons, count_numbers_nil, count_append, count_singleton, beq_iff_eq] at h1 h2 hn ⊢
          omega
        · have hc := hcount (.evicting oldest)
          simp only [Writer.uncounted, length_append, length_singleton] at hc ⊢
          omega
  | evicting oldest =>
    refine ⟨fun n => ?_, hwhole, hnote, ?_, hsent, hfailed, hdropped, hack⟩
    · obtain ⟨h1, h2⟩ := hset n (.discarding oldest)
      have hn := hplace n
      simp only [Writer.evicts, Writer.discards, awaited, passed, adrift, settled] at h1 h2 hn ⊢
      omega
    · have hc := hcount (.discarding oldest)
      simp only [Writer.uncounted] at hc ⊢
      omega
  | discarding oldest =>
    refine ⟨fun n => ?_, hwhole, hnote, ?_, hsent, hfailed, ?_, hack⟩
    · obtain ⟨h1, h2⟩ := hset n .reporting
      have hn := hplace n
      simp only [Writer.evicts, Writer.discards, awaited, passed, adrift, settled, count_append,
        count_singleton, beq_iff_eq] at h1 h2 hn ⊢
      omega
    · have hc := hcount .reporting
      simp only [Writer.uncounted] at hc ⊢
      omega
    · dsimp only
      rw [length_append, length_singleton, hdropped]
  | reporting =>
    refine ⟨fun n => ?_, hwhole, hnote, ?_, hsent, hfailed, hdropped, hack⟩
    · obtain ⟨h1, h2⟩ := hset n .written
      have hn := hplace n
      simp only [Writer.evicts, Writer.discards, awaited, passed, adrift, settled] at h1 h2 hn ⊢
      omega
    · have hc := hcount .written
      simp only [Writer.uncounted] at hc ⊢
      omega
  | written | rejected =>
    refine ⟨fun n => ?_, hwhole, hnote, ?_, hsent, hfailed, hdropped, hack⟩
    · obtain ⟨h1, h2⟩ := hset n .finished
      have hn := hplace n
      simp only [Writer.evicts, Writer.discards, awaited, passed, adrift, settled] at h1 h2 hn ⊢
      omega
    · have hc := hcount .finished
      simp only [Writer.uncounted] at hc ⊢
      omega
  | finished => exact ⟨hplace, hwhole, hnote, haccepted, hsent, hfailed, hdropped, hack⟩

theorem frame_reader (t : Transport ρ) (ok : Bool) :
    (stepReader cfg t ok).writers = t.writers ∧ (stepReader cfg t ok).enqueued = t.enqueued ∧
      (stepReader cfg t ok).dropped = t.dropped ∧ (stepReader cfg t ok).droppedRecords = t.droppedRecords := by
  unfold stepReader
  cases t.reader with
  | filling batch room =>
    cases t.channel with
    | nil => exact ⟨rfl, rfl, rfl, rfl⟩
    | cons record rest =>
      dsimp only
      split_ifs <;> exact ⟨rfl, rfl, rfl, rfl⟩
  | waiting | sending =>
    dsimp only
    split_ifs <;> exact ⟨rfl, rfl, rfl, rfl⟩
  | opening | reading | noting | launching | posting | landing | crashing | stopped =>
    exact ⟨rfl, rfl, rfl, rfl⟩

/-- The loop moves records on and loses none. -/
theorem place_reader (t : Transport ρ) (ok : Bool) (n : ℕ) :
    awaited (stepReader cfg t ok) n + passed (stepReader cfg t ok) n = awaited t n + passed t n := by
  have hmoves := @moves_reader _ cfg t ok n
  have htally := hmoves.tally
  rw [tally, tally, (@frame_reader _ cfg t ok).1] at htally
  have hlate := hmoves.late
  omega

/-- What a step of the loop other than the end of a request does. -/
structure Silent (t t' : Transport ρ) : Prop where
  note : t'.reader.note = none
  sent : t'.sent = t.sent
  failed : t'.failed = t.failed
  posted : t'.postedRecords = t.postedRecords
  failedRecords : t'.failedRecords = t.failedRecords
  leftOut : t'.leftOut = t.leftOut
  lost : t'.lost = t.lost

theorem silent_reader {t : Transport ρ} (hnote : t.reader.note = none) (ok : Bool)
    (hsending : ∀ batch note, t.reader ≠ .sending batch note)
    (hnoting : ∀ batch, t.reader = .noting batch → dropNote cfg t = none) :
    Silent t (stepReader cfg t ok) := by
  unfold stepReader
  cases hreader : t.reader with
  | filling batch room =>
    cases t.channel with
    | nil => exact ⟨rfl, rfl, rfl, rfl, rfl, rfl, rfl⟩
    | cons record rest =>
      dsimp only
      split_ifs <;> exact ⟨rfl, rfl, rfl, rfl, rfl, rfl, rfl⟩
  | waiting =>
    dsimp only
    split_ifs
    · exact ⟨rfl, rfl, rfl, rfl, rfl, rfl, rfl⟩
    · exact ⟨rfl, rfl, rfl, rfl, rfl, rfl, rfl⟩
    · exact ⟨rfl, rfl, rfl, rfl, rfl, rfl, rfl⟩
    · exact ⟨hnote, rfl, rfl, rfl, rfl, rfl, rfl⟩
  | noting batch =>
    refine ⟨?_, rfl, rfl, rfl, rfl, rfl, rfl⟩
    dsimp only
    rw [hnoting batch hreader]
    split_ifs
    · rfl
    · rfl
  | launching batch note =>
    rw [hreader] at hnote
    exact ⟨hnote, rfl, rfl, rfl, rfl, rfl, rfl⟩
  | posting batch note =>
    rw [hreader] at hnote
    exact ⟨hnote, rfl, rfl, rfl, rfl, rfl, rfl⟩
  | sending batch note => exact absurd hreader (hsending batch note)
  | stopped => exact ⟨hnote, rfl, rfl, rfl, rfl, rfl, rfl⟩
  | opening | reading | landing | crashing => exact ⟨rfl, rfl, rfl, rfl, rfl, rfl, rfl⟩

theorem Kept.of_silent {t : Transport ρ} {ack : List ℕ} (h : Kept t ack) {ok : Bool}
    (hsilent : Silent t (stepReader cfg t ok)) : Kept (stepReader cfg t ok) ack := by
  obtain ⟨hwriters, henqueued, hdropped, hrecords⟩ := @frame_reader _ cfg t ok
  have hwritten := (@flusher_reader _ cfg t ok).2.2
  refine ⟨fun n => ?_, ?_, hsilent.note, ?_, ?_, ?_, ?_, ?_⟩
  · rw [hwritten, h.place, place_reader]
  · rw [hsilent.leftOut, hsilent.lost]
    exact h.whole
  · rw [henqueued, hwriters, hwritten]
    exact h.accepted
  · rw [hsilent.sent, hsilent.posted]
    exact h.sent
  · rw [hsilent.failed, hsilent.failedRecords]
    exact h.failed
  · rw [hdropped, hrecords]
    exact h.dropped
  · rw [hsilent.posted]
    exact h.acknowledged

/-- The end of a request. -/
theorem Kept.of_sending {t : Transport ρ} {ack : List ℕ} (h : Kept t ack) {batch : List (Tagged ρ)} {note : Option ℤ}
    (hreader : t.reader = .sending batch note) {ok : Bool} {status : Option ℕ}
    (hhonest : cfg.endpoint = true → cfg.clientBuilds = true ∧
      (ok = true → success status = true ∧ ∀ r ∈ batch, cfg.writable r.body = true)) :
    Kept (stepReader cfg t ok)
      (ack ++ if cfg.endpoint && cfg.clientBuilds && ok && success status then
        numbers (batch.filter fun r => cfg.writable r.body) else []) := by
  have hplace (n : ℕ) := (h.place n).trans (@place_reader _ cfg t ok n).symm
  have hlength : batchCount batch note = (numbers batch).length := by
    have hnote := h.noteless
    rw [hreader] at hnote
    obtain rfl : note = none := hnote
    rw [batchCount, numbers, length_map]
    rfl
  have hfail : (∀ n, t.writtenRecords.count n = awaited (fail t batch note) n + passed (fail t batch note) n) →
      ∀ more, Kept (fail t batch note) (ack ++ more) := by
    intro hplace more
    refine ⟨hplace, h.whole, rfl, h.accepted, h.sent, ?_, h.dropped,
      fun n hn => mem_append_left _ (h.acknowledged n hn)⟩
    rw [fail, h.failed, hlength, length_append]
  unfold stepReader at hplace ⊢
  rw [hreader] at hplace ⊢
  dsimp only at hplace ⊢
  cases hendpoint : cfg.endpoint with
  | false =>
    rw [hendpoint] at hplace
    exact hfail hplace _
  | true =>
    obtain ⟨hbuilds, hok⟩ := hhonest hendpoint
    rw [hendpoint, hbuilds] at hplace
    rw [hbuilds]
    cases ok with
    | false => exact hfail hplace _
    | true =>
      obtain ⟨hsuccess, hwritable⟩ := hok rfl
      have hall : (batch.filter fun r => cfg.writable r.body) = batch := filter_eq_self.mpr hwritable
      have hnone : (batch.filter fun r => !cfg.writable r.body) = [] := by
        refine filter_eq_nil_iff.mpr fun r hr => ?_
        rw [hwritable r hr]
        exact Bool.false_ne_true
      rw [hsuccess]
      refine ⟨hplace, ⟨?_, h.whole.2⟩, rfl, h.accepted, ?_, h.failed, h.dropped, fun n hn => ?_⟩
      · show t.leftOut ++ numbers (batch.filter fun r => !cfg.writable r.body) = []
        rw [hnone, h.whole.1]
        rfl
      · show t.sent + batchCount batch note =
          (t.postedRecords ++ numbers (batch.filter fun r => cfg.writable r.body)).length
        rw [hall, hlength, length_append, h.sent]
      · rcases mem_append.mp hn with hn | hn
        · exact mem_append_left _ (h.acknowledged n hn)
        · exact mem_append_right _ hn

/-- The conditions of an honest operation, one by one. -/
theorem honest_spec {a : Audit ρ} {act : Act ρ} (h : honest cfg a act = true) :
    (∀ ok batch, act.op = .reader ok → a.transport.reader = .noting batch → dropNote cfg a.transport = none) ∧
    ∀ ok batch note, act.op = .reader ok → a.transport.reader = .sending batch note → cfg.endpoint = true →
      cfg.clientBuilds = true ∧
        (ok = true → success act.status = true ∧ ∀ r ∈ batch, cfg.writable r.body = true) := by
  refine ⟨fun ok batch hop hreader => ?_, fun ok batch note hop hreader hendpoint => ?_⟩
  · rw [honest, hop, hreader] at h
    exact Option.isNone_iff_eq_none.mp h
  · rw [honest, hop, hreader] at h
    dsimp only at h
    rw [hendpoint, Bool.not_true, Bool.false_or, Bool.and_eq_true] at h
    refine ⟨h.1, ?_⟩
    rintro rfl
    have hbody := h.2
    rw [Bool.not_true, Bool.false_or, Bool.and_eq_true, all_eq_true] at hbody
    exact hbody

theorem kept_step {a : Audit ρ} (h : Kept a.transport a.acknowledged) {act : Act ρ}
    (hact : honest cfg a act = true) :
    Kept (auditStep cfg a act).transport (auditStep cfg a act).acknowledged := by
  obtain ⟨t, ack⟩ := a
  obtain ⟨op, status, hanswered⟩ := act
  obtain ⟨hnoting, hsending⟩ := honest_spec hact
  show Kept (step cfg t op) (ack ++ acknowledges cfg t ⟨op, status, hanswered⟩)
  cases op with
  | reader ok =>
    by_cases hat : ∃ batch note, t.reader = .sending batch note
    · obtain ⟨batch, note, hreader⟩ := hat
      rw [acknowledges, hreader]
      exact Kept.of_sending h hreader (hsending ok batch note rfl hreader)
    · have hsilent := silent_reader h.noteless ok (fun batch note hr => hat ⟨batch, note, hr⟩)
        fun batch hr => hnoting ok batch rfl hr
      have hnone : acknowledges cfg t ⟨.reader ok, status, hanswered⟩ = [] := by
        unfold acknowledges
        cases hreader : t.reader with
        | sending batch note => exact absurd ⟨batch, note, hreader⟩ hat
        | _ => rfl
      rw [hnone, append_nil]
      exact h.of_silent hsilent
  | writer i =>
    rw [step, acknowledges, append_nil]
    cases hw : t.writers[i]? with
    | none => exact h
    | some w => exact kept_writer h hw
  | enqueue body =>
    rw [step, acknowledges, append_nil, enqueue]
    split_ifs
    · exact h
    · refine ⟨fun n => ?_, h.whole, h.noteless, ?_, h.sent, h.failed, h.dropped, h.acknowledged⟩
      · have hn := h.place n
        simp only [awaited, passed, adrift, settled, total_append, total_singleton, Writer.evicts,
          Writer.discards] at hn ⊢
        omega
      · have hc := h.accepted
        simp only [total_append, total_singleton, Writer.uncounted] at hc ⊢
        omega
  | flusher =>
    rw [step, acknowledges, append_nil]
    have hframe : ∀ f, Kept { t with flusher := f } ack := fun f =>
      ⟨h.place, h.whole, h.noteless, h.accepted, h.sent, h.failed, h.dropped, h.acknowledged⟩
    cases t.flusher with
    | calling before =>
      dsimp only
      split_ifs
      · exact hframe _
      · exact h
    | sawEmpty before => exact hframe _
    | idle | returned => exact h
  | flush | close | complete | cancel =>
    rw [step, acknowledges, append_nil]
    exact ⟨h.place, h.whole, h.noteless, h.accepted, h.sent, h.failed, h.dropped, h.acknowledged⟩

theorem kept_audit {acts : List (Act ρ)} (hacts : Along (auditStep cfg) (fun a act => honest cfg a act = true) {} acts) :
    Kept (audit cfg acts).transport (audit cfg acts).acknowledged ∧ Tracked (audit cfg acts).transport := by
  refine @run_along _ _ _ (fun a => Kept a.transport a.acknowledged ∧ Tracked a.transport) _
    (fun a act h hact => ⟨kept_step h.1 hact, tracked_step h.2 act.op⟩) _ ⟨?_, tracked_run cfg []⟩ _ hacts
  exact ⟨fun _ => rfl, ⟨rfl, rfl⟩, rfl, rfl, rfl, rfl, rfl, fun _ hn => absurd hn not_mem_nil⟩

theorem Kept.reconciled {a : Audit ρ} (h : Kept a.transport a.acknowledged) (htracked : Tracked a.transport)
    (hquiet : Quiet a.transport) : Reconciled a := by
  obtain ⟨hchannel, hwriters, hinHand, hinFlight, hunread⟩ := hquiet
  have hzero {f : Writer ρ → ℕ} (hf : f .finished = 0) : total f a.transport.writers = 0 := by
    by_contra hne
    obtain ⟨w, hw, hpos⟩ := (total_pos_iff f).mp (Nat.pos_of_ne_zero hne)
    rw [hwriters w hw, hf] at hpos
    exact lt_irrefl 0 hpos
  have hsent : sentRecords a.transport = a.transport.postedRecords := by
    rw [sentRecords, h.whole.1, append_nil]
  have hone : a.transport.writtenRecords.Perm
      (sentRecords a.transport ++ a.transport.failedRecords ++ a.transport.droppedRecords) := by
    refine perm_iff_count.mpr fun n => ?_
    have hplace := h.place n
    rw [awaited, passed, adrift, settled, hchannel, hinHand, hinFlight, hunread, h.whole.1, h.whole.2,
      hzero rfl, hzero rfl, count_numbers_nil] at hplace
    rw [hsent, hplace, count_append, count_append]
    simp only [count_nil, zero_add]
  have haccepted : a.transport.enqueued = a.transport.writtenRecords.length := by
    have hcount := h.accepted
    rwa [hzero rfl, add_zero] at hcount
  refine ⟨?_, haccepted, by rw [hsent, h.sent], h.failed, h.dropped, ?_, hone, ?_⟩
  · have hlength := hone.length_eq
    rw [length_append, length_append, hsent] at hlength
    rw [haccepted, h.sent, h.failed, h.dropped, hlength]
  · refine nodup_iff_count_le_one.mpr fun n => ?_
    have honce := htracked.once n
    have hplace := h.place n
    rw [tally] at honce
    split_ifs at honce <;> omega
  · rw [hsent]
    exact h.acknowledged

end Kept

/-! ## Both exporters -/

/-- In runs of honest operations the counters of both exporters reconcile whenever nothing is queued or in
flight. -/
theorem counters_reconcile {ρ : Type*} :
    (∀ (cfg : NodeTransport.ResolvedConfig) (json : NodeTransport.Stringify ρ) (ops : List (NodeTransport.Op ρ)),
      Along (NodeTransport.auditStep cfg json) (fun a op => NodeTransport.honest cfg json a op = true) {} ops →
      NodeTransport.Quiet (NodeTransport.audit cfg json ops).transport →
      NodeTransport.Reconciled (NodeTransport.audit cfg json ops)) ∧
    ∀ (cfg : TelemetryConfig ρ) (acts : List (Act ρ)),
      Along (auditStep cfg) (fun a act => honest cfg a act = true) {} acts →
      Quiet (audit cfg acts).transport → Reconciled (audit cfg acts) := by
  refine ⟨fun cfg json ops hops hquiet => (NodeTransport.kept_audit hops).reconciled hquiet,
    fun cfg acts hacts hquiet => ?_⟩
  obtain ⟨hkept, htracked⟩ := kept_audit hacts
  exact hkept.reconciled htracked hquiet

/-- The loop's next operation, with the status it may get. -/
def read (status : ℕ) : Act Unit where
  op := .reader (decide (status < 500))
  status := some status
  answered := by
    rintro ok ⟨⟩
    rfl

def call (record : Option Unit) : Act Unit where
  op := record.elim (.writer 0) .enqueue
  answered := by
    cases record <;> rintro ok ⟨⟩

/-- A record is enqueued and posted. -/
def postOne (status : ℕ) : List (Act Unit) :=
  [call (some ()), call none, call none] ++ List.replicate 10 (read status)

theorem postOne_quiet {status : ℕ} (h : status = 200 ∨ status = 413) :
    Quiet (audit plain (postOne status)).transport := by
  have hwriters : (audit plain (postOne status)).transport.writers = [.finished] := by
    rcases h with rfl | rfl <;> rfl
  refine ⟨?_, fun w hw => ?_, ?_, ?_, ?_⟩
  · rcases h with rfl | rfl <;> rfl
  · rw [hwriters] at hw
    exact mem_singleton.mp hw
  · rcases h with rfl | rfl <;> rfl
  · rcases h with rfl | rfl <;> rfl
  · rcases h with rfl | rfl <;> rfl

theorem postOne_honest :
    Along (auditStep plain) (fun a act => honest plain a act = true) {} (postOne 200) := by
  decide

theorem counters_reconcile_here :
    NodeTransport.Reconciled (NodeTransport.audit NodeTransport.shopConfig NodeTransport.flags
      (NodeTransport.twoFlushed true true)) ∧ Reconciled (audit plain (postOne 200)) :=
  ⟨counters_reconcile.1 _ _ _ NodeTransport.twoFlushed_honest (NodeTransport.twoFlushed_quiet true),
    counters_reconcile.2 _ _ postOne_honest (postOne_quiet (.inl rfl))⟩

/-- A record that the collector refuses is counted as sent. -/
theorem postOne_overcounts : ¬ Reconciled (audit plain (postOne 413)) := by
  intro h
  have hsent := h.acknowledged 0 (by decide)
  exact absurd hsent (by decide)

theorem counters_overcount :
    (NodeTransport.Quiet (NodeTransport.audit NodeTransport.shopConfig NodeTransport.flags
        (NodeTransport.twoFlushed false true)).transport ∧
      ¬ NodeTransport.Reconciled (NodeTransport.audit NodeTransport.shopConfig NodeTransport.flags
        (NodeTransport.twoFlushed false true))) ∧
    Quiet (audit plain (postOne 413)).transport ∧ ¬ Reconciled (audit plain (postOne 413)) :=
  ⟨⟨NodeTransport.twoFlushed_quiet false, NodeTransport.twoFlushed_overcounts⟩, postOne_quiet (.inr rfl),
    postOne_overcounts⟩

end PtaasBench.Sdk.DotnetTransport
