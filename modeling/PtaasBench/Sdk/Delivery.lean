import PtaasBench.BenchCollector.Accounting
import PtaasBench.Sdk.Exporter

/-!
# PtaasBench.Sdk.Delivery — the Python agent, the network and the collector

The agent of `Exporter` posts to the collector of `App`.  A request is on the network until it
arrives or is lost, and may arrive long after the agent has given it up; the answer the agent
reads, or does not read, is independent of that.  Beside the collector stands, for every event it
holds or has stored, the record of the agent it comes from.
-/

namespace PtaasBench.Sdk.Delivery

open Py Lib BenchCollector List
open Sdk.Exporter (TelemetryConfig Agent)

/-- A posted batch; the batches are numbered as they are taken. -/
structure Request where
  batch : ℕ
  records : List (Tagged Json)

/-- The agent's record behind an event; there is none behind those of other clients. -/
abbrev Source := Option (Tagged Json)

structure System where
  agent : Agent Json := {}
  network : List Request := []
  collector : Collector
  /-- Behind the events in the collector's memory. -/
  held : List Source := []
  /-- Behind the rows. -/
  stored : List Source := []
  /-- The batches that have reached `submit`. -/
  received : List ℕ := []

inductive Event where
  | agent (op : Exporter.Op Json)
  /-- A request reaches the collector. -/
  | arrive (k : ℕ) (draw : Draw) (peer : Option String)
  | lose (k : ℕ)
  /-- Anything else the collector does, the requests of other clients among it. -/
  | collector (op : BenchCollector.Op)

section Step

variable (cfg : TelemetryConfig) (d : Deployment)

/-- The request a step of the agent puts on the network. -/
def requestOf (a : Agent Json) : Exporter.Op Json → List Request
  | .post =>
    match a.client.worker with
    | .ready batch _ => [{ batch := a.history.taken.length - 1, records := batch }]
    | _ => []
  | _ => []

/-- The records of a batch that `submit` accepts. -/
def acceptedRecords (active : Option String) (records : List (Tagged Json)) : List (Tagged Json) :=
  (records.take maxEventsPerBatch).filter fun r => active.isSome && (d.validateEvent r.body).isSome

/-- What comes to stand behind the collector's memory when events with these sources come in. -/
def holds (c : Collector) (held sources : List Source) : List Source :=
  held ++ if queueFull d c then [] else sources

/-- The sources behind the collector's memory after one of its own steps. -/
def heldAfter (c : Collector) (held : List Source) : BenchCollector.Op → List Source
  | .ingestEvents draw peer raw =>
    holds d c held ((intake d c (.ingestEvents draw peer raw)).map fun _ => none)
  | .postCorrelation draw peer raw =>
    holds d c held ((intake d c (.postCorrelation draw peer raw)).map fun _ => none)
  | .writerDone _ => held.drop c.inflight.length
  | .restart => []
  | _ => held

/-- The sources behind the rows after a step of the collector. -/
def storedAfter (c : Collector) (held stored : List Source) : BenchCollector.Op → List Source
  | .writerDone true => stored ++ held.take c.inflight.length
  | _ => stored

/-- The `k`-th request on the network is taken in. -/
def receive (s : System) (k : ℕ) (request : Request) (draw : Draw) (peer : Option String) : System :=
  { s with
    network := s.network.eraseIdx k
    collector := (submit d draw peer s.collector (request.records.map Tagged.body)).1
    held := holds d s.collector s.held
      ((acceptedRecords d s.collector.activeRunId request.records).map some)
    received := s.received ++ [request.batch] }

def step (s : System) : Event → System
  | .agent op =>
    { s with
      agent := Exporter.step cfg s.agent op
      network := s.network ++ requestOf s.agent op }
  | .arrive k draw peer =>
    match s.network[k]? with
    | none => s
    | some request => receive d s k request draw peer
  | .lose k => { s with network := s.network.eraseIdx k }
  | .collector op =>
    { s with
      collector := BenchCollector.step d s.collector op
      held := heldAfter d s.collector s.held op
      stored := storedAfter s.collector s.held s.stored op }

/-- An agent and a collector that are just starting. -/
def initial : System := { collector := BenchCollector.initial d }

abbrev run (events : List Event) : System := Lib.run (step cfg d) (initial d) events

/-- The batch of a request that arrives has not arrived before. -/
def FirstArrival (s : System) : Event → Prop
  | .arrive k _ _ => ∀ request ∈ s.network[k]?, request.batch ∉ s.received
  | _ => True

instance (s : System) : ∀ event, Decidable (FirstArrival s event)
  | .arrive k _ _ =>
    inferInstanceAs (Decidable (∀ request ∈ s.network[k]?, request.batch ∉ s.received))
  | .agent _ => isTrue trivial
  | .lose _ => isTrue trivial
  | .collector _ => isTrue trivial

end Step

/-! ## What stands behind an event -/

section Sources

variable {d : Deployment}

/-- The event is what the schema makes of the record. -/
def Describes (d : Deployment) (e : QueuedEvent) (r : Tagged Json) : Prop :=
  ∃ event, d.validateEvent r.body = some event ∧ e.type = event.type ∧ e.app = event.app ∧
    e.ts = event.ts

def Behind (d : Deployment) (e : QueuedEvent) (source : Source) : Prop :=
  ∀ r ∈ source, Describes d e r

theorem behind_none (e : QueuedEvent) : Behind d e none := fun r hr => absurd hr (by simp)

/-- The loop of `submit`, from any place of the batch on. -/
theorem forall₂_admission (draw : Draw) (peer active : Option String) (records : List (Tagged Json)) :
    ∀ (n : ℕ) (a : Admission), ∃ items,
      (((records.map Tagged.body).zipIdx n).foldl (admitEvent d draw peer active) a).accepted =
        a.accepted ++ items ∧
      List.Forall₂ (Behind d) items
        (((records.take (maxEventsPerBatch - n)).filter fun r =>
          active.isSome && (d.validateEvent r.body).isSome).map some) := by
  induction records with
  | nil => exact fun n a => ⟨[], by simp, by simp⟩
  | cons r records ih =>
    intro n a
    rw [map_cons, zipIdx_cons, foldl_cons]
    obtain ⟨items, haccepted, hbehind⟩ := ih (n + 1) (admitEvent d draw peer active a (r.body, n))
    rw [haccepted]
    by_cases hn : maxEventsPerBatch ≤ n
    · rw [Nat.sub_eq_zero_of_le (by omega), take_zero] at hbehind
      rw [Nat.sub_eq_zero_of_le hn, take_zero]
      refine ⟨items, ?_, hbehind⟩
      rw [admitEvent, if_pos hn]
    · have hsub : maxEventsPerBatch - n = (maxEventsPerBatch - (n + 1)) + 1 := by omega
      rw [hsub, take_succ_cons]
      unfold admitEvent
      rw [if_neg hn]
      cases hvalid : d.validateEvent r.body with
      | none =>
        rw [filter_cons_of_neg (by simp [hvalid])]
        exact ⟨items, rfl, hbehind⟩
      | some event =>
        cases active with
        | none =>
          rw [filter_cons_of_neg (by simp)]
          exact ⟨items, rfl, hbehind⟩
        | some runId =>
          rw [filter_cons_of_pos (by simp [hvalid])]
          refine ⟨_ :: items, append_assoc _ _ _, List.Forall₂.cons ?_ hbehind⟩
          rintro _ ⟨⟩
          exact ⟨event, hvalid, rfl, rfl, rfl⟩

theorem behind_admission (draw : Draw) (peer : Option String) (c : Collector)
    (records : List (Tagged Json)) :
    List.Forall₂ (Behind d) (admission d draw peer c (records.map Tagged.body)).accepted
      ((acceptedRecords d c.activeRunId records).map some) := by
  obtain ⟨items, haccepted, hbehind⟩ := forall₂_admission (d := d) draw peer c.activeRunId records 0
    { correlations := c.correlations, counters := c.counters }
  rw [admission, haccepted]
  exact hbehind

/-- The collector and what stands behind its events. -/
structure Coherent (d : Deployment) (c : Collector) (held stored : List Source) : Prop where
  held : List.Forall₂ (Behind d) c.pending held
  stored : List.Forall₂ (Behind d) (c.rows.map StoredEvent.toQueuedEvent) stored

variable {c c' : Collector} {held stored : List Source}

theorem coherent_takesIn (h : Coherent d c held stored) {items : List QueuedEvent}
    {sources : List Source} (ht : TakesIn d c c' items) (hs : List.Forall₂ (Behind d) items sources) :
    Coherent d c' (holds d c held sources) stored := by
  refine ⟨?_, ?_⟩
  · rw [pending_takesIn ht, holds]
    split_ifs
    · exact rel_append h.held List.Forall₂.nil
    · exact rel_append h.held hs
  · rw [ht.store.rows]
    exact h.stored

theorem behind_foreign (items : List QueuedEvent) :
    List.Forall₂ (Behind d) items (items.map fun _ => none) := by
  rw [forall₂_map_right_iff]
  exact forall₂_same.mpr fun e _ => behind_none e

theorem Coherent.of_same (h : Coherent d c held stored) (hpending : c'.pending = c.pending)
    (hrows : c'.rows = c.rows) : Coherent d c' held stored :=
  ⟨hpending ▸ h.held, hrows ▸ h.stored⟩

theorem coherent_writerDone (h : Coherent d c held stored) (ok : Bool) :
    Coherent d (writerDone ok c) (held.drop c.inflight.length)
      (storedAfter c held stored (.writerDone ok)) := by
  refine ⟨?_, ?_⟩
  · rw [pending_writerDone]
    exact forall₂_drop _ h.held
  · cases ok with
    | false => exact h.stored
    | true =>
      have htake := forall₂_take c.inflight.length h.held
      rw [Collector.pending, take_append_of_le_length (by simp), take_of_length_le (by simp)]
        at htake
      rw [writerDone, if_pos rfl]
      dsimp only
      rw [map_append]
      exact rel_append h.stored htake

theorem coherent_step (h : Coherent d c held stored) (op : BenchCollector.Op) :
    Coherent d (BenchCollector.step d c op) (heldAfter d c held op) (storedAfter c held stored op) := by
  cases op with
  | ingestEvents draw peer raw =>
    exact coherent_takesIn h (takesIn_ingestEvents d draw peer raw c) (behind_foreign _)
  | postCorrelation draw peer raw =>
    exact coherent_takesIn h (takesIn_postCorrelation d draw peer raw c) (behind_foreign _)
  | openRun run force now =>
    have hs := sameFlow_openRun c run force now
    exact h.of_same (pending_sameFlow hs) hs.rows
  | closeRun runId closing now =>
    have hs := sameFlow_closeRun c runId closing now
    exact h.of_same (pending_sameFlow hs) hs.rows
  | resume =>
    have hs := sameFlow_resume c
    exact h.of_same (pending_sameFlow hs) hs.rows
  | writerTake =>
    exact h.of_same (pending_writerTake d c)
      ((rows_step d c .writerTake).trans (append_nil _))
  | writerDone ok => exact coherent_writerDone h ok
  | restart =>
    refine ⟨?_, ?_⟩
    · rw [BenchCollector.step, pending_start]
      exact List.Forall₂.nil
    · rw [BenchCollector.step, rows_start]
      exact h.stored

end Sources

/-! ## Requests carry batches, and batches do not share records -/

section Batches

variable {cfg : TelemetryConfig}

/-- Records of two batches have different numbers. -/
theorem number_ne_of_batches {batches : List (List (Tagged Json))}
    (h : Ordered batches.flatten) {i j : ℕ} {b b' : List (Tagged Json)}
    (hi : batches[i]? = some b) (hj : batches[j]? = some b') (hij : i ≠ j) {r r' : Tagged Json}
    (hr : r ∈ b) (hr' : r' ∈ b') : r.number ≠ r'.number := by
  rw [ordered_iff, pairwise_flatten] at h
  obtain ⟨hlti, rfl⟩ := List.getElem?_eq_some_iff.mp hi
  obtain ⟨hltj, rfl⟩ := List.getElem?_eq_some_iff.mp hj
  have hpairwise := pairwise_iff_getElem.mp h.2
  rcases Nat.lt_or_gt_of_ne hij with hlt | hlt
  · exact (hpairwise i j hlti hltj hlt r hr r' hr').ne
  · exact (hpairwise j i hltj hlti hlt r' hr' r hr).ne'

theorem taken_step (a : Agent Json) (op : Exporter.Op Json) :
    a.history.taken <+: (Exporter.step cfg a op).history.taken := by
  unfold Exporter.step
  split_ifs
  · cases op with
    | append body =>
      unfold Exporter.stepHistory Exporter.History.append
      dsimp only
      split_ifs
      · cases a.client.queue <;> exact prefix_rfl
      · exact prefix_rfl
    | take =>
      unfold Exporter.stepHistory Exporter.History.take
      cases a.client.worker with
      | idle =>
        dsimp only
        split_ifs
        · exact prefix_rfl
        · exact prefix_append _ _
      | taken | ready | posted | done => exact prefix_rfl
    | answer ok =>
      unfold Exporter.stepHistory Exporter.History.answer
      cases a.client.worker with
      | posted batch attempt =>
        dsimp only
        split_ifs <;> exact prefix_rfl
      | idle | taken | ready | done => exact prefix_rfl
    | post =>
      unfold Exporter.stepHistory
      cases a.client.worker <;> exact prefix_rfl
    | countEnqueued | begin | release => exact prefix_rfl
  · exact prefix_rfl

theorem getElem?_of_prefix {α : Type*} {l l' : List α} (h : l <+: l') {i : ℕ} {x : α}
    (hx : l[i]? = some x) : l'[i]? = some x := by
  obtain ⟨t, rfl⟩ := h
  rw [List.getElem?_append_left (List.getElem?_eq_some_iff.mp hx).1]
  exact hx

/-- A request carries the batch it is numbered after. -/
theorem batch_of_requestOf {a : Agent Json}
    (hs : Exporter.Sending cfg a.client a.history) {op : Exporter.Op Json} {request : Request}
    (hr : request ∈ requestOf a op) : a.history.taken[request.batch]? = some request.records := by
  unfold requestOf at hr
  cases op with
  | post =>
    have htaken := hs.taken
    cases hworker : a.client.worker with
    | ready batch attempt =>
      rw [hworker] at hr htaken
      rw [mem_singleton.mp hr, htaken]
      simp [Exporter.Worker.batches]
    | idle | taken | posted | done =>
      rw [hworker] at hr
      exact absurd hr not_mem_nil
  | append | countEnqueued | take | begin | answer | release => exact absurd hr not_mem_nil

end Batches

/-! ## At most once -/

section Once

variable {cfg : TelemetryConfig} {d : Deployment}

/-- The agent's records the collector holds or has stored. -/
def records (s : System) : List (Tagged Json) := (s.stored ++ s.held).filterMap id

/-- Every record came in a batch that was received, and none is there twice. -/
structure Tracked (cfg : TelemetryConfig) (s : System) : Prop where
  flow : Exporter.Flow cfg s.agent.client s.agent.history
  sending : Exporter.Sending cfg s.agent.client s.agent.history
  requests : ∀ request ∈ s.network,
    s.agent.history.taken[request.batch]? = some request.records
  known : ∀ r ∈ records s, ∃ i ∈ s.received, ∃ batch, s.agent.history.taken[i]? = some batch ∧
    r ∈ batch
  once : ((records s).map Tagged.number).Nodup

theorem acceptedRecords_sublist (active : Option String) (l : List (Tagged Json)) :
    (acceptedRecords d active l).Sublist l :=
  filter_sublist.trans (take_sublist _ _)

theorem tracked_agent {s : System} (h : Tracked cfg s) (op : Exporter.Op Json) :
    Tracked cfg (step cfg d s (.agent op)) := by
  obtain ⟨hflow, hsending⟩ := Exporter.books_step h.flow h.sending op
  have htaken := @taken_step cfg s.agent op
  refine ⟨hflow, hsending, fun request hr => ?_, fun r hr => ?_, h.once⟩
  · rcases mem_append.mp hr with hr | hr
    · exact getElem?_of_prefix htaken (h.requests request hr)
    · exact getElem?_of_prefix htaken (batch_of_requestOf h.sending hr)
  · obtain ⟨i, hi, batch, hbatch, hmem⟩ := h.known r hr
    exact ⟨i, hi, batch, getElem?_of_prefix htaken hbatch, hmem⟩

/-- What is held and stored once a request is taken in: some of its records are new. -/
theorem records_receive (s : System) (k : ℕ) (request : Request) (draw : Draw)
    (peer : Option String) :
    ∃ more, List.Sublist more request.records ∧
      records (receive d s k request draw peer) = records s ++ more := by
  have hsub := acceptedRecords_sublist (d := d) s.collector.activeRunId request.records
  have hsome : ((acceptedRecords d s.collector.activeRunId request.records).map some).filterMap id =
      acceptedRecords d s.collector.activeRunId request.records := by
    rw [filterMap_map]
    exact filterMap_some
  rw [records, receive]
  dsimp only
  rw [holds, ← append_assoc, filterMap_append]
  split_ifs
  · exact ⟨[], nil_sublist _, rfl⟩
  · exact ⟨_, hsub, congrArg _ hsome⟩

/-- A batch that arrives for the first time brings records that are not there yet. -/
theorem tracked_receive {s : System} (h : Tracked cfg s) {k : ℕ} {request : Request}
    (hk : s.network[k]? = some request) (hnew : request.batch ∉ s.received) (draw : Draw)
    (peer : Option String) : Tracked cfg (receive d s k request draw peer) := by
  have hbatch := h.requests request (mem_of_getElem? hk)
  have hordered : Ordered s.agent.history.taken.flatten :=
    h.flow.backlog.ordered_left.sublist (sublist_append_left _ _)
  have hrequest : Ordered request.records := by
    have hpairwise := ordered_iff.mp hordered
    rw [pairwise_flatten] at hpairwise
    exact ordered_iff.mpr (hpairwise.1 _ (mem_of_getElem? hbatch))
  obtain ⟨more, hmore, heq⟩ := records_receive (d := d) s k request draw peer
  refine ⟨h.flow, h.sending, fun r hr => h.requests r (mem_of_mem_eraseIdx hr), ?_, ?_⟩
  · intro r hr
    rw [heq] at hr
    rcases mem_append.mp hr with hr | hr
    · obtain ⟨i, hi, hknown⟩ := h.known r hr
      exact ⟨i, mem_append_left _ hi, hknown⟩
    · exact ⟨request.batch, mem_append_right _ (mem_singleton.mpr rfl), request.records,
        hbatch, hmore.subset hr⟩
  · rw [heq, map_append]
    refine nodup_append.mpr ⟨h.once, ?_, ?_⟩
    · exact (hrequest.sublist hmore).imp fun hlt => hlt.ne
    · intro a ha b hb
      obtain ⟨r, hr, rfl⟩ := mem_map.mp ha
      obtain ⟨r', hr', rfl⟩ := mem_map.mp hb
      obtain ⟨i, hi, batch, hi', hmem⟩ := h.known r hr
      refine number_ne_of_batches hordered hi' hbatch ?_ hmem (hmore.subset hr')
      rintro rfl
      exact hnew hi

/-- What the collector does on its own moves sources or forgets them. -/
theorem records_collector (s : System) (op : BenchCollector.Op) :
    (records (step cfg d s (.collector op))).Sublist (records s) := by
  have hforeign : ∀ items : List QueuedEvent,
      records { s with held := holds d s.collector s.held (items.map fun _ => none) } =
        records s := by
    intro items
    have hnone : (items.map fun _ => (none : Source)).filterMap id = [] := by
      rw [filterMap_map]
      exact filterMap_eq_nil_iff.mpr fun _ _ => rfl
    rw [records, records, holds, ← append_assoc, filterMap_append]
    split_ifs
    · exact append_nil _
    · rw [hnone, append_nil]
  cases op with
  | ingestEvents draw peer raw =>
    exact (hforeign (intake d s.collector (.ingestEvents draw peer raw))) ▸ List.Sublist.refl _
  | postCorrelation draw peer raw => exact (hforeign (intake d s.collector (.postCorrelation draw peer raw))) ▸ List.Sublist.refl _
  | openRun | closeRun | resume | writerTake => exact List.Sublist.refl _
  | writerDone ok =>
    cases ok with
    | true =>
      have hsame : (s.stored ++ s.held.take s.collector.inflight.length) ++
          s.held.drop s.collector.inflight.length = s.stored ++ s.held := by
        rw [append_assoc, take_append_drop]
      show (((s.stored ++ s.held.take s.collector.inflight.length) ++
        s.held.drop s.collector.inflight.length).filterMap id).Sublist (records s)
      rw [hsame]
      exact List.Sublist.refl _
    | false =>
      exact ((List.Sublist.refl s.stored).append (drop_sublist _ _)).filterMap _
  | restart => exact ((List.Sublist.refl s.stored).append (nil_sublist s.held)).filterMap _

theorem tracked_step {s : System} (h : Tracked cfg s) (event : Event) (hfirst : FirstArrival s event) :
    Tracked cfg (step cfg d s event) := by
  cases event with
  | agent op => exact tracked_agent h op
  | arrive k draw peer =>
    rw [step]
    cases hk : s.network[k]? with
    | none => exact h
    | some request => exact tracked_receive h hk (hfirst request hk) draw peer
  | lose k =>
    exact ⟨h.flow, h.sending, fun r hr => h.requests r (mem_of_mem_eraseIdx hr), h.known, h.once⟩
  | collector op =>
    have hsub := @records_collector cfg d s op
    exact ⟨h.flow, h.sending, h.requests, fun r hr => h.known r (hsub.subset hr),
      h.once.sublist (hsub.map _)⟩

theorem coherent_system_step {s : System} (h : Coherent d s.collector s.held s.stored)
    (event : Event) :
    Coherent d (step cfg d s event).collector (step cfg d s event).held (step cfg d s event).stored := by
  cases event with
  | agent op => exact h
  | arrive k draw peer =>
    rw [step]
    cases s.network[k]? with
    | none => exact h
    | some request =>
      exact coherent_takesIn h (takesIn_submit d draw peer s.collector _)
        (behind_admission draw peer s.collector request.records)
  | lose k => exact h
  | collector op => exact coherent_step h op

theorem coherent_run (cfg : TelemetryConfig) (d : Deployment) (events : List Event) :
    Coherent d (run cfg d events).collector (run cfg d events).held (run cfg d events).stored := by
  refine run_invariant (step cfg d) (P := fun s => Coherent d s.collector s.held s.stored) ⟨?_, ?_⟩
    (fun s event h => coherent_system_step h event) events
  · rw [initial, BenchCollector.initial, pending_start]
    exact List.Forall₂.nil
  · rw [initial, BenchCollector.initial, rows_start]
    exact List.Forall₂.nil

theorem tracked_initial (cfg : TelemetryConfig) (d : Deployment) : Tracked cfg (initial d) where
  flow := Exporter.flow_empty cfg
  sending := Exporter.sending_empty cfg
  requests := fun _ hr => absurd hr not_mem_nil
  known := fun _ hr => absurd hr not_mem_nil
  once := nodup_nil

/-- As long as no batch reaches the collector in both of its requests, every row that describes a
record of the agent describes an emitted one, and no two rows the same. -/
theorem stored_at_most_once (cfg : TelemetryConfig) (d : Deployment) (events : List Event)
    (hfirst : Along (step cfg d) FirstArrival (initial d) events) :
    let s := run cfg d events
    List.Forall₂ (Behind d) (s.collector.rows.map StoredEvent.toQueuedEvent) s.stored ∧
      (∀ r, some r ∈ s.stored → r ∈ s.agent.history.emitted) ∧
      ((s.stored.filterMap id).map Tagged.number).Nodup := by
  have htracked : Tracked cfg (run cfg d events) :=
    run_along (step cfg d) (P := Tracked cfg) (fun _ event h hf => tracked_step h event hf)
      (tracked_initial cfg d) hfirst
  have hsub : ((run cfg d events).stored.filterMap id).Sublist (records (run cfg d events)) :=
    (sublist_append_left _ _).filterMap _
  refine ⟨(coherent_run cfg d events).stored, fun r hr => ?_, htracked.once.sublist (hsub.map _)⟩
  obtain ⟨i, -, batch, hi, hmem⟩ :=
    htracked.known r (hsub.subset (mem_filterMap.mpr ⟨some r, hr, rfl⟩))
  exact htracked.flow.backlog.mem_arrived
    (mem_append_left _ (mem_flatten.mpr ⟨batch, mem_of_getElem? hi, hmem⟩))

end Once

/-! ## A note that is sent twice -/

/-- One note of the shop, emitted during a run and posted. -/
def postedNote : List Event :=
  Notes.openFirst.map Event.collector ++
    [.agent (.append (.obj [("type", .str "note"), ("app", .str "shopfront")])), .agent .countEnqueued,
      .agent .take, .agent .begin, .agent .post]

/-- The retry arrives, is answered, and what has arrived is written. -/
def retriedNote : List Event :=
  [.agent (.answer false), .agent .post, .arrive 0 Notes.draw none, .agent (.answer true),
    .agent .release, .collector .writerTake, .collector (.writerDone true)]

/-- The first request never arrives. -/
def lostOnce : List Event := postedNote ++ [.lose 0] ++ retriedNote

theorem retried_note_stored_once :
    ((run {} Notes.deployment lostOnce).stored.filterMap id).length = 1 ∧
      (((run {} Notes.deployment lostOnce).stored.filterMap id).map Tagged.number).Nodup :=
  ⟨by decide, (stored_at_most_once {} Notes.deployment lostOnce (by decide)).2.2⟩

/-- The first request is stored, and its answer is lost. -/
def answerLost : List Event := postedNote ++ [.arrive 0 Notes.draw none] ++ retriedNote

theorem retried_note_stored_twice :
    (run {} Notes.deployment answerLost).collector.rows.length = 2 ∧
      ¬ (((run {} Notes.deployment answerLost).stored.filterMap id).map Tagged.number).Nodup := by
  decide

end PtaasBench.Sdk.Delivery
