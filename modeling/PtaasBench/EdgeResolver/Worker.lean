import PtaasBench.EdgeResolver.Recorder
import PtaasBench.Lib.Machine
import Mathlib.Data.List.Perm.Basic

/-!
# PtaasBench.EdgeResolver.Worker — observations parked for a lookup (`AttributionWorker`)

The recorder and the worker as a machine.  The listeners, the worker's threads and `stop` take
turns; a step is what one of them does between two points where it waits.  Observations are
numbered as they come.
-/

namespace PtaasBench.EdgeResolver

open Py List

def Level.rank : Level → ℕ
  | none => 0
  | low => 1
  | high => 2

/-- What a listener hands to `record`. -/
structure Request where
  channel : String
  sourceIp : String
  extraction : Extraction
  raw : String
  host : Option String
  detail : Obj
  ownedZone : Option Bool

/-- An item of the worker's queue. -/
structure Parked where
  seq : ℕ
  observation : Observation
  host : String
  sourceIp : String

structure Reported where
  seq : ℕ
  observation : Observation

/-- How far `stop` has come. -/
inductive StopPhase where
  | idle
  | joining
  | draining
deriving DecidableEq

structure Resolver where
  index : CorrelationIndex := {}
  queueSize : ℕ := 2000
  queue : List Parked := []
  thread : Bool := false  -- is `_thread` set
  stopEvent : Bool := false
  live : ℕ := 0  -- threads that have not ended
  hands : List Parked := []  -- what the threads are looking up
  phase : StopPhase := .idle
  processed : ℕ := 0
  improved : ℕ := 0
  dropped : ℕ := 0
  observed : List Observation := []
  reported : List Reported := []

/-- How a lookup ends; without an endpoint there are no payloads. -/
inductive Lookup where
  | raised
  | answered (payloads : Option (List Obj))

namespace Resolver

/-- The report of an observation. -/
def emit (s : Resolver) (seq : ℕ) (o : Observation) : Resolver :=
  { s with reported := s.reported ++ [⟨seq, o⟩] }

/-- `enqueue`; a queue of size 0 has no bound. -/
def enqueue (s : Resolver) (item : Parked) : Resolver × Bool :=
  if !s.thread then (s, false)
  else if s.queueSize ≠ 0 ∧ s.queueSize ≤ s.queue.length then
    ({ s with dropped := s.dropped + 1 }, false)
  else ({ s with queue := s.queue ++ [item] }, true)

def start (s : Resolver) : Resolver :=
  if s.phase = .idle ∧ !s.thread then
    { s with
      thread := true
      stopEvent := false
      live := s.live + 1 }
  else s

/-- `_run` takes the next item. -/
def take (s : Resolver) : Resolver :=
  if s.hands.length < s.live then
    match s.queue with
    | item :: rest => { s with queue := rest, hands := s.hands ++ [item] }
    | [] => s
  else s

/-- `_run` ends. -/
def exit (s : Resolver) : Resolver :=
  if s.stopEvent ∧ s.hands.length < s.live then { s with live := s.live - 1 } else s

/-- `stop`, up to the join. -/
def stop (s : Resolver) : Resolver :=
  if s.phase = .idle then { s with stopEvent := true, phase := .joining } else s

/-- The join returns: the thread has ended, or the time is up. -/
def joined (s : Resolver) : Resolver :=
  if s.phase = .joining then { s with thread := false, phase := .draining } else s

/-- One turn of the loop with which `stop` ends. -/
def drain (s : Resolver) : Resolver :=
  if s.phase = .draining then
    match s.queue with
    | item :: rest => { s with queue := rest }.emit item.seq (finalise item.observation {})
    | [] => { s with phase := .idle }
  else s

variable [Runtime]

/-- `record`: what the worker does not take is reported at once. -/
def observe (cfg : Config) (s : Resolver) (r : Request) (now : ℚ) : Resolver :=
  let recorded := record cfg s.index r.channel r.sourceIp r.extraction r.raw r.host r.detail
    r.ownedZone now
  let o := recorded.2
  let seq := s.observed.length
  let s := { s with index := recorded.1, observed := s.observed ++ [o] }
  let deferred :=
    if improvable o then s.enqueue ⟨seq, o, r.host.getD "", r.sourceIp⟩ else (s, false)
  if deferred.2 then deferred.1 else deferred.1.emit seq o

/-- What `_handle` makes of a lookup: one that raises attributes nothing. -/
def attributeParked (formatFloat : ℚ → String) (index : CorrelationIndex) (item : Parked)
    (lookup : Lookup) (now : ℚ) : CorrelationIndex × Attribution :=
  match lookup with
  | .raised => (index, {})
  | .answered payloads =>
    let payloads := payloads.getD []
    let index := index.addPayloads formatFloat (payloads.takeWhile fun p => !unreadable p) now
    if payloads.any unreadable then (index, {})
    else index.matchObserved (some item.host) item.sourceIp now

/-- `_handle` ends for the item a thread was looking up. -/
def handled (formatFloat : ℚ → String) (s : Resolver) (i : ℕ) (lookup : Lookup) (now : ℚ) :
    Resolver :=
  match s.hands[i]? with
  | none => s
  | some item =>
    let found := attributeParked formatFloat s.index item lookup now
    { s with
      index := found.1
      hands := s.hands.eraseIdx i
      processed := s.processed + 1
      improved := s.improved + if found.2.mode = Mode.hint then 1 else 0 }.emit item.seq
      (finalise item.observation found.2)

end Resolver

inductive ResolverOp where
  | observe (r : Request)
  | start
  | take
  | handled (i : ℕ) (lookup : Lookup)
  | exit
  | stop
  | joined
  | drain

section Machine

variable [Runtime] (cfg : Config) (formatFloat : ℚ → String)

def resolverStep (s : Resolver) (t : ℚ × ResolverOp) : Resolver :=
  match t.2 with
  | .observe r => s.observe cfg r t.1
  | .start => s.start
  | .take => s.take
  | .handled i lookup => s.handled formatFloat i lookup t.1
  | .exit => s.exit
  | .stop => s.stop
  | .joined => s.joined
  | .drain => s.drain

/-- A resolver that has not started. -/
def idleResolver (index : CorrelationIndex) (queueSize : ℕ) : Resolver where
  index := index
  queueSize := queueSize

end Machine

/-- The item is an observation as it was made, and one worth a lookup. -/
structure Parked.Stands (observed : List Observation) (item : Parked) : Prop where
  observation : observed[item.seq]? = some item.observation
  improvable : improvable item.observation = true

/-- Every number is in one place, what is parked stands, and nothing waits behind a worker that is
gone. -/
structure Placed (s : Resolver) : Prop where
  perm : (s.reported.map (·.seq) ++ (s.queue.map (·.seq) ++ s.hands.map (·.seq))).Perm
    (List.range s.observed.length)
  queue : ∀ item ∈ s.queue, item.Stands s.observed
  hands : ∀ item ∈ s.hands, item.Stands s.observed
  known : ∀ r ∈ s.reported, ∃ o, s.observed[r.seq]? = some o ∧
    o.confidence.rank ≤ r.observation.confidence.rank
  drained : s.thread = false → s.phase = .draining ∨ s.queue = []

/-- What the index attributes is some confidence, unless it attributes nothing. -/
theorem matchObserved_confidence [Runtime] (ix : CorrelationIndex) (host : Option String)
    (sourceIp : String) (now : ℚ)
    (h : (ix.matchObserved host sourceIp now).2.mode ≠ .unattributed) :
    (ix.matchObserved host sourceIp now).2.confidence ≠ .none := by
  have hsource : ∀ ix : CorrelationIndex, (ix.sourceAttribution sourceIp now).mode ≠ .unattributed →
      (ix.sourceAttribution sourceIp now).confidence ≠ .none := by
    intro ix hmode
    unfold CorrelationIndex.sourceAttribution at hmode ⊢
    split at hmode
    · split_ifs at hmode ⊢
      · exact absurd rfl hmode
      · simp
    · exact absurd rfl hmode
  unfold CorrelationIndex.matchObserved at h ⊢
  dsimp only at h ⊢
  split_ifs at h ⊢ with hname
  · exact hsource _ h
  · split at h
    · simp [CorrelationIndex.hintAttribution]
    · exact hsource _ h

/-- A late attribution never takes confidence away. -/
theorem rank_le_finalise {o : Observation} (ho : improvable o = true) {a : Attribution}
    (ha : a.mode ≠ .unattributed → a.confidence ≠ .none) :
    o.confidence.rank ≤ (finalise o a).confidence.rank := by
  unfold finalise
  by_cases hlate : a.mode ≠ .unattributed ∧ a.confidence ≠ o.confidence
  · rw [if_pos hlate]
    have hweak : o.confidence ≠ .high := by
      unfold improvable at ho
      exact of_decide_eq_true (Bool.and_eq_true_iff.mp ho).2
    have hsome := ha hlate.1
    show o.confidence.rank ≤ a.confidence.rank
    revert hweak hsome
    cases o.confidence <;> cases a.confidence <;> decide
  · rw [if_neg hlate]

/-! ## Steps -/

/-- A number keeps its observation. -/
theorem observed_concat {observed : List Observation} {seq : ℕ} {o : Observation}
    (h : observed[seq]? = some o) (o' : Observation) : (observed ++ [o'])[seq]? = some o := by
  rw [List.getElem?_append_left (List.getElem?_eq_some_iff.mp h).1, h]

theorem Parked.Stands.later {observed : List Observation} {item : Parked}
    (h : item.Stands observed) (o : Observation) : item.Stands (observed ++ [o]) :=
  ⟨observed_concat h.observation o, h.improvable⟩

/-- A parked observation is reported: `queue` and `hands` are what stays parked. -/
theorem Placed.settle {s : Resolver} (h : Placed s) (queue hands : List Parked) {item : Parked}
    (hperm : (item.seq :: (queue.map (·.seq) ++ hands.map (·.seq))).Perm
      (s.queue.map (·.seq) ++ s.hands.map (·.seq)))
    (hitem : item.Stands s.observed) (hqueue : ∀ p ∈ queue, p ∈ s.queue)
    (hhands : ∀ p ∈ hands, p ∈ s.hands) {a : Attribution}
    (ha : a.mode ≠ .unattributed → a.confidence ≠ .none) :
    Placed ({ s with queue := queue, hands := hands }.emit item.seq (finalise item.observation a)) := by
  refine ⟨?_, fun p hp => h.queue p (hqueue p hp), fun p hp => h.hands p (hhands p hp), ?_, ?_⟩
  · refine List.Perm.trans ?_ h.perm
    show ((s.reported ++ [_]).map Reported.seq ++ _).Perm _
    rw [map_append, append_assoc]
    exact hperm.append_left _
  · intro r hr
    rcases mem_append.mp hr with hr | hr
    · exact h.known r hr
    · rw [mem_singleton.mp hr]
      exact ⟨item.observation, hitem.observation, rank_le_finalise hitem.improvable ha⟩
  · intro hthread
    rcases h.drained hthread with hdraining | hempty
    · exact Or.inl hdraining
    · refine Or.inr (eq_nil_iff_forall_not_mem.mpr fun p hp => ?_)
      have := hqueue p hp
      rw [hempty] at this
      simp at this

theorem Placed.take {s : Resolver} (h : Placed s) : Placed s.take := by
  by_cases hfree : s.hands.length < s.live
  · cases hq : s.queue with
    | nil =>
      have hnone : s.take = s := by rw [Resolver.take, if_pos hfree, hq]
      rw [hnone]
      exact h
    | cons item rest =>
      have htake : s.take = { s with queue := rest, hands := s.hands ++ [item] } := by
        rw [Resolver.take, if_pos hfree, hq]
      have hitem := h.queue item (by rw [hq]; exact mem_cons_self)
      rw [htake]
      refine ⟨?_, fun p hp => h.queue p (by rw [hq]; exact mem_cons_of_mem _ hp), ?_, h.known, ?_⟩
      · refine List.Perm.trans (List.Perm.append_left _ ?_) h.perm
        rw [hq, map_append, map_singleton, ← append_assoc, map_cons, cons_append]
        exact perm_append_singleton _ _
      · intro p hp
        rcases mem_append.mp hp with hp | hp
        · exact h.hands p hp
        · rw [mem_singleton.mp hp]
          exact hitem
      · intro hthread
        rcases h.drained hthread with hdraining | hempty
        · exact Or.inl hdraining
        · rw [hq] at hempty
          exact absurd hempty (by simp)
  · rw [Resolver.take, if_neg hfree]
    exact h

theorem Placed.drain {s : Resolver} (h : Placed s) : Placed s.drain := by
  by_cases hphase : s.phase = .draining
  · cases hq : s.queue with
    | nil =>
      have hdone : s.drain = { s with phase := .idle } := by rw [Resolver.drain, if_pos hphase, hq]
      rw [hdone]
      exact ⟨h.perm, h.queue, h.hands, h.known, fun _ => Or.inr hq⟩
    | cons item rest =>
      have hdrain : s.drain =
          { s with queue := rest, hands := s.hands }.emit item.seq (finalise item.observation {}) := by
        rw [Resolver.drain, if_pos hphase, hq]
      rw [hdrain]
      refine h.settle rest s.hands ?_ (h.queue item (by rw [hq]; exact mem_cons_self)) ?_ (fun p hp => hp)
        (fun hmode => absurd rfl hmode)
      · rw [hq]
        exact List.Perm.refl _
      · intro p hp
        rw [hq]
        exact mem_cons_of_mem _ hp
  · rw [Resolver.drain, if_neg hphase]
    exact h

theorem enqueue_cases (s : Resolver) (item : Parked) :
    s.thread = true ∧ s.enqueue item = ({ s with queue := s.queue ++ [item] }, true) ∨
      ∃ dropped, s.enqueue item = ({ s with dropped := dropped }, false) := by
  unfold Resolver.enqueue
  by_cases hthread : s.thread = true
  · rw [if_neg (by simp [hthread])]
    by_cases hfull : s.queueSize ≠ 0 ∧ s.queueSize ≤ s.queue.length
    · rw [if_pos hfull]
      exact Or.inr ⟨s.dropped + 1, rfl⟩
    · rw [if_neg hfull]
      exact Or.inl ⟨hthread, rfl⟩
  · rw [if_pos (by simp [hthread])]
    exact Or.inr ⟨s.dropped, rfl⟩

/-- A new observation is parked. -/
theorem Placed.park {s : Resolver} (h : Placed s) (hthread : s.thread = true)
    (index : CorrelationIndex) {o : Observation} (ho : improvable o = true) (host sourceIp : String) :
    Placed { s with
      index := index
      observed := s.observed ++ [o]
      queue := s.queue ++ [⟨s.observed.length, o, host, sourceIp⟩] } := by
  refine ⟨?_, ?_, fun p hp => (h.hands p hp).later o, ?_, fun hgone => ?_⟩
  · dsimp only
    rw [length_append, length_singleton, range_succ, map_append,
      map_singleton]
    refine List.Perm.trans ?_ (h.perm.append_right _)
    rw [append_assoc, append_assoc, append_assoc]
    exact (perm_append_comm.append_left _).append_left _
  · intro p hp
    rcases mem_append.mp hp with hp | hp
    · exact (h.queue p hp).later o
    · rw [mem_singleton.mp hp]
      exact ⟨List.getElem?_concat_length, ho⟩
  · intro r hr
    obtain ⟨o', ho', hle⟩ := h.known r hr
    exact ⟨o', observed_concat ho' o, hle⟩
  · exact absurd (hthread.symm.trans hgone) (by simp)

/-- A new observation is reported as it is. -/
theorem Placed.pass {s : Resolver} (h : Placed s) (index : CorrelationIndex) (o : Observation)
    (dropped : ℕ) :
    Placed ({ s with
      index := index
      observed := s.observed ++ [o]
      dropped := dropped }.emit s.observed.length o) := by
  refine ⟨?_, fun p hp => (h.queue p hp).later o, fun p hp => (h.hands p hp).later o, ?_, h.drained⟩
  · dsimp only [Resolver.emit]
    rw [length_append, length_singleton, range_succ, map_append,
      map_singleton, append_assoc]
    refine List.Perm.trans ?_ (h.perm.append_right _)
    rw [append_assoc]
    exact perm_append_comm.append_left _
  · intro r hr
    rcases mem_append.mp hr with hr | hr
    · obtain ⟨o', ho', hle⟩ := h.known r hr
      exact ⟨o', observed_concat ho' o, hle⟩
    · rw [mem_singleton.mp hr]
      exact ⟨o, List.getElem?_concat_length, Nat.le_refl _⟩

section Machine

variable [Runtime] (cfg : Config) (formatFloat : ℚ → String)

theorem attributeParked_confidence (index : CorrelationIndex) (item : Parked) (lookup : Lookup)
    (now : ℚ) (h : (Resolver.attributeParked formatFloat index item lookup now).2.mode ≠ .unattributed) :
    (Resolver.attributeParked formatFloat index item lookup now).2.confidence ≠ .none := by
  unfold Resolver.attributeParked at h ⊢
  cases lookup with
  | raised => exact absurd rfl h
  | answered payloads =>
    dsimp only at h ⊢
    split_ifs at h ⊢
    · exact absurd rfl h
    · exact matchObserved_confidence _ _ _ _ h

theorem Placed.handled {s : Resolver} (h : Placed s) (i : ℕ) (lookup : Lookup) (now : ℚ) :
    Placed (s.handled formatFloat i lookup now) := by
  unfold Resolver.handled
  cases hi : s.hands[i]? with
  | none => exact h
  | some item =>
    obtain ⟨hlt, hget⟩ := List.getElem?_eq_some_iff.mp hi
    have hmem : item ∈ s.hands := hget ▸ getElem_mem hlt
    have hperm : (item :: s.hands.eraseIdx i).Perm s.hands := by
      rw [← hget]
      exact getElem_cons_eraseIdx_perm hlt
    obtain ⟨perm, queue, hands, known, drained⟩ := h.settle s.queue (s.hands.eraseIdx i)
      (perm_middle.symm.trans ((hperm.map Parked.seq).append_left _)) (h.hands item hmem)
      (fun p hp => hp) (fun p hp => mem_of_mem_eraseIdx hp)
      (attributeParked_confidence formatFloat s.index item lookup now)
    exact ⟨perm, queue, hands, known, drained⟩

/-- An observation that is new is parked, or reported as it is. -/
theorem Placed.observe {s : Resolver} (h : Placed s) (r : Request) (now : ℚ) :
    Placed (s.observe cfg r now) := by
  unfold Resolver.observe
  dsimp only
  generalize record cfg s.index r.channel r.sourceIp r.extraction r.raw r.host r.detail r.ownedZone
    now = recorded
  by_cases hworth : improvable recorded.2 = true
  · rw [if_pos hworth]
    rcases enqueue_cases { s with index := recorded.1, observed := s.observed ++ [recorded.2] }
      ⟨s.observed.length, recorded.2, r.host.getD "", r.sourceIp⟩ with ⟨hthread, henq⟩ | ⟨dropped, henq⟩
    · rw [henq, if_pos rfl]
      exact h.park hthread recorded.1 hworth _ _
    · rw [henq, if_neg (by simp)]
      exact h.pass recorded.1 recorded.2 dropped
  · rw [if_neg hworth, if_neg (by simp)]
    exact h.pass recorded.1 recorded.2 s.dropped

theorem Placed.step {s : Resolver} (h : Placed s) (t : ℚ × ResolverOp) :
    Placed (resolverStep cfg formatFloat s t) := by
  obtain ⟨now, op⟩ := t
  cases op with
  | observe r => exact h.observe cfg r now
  | start =>
    show Placed s.start
    unfold Resolver.start
    split_ifs
    · exact ⟨h.perm, h.queue, h.hands, h.known, fun hthread => absurd hthread (by simp)⟩
    · exact h
  | take => exact h.take
  | handled i lookup => exact h.handled formatFloat i lookup now
  | exit =>
    show Placed s.exit
    unfold Resolver.exit
    split_ifs
    · exact ⟨h.perm, h.queue, h.hands, h.known, h.drained⟩
    · exact h
  | stop =>
    show Placed s.stop
    unfold Resolver.stop
    split_ifs with hidle
    · refine ⟨h.perm, h.queue, h.hands, h.known, fun hthread => Or.inr ?_⟩
      rcases h.drained hthread with hdraining | hempty
      · rw [hidle] at hdraining
        exact absurd hdraining (by decide)
      · exact hempty
    · exact h
  | joined =>
    show Placed s.joined
    unfold Resolver.joined
    split_ifs
    · exact ⟨h.perm, h.queue, h.hands, h.known, fun _ => Or.inl rfl⟩
    · exact h
  | drain => exact h.drain

end Machine

end PtaasBench.EdgeResolver
