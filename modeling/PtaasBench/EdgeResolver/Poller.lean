import PtaasBench.BenchCollector.Registry
import PtaasBench.EdgeResolver.Correlation
import PtaasBench.Lib.Feed

/-!
# PtaasBench.EdgeResolver.Poller — the incremental listing of pending hints (`HintPoller`)

The poller, the collector it reads from, and a poll on its way between the two.  The wire carries
the collector's hints with the times it stamped them with.
-/

namespace PtaasBench.EdgeResolver

open Py BenchCollector

structure HintPoller where
  index : CorrelationIndex := {}
  watermark : ℚ := 0
  polls : ℕ := 0
  failures : ℕ := 0
  running : Bool := true  -- is the thread alive

/-- `max((… for item in payloads), default=0.0)` -/
def newest (payloads : List BenchCollector.Hint) : ℚ :=
  ((payloads.map (·.registeredAt)).max?).getD 0

namespace HintPoller

/-- `self.watermark or None` -/
def registeredAfter (p : HintPoller) : Option ℚ :=
  if p.watermark = 0 then none else some p.watermark

/-- `poll_once` when the fetch raises or there is no endpoint. -/
def pollFailed (p : HintPoller) : HintPoller :=
  { p with
    polls := p.polls + 1
    failures := p.failures + 1 }

/-- The payloads `add_payloads` gets through: one it cannot read ends the thread. -/
def offers (payloads : List BenchCollector.Hint) : List BenchCollector.Hint :=
  payloads.takeWhile fun hint => !unreadable hint.record

/-- `poll_once` once the payloads are there. -/
def pollAnswered [Runtime] (formatFloat : ℚ → String) (p : HintPoller)
    (payloads : List BenchCollector.Hint) (now : ℚ) : HintPoller where
  index := p.index.addPayloads formatFloat ((offers payloads).map (·.record)) now
  watermark := if newest payloads = 0 then p.watermark else max p.watermark (newest payloads - 1)
  polls := p.polls + 1
  failures := 0
  running := payloads.all fun hint => !unreadable hint.record

end HintPoller

/-! ## The resolver and the collector -/

/-- A successful poll: what was pending when it was answered, and what the index had been offered
when it was over. -/
structure Polled where
  pending : List BenchCollector.Hint
  offered : List BenchCollector.Hint

structure Polling where
  reg : CorrelationRegistry
  poller : HintPoller := {}
  answer : Option (Lib.Sent BenchCollector.Hint) := none
  offered : List BenchCollector.Hint := []
  polled : List Polled := []

inductive PollOp where
  | collector (op : RegistryOp)
  /-- The collector answers the poll on its way. -/
  | answer
  /-- The answer reaches the poller. -/
  | deliver
  | fail

section Machine

variable [Runtime] (clock : ℚ → FloatLit) (formatFloat : ℚ → String)

/-- `GET /v1/correlations`, with nothing to wait for. -/
def answerPoll (s : Polling) (now : ℚ) : Polling :=
  let found := s.reg.waitTurn now none s.poller.registeredAfter 0
  { s with
    reg := found.1
    answer := some ⟨(s.reg.pending now none none).2, found.2.getD []⟩ }

def deliver (s : Polling) (now : ℚ) (sent : Lib.Sent BenchCollector.Hint) : Polling :=
  let poller := s.poller.pollAnswered formatFloat sent.items now
  let offered := s.offered ++ HintPoller.offers sent.items
  { s with
    poller := poller
    answer := none
    offered := offered
    polled := if poller.running then s.polled ++ [⟨sent.held, offered⟩] else s.polled }

def pollStep (s : Polling) (t : ℚ × PollOp) : Polling :=
  match t.2 with
  | .collector op => { s with reg := registryStep clock s.reg ⟨t.1, op⟩ }
  | .answer => if s.poller.running && s.answer.isNone then answerPoll s t.1 else s
  | .deliver =>
    match s.answer with
    | some sent => deliver formatFloat s t.1 sent
    | none => s
  | .fail =>
    if s.poller.running then { s with poller := s.poller.pollFailed, answer := none } else s

/-- A poller that has not polled, and an empty registry. -/
def unpolled (ttl : ℚ) (maxEntries : ℕ) (index : CorrelationIndex) : Polling where
  reg := { ttl := ttl, maxEntries := maxEntries }
  poller := { index := index }

/-! ## What the poller reads is a feed -/

def Polling.feed (s : Polling) : Lib.Feed BenchCollector.Hint ℚ where
  held := s.reg.held
  mark := s.poller.registeredAfter
  offered := s.offered
  answer := s.answer

/-- An answer to a poll is what the feed sends. -/
theorem feed_answerPoll (s : Polling) (now : ℚ) :
    (answerPoll s now).feed =
      { held := (s.reg.evict now).held
        mark := s.feed.mark
        offered := s.feed.offered
        answer := some ⟨(s.reg.evict now).held,
          Lib.above BenchCollector.Hint.registeredAt s.feed.mark (s.reg.evict now).held⟩ } := by
  have hpending : (s.reg.pending now none s.poller.registeredAfter).2 =
      Lib.above BenchCollector.Hint.registeredAt s.feed.mark (s.reg.evict now).held := by
    unfold CorrelationRegistry.pending
    dsimp only
    rw [if_neg (by simp [given])]
    show _ = Lib.above _ s.poller.registeredAfter _
    cases s.poller.registeredAfter <;> rfl
  have hturn : (s.reg.waitTurn now none s.poller.registeredAfter 0).2 =
      some (s.reg.pending now none s.poller.registeredAfter).2 := by
    unfold CorrelationRegistry.waitTurn
    dsimp only
    rw [if_pos (by simp)]
  show Lib.Feed.mk _ _ _ (some ⟨_, (s.reg.waitTurn now none s.poller.registeredAfter 0).2.getD []⟩) = _
  rw [hturn, Option.getD_some, hpending]
  rfl

omit [Runtime] in
theorem newest_mem {payloads : List BenchCollector.Hint} (h : newest payloads ≠ 0) :
    ∃ hint ∈ payloads, hint.registeredAt = newest payloads := by
  unfold newest at h ⊢
  cases hmax : (payloads.map (·.registeredAt)).max? with
  | none =>
    rw [hmax] at h
    exact absurd rfl h
  | some q =>
    obtain ⟨hint, hmem, heq⟩ := List.mem_map.mp (List.max?_mem hmax)
    exact ⟨hint, hmem, heq⟩

/-- The watermark moves to below the newest hint of the answer, or stays. -/
theorem registeredAfter_pollAnswered (p : HintPoller) (payloads : List BenchCollector.Hint)
    (now : ℚ) :
    ∀ m ∈ (p.pollAnswered formatFloat payloads now).registeredAfter,
      m ∈ p.registeredAfter ∨ ∃ hint ∈ payloads, m < hint.registeredAt := by
  intro m hm
  unfold HintPoller.registeredAfter at hm ⊢
  rw [Option.mem_def] at hm
  split_ifs at hm with hzero
  obtain rfl := Option.some.inj hm
  by_cases hnew : newest payloads = 0
  · have hsame : (p.pollAnswered formatFloat payloads now).watermark = p.watermark := if_pos hnew
    rw [hsame] at hzero ⊢
    rw [if_neg hzero]
    exact Or.inl rfl
  · have hmax : (p.pollAnswered formatFloat payloads now).watermark =
        max p.watermark (newest payloads - 1) := if_neg hnew
    rw [hmax] at hzero ⊢
    rcases max_choice p.watermark (newest payloads - 1) with hold | hmove
    · rw [hold] at hzero ⊢
      rw [if_neg hzero]
      exact Or.inl rfl
    · obtain ⟨hint, hmem, heq⟩ := newest_mem hnew
      refine Or.inr ⟨hint, hmem, ?_⟩
      rw [hmove, heq]
      exact sub_one_lt _

omit [Runtime] in
theorem offers_eq_self {payloads : List BenchCollector.Hint}
    (h : (payloads.all fun hint => !unreadable hint.record) = true) :
    HintPoller.offers payloads = payloads := by
  rw [HintPoller.offers, List.takeWhile_eq_self_iff]
  exact List.all_eq_true.mp h

/-! ## The invariant -/

omit [Runtime] in
/-- A live poller has skipped nothing; a dead one has no poll on its way. -/
structure NothingSkipped (now : ℚ) (s : Polling) : Prop where
  complete : s.poller.running = true → s.feed.Complete BenchCollector.Hint.registeredAt now
  stopped : s.poller.running = false → s.answer = none
  polled : ∀ p ∈ s.polled, ∀ h ∈ p.pending, h ∈ p.offered

variable {clock formatFloat} {now : ℚ} {s : Polling}

omit [Runtime] in
theorem NothingSkipped.later {now' : ℚ} (h : NothingSkipped now s) (hle : now ≤ now') :
    NothingSkipped now' s :=
  ⟨fun hrun => (h.complete hrun).change hle fun _ ha => Or.inl ha, h.stopped, h.polled⟩

theorem NothingSkipped.collector (h : NothingSkipped now s) (op : RegistryOp) :
    NothingSkipped now { s with reg := registryStep clock s.reg ⟨now, op⟩ } :=
  ⟨fun hrun => (h.complete hrun).change le_rfl fun _ ha => mem_held_step clock ha, h.stopped, h.polled⟩

theorem NothingSkipped.answerPoll (h : NothingSkipped now s) (hrun : s.poller.running = true) :
    NothingSkipped now (answerPoll s now) := by
  refine ⟨fun _ => ?_, fun hstop => ?_, h.polled⟩
  · rw [feed_answerPoll]
    have hevicted : Lib.Feed.Complete BenchCollector.Hint.registeredAt now
        { s.feed with held := (s.reg.evict now).held } :=
      (h.complete hrun).change le_rfl fun _ ha => Or.inl (mem_held_evict ha)
    exact hevicted.respond
  · rw [show (EdgeResolver.answerPoll s now).poller = s.poller from rfl, hrun] at hstop
    exact absurd hstop (by simp)

theorem NothingSkipped.deliver (h : NothingSkipped now s) {sent : Lib.Sent BenchCollector.Hint}
    (hsent : s.answer = some sent) : NothingSkipped now (deliver formatFloat s now sent) := by
  have halive : s.poller.running = true := by
    by_contra hstop
    rw [h.stopped (Bool.eq_false_iff.mpr hstop)] at hsent
    exact absurd hsent (by simp)
  have hfeed := h.complete halive
  have hoffered : (s.poller.pollAnswered formatFloat sent.items now).running = true →
      s.offered ++ HintPoller.offers sent.items = s.feed.offered ++ sent.items := fun hrun => by
    rw [offers_eq_self hrun]
    rfl
  refine ⟨fun hrun => ?_, fun _ => rfl, ?_⟩
  · have hnext := (h.complete halive).receive hsent
      (registeredAfter_pollAnswered formatFloat s.poller sent.items now)
    rw [← hoffered hrun] at hnext
    exact hnext
  · intro p hp
    unfold EdgeResolver.deliver at hp
    dsimp only at hp
    split_ifs at hp with hrun
    · rcases List.mem_append.mp hp with hp | hp
      · exact h.polled p hp
      · rw [List.mem_singleton.mp hp, hoffered hrun]
        exact (h.complete halive).offered_of_answer hsent
    · exact h.polled p hp

omit [Runtime] in
theorem NothingSkipped.fail (h : NothingSkipped now s) (hrun : s.poller.running = true) :
    NothingSkipped now { s with poller := s.poller.pollFailed, answer := none } := by
  refine ⟨fun _ => (h.complete hrun).lose, fun hstop => rfl, h.polled⟩

theorem NothingSkipped.step {t : ℚ × PollOp} (h : NothingSkipped t.1 s) :
    NothingSkipped t.1 (pollStep clock formatFloat s t) := by
  obtain ⟨now, op⟩ := t
  cases op with
  | collector op => exact h.collector op
  | answer =>
    unfold pollStep
    dsimp only
    split_ifs with hask
    · exact h.answerPoll (Bool.and_eq_true_iff.mp hask).1
    · exact h
  | deliver =>
    unfold pollStep
    dsimp only
    cases hsent : s.answer with
    | some sent => exact h.deliver hsent
    | none => exact h
  | fail =>
    unfold pollStep
    dsimp only
    split_ifs with hrun
    · exact h.fail hrun
    · exact h

omit [Runtime] in
theorem nothingSkipped_unpolled (ttl : ℚ) (maxEntries : ℕ) (index : CorrelationIndex) (now : ℚ) :
    NothingSkipped now (unpolled ttl maxEntries index) := by
  refine ⟨fun _ => ?_, fun _ => rfl, by simp [unpolled]⟩
  constructor <;>
    simp [unpolled, Polling.feed, CorrelationRegistry.held, Dict.empty, HintPoller.registeredAfter]

end Machine

/-- Whatever is registered, expires or is read at the collector between the polls, and whichever
polls fail: after every successful one the index has been offered all hints that were pending when
it was answered. -/
theorem polled_offered [Runtime] (clock : ℚ → FloatLit) (formatFloat : ℚ → String) (ttl : ℚ)
    (maxEntries : ℕ) (index : CorrelationIndex) (ops : List (ℚ × PollOp))
    (hclock : ops.Pairwise (·.1 ≤ ·.1)) :
    ∀ p ∈ (Lib.run (pollStep clock formatFloat) (unpolled ttl maxEntries index) ops).polled,
      ∀ h ∈ p.pending, h ∈ p.offered := by
  obtain ⟨now, hnow⟩ := Lib.exists_after Prod.fst ops
  have halong := Lib.along_of_forall (pollStep clock formatFloat) (Q := fun _ _ => True)
    (fun _ _ => trivial) (unpolled ttl maxEntries index) ops
  exact (Lib.run_timed (P := NothingSkipped) (pollStep clock formatFloat) Prod.fst
    NothingSkipped.later (fun h _ => h.step) (nothingSkipped_unpolled ttl maxEntries index) hclock
    halong hnow).polled

/-- Two hints at one time, the second while the first poll is answered, and a poll that fails. -/
def pollingOps : List (ℚ × PollOp) :=
  [(1, .collector (registration 1 "a").op), (1, .answer), (1, .collector (registration 1 "b").op),
    (2, .deliver), (2, .fail), (3, .answer), (3, .deliver)]

theorem polled_offered_twice :
    let _ := Runtime.ascii
    let s := Lib.run (pollStep (fun _ => FloatLit.ofInt 0) fun _ => "0") (unpolled 120 100 {}) pollingOps
    (s.polled.map fun p => (p.pending.length, p.offered.length)) = [(1, 1), (2, 3)] ∧
      ∀ p ∈ s.polled, ∀ h ∈ p.pending, h ∈ p.offered := by
  intro rt s
  refine ⟨by decide +kernel, ?_⟩
  exact polled_offered (fun _ => FloatLit.ofInt 0) (fun _ => "0") 120 100 {} pollingOps
    (by decide)

end PtaasBench.EdgeResolver
