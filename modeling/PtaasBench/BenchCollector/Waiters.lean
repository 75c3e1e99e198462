import PtaasBench.BenchCollector.Registry

/-!
# PtaasBench.BenchCollector.Waiters — the coroutines of `wait_for`

Any number of coroutines wait for hints on one event loop.  A coroutine runs without interruption from
one `await` to the next, so a step of the machine is one such stretch of one of them, or an operation of
another task on the registry.  Every step carries the two clocks that are read in it: the wall clock,
which expires hints, and the loop's own, which measures deadlines.
-/

namespace PtaasBench.BenchCollector

open Py

/-- The arguments of a call of `wait_for`, and the deadline it computes first. -/
structure WaitCall where
  destinationHost : Option String
  timeout : ℚ
  registeredAfter : Option ℚ
  deadline : ℚ

/-- Where a coroutine stands. -/
inductive WaitPhase where
  | sleeping (arrival : ℕ)  -- awaits an event
  | returned (hints : List Hint)
  | cancelled

structure Waiter where
  call : WaitCall
  phase : WaitPhase

/-- The registry with its coroutines.  Events are numbered as they are made. -/
structure Waiting where
  reg : CorrelationRegistry
  arrival : ℕ := 0  -- the event that `_arrival` holds
  fired : List ℕ := []  -- the events that are set
  waiters : List Waiter := []

inductive WaitOp where
  | call (destinationHost : Option String) (timeout : ℚ) (registeredAfter : Option ℚ)
  /-- The loop resumes a coroutine whose event is set. -/
  | wake (i : ℕ)
  /-- The loop raises `TimeoutError` in a coroutine; nothing is assumed of when it does. -/
  | timeOut (i : ℕ)
  | cancel (i : ℕ)
  | other (op : RegistryOp)

structure Tick where
  now : ℚ  -- `time.time()`
  time : ℚ  -- `loop.time()`
  op : WaitOp

section Coroutines

variable [Runtime]

/-- The hints a call is for: those of its host, registered after its cursor. -/
def WaitCall.wants (call : WaitCall) (h : Hint) : Prop :=
  (given call.destinationHost →
      CorrelationRegistry.hostMatches h
        (lower (rstripDot (strip (call.destinationHost.getD ""))))) ∧
    ∀ after, call.registeredAfter = some after → after < h.registeredAt

/-- The loop of `wait_for` up to the next `await`, with the event it would sleep on. -/
def WaitCall.turn (call : WaitCall) (reg : CorrelationRegistry) (now time : ℚ) (arrival : ℕ) :
    CorrelationRegistry × WaitPhase :=
  let found := reg.pending now call.destinationHost call.registeredAfter
  (found.1,
    if !found.2.isEmpty || call.timeout ≤ 0 then .returned found.2
    else if call.deadline - time ≤ 0 then .returned []
    else .sleeping arrival)

/-- The handler of `TimeoutError`. -/
def WaitCall.lastLook (call : WaitCall) (reg : CorrelationRegistry) (now : ℚ) :
    CorrelationRegistry × WaitPhase :=
  let found := reg.pending now call.destinationHost call.registeredAfter
  (found.1, .returned found.2)

omit [Runtime] in
/-- What a coroutine leaves behind when it stops running. -/
def Waiting.settle (s : Waiting) (i : ℕ) (call : WaitCall) (left : CorrelationRegistry × WaitPhase) :
    Waiting :=
  { s with reg := left.1, waiters := s.waiters.set i ⟨call, left.2⟩ }

/-- A registration sets the event and puts a new one in its place. -/
def Waiting.operate (clock : ℚ → FloatLit) (s : Waiting) (now : ℚ) (op : RegistryOp) : Waiting :=
  let next := { s with reg := registryStep clock s.reg ⟨now, op⟩ }
  match op with
  | .register _ _ _ => { next with arrival := s.arrival + 1, fired := s.arrival :: s.fired }
  | _ => next

def Waiting.step (clock : ℚ → FloatLit) (s : Waiting) (t : Tick) : Waiting :=
  match t.op with
  | .call host timeout after =>
    let call : WaitCall := ⟨host, timeout, after, t.time + max timeout 0⟩
    let left := call.turn s.reg t.now t.time s.arrival
    { s with reg := left.1, waiters := s.waiters ++ [⟨call, left.2⟩] }
  | .wake i =>
    match s.waiters[i]? with
    | some ⟨call, .sleeping event⟩ =>
      if event ∈ s.fired then s.settle i call (call.turn s.reg t.now t.time s.arrival) else s
    | _ => s
  | .timeOut i =>
    match s.waiters[i]? with
    | some ⟨call, .sleeping _⟩ => s.settle i call (call.lastLook s.reg t.now)
    | _ => s
  | .cancel i =>
    match s.waiters[i]? with
    | some ⟨call, .sleeping _⟩ => s.settle i call (s.reg, .cancelled)
    | _ => s
  | .other op => s.operate clock t.now op

omit [Runtime] in
/-- The coroutine that a step runs: a new one, one that is woken, or one that times out. -/
inductive Runs (s : Waiting) : Tick → ℕ → WaitCall → Prop
  | call (now time : ℚ) (host : Option String) (timeout : ℚ) (after : Option ℚ) :
    Runs s ⟨now, time, .call host timeout after⟩ s.waiters.length
      ⟨host, timeout, after, time + max timeout 0⟩
  | wake (now time : ℚ) {i : ℕ} {call : WaitCall} {event : ℕ}
      (h : s.waiters[i]? = some ⟨call, .sleeping event⟩) (hset : event ∈ s.fired) :
    Runs s ⟨now, time, .wake i⟩ i call
  | timeOut (now time : ℚ) {i : ℕ} {call : WaitCall} {event : ℕ}
      (h : s.waiters[i]? = some ⟨call, .sleeping event⟩) :
    Runs s ⟨now, time, .timeOut i⟩ i call

/-- No wake-up is lost: a coroutine with a hint to return can be resumed, and one that runs while the
hint is live returns it. -/
structure NoLostWakeup (clock : ℚ → FloatLit) (s : Waiting) : Prop where
  awake : ∀ (i : ℕ) (call : WaitCall) (event : ℕ), s.waiters[i]? = some ⟨call, .sleeping event⟩ →
    (∃ h ∈ s.reg.held, call.wants h) → event ∈ s.fired
  returns : ∀ t i call h, Runs s t i call → h ∈ s.reg.held → t.now < h.expiresAt → call.wants h →
    ∃ hints, (s.step clock t).waiters[i]? = some ⟨call, .returned hints⟩ ∧ h ∈ hints

omit [Runtime] in
/-- A new registry, and nobody waits. -/
def openedWaiting (ttl : ℚ) (maxEntries : ℕ) : Waiting where
  reg := { ttl := ttl, maxEntries := maxEntries }

abbrev Waiting.run (clock : ℚ → FloatLit) (s : Waiting) (ops : List Tick) : Waiting :=
  Lib.run (Waiting.step clock) s ops

/-! ## One look at the registry -/

theorem mem_pending {reg : CorrelationRegistry} {now : ℚ} {call : WaitCall} {h : Hint} :
    h ∈ (reg.pending now call.destinationHost call.registeredAfter).2 ↔
      h ∈ (reg.evict now).held ∧ call.wants h := by
  have hhost : ∀ entries : List Hint,
      h ∈ (if given call.destinationHost then
          entries.filter (CorrelationRegistry.hostMatches ·
            (lower (rstripDot (strip (call.destinationHost.getD "")))))
        else entries) ↔
        h ∈ entries ∧ (given call.destinationHost → CorrelationRegistry.hostMatches h
          (lower (rstripDot (strip (call.destinationHost.getD ""))))) := by
    intro entries
    by_cases hg : given call.destinationHost
    · rw [if_pos hg, List.mem_filter]
      exact and_congr_right fun _ => ⟨fun hm _ => hm, fun hm => hm hg⟩
    · rw [if_neg hg]
      exact ⟨fun hm => ⟨hm, fun hg' => absurd hg' hg⟩, And.left⟩
  unfold CorrelationRegistry.pending WaitCall.wants
  dsimp only
  cases hafter : call.registeredAfter with
  | none =>
    rw [hhost]
    simp [CorrelationRegistry.held]
  | some after =>
    rw [List.mem_filter, hhost, decide_eq_true_eq, and_assoc]
    simp [CorrelationRegistry.held]

theorem mem_pending_of_live {reg : CorrelationRegistry} {now : ℚ} {call : WaitCall} {h : Hint}
    (hheld : h ∈ reg.held) (hlive : now < h.expiresAt) (hwants : call.wants h) :
    h ∈ (reg.pending now call.destinationHost call.registeredAfter).2 := by
  rw [mem_pending, CorrelationRegistry.held_evict, List.mem_filter]
  exact ⟨⟨hheld, decide_eq_true hlive⟩, hwants⟩

/-- A turn that finds a hint returns it. -/
theorem turn_of_live {reg : CorrelationRegistry} {now : ℚ} {call : WaitCall} {h : Hint} (time : ℚ)
    (arrival : ℕ) (hheld : h ∈ reg.held) (hlive : now < h.expiresAt) (hwants : call.wants h) :
    ∃ hints, (call.turn reg now time arrival).2 = .returned hints ∧ h ∈ hints := by
  have hmem := mem_pending_of_live hheld hlive hwants
  refine ⟨_, ?_, hmem⟩
  unfold WaitCall.turn
  dsimp only
  rw [if_pos]
  rw [Bool.or_eq_true, Bool.not_eq_true', List.isEmpty_eq_false_iff_exists_mem]
  exact Or.inl ⟨h, hmem⟩

/-- A turn goes to sleep only on the event of the moment, and with nothing to return. -/
theorem turn_sleeping {reg : CorrelationRegistry} {now time : ℚ} {call : WaitCall} {arrival event : ℕ}
    (h : (call.turn reg now time arrival).2 = .sleeping event) :
    event = arrival ∧ ∀ hint ∈ (reg.evict now).held, ¬ call.wants hint := by
  unfold WaitCall.turn at h
  dsimp only at h
  split_ifs at h with hfound hlate
  rw [WaitPhase.sleeping.injEq] at h
  refine ⟨h.symm, fun hint hheld hwants => hfound ?_⟩
  rw [Bool.or_eq_true, Bool.not_eq_true', List.isEmpty_eq_false_iff_exists_mem]
  exact Or.inl ⟨hint, mem_pending.mpr ⟨hheld, hwants⟩⟩

/-! ## Every sleeper has a reason to sleep -/

/-- A sleeping coroutine either can be resumed, or sleeps on the event that the next registration
sets and has no hint to return. -/
def Attentive (s : Waiting) : Prop :=
  ∀ (i : ℕ) (call : WaitCall) (event : ℕ), s.waiters[i]? = some ⟨call, .sleeping event⟩ →
    event ∈ s.fired ∨ event = s.arrival ∧ ∀ h ∈ s.reg.held, ¬ call.wants h

variable {clock : ℚ → FloatLit} {s : Waiting}

/-- Nobody who sleeps is disturbed by hints going away. -/
theorem Attentive.shrink (hs : Attentive s) {reg : CorrelationRegistry} (hreg : reg.held ⊆ s.reg.held) :
    Attentive { s with reg := reg } := by
  intro i call event h
  rcases hs i call event h with hset | ⟨hlast, hnone⟩
  · exact Or.inl hset
  · exact Or.inr ⟨hlast, fun hint hheld => hnone hint (hreg hheld)⟩

theorem Attentive.settle (hs : Attentive s) (i : ℕ) (call : WaitCall)
    {left : CorrelationRegistry × WaitPhase} (hreg : left.1.held ⊆ s.reg.held)
    (hleft : ∀ event, left.2 = .sleeping event →
      event = s.arrival ∧ ∀ h ∈ left.1.held, ¬ call.wants h) :
    Attentive (s.settle i call left) := by
  intro j other event h
  by_cases hj : i = j
  · subst hj
    rw [show (s.settle i call left).waiters = s.waiters.set i ⟨call, left.2⟩ from rfl,
      List.getElem?_set_self'] at h
    rcases hi : s.waiters[i]? with _ | w
    · rw [hi] at h
      exact absurd h (by simp)
    · rw [hi] at h
      obtain ⟨rfl, hphase⟩ := Waiter.mk.inj (Option.some.inj h)
      exact Or.inr (hleft event hphase)
  · rw [show (s.settle i call left).waiters = s.waiters.set i ⟨call, left.2⟩ from rfl,
      List.getElem?_set_ne hj] at h
    exact hs.shrink hreg j other event h

theorem Attentive.enter (hs : Attentive s) (call : WaitCall) {left : CorrelationRegistry × WaitPhase}
    (hreg : left.1.held ⊆ s.reg.held)
    (hleft : ∀ event, left.2 = .sleeping event →
      event = s.arrival ∧ ∀ h ∈ left.1.held, ¬ call.wants h) :
    Attentive { s with reg := left.1, waiters := s.waiters ++ [⟨call, left.2⟩] } := by
  intro j other event h
  have h : (s.waiters ++ [(⟨call, left.2⟩ : Waiter)])[j]? = some ⟨other, .sleeping event⟩ := h
  rw [List.getElem?_append] at h
  split_ifs at h with hj
  · exact hs.shrink hreg j other event h
  · rw [List.getElem?_singleton] at h
    split_ifs at h
    obtain ⟨rfl, hphase⟩ := Waiter.mk.inj (Option.some.inj h)
    exact Or.inr (hleft event hphase)

/-- A registration sets the event that sleepers wait for; nothing else brings hints. -/
theorem Attentive.operate (hs : Attentive s) (now : ℚ) (op : RegistryOp) :
    Attentive (s.operate clock now op) := by
  cases op with
  | register newId record ttl =>
    intro i call event h
    rcases hs i call event h with hset | ⟨rfl, -⟩
    · exact Or.inl (List.mem_cons_of_mem _ hset)
    · exact Or.inl (List.mem_cons_self ..)
  | pending | waitTurn | get | expire | discard =>
    exact hs.shrink (held_step_subset clock s.reg now (by rintro _ _ _ ⟨⟩))

theorem held_turn_subset (call : WaitCall) (reg : CorrelationRegistry) (now time : ℚ) (arrival : ℕ) :
    (call.turn reg now time arrival).1.held ⊆ reg.held := fun _ h => mem_held_evict h

theorem Attentive.step (hs : Attentive s) (t : Tick) : Attentive (s.step clock t) := by
  obtain ⟨now, time, op⟩ := t
  cases op with
  | call host timeout after =>
    exact hs.enter _ (held_turn_subset _ _ _ _ _) fun event h => turn_sleeping h
  | wake i =>
    unfold Waiting.step
    dsimp only
    split
    · split_ifs
      · exact hs.settle i _ (held_turn_subset _ _ _ _ _) fun event h => turn_sleeping h
      · exact hs
    · exact hs
  | timeOut i =>
    unfold Waiting.step
    dsimp only
    split
    · exact hs.settle i _ (fun _ h => mem_held_evict h) fun event h => by cases h
    · exact hs
  | cancel i =>
    unfold Waiting.step
    dsimp only
    split
    · exact hs.settle i _ (fun _ h => h) fun event h => by cases h
    · exact hs
  | other op => exact hs.operate now op

/-- A coroutine that runs while a hint it wants is live returns it, whoever else was resumed before
it. -/
theorem step_returns (clock : ℚ → FloatLit) {t : Tick} {i : ℕ} {call : WaitCall} {h : Hint}
    (hrun : Runs s t i call) (hheld : h ∈ s.reg.held) (hlive : t.now < h.expiresAt)
    (hwants : call.wants h) :
    ∃ hints, (s.step clock t).waiters[i]? = some ⟨call, .returned hints⟩ ∧ h ∈ hints := by
  cases hrun with
  | call now time host timeout after =>
    obtain ⟨hints, hturn, hmem⟩ := turn_of_live time s.arrival hheld hlive hwants
    refine ⟨hints, ?_, hmem⟩
    show (s.waiters ++ [(⟨_, (WaitCall.turn _ _ _ _ _).2⟩ : Waiter)])[s.waiters.length]? = _
    rw [List.getElem?_concat_length, hturn]
  | wake now time hi hset =>
    obtain ⟨hints, hturn, hmem⟩ := turn_of_live time s.arrival hheld hlive hwants
    refine ⟨hints, ?_, hmem⟩
    have hlt := (List.getElem?_eq_some_iff.mp hi).1
    unfold Waiting.step
    simp only [hi, if_pos hset, Waiting.settle]
    rw [List.getElem?_set_self hlt, hturn]
  | timeOut now time hi =>
    refine ⟨_, ?_, mem_pending_of_live hheld hlive hwants⟩
    have hlt := (List.getElem?_eq_some_iff.mp hi).1
    unfold Waiting.step
    simp only [hi, Waiting.settle]
    rw [List.getElem?_set_self hlt]
    rfl

/-- In every state that any interleaving of calls, wake-ups, time-outs, cancellations and operations
of other tasks leads to, no wake-up is lost. -/
theorem noLostWakeup_run (clock : ℚ → FloatLit) (ttl : ℚ) (maxEntries : ℕ) (ops : List Tick) :
    NoLostWakeup clock ((openedWaiting ttl maxEntries).run clock ops) := by
  have hnobody : Attentive (openedWaiting ttl maxEntries) := fun i call event h => by
    cases h
  have hattentive := Lib.run_invariant (Waiting.step clock) hnobody (fun s t hs => hs.step t) ops
  refine ⟨fun i call event hi hwanted => ?_, fun t i call h hrun hheld hlive hwants => ?_⟩
  · rcases hattentive i call event hi with hset | ⟨-, hnone⟩
    · exact hset
    · obtain ⟨h, hheld, hwants⟩ := hwanted
      exact absurd hwants (hnone h hheld)
  · exact step_returns clock hrun hheld hlive hwants

end Coroutines

/-- The lookup comes first, and the hint it waits for wakes it. -/
example :
    let _ := Runtime.ascii
    let s := (openedWaiting 120 20000).run (fun _ => FloatLit.ofInt 0)
      [⟨0, 0, .call (some "a.oast.fun") 5 none⟩,
        ⟨1, 1, .other (.register "fresh" [("destination_host", .str "oast.fun")] none)⟩,
        ⟨2, 2, .wake 0⟩]
    s.waiters.map (fun w => match w.phase with
      | .returned hints => hints.map (·.registeredAt)
      | _ => []) = [[1]] := by
  decide +kernel

end PtaasBench.BenchCollector
