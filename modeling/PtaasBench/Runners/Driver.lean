import Mathlib.Algebra.Order.Ring.Rat
import Mathlib.Data.List.Forall2
import PtaasBench.Lib.Fallible
import PtaasBench.Py.Dict

/-!
# PtaasBench.Runners.Driver — the container run loop (`_lib/driver.py`, `_lib/budget.py`)

What one invocation meets outside the harness is its `Life`: the readings of the clock, the answers
of the collector, and what becomes of its container.  `run` is a function of the plan and the lives
of its invocations.
-/

namespace PtaasBench.Runners.Driver

open Lib Py

/-! ## Budgets -/

inductive StopReason where
  | completed
  | budgetWallClock
  | budgetRequests
  | interrupted
  | error
deriving DecidableEq

structure Budget where
  wallClockS : Option ℤ := some 3600
  maxRequests : Option ℤ := none

structure BudgetWatch where
  budget : Budget
  started : ℚ
  requests : ℤ := 0

namespace BudgetWatch

def remainingS (watch : BudgetWatch) (now : ℚ) : Option ℚ :=
  watch.budget.wallClockS.map fun wallClock => max 0 (wallClock - (now - watch.started))

/-- The number of requests does not go back. -/
def see (watch : BudgetWatch) (requests : ℤ) : BudgetWatch :=
  { watch with requests := max watch.requests requests }

def reason (watch : BudgetWatch) (now : ℚ) (toolExited : Bool) : Option StopReason :=
  if toolExited then some .completed
  else if watch.budget.wallClockS.any fun wallClock : ℤ => (wallClock : ℚ) ≤ now - watch.started then
    some .budgetWallClock
  else if watch.budget.maxRequests.any fun maxRequests => maxRequests ≤ watch.requests then
    some .budgetRequests
  else none

end BudgetWatch

/-! ## The request meter -/

/-- What `GET /v1/runs/active` comes to: 404, a run, or a failure that raises. -/
inductive ActiveRun where
  | noRun
  | run (eventCount : ℤ)
  | unavailable

/-- `event_count`; `none` where it raises. -/
def eventCount : ActiveRun → Option ℤ
  | .noRun => some 0
  | .run count => some count
  | .unavailable => none

/-- `_safe_meter` -/
def safeMeter (answer : ActiveRun) : ℤ := (eventCount answer).getD 0

/-! ## Invocations -/

structure Invocation where
  name : String
  app : Option String := none
  image : Option String := none
  artifacts : List String := []

structure InvocationResult where
  name : String
  app : Option String
  argv : List String
  image : String
  imageDigest : Option String
  containerId : Option String
  startedAt : String
  endedAt : Option String := none
  elapsedS : ℚ := 0
  exitCode : Option ℤ := none
  stopReason : StopReason := .error
  requestsAtStart : ℤ := 0
  requestsAtEnd : ℤ := 0
  budgetShareS : Option ℚ := none
  artifactsPresent : Dict String Bool := Dict.empty
  error : Option String := none

/-- `to_dict()["requests"]` -/
def InvocationResult.requests (r : InvocationResult) : ℤ := r.requestsAtEnd - r.requestsAtStart

structure ContainerHandle where
  containerId : String
  argv : List String
  imageDigest : Option String

/-- What `is_running` comes to: it may raise, and the operator may interrupt. -/
inductive Running where
  | running
  | exited
  | unanswered
  | interrupted
deriving DecidableEq

/-- One round of the loop: the two watches read the clock one after the other. -/
structure Poll where
  running : Running
  meter : ActiveRun
  localNow : ℚ
  globalNow : ℚ

structure Life where
  shareNow : ℚ
  opening : ActiveRun
  startedAt : String
  /-- `run_detached`, or the text of what it raises. -/
  container : Except String ContainerHandle
  localStarted : ℚ
  polls : List Poll
  /-- `none` where the calls that close the container raise. -/
  exitCode : Option (Option ℤ)
  localEnded : ℚ
  endedAt : String
  closing : ActiveRun
  /-- The files under `raw/` that exist. -/
  written : String → Bool
  /-- The poll of `run` after the invocation. -/
  after : ActiveRun
  afterNow : ℚ
  monotonic : ∀ p ∈ polls, p.globalNow ≤ afterNow

/-- Why a run does not return: the meter or docker raised, or a container is still running. -/
inductive Fault where
  | meter
  | docker
  | watching
deriving DecidableEq

/-! ## The loop -/

structure RunContext where
  imageRef : String
  budget : Budget

/-- How the loop of `_run_one` stopped, and what the global watch said then. -/
structure Stop where
  reason : StopReason
  globalReason : Option StopReason

def watchContainer (localWatch watch : BudgetWatch) : List Poll → Except Fault (Stop × BudgetWatch)
  | [] => .error .watching
  | p :: polls =>
    match p.running with
    | .interrupted => .ok ({ reason := .interrupted, globalReason := none }, watch)
    | .unanswered => .error .docker
    | state =>
      let requests := safeMeter p.meter
      let localWatch := localWatch.see requests
      let watch := watch.see requests
      let globalReason := watch.reason p.globalNow false
      match (localWatch.reason p.localNow (state = .exited)).or globalReason with
      | some reason => .ok ({ reason := reason, globalReason := globalReason }, watch)
      | none => watchContainer localWatch watch polls

/-- `round(x, 2)` -/
def round2 (x : ℚ) : ℚ :=
  let n := (100 * x).floor
  let rest := 100 * x - n
  let up := 1 / 2 < rest || (rest = 1 / 2 && n % 2 ≠ 0)
  (if up then n + 1 else n) / 100

section Run

variable (ctx : RunContext)

/-- `inv.image or ctx.tool.image_ref` -/
def imageOf (inv : Invocation) : String :=
  match inv.image with
  | some image => if image = "" then ctx.imageRef else image
  | none => ctx.imageRef

/-- The time one of the invocations to come may take. -/
def share (watch : BudgetWatch) (life : Life) (remaining : ℕ) : Option ℚ :=
  if ctx.budget.wallClockS.isSome then
    some (max 1 ((watch.remainingS life.shareNow).getD 0 / remaining))
  else none

/-- The watch of one invocation; its share is at least one. -/
def localWatch (life : Life) (shareS : Option ℚ) : BudgetWatch :=
  { budget := { wallClockS := shareS.map Rat.floor, maxRequests := ctx.budget.maxRequests }
    started := life.localStarted }

def runOne (inv : Invocation) (life : Life) (watch : BudgetWatch) (shareS : Option ℚ) :
    Except Fault (InvocationResult × BudgetWatch) :=
  let result : InvocationResult :=
    { name := inv.name
      app := inv.app
      argv := []
      image := imageOf ctx inv
      imageDigest := none
      containerId := none
      startedAt := life.startedAt
      requestsAtStart := safeMeter life.opening
      budgetShareS := shareS }
  match life.container with
  | .error exc =>
    .ok ({ result with
      error := some ("could not start container: " ++ exc)
      endedAt := some life.endedAt }, watch)
  | .ok handle => do
    let (stop, watch) ← watchContainer (localWatch ctx life shareS) watch life.polls
    match life.exitCode with
    | none => .error .docker
    | some exitCode =>
      .ok ({ result with
        argv := handle.argv
        imageDigest := handle.imageDigest
        containerId := some handle.containerId
        exitCode := exitCode
        stopReason := stop.reason
        endedAt := some life.endedAt
        elapsedS := round2 (life.localEnded - life.localStarted)
        requestsAtEnd := safeMeter life.closing
        artifactsPresent := Dict.ofList (inv.artifacts.map fun name => (name, life.written name)) },
        watch)

/-- The record of an invocation that the budget did not reach; `inv` is the last one that ran. -/
def notStarted (inv : Invocation) (reason : StopReason) (skipped : Invocation × Life) : InvocationResult :=
  { name := skipped.1.name
    app := skipped.1.app
    argv := []
    image := imageOf ctx inv
    imageDigest := none
    containerId := none
    startedAt := skipped.2.startedAt
    endedAt := some skipped.2.endedAt
    stopReason := reason
    error := some "not started: run budget exhausted by earlier targets" }

/-- The loop of `run`. -/
def runFrom (watch : BudgetWatch) : List (Invocation × Life) → Except Fault (List InvocationResult)
  | [] => .ok []
  | (inv, life) :: rest => do
    let (result, watch) ← runOne ctx inv life watch (share ctx watch life (rest.length + 1))
    match eventCount life.after with
    | none => .error .meter
    | some requests =>
      let watch := watch.see requests
      match watch.reason life.afterNow false with
      | some .budgetWallClock => .ok (result :: rest.map (notStarted ctx inv .budgetWallClock))
      | some .budgetRequests => .ok (result :: rest.map (notStarted ctx inv .budgetRequests))
      | _ => (runFrom watch rest).map fun results => result :: results

/-- `run`, when the plan is made; `started` is the first reading of the clock. -/
def run (started : ℚ) (plan : List (Invocation × Life)) : Except Fault (List InvocationResult) :=
  runFrom ctx { budget := ctx.budget, started := started } plan

end Run

/-! ## What a run owes its plan -/

section Accounts

variable (ctx : RunContext)

/-- The record of an invocation that was never started. -/
structure NotStarted (r : InvocationResult) : Prop where
  argv : r.argv = []
  containerId : r.containerId = none
  error : r.error = some "not started: run budget exhausted by earlier targets"

structure Describes (x : Invocation × Life) (r : InvocationResult) : Prop where
  name : r.name = x.1.name
  app : r.app = x.1.app
  image : r.image = imageOf ctx x.1

/-- The global watch after an invocation and the poll behind it. -/
def watchAfter (watch : BudgetWatch) (inv : Invocation) (life : Life) (remaining : ℕ) : BudgetWatch :=
  match runOne ctx inv life watch (share ctx watch life remaining) with
  | .error _ => watch
  | .ok (_, watch) => watch.see (safeMeter life.after)

/-- The global watch finds the budget spent: when it stops the container, or after it. -/
def Exhausted (watch : BudgetWatch) (inv : Invocation) (life : Life) (remaining : ℕ) : Prop :=
  (∃ handle stop watch', life.container = .ok handle ∧
    watchContainer (localWatch ctx life (share ctx watch life remaining)) watch life.polls =
      .ok (stop, watch') ∧ stop.globalReason ≠ none) ∨
  (watchAfter ctx watch inv life remaining).reason life.afterNow false ≠ none

/-- Once the budget is spent, the later invocations are recorded as not started. -/
def StopsWhenSpent : BudgetWatch → List (Invocation × Life) → List InvocationResult → Prop
  | watch, (inv, life) :: rest, _ :: results =>
    (Exhausted ctx watch inv life (rest.length + 1) → ∀ r ∈ results, NotStarted r) ∧
      StopsWhenSpent (watchAfter ctx watch inv life (rest.length + 1)) rest results
  | _, _, _ => True

/-- One result for each invocation, in the order of the plan. -/
structure Accounts (watch : BudgetWatch) (plan : List (Invocation × Life))
    (results : List InvocationResult) : Prop where
  described : List.Forall₂ (Describes ctx) plan results
  nonneg : ∀ r ∈ results, 0 ≤ r.requests
  stops : StopsWhenSpent ctx watch plan results

/-! ## When it keeps to it -/

/-- Docker answers until a poll finds the container gone or a budget spent. -/
def Ends (localWatch watch : BudgetWatch) : List Poll → Prop
  | [] => False
  | p :: polls =>
    let localWatch := localWatch.see (safeMeter p.meter)
    let watch := watch.see (safeMeter p.meter)
    p.running = .interrupted ∨
      p.running ≠ .unanswered ∧
        (localWatch.reason p.localNow (p.running = .exited) ≠ none ∨
          watch.reason p.globalNow false ≠ none ∨ Ends localWatch watch polls)

/-- The container is closed and its closing poll is no lower than its opening one; a container that
did not start found no request before it. -/
def Closes (watch : BudgetWatch) (life : Life) (remaining : ℕ) : Prop :=
  match life.container with
  | .error _ => safeMeter life.opening ≤ 0
  | .ok _ =>
    Ends (localWatch ctx life (share ctx watch life remaining)) watch life.polls ∧
      life.exitCode.isSome ∧ safeMeter life.opening ≤ safeMeter life.closing

/-- Every invocation the run comes to closes, the poll after it is answered, and those that the
budget does not reach have the image of the last one that ran. -/
def Sound : BudgetWatch → List (Invocation × Life) → Prop
  | _, [] => True
  | watch, (inv, life) :: rest =>
    let next := watchAfter ctx watch inv life (rest.length + 1)
    Closes ctx watch life (rest.length + 1) ∧ (eventCount life.after).isSome ∧
      if next.reason life.afterNow false = none then Sound next rest
      else ∀ x ∈ rest, imageOf ctx x.1 = imageOf ctx inv

variable {ctx}

/-! ### The loop over the polls -/

theorem ends_iff {lw watch : BudgetWatch} {polls : List Poll} :
    Ends lw watch polls ↔ ∃ r, watchContainer lw watch polls = .ok r := by
  induction polls generalizing lw watch with
  | nil =>
    constructor
    · intro h
      exact h.elim
    · rintro ⟨r, h⟩
      cases h
  | cons p polls ih =>
    unfold Ends watchContainer
    dsimp only
    cases hrunning : p.running with
    | interrupted => simp
    | unanswered => simp
    | running | exited =>
      dsimp only
      rw [ih]
      cases hlocal : BudgetWatch.reason _ p.localNow _ with
      | some reason => simp
      | none =>
        cases hglobal : BudgetWatch.reason _ p.globalNow false with
        | some reason => simp
        | none => simp

/-- What the global watch says when the loop stops, it says of the requests it has seen. -/
theorem globalReason_spec {lw watch watch' : BudgetWatch} {polls : List Poll} {stop : Stop}
    (h : watchContainer lw watch polls = .ok (stop, watch')) (hstop : stop.globalReason ≠ none) :
    ∃ p ∈ polls, watch'.reason p.globalNow false ≠ none := by
  induction polls generalizing lw watch with
  | nil => cases h
  | cons p polls ih =>
    unfold watchContainer at h
    dsimp only at h
    cases hrunning : p.running with
    | interrupted =>
      rw [hrunning] at h
      obtain ⟨rfl, rfl⟩ := Prod.mk.inj (Except.ok.inj h)
      exact absurd rfl hstop
    | unanswered =>
      rw [hrunning] at h
      cases h
    | running | exited =>
      rw [hrunning] at h
      dsimp only at h
      split at h
      · obtain ⟨rfl, rfl⟩ := Prod.mk.inj (Except.ok.inj h)
        exact ⟨p, List.mem_cons_self, hstop⟩
      · obtain ⟨q, hq, hreason⟩ := ih h
        exact ⟨q, List.mem_cons_of_mem _ hq, hreason⟩

theorem reason_ne_none {watch : BudgetWatch} {now : ℚ} :
    watch.reason now false ≠ none ↔
      (∃ wallClock ∈ watch.budget.wallClockS, (wallClock : ℚ) ≤ now - watch.started) ∨
        ∃ maxRequests ∈ watch.budget.maxRequests, maxRequests ≤ watch.requests := by
  unfold BudgetWatch.reason
  rw [if_neg Bool.false_ne_true]
  simp only [Option.any_eq_true, decide_eq_true_eq, Option.mem_def]
  split_ifs with hwall hrequests
  · exact ⟨fun _ => .inl hwall, fun _ => Option.some_ne_none _⟩
  · exact ⟨fun _ => .inr hrequests, fun _ => Option.some_ne_none _⟩
  · exact ⟨fun h => absurd rfl h, fun h => (h.elim hwall hrequests).elim⟩

/-- A budget that is spent stays spent. -/
theorem reason_mono {watch : BudgetWatch} {now now' : ℚ} (h : watch.reason now false ≠ none)
    (hnow : now ≤ now') (requests : ℤ) : (watch.see requests).reason now' false ≠ none := by
  rw [reason_ne_none] at h ⊢
  rcases h with ⟨wallClock, hmem, hle⟩ | ⟨maxRequests, hmem, hle⟩
  · exact .inl ⟨wallClock, hmem, hle.trans (sub_le_sub_right hnow _)⟩
  · exact .inr ⟨maxRequests, hmem, hle.trans (le_max_left _ _)⟩

theorem reason_cases (watch : BudgetWatch) (now : ℚ) :
    watch.reason now false = none ∨ watch.reason now false = some .budgetWallClock ∨
      watch.reason now false = some .budgetRequests := by
  unfold BudgetWatch.reason
  rw [if_neg Bool.false_ne_true]
  split_ifs
  · exact .inr (.inl rfl)
  · exact .inr (.inr rfl)
  · exact .inl rfl

/-! ### One invocation -/

/-- What is known of the record of an invocation that was run. -/
theorem runOne_spec {inv : Invocation} {life : Life} {watch watch' : BudgetWatch} {shareS : Option ℚ}
    {r : InvocationResult} (h : runOne ctx inv life watch shareS = .ok (r, watch')) :
    Describes ctx (inv, life) r ∧
      ((∃ exc, life.container = .error exc ∧ watch' = watch ∧ r.requests = - safeMeter life.opening) ∨
        ∃ handle stop, life.container = .ok handle ∧ life.exitCode.isSome ∧
          watchContainer (localWatch ctx life shareS) watch life.polls = .ok (stop, watch') ∧
          r.requests = safeMeter life.closing - safeMeter life.opening) := by
  unfold runOne at h
  dsimp only at h
  cases hcontainer : life.container with
  | error exc =>
    rw [hcontainer] at h
    obtain ⟨rfl, rfl⟩ := Prod.mk.inj (Except.ok.inj h)
    refine ⟨⟨rfl, rfl, rfl⟩, .inl ⟨exc, rfl, rfl, ?_⟩⟩
    rw [InvocationResult.requests]
    exact Int.zero_sub _
  | ok handle =>
    rw [hcontainer] at h
    obtain ⟨⟨stop, watch''⟩, hwatch, hrest⟩ := bind_eq_ok.mp h
    cases hexit : life.exitCode with
    | none =>
      rw [hexit] at hrest
      cases hrest
    | some exitCode =>
      rw [hexit] at hrest
      obtain ⟨rfl, rfl⟩ := Prod.mk.inj (Except.ok.inj hrest)
      exact ⟨⟨rfl, rfl, rfl⟩, .inr ⟨handle, stop, rfl, rfl, hwatch, rfl⟩⟩

/-- A record that is returned and not negative comes from an invocation that closes. -/
theorem closes_iff {inv : Invocation} {life : Life} {watch : BudgetWatch} {remaining : ℕ} :
    Closes ctx watch life remaining ↔
      ∃ r watch', runOne ctx inv life watch (share ctx watch life remaining) = .ok (r, watch') ∧
        0 ≤ r.requests := by
  constructor
  · intro h
    unfold Closes at h
    unfold runOne
    dsimp only
    cases hcontainer : life.container with
    | error exc =>
      rw [hcontainer] at h
      refine ⟨_, _, rfl, ?_⟩
      dsimp only [InvocationResult.requests] at h ⊢
      omega
    | ok handle =>
      rw [hcontainer] at h
      obtain ⟨hends, hexit, hle⟩ := h
      obtain ⟨⟨stop, watch'⟩, hwatch⟩ := ends_iff.mp hends
      obtain ⟨exitCode, hexit⟩ := Option.isSome_iff_exists.mp hexit
      dsimp only
      rw [hwatch, hexit]
      refine ⟨_, _, rfl, ?_⟩
      dsimp only [InvocationResult.requests]
      omega
  · rintro ⟨r, watch', hrun, hnonneg⟩
    obtain ⟨-, hcases⟩ := runOne_spec hrun
    unfold Closes
    rcases hcases with ⟨exc, hcontainer, -, hrequests⟩ | ⟨handle, stop, hcontainer, hexit, hwatch, hrequests⟩
    · rw [hcontainer]
      dsimp only
      omega
    · rw [hcontainer]
      exact ⟨ends_iff.mpr ⟨_, hwatch⟩, hexit, by omega⟩

theorem watchAfter_eq {inv : Invocation} {life : Life} {watch watch' : BudgetWatch} {remaining : ℕ}
    {r : InvocationResult}
    (h : runOne ctx inv life watch (share ctx watch life remaining) = .ok (r, watch')) :
    watchAfter ctx watch inv life remaining = watch'.see (safeMeter life.after) := by
  rw [watchAfter, h]

/-- A budget found spent during an invocation is found spent after it. -/
theorem exhausted_iff {inv : Invocation} {life : Life} {watch watch' : BudgetWatch} {remaining : ℕ}
    {r : InvocationResult}
    (h : runOne ctx inv life watch (share ctx watch life remaining) = .ok (r, watch')) :
    Exhausted ctx watch inv life remaining ↔
      (watchAfter ctx watch inv life remaining).reason life.afterNow false ≠ none := by
  refine ⟨?_, .inr⟩
  rintro (⟨handle, stop, watch'', hcontainer, hwatch, hstop⟩ | hafter)
  · obtain ⟨-, hcases⟩ := runOne_spec h
    rcases hcases with ⟨exc, herror, -, -⟩ | ⟨handle', stop', -, -, hwatch', -⟩
    · rw [hcontainer] at herror
      cases herror
    · rw [hwatch] at hwatch'
      obtain ⟨rfl, rfl⟩ := Prod.mk.inj (Except.ok.inj hwatch')
      obtain ⟨p, hp, hreason⟩ := globalReason_spec hwatch hstop
      rw [watchAfter_eq h]
      exact reason_mono hreason (life.monotonic p hp) _
  · exact hafter

/-! ### The whole plan -/

theorem notStarted_spec (inv : Invocation) (reason : StopReason) (x : Invocation × Life) :
    NotStarted (notStarted ctx inv reason x) := ⟨rfl, rfl, rfl⟩

theorem describes_notStarted {inv : Invocation} {reason : StopReason} {x : Invocation × Life} :
    Describes ctx x (notStarted ctx inv reason x) ↔ imageOf ctx x.1 = imageOf ctx inv :=
  ⟨fun h => h.image.symm, fun h => ⟨rfl, rfl, h.symm⟩⟩

theorem stopsWhenSpent_of_notStarted {watch : BudgetWatch} {plan : List (Invocation × Life)}
    {results : List InvocationResult} (h : ∀ r ∈ results, NotStarted r) :
    StopsWhenSpent ctx watch plan results := by
  induction plan generalizing watch results with
  | nil => cases results <;> trivial
  | cons x plan ih =>
    cases results with
    | nil => trivial
    | cons r results =>
      have htail : ∀ r ∈ results, NotStarted r := fun r hr => h r (List.mem_cons_of_mem _ hr)
      exact ⟨fun _ => htail, ih htail⟩

/-- What `run` makes of its first invocation and the rest. -/
theorem runFrom_cons {inv : Invocation} {life : Life} {rest : List (Invocation × Life)}
    {watch watch' : BudgetWatch} {r : InvocationResult}
    (h : runOne ctx inv life watch (share ctx watch life (rest.length + 1)) = .ok (r, watch'))
    (hafter : (eventCount life.after).isSome) :
    let next := watchAfter ctx watch inv life (rest.length + 1)
    (next.reason life.afterNow false = none ∧
        runFrom ctx watch ((inv, life) :: rest) = (runFrom ctx next rest).map fun results => r :: results) ∨
      ∃ reason, next.reason life.afterNow false = some reason ∧
        runFrom ctx watch ((inv, life) :: rest) = .ok (r :: rest.map (notStarted ctx inv reason)) := by
  obtain ⟨requests, hrequests⟩ := Option.isSome_iff_exists.mp hafter
  have hsafe : safeMeter life.after = requests := by rw [safeMeter, hrequests, Option.getD_some]
  intro next
  have hnext : next = watch'.see requests := by
    rw [← hsafe]
    exact watchAfter_eq h
  have hrun : runFrom ctx watch ((inv, life) :: rest) =
      match next.reason life.afterNow false with
      | some .budgetWallClock => .ok (r :: rest.map (notStarted ctx inv .budgetWallClock))
      | some .budgetRequests => .ok (r :: rest.map (notStarted ctx inv .budgetRequests))
      | _ => (runFrom ctx next rest).map fun results => r :: results := by
    rw [runFrom, h]
    dsimp only [bind, Except.bind]
    rw [hrequests]
    dsimp only
    rw [← hnext]
  rcases reason_cases next life.afterNow with hnone | hwall | hspent
  · rw [hrun, hnone]
    exact .inl ⟨rfl, rfl⟩
  · rw [hrun, hwall]
    exact .inr ⟨_, rfl, rfl⟩
  · rw [hrun, hspent]
    exact .inr ⟨_, rfl, rfl⟩

/-- A run that returns has run its first invocation and read the meter after it. -/
theorem runOne_of_runFrom {inv : Invocation} {life : Life} {rest : List (Invocation × Life)}
    {watch : BudgetWatch} {results : List InvocationResult}
    (h : runFrom ctx watch ((inv, life) :: rest) = .ok results) :
    (∃ r watch', runOne ctx inv life watch (share ctx watch life (rest.length + 1)) = .ok (r, watch')) ∧
      (eventCount life.after).isSome := by
  rw [runFrom] at h
  obtain ⟨⟨r, watch'⟩, hone, hrest⟩ := bind_eq_ok.mp h
  refine ⟨⟨r, watch', hone⟩, ?_⟩
  cases hafter : eventCount life.after with
  | none =>
    rw [hafter] at hrest
    cases hrest
  | some requests => rfl

theorem runFrom_accounts_iff {watch : BudgetWatch} {plan : List (Invocation × Life)} :
    (∃ results, runFrom ctx watch plan = .ok results ∧ Accounts ctx watch plan results) ↔
      Sound ctx watch plan := by
  induction plan generalizing watch with
  | nil =>
    refine ⟨fun _ => trivial, fun _ => ⟨[], rfl, .nil, ?_, trivial⟩⟩
    intro r hr
    exact absurd hr List.not_mem_nil
  | cons x rest ih =>
    obtain ⟨inv, life⟩ := x
    unfold Sound
    dsimp only
    constructor
    · rintro ⟨results, hrun, haccounts⟩
      obtain ⟨⟨r, watch', hone⟩, hafter⟩ := runOne_of_runFrom hrun
      rcases runFrom_cons hone hafter with ⟨hnone, heq⟩ | ⟨reason, hspent, heq⟩
      · rw [heq] at hrun
        obtain ⟨tail, htail, rfl⟩ := map_eq_ok.mp hrun
        have hnonneg := haccounts.nonneg r List.mem_cons_self
        refine ⟨closes_iff.mpr ⟨r, watch', hone, hnonneg⟩, hafter, ?_⟩
        rw [if_pos hnone]
        refine ih.mp ⟨tail, htail, (List.forall₂_cons.mp haccounts.described).2, ?_, haccounts.stops.2⟩
        exact fun r hr => haccounts.nonneg r (List.mem_cons_of_mem _ hr)
      · rw [heq] at hrun
        obtain rfl := Except.ok.inj hrun
        have hnonneg := haccounts.nonneg r List.mem_cons_self
        refine ⟨closes_iff.mpr ⟨r, watch', hone, hnonneg⟩, hafter, ?_⟩
        rw [if_neg (by rw [hspent]; exact Option.some_ne_none _)]
        have hdescribed := (List.forall₂_cons.mp haccounts.described).2
        rw [List.forall₂_map_right_iff, List.forall₂_same] at hdescribed
        exact fun x hx => describes_notStarted.mp (hdescribed x hx)
    · rintro ⟨hcloses, hafter, hrest⟩
      obtain ⟨r, watch', hone, hnonneg⟩ := (@closes_iff _ inv _ _ _).mp hcloses
      have hdescribes := (runOne_spec hone).1
      rcases runFrom_cons hone hafter with ⟨hnone, heq⟩ | ⟨reason, hspent, heq⟩
      · rw [if_pos hnone] at hrest
        obtain ⟨tail, htail, haccounts⟩ := ih.mpr hrest
        refine ⟨r :: tail, ?_, .cons hdescribes haccounts.described, ?_, ?_, haccounts.stops⟩
        · rw [heq, htail]
          rfl
        · exact List.forall_mem_cons.mpr ⟨hnonneg, haccounts.nonneg⟩
        · intro hexhausted
          exact absurd hnone ((exhausted_iff hone).mp hexhausted)
      · rw [if_neg (by rw [hspent]; exact Option.some_ne_none _)] at hrest
        have hskipped : ∀ s ∈ rest.map (notStarted ctx inv reason), NotStarted s := by
          intro s hs
          obtain ⟨x, -, rfl⟩ := List.mem_map.mp hs
          exact notStarted_spec inv reason x
        refine ⟨_, heq, .cons hdescribes ?_, List.forall_mem_cons.mpr ⟨hnonneg, ?_⟩,
          fun _ => hskipped, stopsWhenSpent_of_notStarted hskipped⟩
        · rw [List.forall₂_map_right_iff, List.forall₂_same]
          exact fun x hx => describes_notStarted.mpr (hrest x hx)
        · intro s hs
          obtain ⟨x, -, rfl⟩ := List.mem_map.mp hs
          exact le_refl (0 : ℤ)

/-- A run returns, and its results account for the plan, just if every invocation it comes to closes. -/
theorem run_accounts_iff (ctx : RunContext) (started : ℚ) (plan : List (Invocation × Life)) :
    (∃ results, run ctx started plan = .ok results ∧
        Accounts ctx { budget := ctx.budget, started := started } plan results) ↔
      Sound ctx { budget := ctx.budget, started := started } plan := runFrom_accounts_iff

/-- A container that has exited by the first poll; the meter answers until the invocation is over. -/
def shortLife (after : ActiveRun) : Life where
  shareNow := 1
  opening := .run 0
  startedAt := "t0"
  container := .ok { containerId := "c1", argv := ["docker"], imageDigest := none }
  localStarted := 2
  polls := [{ running := .exited, meter := .run 40, localNow := 3, globalNow := 3 }]
  exitCode := some (some 0)
  localEnded := 4
  endedAt := "t1"
  closing := .run 40
  written := fun _ => true
  after := after
  afterNow := 5
  monotonic := by decide

theorem meter_failure_loses_results :
    ¬ ∃ results, run { imageRef := "scanner", budget := {} } 0
          [({ name := "shop" }, shortLife .unavailable), ({ name := "legacy" }, shortLife (.run 80))] =
        .ok results ∧
      Accounts { imageRef := "scanner", budget := {} } { budget := {}, started := 0 }
        [({ name := "shop" }, shortLife .unavailable), ({ name := "legacy" }, shortLife (.run 80))]
        results := by
  rintro ⟨results, hrun, -⟩
  have hraises : run { imageRef := "scanner", budget := {} } 0
      [({ name := "shop" }, shortLife .unavailable), ({ name := "legacy" }, shortLife (.run 80))] =
      .error .meter := rfl
  rw [hraises] at hrun
  cases hrun

/-- An invocation that was not started is recorded with the image of the one that ran. -/
example : ((run { imageRef := "scanner", budget := { wallClockS := some 5 } } 0
    [({ name := "shop" }, shortLife (.run 40)),
      ({ name := "legacy", image := some "scanner:full" }, shortLife (.run 80))]).toOption.map
    fun results => results.map InvocationResult.image) = some ["scanner", "scanner"] := by decide +kernel

/-- A container that did not start after forty requests is recorded with minus forty. -/
example : ((run { imageRef := "scanner", budget := {} } 0
    [({ name := "shop" }, { shortLife (.run 40) with opening := .run 40, container := .error "no image" })]).toOption.map
    fun results => results.map InvocationResult.requests) = some [-40] := by decide +kernel

end Accounts

end PtaasBench.Runners.Driver
