import Mathlib.Data.List.Basic

/-!
# PtaasBench.Lib.Ledger — what became of everything that came in

A ledger lists what was taken in, in order of arrival, with its fate.  Entries that wait are
settled oldest first, so a ledger is a `front` where nothing waits and a `back` where nothing is
settled.  When the keeper dies, what waits is lost (`closed`).
-/

namespace PtaasBench.Lib

open List

inductive Fate (ω : Type*) where
  | waiting
  | refused
  | settled (o : ω)
  | lost

def Fate.isRefused {ω : Type*} : Fate ω → Bool
  | refused => true
  | _ => false

def Fate.outcome? {ω : Type*} : Fate ω → Option ω
  | settled o => some o
  | _ => none

structure Ledger (α ω : Type*) where
  front : List (α × Option ω) := []  -- `none`: refused
  back : List (α × Bool) := []  -- `true`: waiting, `false`: refused

namespace Ledger

variable {α ω : Type*}

/-- The settled entries of a log. -/
def outcomes (log : List (α × Fate ω)) : List (α × ω) :=
  log.filterMap fun e => e.2.outcome?.map fun o => (e.1, o)

def frontLog (front : List (α × Option ω)) : List (α × Fate ω) :=
  front.map fun e => (e.1, e.2.elim .refused .settled)

def log (L : Ledger α ω) : List (α × Fate ω) :=
  frontLog L.front ++ L.back.map fun e => (e.1, if e.2 then .waiting else .refused)

/-- The log of a ledger whose keeper has died. -/
def closed (L : Ledger α ω) : List (α × Fate ω) :=
  frontLog L.front ++ L.back.map fun e => (e.1, if e.2 then .lost else .refused)

def settledOf (front : List (α × Option ω)) : List (α × ω) :=
  front.filterMap fun e => e.2.map fun o => (e.1, o)

def waitingOf (back : List (α × Bool)) : List α :=
  back.filterMap fun e => if e.2 then some e.1 else none

def settled (L : Ledger α ω) : List (α × ω) := settledOf L.front

def waiting (L : Ledger α ω) : List α := waitingOf L.back

def refusals (L : Ledger α ω) : ℕ :=
  L.front.countP (·.2.isNone) + L.back.countP (!·.2)

/-- New entries arrive, to wait or to be refused. -/
def enter (L : Ledger α ω) (waits : Bool) (as : List α) : Ledger α ω :=
  { L with back := L.back ++ as.map fun a => (a, waits) }

/-- The outcomes go to the oldest waiting entries. -/
def resolve : List ω → List (α × Bool) → List (α × Option ω) × List (α × Bool)
  | [], back => ([], back)
  | _ :: _, [] => ([], [])
  | o :: os, (a, true) :: back => ((a, some o) :: (resolve os back).1, (resolve os back).2)
  | o :: os, (a, false) :: back =>
    ((a, none) :: (resolve (o :: os) back).1, (resolve (o :: os) back).2)

def settle (L : Ledger α ω) (os : List ω) : Ledger α ω where
  front := L.front ++ (resolve os L.back).1
  back := (resolve os L.back).2

/-! ## Arrival -/

theorem map_fst_log (L : Ledger α ω) :
    L.log.map Prod.fst = L.front.map Prod.fst ++ L.back.map Prod.fst := by
  simp [log, frontLog, Function.comp_def]

theorem map_fst_closed (L : Ledger α ω) : L.closed.map Prod.fst = L.log.map Prod.fst := by
  rw [map_fst_log]
  simp [closed, frontLog, Function.comp_def]

theorem map_fst_enter (L : Ledger α ω) (waits : Bool) (as : List α) :
    (L.enter waits as).log.map Prod.fst = L.log.map Prod.fst ++ as := by
  rw [map_fst_log, map_fst_log]
  simp [enter, Function.comp_def]

theorem settled_enter (L : Ledger α ω) (waits : Bool) (as : List α) :
    (L.enter waits as).settled = L.settled := rfl

theorem waitingOf_append (back back' : List (α × Bool)) :
    waitingOf (back ++ back') = waitingOf back ++ waitingOf back' := filterMap_append

theorem waiting_enter_true (L : Ledger α ω) (as : List α) :
    (L.enter true as).waiting = L.waiting ++ as := by
  have hnew : waitingOf (as.map fun a => (a, true)) = as := by simp [waitingOf]
  rw [waiting, enter, waitingOf_append, hnew, waiting]

theorem waiting_enter_false (L : Ledger α ω) (as : List α) :
    (L.enter false as).waiting = L.waiting := by
  have hnew : waitingOf (as.map fun a => (a, false)) = [] := by simp [waitingOf]
  rw [waiting, enter, waitingOf_append, hnew, append_nil, waiting]

theorem refusals_enter (L : Ledger α ω) (waits : Bool) (as : List α) :
    (L.enter waits as).refusals = L.refusals + if waits then 0 else as.length := by
  have hnew : (as.map fun a => (a, waits)).countP (!·.2) = if waits then 0 else as.length := by
    cases waits <;> simp [countP_map, Function.comp_def]
  rw [refusals, enter, countP_append, hnew, refusals, Nat.add_assoc]

/-! ## Settlement -/

theorem settledOf_resolve (os : List ω) (back : List (α × Bool)) :
    settledOf (resolve os back).1 = (waitingOf back).zip os := by
  induction os, back using resolve.induct with
  | case1 back => simp [resolve, settledOf]
  | case2 => rfl
  | case3 o os a back ih =>
    rw [resolve]
    show (a, o) :: settledOf (resolve os back).1 = (a :: waitingOf back).zip (o :: os)
    rw [ih, zip_cons_cons]
  | case4 o os a back ih =>
    rw [resolve]
    exact ih

theorem waitingOf_resolve (os : List ω) (back : List (α × Bool)) :
    waitingOf (resolve os back).2 = (waitingOf back).drop os.length := by
  induction os, back using resolve.induct with
  | case1 back => simp [resolve]
  | case2 => rfl
  | case3 o os a back ih =>
    rw [resolve]
    exact ih
  | case4 o os a back ih =>
    rw [resolve]
    exact ih

theorem map_fst_resolve (os : List ω) (back : List (α × Bool)) :
    (resolve os back).1.map Prod.fst ++ (resolve os back).2.map Prod.fst =
      back.map Prod.fst := by
  induction os, back using resolve.induct with
  | case1 back => simp [resolve]
  | case2 => rfl
  | case3 o os a back ih => rw [resolve, map_cons, cons_append, ih, map_cons]
  | case4 o os a back ih => rw [resolve, map_cons, cons_append, ih, map_cons]

theorem refusals_resolve (os : List ω) (back : List (α × Bool)) :
    (resolve os back).1.countP (·.2.isNone) + (resolve os back).2.countP (!·.2) =
      back.countP (!·.2) := by
  induction os, back using resolve.induct with
  | case1 back => simp [resolve]
  | case2 => rfl
  | case3 o os a back ih =>
    rw [resolve, countP_cons_of_neg (by simp), countP_cons_of_neg (by simp), ih]
  | case4 o os a back ih =>
    rw [resolve, countP_cons_of_pos (by simp), countP_cons_of_pos (by simp), ← ih]
    dsimp only
    omega

theorem map_fst_settle (L : Ledger α ω) (os : List ω) :
    (L.settle os).log.map Prod.fst = L.log.map Prod.fst := by
  rw [map_fst_log, map_fst_log, settle, map_append, append_assoc, map_fst_resolve]

theorem settled_settle (L : Ledger α ω) (os : List ω) :
    (L.settle os).settled = L.settled ++ L.waiting.zip os := by
  rw [settled, settle, settledOf, filterMap_append]
  exact congrArg (L.settled ++ ·) (settledOf_resolve os L.back)

theorem waiting_settle (L : Ledger α ω) (os : List ω) :
    (L.settle os).waiting = L.waiting.drop os.length := waitingOf_resolve os L.back

theorem refusals_settle (L : Ledger α ω) (os : List ω) :
    (L.settle os).refusals = L.refusals := by
  have := refusals_resolve os L.back
  rw [refusals, settle, countP_append, refusals]
  dsimp only
  omega

/-! ## Reading a log -/

theorem outcomes_append (l l' : List (α × Fate ω)) :
    outcomes (l ++ l') = outcomes l ++ outcomes l' := filterMap_append

theorem outcomes_frontLog (front : List (α × Option ω)) :
    outcomes (frontLog front) = settledOf front := by
  rw [outcomes, frontLog, filterMap_map, settledOf]
  refine filterMap_congr fun e _ => ?_
  obtain ⟨a, _ | o⟩ := e <;> rfl

theorem outcomes_back {f : Bool → Fate ω} (hf : ∀ b, (f b).outcome? = none)
    (back : List (α × Bool)) : outcomes (back.map fun e => (e.1, f e.2)) = [] := by
  rw [outcomes, filterMap_map, filterMap_eq_nil_iff]
  intro e _
  rw [Function.comp_apply, hf, Option.map_none]

theorem outcomes_log (L : Ledger α ω) : outcomes L.log = L.settled := by
  rw [log, outcomes_append, outcomes_frontLog,
    outcomes_back (f := fun b => if b then .waiting else .refused) fun b => by cases b <;> rfl,
    append_nil]
  rfl

theorem outcomes_closed (L : Ledger α ω) : outcomes L.closed = L.settled := by
  rw [closed, outcomes_append, outcomes_frontLog,
    outcomes_back (f := fun b => if b then .lost else .refused) fun b => by cases b <;> rfl,
    append_nil]
  rfl

theorem countP_isRefused_log (L : Ledger α ω) :
    L.log.countP (·.2.isRefused) = L.refusals := by
  rw [log, frontLog, countP_append, countP_map, countP_map, refusals]
  congr 1
  · refine countP_congr fun e _ => ?_
    obtain ⟨a, _ | o⟩ := e <;> simp [Fate.isRefused]
  · refine countP_congr fun e _ => ?_
    obtain ⟨a, _ | _⟩ := e <;> simp [Fate.isRefused]

theorem fate_of_mem_frontLog {front : List (α × Option ω)} {e : α × Fate ω}
    (h : e ∈ frontLog front) : e.2 = .refused ∨ ∃ o, e.2 = .settled o := by
  obtain ⟨⟨a, o⟩, -, rfl⟩ := mem_map.mp h
  cases o with
  | none => exact Or.inl rfl
  | some o => exact Or.inr ⟨o, rfl⟩

theorem mem_waitingOf {back : List (α × Bool)} {a : α} (h : (a, true) ∈ back) :
    a ∈ waitingOf back := mem_filterMap.mpr ⟨(a, true), h, rfl⟩

/-- An entry of a log is decided, or it waits. -/
theorem fate_of_mem_log {L : Ledger α ω} {e : α × Fate ω} (h : e ∈ L.log) :
    (e.2 = .refused ∨ ∃ o, e.2 = .settled o) ∨ e.2 = .waiting ∧ e.1 ∈ L.waiting := by
  rcases mem_append.mp h with h | h
  · exact Or.inl (fate_of_mem_frontLog h)
  · obtain ⟨⟨a, b⟩, hb, rfl⟩ := mem_map.mp h
    cases b with
    | true => exact Or.inr ⟨rfl, mem_waitingOf hb⟩
    | false => exact Or.inl (Or.inl rfl)

/-- An entry of a closed log is decided, or it was waiting and is lost. -/
theorem fate_of_mem_closed {L : Ledger α ω} {e : α × Fate ω} (h : e ∈ L.closed) :
    (e.2 = .refused ∨ ∃ o, e.2 = .settled o) ∨ e.2 = .lost ∧ e.1 ∈ L.waiting := by
  rcases mem_append.mp h with h | h
  · exact Or.inl (fate_of_mem_frontLog h)
  · obtain ⟨⟨a, b⟩, hb, rfl⟩ := mem_map.mp h
    cases b with
    | true => exact Or.inr ⟨rfl, mem_waitingOf hb⟩
    | false => exact Or.inl (Or.inl rfl)

end Ledger

end PtaasBench.Lib
