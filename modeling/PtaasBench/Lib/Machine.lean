import Mathlib.Data.List.Induction
import Mathlib.Order.Lattice

/-!
# PtaasBench.Lib.Machine — runs of a deterministic machine

A machine is a step function on states; a run is a list of operations.  An invariant is
established once and preserved by every step (`run_invariant`).
-/

namespace PtaasBench.Lib

variable {σ α : Type*} (step : σ → α → σ)

/-- What a sequence of operations leads to. -/
def run (s : σ) (ops : List α) : σ := ops.foldl step s

@[simp] theorem run_nil (s : σ) : run step s [] = s := rfl

@[simp] theorem run_cons (s : σ) (op : α) (ops : List α) :
    run step s (op :: ops) = run step (step s op) ops := rfl

theorem run_append (s : σ) (ops ops' : List α) :
    run step s (ops ++ ops') = run step (run step s ops) ops' := List.foldl_append

theorem run_concat (s : σ) (ops : List α) (op : α) :
    run step s (ops ++ [op]) = step (run step s ops) op := by
  rw [run_append, run_cons, run_nil]

/-- A projection that commutes with every step commutes with a run. -/
theorem map_run {τ : Type*} {step' : τ → α → τ} (f : σ → τ)
    (hf : ∀ s op, f (step s op) = step' (f s) op) (s : σ) (ops : List α) :
    f (run step s ops) = run step' (f s) ops := by
  induction ops generalizing s with
  | nil => rfl
  | cons op ops ih => rw [run_cons, run_cons, ih, hf]

/-- What holds at the start and survives every step holds after every run. -/
theorem run_invariant {P : σ → Prop} {s : σ} (h0 : P s) (hstep : ∀ s op, P s → P (step s op))
    (ops : List α) : P (run step s ops) := by
  induction ops using List.reverseRecOn with
  | nil => exact h0
  | append_singleton ops op ih =>
    rw [run_concat]
    exact hstep _ op ih

/-- A relation between the state before and after that every step respects is respected by a
run. -/
theorem run_rel {R : σ → σ → Prop} (hrefl : ∀ s, R s s)
    (htrans : ∀ s s' s'', R s s' → R s' s'' → R s s'') {P : σ → Prop}
    (hP : ∀ s op, P s → P (step s op)) (hstep : ∀ s op, P s → R s (step s op)) {s : σ} (hs : P s)
    (ops : List α) : R s (run step s ops) := by
  induction ops using List.reverseRecOn with
  | nil => exact hrefl s
  | append_singleton ops op ih =>
    rw [run_concat]
    exact htrans _ _ _ ih (hstep _ op (run_invariant step hs hP ops))

/-! ## Runs under a condition, runs with a clock -/

/-- Every operation of a run meets a condition on the state it finds. -/
def Along (Q : σ → α → Prop) : σ → List α → Prop
  | _, [] => True
  | s, op :: ops => Q s op ∧ Along Q (step s op) ops

instance decidableAlong {Q : σ → α → Prop} [∀ s op, Decidable (Q s op)] :
    ∀ s ops, Decidable (Along step Q s ops)
  | _, [] => isTrue trivial
  | s, op :: ops => @instDecidableAnd _ _ _ (decidableAlong (step s op) ops)

theorem along_append {Q : σ → α → Prop} {s : σ} {ops ops' : List α} :
    Along step Q s (ops ++ ops') ↔ Along step Q s ops ∧ Along step Q (run step s ops) ops' := by
  induction ops generalizing s with
  | nil => simp [Along]
  | cons op ops ih =>
    rw [List.cons_append, Along, Along, ih, run_cons, and_assoc]

theorem along_of_forall {Q : σ → α → Prop} (hQ : ∀ s op, Q s op) (s : σ) (ops : List α) :
    Along step Q s ops := by
  induction ops generalizing s with
  | nil => trivial
  | cons op ops ih => exact ⟨hQ s op, ih _⟩

/-- What survives every step that meets a condition survives a run that meets it. -/
theorem run_along {P : σ → Prop} {Q : σ → α → Prop} (hstep : ∀ s op, P s → Q s op → P (step s op)) {s : σ}
    (h0 : P s) {ops : List α} (hQ : Along step Q s ops) : P (run step s ops) := by
  induction ops generalizing s with
  | nil => exact h0
  | cons op ops ih => exact ih (hstep s op h0 hQ.1) hQ.2

/-- A condition on a projection that commutes with the steps. -/
theorem along_map {τ : Type*} {step' : τ → α → τ} (f : σ → τ)
    (hf : ∀ s op, f (step s op) = step' (f s) op) {Q : τ → α → Prop} {s : σ} {ops : List α} :
    Along step (fun s op => Q (f s) op) s ops ↔ Along step' Q (f s) ops := by
  induction ops generalizing s with
  | nil => exact Iff.rfl
  | cons op ops ih => rw [Along, Along, ih, hf]

/-- An invariant that may speak of the present, in a run whose clock does not go back. -/
theorem run_timed {τ : Type*} [Preorder τ] (time : α → τ) {P : τ → σ → Prop} {Q : σ → α → Prop}
    (hlater : ∀ {s t t'}, P t s → t ≤ t' → P t' s)
    (hstep : ∀ {s op}, P (time op) s → Q s op → P (time op) (step s op)) {s : σ}
    (h0 : ∀ t, P t s) {ops : List α} (hclock : ops.Pairwise fun a b => time a ≤ time b)
    (hQ : Along step Q s ops) {now : τ} (hnow : ∀ op ∈ ops, time op ≤ now) :
    P now (run step s ops) := by
  induction ops using List.reverseRecOn generalizing now with
  | nil => exact h0 now
  | append_singleton ops op ih =>
    rw [List.pairwise_append] at hclock
    rw [along_append] at hQ
    rw [run_concat]
    have hbefore : ∀ op' ∈ ops, time op' ≤ time op := fun op' h => hclock.2.2 op' h op (by simp)
    exact hlater (hstep (ih hclock.1 hQ.1 hbefore) hQ.2.1) (hnow op (by simp))

/-- A run is over at some time. -/
theorem exists_after {τ : Type*} [SemilatticeSup τ] [Nonempty τ] (time : α → τ) (ops : List α) :
    ∃ now, ∀ op ∈ ops, time op ≤ now := by
  induction ops with
  | nil => exact ⟨Classical.arbitrary τ, by simp⟩
  | cons op ops ih =>
    obtain ⟨now, hnow⟩ := ih
    refine ⟨time op ⊔ now, fun op' h => ?_⟩
    rcases List.mem_cons.mp h with rfl | h
    · exact le_sup_left
    · exact (hnow op' h).trans le_sup_right

end PtaasBench.Lib
