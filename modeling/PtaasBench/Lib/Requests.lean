import Mathlib.Logic.Function.Basic
import PtaasBench.Lib.Machine

/-!
# PtaasBench.Lib.Requests — requests that are served statement by statement

Requests share a store.  A turn of one of them is its next statement: it changes the store, moves that request on and
may tell something.  A schedule is any order of turns.  `run_both` is the rule for what holds whatever runs beside each
other, `run_serial` and `run_served` are the rules for requests that are served one after the other.
-/

namespace PtaasBench.Lib

variable {ι σ φ ε : Type}

structure Desk (ι σ φ ε : Type) where
  shared : σ
  phase : ι → φ
  told : ι → List ε

namespace Desk

variable [DecidableEq ι] (turn : ι → σ → φ → σ × φ × List ε)

/-- The next statement of a request. -/
def step (s : Desk ι σ φ ε) (i : ι) : Desk ι σ φ ε where
  shared := (turn i s.shared (s.phase i)).1
  phase := Function.update s.phase i (turn i s.shared (s.phase i)).2.1
  told := Function.update s.told i (s.told i ++ (turn i s.shared (s.phase i)).2.2)

/-- What every turn keeps of the store, and what a request keeps in its own turns and the others do not break, hold
under every schedule. -/
theorem run_both {G : σ → Prop} {P : ι → σ → φ → List ε → Prop}
    (hshared : ∀ i s p l, G s → P i s p l → G (turn i s p).1)
    (hown : ∀ i s p l, G s → P i s p l → P i (turn i s p).1 (turn i s p).2.1 (l ++ (turn i s p).2.2))
    (hother : ∀ i j s p q l m, i ≠ j → G s → P i s p l → P j s q m → P i (turn j s q).1 p l)
    {s : Desk ι σ φ ε} (hG : G s.shared) (h0 : ∀ i, P i s.shared (s.phase i) (s.told i)) (schedule : List ι) :
    G (run (step turn) s schedule).shared ∧ ∀ i, P i (run (step turn) s schedule).shared
      ((run (step turn) s schedule).phase i) ((run (step turn) s schedule).told i) := by
  refine run_invariant (step turn) (P := fun s => G s.shared ∧ ∀ i, P i s.shared (s.phase i) (s.told i)) ⟨hG, h0⟩
    (fun s j ⟨hG, h⟩ => ⟨hshared j _ _ _ hG (h j), fun i => ?_⟩) schedule
  by_cases hij : i = j
  · subst hij
    show P i _ (Function.update s.phase i _ i) (Function.update s.told i _ i)
    rw [Function.update_self, Function.update_self]
    exact hown i _ _ _ hG (h i)
  · show P i _ (Function.update s.phase j _ i) (Function.update s.told j _ i)
    rw [Function.update_of_ne hij, Function.update_of_ne hij]
    exact hother i j _ _ _ _ _ hij hG (h i) (h j)

/-- The rule for what holds of single requests. -/
theorem run_local {P : ι → σ → φ → List ε → Prop}
    (hown : ∀ i s p l, P i s p l → P i (turn i s p).1 (turn i s p).2.1 (l ++ (turn i s p).2.2))
    (hother : ∀ i j s p q l m, i ≠ j → P i s p l → P j s q m → P i (turn j s q).1 p l)
    {s : Desk ι σ φ ε} (h0 : ∀ i, P i s.shared (s.phase i) (s.told i)) (schedule : List ι) (i : ι) :
    P i (run (step turn) s schedule).shared ((run (step turn) s schedule).phase i)
      ((run (step turn) s schedule).told i) :=
  (run_both turn (G := fun _ => True) (fun _ _ _ _ _ _ => trivial) (fun i s p l _ => hown i s p l)
    (fun i j s p q l m hij _ => hother i j s p q l m hij) trivial h0 schedule).2 i

/-- Turns of one request, with what it has told. -/
def solo (next : σ → φ → σ × φ × List ε) (x : σ × φ × List ε) : σ × φ × List ε :=
  ((next x.1 x.2.1).1, (next x.1 x.2.1).2.1, x.2.2 ++ (next x.1 x.2.1).2.2)

theorem solo_succ {next : σ → φ → σ × φ × List ε} {t t' : σ} {p p' : φ} {told out : List ε}
    (h : next t p = (t', p', out)) (n : ℕ) :
    (solo next)^[n + 1] (t, p, told) = (solo next)^[n] (t', p', told ++ out) := by
  rw [Function.iterate_succ_apply, solo, h]

/-- A request that has nothing left to do. -/
theorem solo_idle {next : σ → φ → σ × φ × List ε} {t : σ} {p : φ} (h : next t p = (t, p, [])) (told : List ε) (n : ℕ) :
    (solo next)^[n] (t, p, told) = (t, p, told) := by
  induction n with
  | zero => rfl
  | succ n ih => rw [solo_succ h, List.append_nil, ih]

/-- A request that runs alone. -/
theorem run_replicate (i : ι) (n : ℕ) (s : Desk ι σ φ ε) :
    run (step turn) s (List.replicate n i) =
      ⟨((solo (turn i))^[n] (s.shared, s.phase i, s.told i)).1,
        Function.update s.phase i ((solo (turn i))^[n] (s.shared, s.phase i, s.told i)).2.1,
        Function.update s.told i ((solo (turn i))^[n] (s.shared, s.phase i, s.told i)).2.2⟩ := by
  induction n generalizing s with
  | zero =>
    show s = _
    rw [Function.iterate_zero, id, Function.update_eq_self, Function.update_eq_self]
  | succ n ih =>
    have hphase : (step turn s i).phase i = (turn i s.shared (s.phase i)).2.1 := Function.update_self ..
    have htold : (step turn s i).told i = s.told i ++ (turn i s.shared (s.phase i)).2.2 := Function.update_self ..
    rw [List.replicate_succ, run_cons, ih, hphase, htold, Function.iterate_succ_apply]
    show Desk.mk _ (Function.update (Function.update s.phase i _) i _)
      (Function.update (Function.update s.told i _) i _) = _
    rw [Function.update_idem, Function.update_idem]
    rfl

/-- Requests that are served one after the other, `n` turns each. -/
theorem run_serial {P : Desk ι σ φ ε → Prop} (n : ℕ)
    (hserve : ∀ s i, P s → P (run (step turn) s (List.replicate n i))) {s : Desk ι σ φ ε} (h0 : P s) (order : List ι) :
    P (run (step turn) s (order.flatMap (List.replicate n))) := by
  induction order generalizing s with
  | nil => exact h0
  | cons i order ih =>
    rw [List.flatMap_cons, run_append]
    exact ih (hserve s i h0)

/-- Alone and in so many turns, a request comes to an end that leaves such a store and has told such things. -/
def Ends (next : σ → φ → σ × φ × List ε) (finished : φ → Prop) (Q : σ → List ε → Prop) (n : ℕ)
    (x : σ × φ × List ε) : Prop :=
  ∃ t p told, (solo next)^[n] x = (t, p, told) ∧ finished p ∧ Q t told

section Ends

variable {next : σ → φ → σ × φ × List ε} {finished : φ → Prop} {Q : σ → List ε → Prop} {t t' : σ} {p p' : φ}
  {told out : List ε} {n : ℕ}

theorem Ends.succ (hnext : next t p = (t', p', out)) (h : Ends next finished Q n (t', p', told ++ out)) :
    Ends next finished Q (n + 1) (t, p, told) := by
  rw [Ends, solo_succ hnext]
  exact h

theorem Ends.idle (hidle : next t p = (t, p, [])) (hp : finished p) (h : Q t told) (n : ℕ) :
    Ends next finished Q n (t, p, told) :=
  ⟨t, p, told, solo_idle hidle told n, hp, h⟩

end Ends

/-- What serving a request keeps of the store and makes true of what is told holds when requests are served one after
the other. -/
theorem run_served {start : φ} {finished : φ → Prop} {n : ℕ} {P : σ → Prop} {R : σ → ε → Prop}
    (hidle : ∀ i t p, finished p → turn i t p = (t, p, []))
    (hends : ∀ i t, P t → Ends (turn i) finished (fun t' told => P t' ∧ ∀ e, R t e ∨ e ∈ told → R t' e) n (t, start, []))
    {t : σ} (h : P t) (order : List ι) :
    let s := run (step turn) ⟨t, fun _ => start, fun _ => []⟩ (order.flatMap (List.replicate n))
    P s.shared ∧ ∀ i, ∀ e ∈ s.told i, R s.shared e := by
  intro s
  -- a request has not begun or is finished
  have hrested : P s.shared ∧ ∀ i, (s.phase i = start ∧ s.told i = [] ∨ finished (s.phase i)) ∧
      ∀ e ∈ s.told i, R s.shared e := by
    refine run_serial turn (P := fun s => P s.shared ∧ ∀ i, (s.phase i = start ∧ s.told i = [] ∨ finished (s.phase i)) ∧
      ∀ e ∈ s.told i, R s.shared e) n ?_ ⟨h, fun _ => ⟨Or.inl ⟨rfl, rfl⟩, List.forall_mem_nil _⟩⟩ order
    rintro s i ⟨hP, hrest⟩
    rw [run_replicate]
    rcases (hrest i).1 with ⟨hstart, htold⟩ | hdone
    · obtain ⟨t', p, told, hend, hfinished, hP', hR⟩ := hends i s.shared hP
      rw [hstart, htold, hend]
      refine ⟨hP', fun j => ?_⟩
      show (Function.update s.phase i p j = start ∧ Function.update s.told i told j = [] ∨
        finished (Function.update s.phase i p j)) ∧ ∀ e ∈ Function.update s.told i told j, R t' e
      by_cases hj : j = i
      · rw [hj, Function.update_self, Function.update_self]
        exact ⟨Or.inr hfinished, fun e he => hR e (Or.inr he)⟩
      · rw [Function.update_of_ne hj, Function.update_of_ne hj]
        exact ⟨(hrest j).1, fun e he => hR e (Or.inl ((hrest j).2 e he))⟩
    · rw [solo_idle (hidle i _ _ hdone), Function.update_eq_self, Function.update_eq_self]
      exact ⟨hP, hrest⟩
  exact ⟨hrested.1, fun i => (hrested.2 i).2⟩

end Desk

end PtaasBench.Lib
