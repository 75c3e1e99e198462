import Mathlib.Logic.Basic

/-!
# PtaasBench.Lib.Effects — what a program keeps of its state

A program changes a state and returns or raises; what is done before it raises is done.  A property
of the state is kept by a program that is put together from programs that keep it.
-/

namespace PtaasBench.Lib

/-- A program over a state that may raise. -/
abbrev Program (σ ε α : Type) := ExceptT ε (StateM σ) α

namespace Program

variable {σ ε α β : Type}

/-- The state a program leaves. -/
def after (m : Program σ ε α) (s : σ) : σ := (m.run.run s).2

/-- The property survives the program, whether it returns or raises. -/
def Keeps (P : σ → Prop) (m : Program σ ε α) : Prop := ∀ s, P s → P (m.after s)

variable {P : σ → Prop}

theorem Keeps.pure (a : α) : Keeps P (Pure.pure a : Program σ ε α) := fun _ h => h

theorem Keeps.throw (e : ε) : Keeps P (MonadExcept.throw e : Program σ ε α) := fun _ h => h

theorem after_bind (m : Program σ ε α) (f : α → Program σ ε β) (s : σ) :
    (m >>= f).after s =
      match (m.run.run s).1 with
      | .ok a => (f a).after (m.after s)
      | .error _ => m.after s := by
  show (((ExceptT.bind m f : Program σ ε β) : StateM σ (Except ε β)) s).2 = _
  rw [ExceptT.bind]
  show ((ExceptT.bindCont f (m.run.run s).1) (m.run.run s).2).2 = _
  cases (m.run.run s).1 with
  | ok a => rfl
  | error e => rfl

theorem Keeps.bind {m : Program σ ε α} {f : α → Program σ ε β} (hm : Keeps P m) (hf : ∀ a, Keeps P (f a)) :
    Keeps P (m >>= f) := by
  intro s hs
  rw [after_bind]
  cases (m.run.run s).1 with
  | ok a => exact hf a _ (hm s hs)
  | error e => exact hm s hs

theorem Keeps.map {m : Program σ ε α} (hm : Keeps P m) (f : α → β) : Keeps P (f <$> m) :=
  hm.bind fun a => Keeps.pure (f a)

theorem Keeps.ite {c : Prop} [Decidable c] {m m' : Program σ ε α} (hm : c → Keeps P m) (hm' : ¬ c → Keeps P m') :
    Keeps P (if c then m else m') := by
  by_cases hc : c
  · rw [if_pos hc]
    exact hm hc
  · rw [if_neg hc]
    exact hm' hc

/-- What the program returns or raises. -/
def result (m : Program σ ε α) (s : σ) : Except ε α := (m.run.run s).1

theorem result_bind (m : Program σ ε α) (f : α → Program σ ε β) (s : σ) :
    (m >>= f).result s =
      match m.result s with
      | .ok a => (f a).result (m.after s)
      | .error e => .error e := by
  show (((ExceptT.bind m f : Program σ ε β) : StateM σ (Except ε β)) s).1 = _
  rw [ExceptT.bind]
  show ((ExceptT.bindCont f (m.run.run s).1) (m.run.run s).2).1 = _
  rw [result]
  cases (m.run.run s).1 with
  | ok a => rfl
  | error e => rfl

theorem result_bind_ok {m : Program σ ε α} {f : α → Program σ ε β} {s : σ} {a : α} (h : m.result s = .ok a) :
    (m >>= f).result s = (f a).result (m.after s) := by
  rw [result_bind, h]

theorem result_bind_error {m : Program σ ε α} {f : α → Program σ ε β} {s : σ} {e : ε} (h : m.result s = .error e) :
    (m >>= f).result s = .error e := by
  rw [result_bind, h]

theorem result_bind_eq_ok {m : Program σ ε α} {f : α → Program σ ε β} {s : σ} {b : β}
    (h : (m >>= f).result s = .ok b) : ∃ a, m.result s = .ok a ∧ (f a).result (m.after s) = .ok b := by
  cases hresult : m.result s with
  | error e =>
    rw [result_bind_error hresult] at h
    cases h
  | ok a =>
    rw [result_bind_ok hresult] at h
    exact ⟨a, rfl, h⟩

theorem after_bind_ok {m : Program σ ε α} {f : α → Program σ ε β} {s : σ} {a : α} (h : m.result s = .ok a) :
    (m >>= f).after s = (f a).after (m.after s) := by
  rw [after_bind]
  rw [result] at h
  rw [h]

/-- Whatever the program returns has the property. -/
def Returns (R : α → Prop) (m : Program σ ε α) : Prop := ∀ s a, m.result s = .ok a → R a

theorem Returns.pure {R : α → Prop} {a : α} (h : R a) : Returns R (Pure.pure a : Program σ ε α) := by
  intro s a' ha
  rwa [← Except.ok.inj ha]

theorem Returns.throw {R : α → Prop} (e : ε) : Returns R (MonadExcept.throw e : Program σ ε α) := by
  intro s a h
  cases h

theorem Returns.bind {R : α → Prop} {R' : β → Prop} {m : Program σ ε α} {f : α → Program σ ε β} (hm : Returns R m)
    (hf : ∀ a, R a → Returns R' (f a)) : Returns R' (m >>= f) := by
  intro s b h
  obtain ⟨a, ha, hb⟩ := result_bind_eq_ok h
  exact hf a (hm s a ha) _ b hb

theorem Returns.any (m : Program σ ε α) : Returns (fun _ => True) m := fun _ _ _ => trivial

theorem Returns.ite {R : α → Prop} {c : Prop} [Decidable c] {m m' : Program σ ε α} (hm : Returns R m)
    (hm' : Returns R m') : Returns R (if c then m else m') := by
  by_cases hc : c
  · rwa [if_pos hc]
  · rwa [if_neg hc]

/-- Whatever the program raises has the property. -/
def Raises (Q : ε → Prop) (m : Program σ ε α) : Prop := ∀ s e, m.result s = .error e → Q e

variable {Q : ε → Prop}

theorem Raises.pure (a : α) : Raises Q (Pure.pure a : Program σ ε α) := by
  intro s e h
  cases h

theorem Raises.throw {e : ε} (h : Q e) : Raises Q (MonadExcept.throw e : Program σ ε α) := by
  intro s e' he
  rwa [← Except.error.inj he]

theorem Raises.bind {m : Program σ ε α} {f : α → Program σ ε β} (hm : Raises Q m) (hf : ∀ a, Raises Q (f a)) :
    Raises Q (m >>= f) := by
  intro s e h
  cases hresult : m.result s with
  | error e' =>
    rw [result_bind_error hresult] at h
    exact Except.error.inj h ▸ hm s e' hresult
  | ok a =>
    rw [result_bind_ok hresult] at h
    exact hf a _ e h

theorem Raises.ite {c : Prop} [Decidable c] {m m' : Program σ ε α} (hm : Raises Q m) (hm' : Raises Q m') :
    Raises Q (if c then m else m') := by
  by_cases hc : c
  · rwa [if_pos hc]
  · rwa [if_neg hc]

/-- A step that returns. -/
def step (f : σ → α × σ) : Program σ ε α := ExceptT.mk fun s => (.ok (f s).1, (f s).2)

theorem Raises.step (f : σ → α × σ) : Raises Q (step f : Program σ ε α) := by
  intro s e h
  cases h

theorem Keeps.step {f : σ → α × σ} (h : ∀ s, P s → P (f s).2) : Keeps P (step f : Program σ ε α) := h

end Program

end PtaasBench.Lib
