import Mathlib.Data.List.Forall2

/-!
# PtaasBench.Lib.Fallible — what a computation that succeeds has done

One equivalence for each way of putting computations in `Except` together: from the success of the
whole to the success of its steps.
-/

namespace PtaasBench.Lib

open List

variable {ε : Type} {α β σ : Type}

theorem bind_eq_ok {x : Except ε α} {f : α → Except ε β} {b : β} :
    x >>= f = .ok b ↔ ∃ a, x = .ok a ∧ f a = .ok b := by
  cases x with
  | error e =>
    constructor
    · intro h
      cases h
    · rintro ⟨a, h, -⟩
      cases h
  | ok a =>
    constructor
    · intro h
      exact ⟨a, rfl, h⟩
    · rintro ⟨a', h, hf⟩
      obtain rfl := Except.ok.inj h
      exact hf

theorem map_eq_ok {x : Except ε α} {f : α → β} {b : β} :
    x.map f = .ok b ↔ ∃ a, x = .ok a ∧ f a = b := by
  cases x with
  | error e =>
    constructor
    · intro h
      cases h
    · rintro ⟨a, h, -⟩
      cases h
  | ok a =>
    constructor
    · intro h
      exact ⟨a, rfl, Except.ok.inj h⟩
    · rintro ⟨a', h, rfl⟩
      obtain rfl := Except.ok.inj h
      rfl

theorem map_ok_iff {x : Except ε α} {f : α → β} : (∃ b, x.map f = .ok b) ↔ ∃ a, x = .ok a := by
  constructor
  · rintro ⟨b, hb⟩
    obtain ⟨a, ha, -⟩ := map_eq_ok.mp hb
    exact ⟨a, ha⟩
  · rintro ⟨a, rfl⟩
    exact ⟨f a, rfl⟩

theorem mapM_eq_ok {f : α → Except ε β} {xs : List α} {ys : List β} :
    xs.mapM f = .ok ys ↔ List.Forall₂ (fun x y => f x = .ok y) xs ys := by
  induction xs generalizing ys with
  | nil =>
    rw [mapM_nil, forall₂_nil_left_iff]
    exact ⟨fun h => (Except.ok.inj h).symm, fun h => congrArg _ h.symm⟩
  | cons x xs ih =>
    rw [mapM_cons, bind_eq_ok]
    constructor
    · rintro ⟨y, hy, hrest⟩
      obtain ⟨ys', hys, heq⟩ := bind_eq_ok.mp hrest
      obtain rfl := Except.ok.inj heq
      exact .cons hy (ih.mp hys)
    · intro h
      cases h with
      | cons hy hys => exact ⟨_, hy, bind_eq_ok.mpr ⟨_, ih.mpr hys, rfl⟩⟩

theorem exists_mapM_eq_ok {f : α → Except ε β} {good : β → Prop} {xs : List α}
    (h : ∀ x ∈ xs, ∃ y, f x = .ok y ∧ good y) : ∃ ys, xs.mapM f = .ok ys ∧ ∀ y ∈ ys, good y := by
  have hall : ∃ ys, List.Forall₂ (fun x y => f x = .ok y) xs ys ∧ ∀ y ∈ ys, good y := by
    induction xs with
    | nil => exact ⟨[], .nil, forall_mem_nil good⟩
    | cons x xs ih =>
      obtain ⟨hx, hxs⟩ := forall_mem_cons.mp h
      obtain ⟨y, hy, hgood⟩ := hx
      obtain ⟨ys, hys, hall⟩ := ih hxs
      exact ⟨y :: ys, .cons hy hys, forall_mem_cons.mpr ⟨hgood, hall⟩⟩
  obtain ⟨ys, hys, hgood⟩ := hall
  exact ⟨ys, mapM_eq_ok.mpr hys, hgood⟩

theorem mapM_ok_iff {f : α → Except ε β} {good : α → Prop} (h : ∀ a, (∃ b, f a = .ok b) ↔ good a) (xs : List α) :
    (∃ ys, xs.mapM f = .ok ys) ↔ ∀ x ∈ xs, good x := by
  induction xs with
  | nil => exact ⟨fun _ => forall_mem_nil good, fun _ => ⟨[], mapM_nil⟩⟩
  | cons x xs ih =>
    rw [mapM_cons, forall_mem_cons]
    constructor
    · rintro ⟨ys, hys⟩
      obtain ⟨y, hy, hrest⟩ := bind_eq_ok.mp hys
      obtain ⟨ys', hys', -⟩ := bind_eq_ok.mp hrest
      exact ⟨(h x).mp ⟨y, hy⟩, ih.mp ⟨ys', hys'⟩⟩
    · rintro ⟨hx, hxs⟩
      obtain ⟨y, hy⟩ := (h x).mpr hx
      obtain ⟨ys, hys⟩ := ih.mpr hxs
      exact ⟨y :: ys, bind_eq_ok.mpr ⟨y, hy, bind_eq_ok.mpr ⟨ys, hys, rfl⟩⟩⟩

/-! ## Exactly when a computation returns -/

/-- The computation returns exactly when `safe` holds, and `post` holds of what it returns. -/
structure Returns (x : Except ε α) (safe : Prop) (post : α → Prop) : Prop where
  of_safe : safe → ∃ a, x = .ok a ∧ post a
  safe_of_eq : ∀ {a}, x = .ok a → safe

namespace Returns

variable {x : Except ε α} {safe safe' : Prop} {post : α → Prop}

theorem post_of_eq (h : Returns x safe post) {a : α} (hx : x = .ok a) : post a := by
  obtain ⟨a', ha', hpost⟩ := h.of_safe (h.safe_of_eq hx)
  obtain rfl := Except.ok.inj (ha'.symm.trans hx)
  exact hpost

theorem ok_iff (h : Returns x safe post) : (∃ a, x = .ok a) ↔ safe :=
  ⟨fun ⟨_, hx⟩ => h.safe_of_eq hx, fun hs => (h.of_safe hs).imp fun _ => And.left⟩

theorem weaken {post' : α → Prop} (h : Returns x safe post) (hsafe : safe ↔ safe') (hpost : ∀ a, post a → post' a) :
    Returns x safe' post' where
  of_safe hs := by
    obtain ⟨a, hx, ha⟩ := h.of_safe (hsafe.mpr hs)
    exact ⟨a, hx, hpost a ha⟩
  safe_of_eq hx := hsafe.mp (h.safe_of_eq hx)

theorem of_ok {a : α} (hs : safe) (h : post a) : Returns (.ok a : Except ε α) safe post :=
  ⟨fun _ => ⟨a, rfl, h⟩, fun _ => hs⟩

theorem of_error {e : ε} (hs : ¬ safe) : Returns (.error e : Except ε α) safe post :=
  ⟨fun h => absurd h hs, fun h => nomatch h⟩

theorem of_self (h : (∃ a, x = .ok a) ↔ safe) : Returns x safe fun a => x = .ok a where
  of_safe hs := by
    obtain ⟨a, ha⟩ := h.mpr hs
    exact ⟨a, ha, ha⟩
  safe_of_eq ha := h.mp ⟨_, ha⟩

theorem map {f : α → β} {post' : β → Prop} (hx : Returns x safe post) (hf : ∀ a, post a → post' (f a)) :
    Returns (x.map f) safe post' where
  of_safe hs := by
    obtain ⟨a, rfl, ha⟩ := hx.of_safe hs
    exact ⟨f a, rfl, hf a ha⟩
  safe_of_eq h := by
    obtain ⟨a, ha, -⟩ := map_eq_ok.mp h
    exact hx.safe_of_eq ha

theorem bind {f : α → Except ε β} {safe' : Prop} {post' : β → Prop} (hx : Returns x safe post)
    (hf : ∀ a, x = .ok a → post a → Returns (f a) safe' post') : Returns (x >>= f) (safe ∧ safe') post' where
  of_safe := by
    rintro ⟨hs, hs'⟩
    obtain ⟨a, rfl, ha⟩ := hx.of_safe hs
    exact (hf a rfl ha).of_safe hs'
  safe_of_eq h := by
    obtain ⟨a, rfl, hfa⟩ := bind_eq_ok.mp h
    exact ⟨hx.safe_of_eq rfl, (hf a rfl (hx.post_of_eq rfl)).safe_of_eq hfa⟩

/-- `bind` with the condition of the second step named. -/
theorem bind_with {f : α → Except ε β} (safe' : Prop) {post' : β → Prop} (hx : Returns x safe post)
    (hf : ∀ a, x = .ok a → post a → Returns (f a) safe' post') : Returns (x >>= f) (safe ∧ safe') post' := hx.bind hf

theorem bind_ok {f : α → β} {post' : β → Prop} (hx : Returns x safe post) (hf : ∀ a, x = .ok a → post a → post' (f a)) :
    Returns (x >>= fun a => .ok (f a)) safe post' :=
  (hx.bind_with True fun a ha hpost => of_ok trivial (hf a ha hpost)).weaken (iff_of_eq (and_true safe)) fun _ => id

theorem of_mapM {f : α → Except ε β} {g : α → β} {good : α → Prop}
    (h : ∀ a, Returns (f a) (good a) fun b => b = g a) (xs : List α) :
    Returns (xs.mapM f) (∀ x ∈ xs, good x) fun ys => ys = xs.map g := by
  induction xs with
  | nil =>
    rw [mapM_nil]
    exact of_ok (forall_mem_nil good) rfl
  | cons x xs ih =>
    rw [mapM_cons]
    refine ((h x).bind fun y _ hy => ih.bind_ok fun ys _ hys => ?_).weaken forall_mem_cons.symm fun _ => id
    rw [hy, hys, map_cons]

/-- A loop that adds up what its turns give returns when every turn does. -/
theorem of_foldlM {step : σ → α → Except ε σ} (good : α → Prop) (next : σ → α → σ → Prop) (inv : List α → σ → Prop)
    (hstep : ∀ s a, Returns (step s a) (good a) (next s a))
    (hinv : ∀ done s a s', inv done s → next s a s' → inv (done ++ [a]) s')
    {s : σ} (xs done : List α) (hs : inv done s) :
    Returns (xs.foldlM step s) (∀ a ∈ xs, good a) (inv (done ++ xs)) := by
  induction xs generalizing s done with
  | nil =>
    rw [append_nil]
    exact of_ok (forall_mem_nil good) hs
  | cons a xs ih =>
    rw [foldlM_cons]
    refine ((hstep s a).bind fun s' _ hnext => ih (done ++ [a]) (hinv done s a s' hs hnext)).weaken
      forall_mem_cons.symm fun r hr => ?_
    rwa [append_assoc, singleton_append] at hr

end Returns

end PtaasBench.Lib
