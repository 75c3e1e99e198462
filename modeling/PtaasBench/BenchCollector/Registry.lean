import PtaasBench.BenchCollector.Correlations
import PtaasBench.Lib.Machine
import PtaasBench.Lib.Window

/-!
# PtaasBench.BenchCollector.Registry — the books of the correlation registry

The registry is a machine whose operations carry the clock value they read.  `HintBooks` adds what the
registry does not keep: every hint it was ever given, and where those it no longer holds went.
-/

namespace PtaasBench.BenchCollector

open Py List

namespace CorrelationRegistry

def held (reg : CorrelationRegistry) : List Hint := reg.entries.items.map Prod.snd

/-- The hints `_evict` drops. -/
def expiredBy (reg : CorrelationRegistry) (now : ℚ) : List Hint :=
  reg.held.filter (·.expiresAt ≤ now)

/-- The key `register` stores a record under. -/
def registrationId (newId : String) (record : Obj) : IdKey :=
  idKey (if (record.get "correlation_id").truthy then record.get "correlation_id" else .str newId)

theorem idKey_stamped (reg : CorrelationRegistry) (clock : ℚ → FloatLit) (now : ℚ) (newId : String)
    (record : Obj) (ttl : Option ℚ) :
    idKey ((reg.stamped clock now newId record ttl).record.get "correlation_id") =
      registrationId newId record := by
  unfold stamped registrationId
  dsimp only
  rw [Obj.get_set_of_ne _ _ (by decide), Obj.get_set_of_ne _ _ (by decide)]
  split_ifs
  · rfl
  · rw [Obj.get_set_self]

theorem held_evict (reg : CorrelationRegistry) (now : ℚ) :
    (reg.evict now).held = reg.held.filter (now < ·.expiresAt) := by
  rw [held, held, filter_map]
  rfl

theorem perm_evict (reg : CorrelationRegistry) (now : ℚ) :
    ((reg.evict now).held ++ reg.expiredBy now).Perm reg.held := by
  have hsplit : reg.expiredBy now = reg.held.filter fun h => !decide (now < h.expiresAt) := by
    refine filter_congr fun h _ => ?_
    rw [← decide_not, decide_eq_decide]
    exact not_lt.symm
  rw [held_evict, hsplit]
  exact filter_append_perm _ _

theorem expired_evict (reg : CorrelationRegistry) (now : ℚ) :
    (reg.evict now).expired = reg.expired + (reg.expiredBy now).length := by
  rw [expiredBy, held, filter_map, length_map, ← countP_eq_length_filter]
  rfl

end CorrelationRegistry

/-! ## The machine -/

inductive RegistryOp where
  | register (newId : String) (record : Obj) (ttl : Option ℚ)
  | pending (destinationHost : Option String) (registeredAfter : Option ℚ)
  /-- A turn of the loop of `wait_for`. -/
  | waitTurn (destinationHost : Option String) (registeredAfter : Option ℚ) (remaining : ℚ)
  | get (correlationId : String)
  /-- `stats` -/
  | expire
  | discard (correlationId : String)

/-- An operation and the clock when it runs. -/
structure Timed where
  now : ℚ
  op : RegistryOp

section Machine

variable [Runtime] (clock : ℚ → FloatLit)

def registryStep (reg : CorrelationRegistry) (t : Timed) : CorrelationRegistry :=
  match t.op with
  | .register newId record ttl => (reg.register clock t.now newId record ttl).1
  | .pending host after => (reg.pending t.now host after).1
  | .waitTurn host after remaining => (reg.waitTurn t.now host after remaining).1
  | .get id => (reg.get t.now id).1
  | .expire => reg.evict t.now
  | .discard id => (reg.discard id).1

/-- A registry, all the hints it was given, and where they went. -/
structure HintBooks where
  reg : CorrelationRegistry
  issued : List Hint := []
  expired : List Hint := []
  overflows : List (Hint × List Hint) := []  -- each with the hints kept at that moment
  discarded : List Hint := []

/-- What an operation takes from the registry and what it puts there. -/
def HintBooks.step (s : HintBooks) (t : Timed) : HintBooks :=
  let next := { s with reg := registryStep clock s.reg t }
  match t.op with
  | .register newId record ttl =>
    let hint := s.reg.stamped clock t.now newId record ttl
    { next with
      issued := s.issued ++ [hint]
      expired := s.expired ++ s.reg.expiredBy t.now
      overflows := s.overflows ++ Lib.trims s.reg.maxEntries
        (((s.reg.evict t.now).entries.set (CorrelationRegistry.registrationId newId record) hint).items.map
          Prod.snd) }
  | .discard id => { next with discarded := s.discarded ++ (s.reg.discard id).2.toList }
  | _ => { next with expired := s.expired ++ s.reg.expiredBy t.now }

/-- An empty registry. -/
def openedHints (ttl : ℚ) (maxEntries : ℕ) : HintBooks where
  reg := { ttl := ttl, maxEntries := maxEntries }

abbrev HintBooks.run (s : HintBooks) (ops : List Timed) : HintBooks := Lib.run (HintBooks.step clock) s ops

omit [Runtime] in
/-- Does a registration bring an id that no live hint has? -/
def Fresh (reg : CorrelationRegistry) (t : Timed) : Prop :=
  match t.op with
  | .register newId record _ =>
    CorrelationRegistry.registrationId newId record ∉ (reg.evict t.now).entries.keys
  | _ => True

instance (reg : CorrelationRegistry) (t : Timed) : Decidable (Fresh reg t) :=
  match t with
  | ⟨now, .register newId record _⟩ =>
    inferInstanceAs (Decidable
      (CorrelationRegistry.registrationId newId record ∉ (reg.evict now).entries.keys))
  | ⟨_, .pending _ _⟩ | ⟨_, .waitTurn _ _ _⟩ | ⟨_, .get _⟩ | ⟨_, .expire⟩ | ⟨_, .discard _⟩ =>
    isTrue trivial

/-- No registration of a run takes the id of a live hint. -/
def FreshIds (reg : CorrelationRegistry) (ops : List Timed) : Prop :=
  Lib.Along (registryStep clock) Fresh reg ops

/-- What the books say at a time: nothing is held beyond the bound, `pending` returns the hints that
have neither expired nor been taken away, oldest first, the oldest overflow, and the counters add
up. -/
structure HintsBalanced (now : ℚ) (s : HintBooks) : Prop where
  bound : s.reg.held.length ≤ s.reg.maxEntries
  exactly : ((s.reg.pending now none none).2 ++
      (s.overflows.map Prod.fst ++ s.discarded).filter (now < ·.expiresAt)).Perm
    (s.issued.filter (now < ·.expiresAt))
  ordered : (s.reg.pending now none none).2.Pairwise (·.registeredAt ≤ ·.registeredAt)
  oldest : ∀ o ∈ s.overflows, ∀ kept ∈ o.2, o.1.registeredAt ≤ kept.registeredAt
  counters : s.reg.registered =
    s.reg.held.length + s.reg.expired + s.reg.overflowed + s.discarded.length

/-! ## The invariant -/

omit [Runtime] in
/-- Every hint is where the books say, and the hints held are in the order of their times. -/
structure InOrder (now : ℚ) (s : HintBooks) : Prop where
  bound : s.reg.held.length ≤ s.reg.maxEntries
  split : (s.reg.held ++ (s.expired ++ (s.overflows.map Prod.fst ++ s.discarded))).Perm s.issued
  sorted : s.reg.held.Pairwise (·.registeredAt ≤ ·.registeredAt)
  past : ∀ h ∈ s.reg.held, h.registeredAt ≤ now
  gone : ∀ h ∈ s.expired, h.expiresAt ≤ now
  oldest : ∀ o ∈ s.overflows, ∀ kept ∈ o.2, o.1.registeredAt ≤ kept.registeredAt
  registered : s.reg.registered = s.issued.length
  expired : s.reg.expired = s.expired.length
  overflowed : s.reg.overflowed = s.overflows.length

variable {clock} {now : ℚ} {s : HintBooks}

omit [Runtime] in
theorem InOrder.later {now' : ℚ} (h : InOrder now s) (hle : now ≤ now') : InOrder now' s :=
  { h with
    past := fun e he => (h.past e he).trans hle
    gone := fun e he => (h.gone e he).trans hle }

omit [Runtime] in
theorem inOrder_opened (ttl : ℚ) (maxEntries : ℕ) (now : ℚ) :
    InOrder now (openedHints ttl maxEntries) where
  bound := Nat.zero_le _
  split := List.Perm.refl _
  sorted := List.Pairwise.nil
  past := by simp [openedHints, CorrelationRegistry.held, Dict.empty]
  gone := by simp [openedHints]
  oldest := by simp [openedHints]
  registered := rfl
  expired := rfl
  overflowed := rfl

omit [Runtime] in
/-- Eviction moves the hints that have expired to their place in the books. -/
theorem InOrder.evict (h : InOrder now s) :
    InOrder now { s with reg := s.reg.evict now, expired := s.expired ++ s.reg.expiredBy now } := by
  have hsub : ((s.reg.evict now).held).Sublist s.reg.held := by
    rw [CorrelationRegistry.held_evict]
    exact filter_sublist
  obtain ⟨bound, split, sorted, past, gone, oldest, registered, expired, overflowed⟩ := h
  refine ⟨hsub.length_le.trans bound, ?_, sorted.sublist hsub,
    fun e he => past e (hsub.mem he), ?_, oldest, registered, ?_, overflowed⟩
  · dsimp only
    refine List.Perm.trans ?_ (((s.reg.perm_evict now).append_right _).trans split)
    rw [append_assoc s.expired, append_assoc (s.reg.evict now).held]
    exact (perm_append_comm_assoc _ _ _).append_left _
  · intro e he
    rcases mem_append.mp he with he | he
    · exact gone e he
    · rw [CorrelationRegistry.expiredBy, mem_filter] at he
      exact of_decide_eq_true he.2
  · rw [CorrelationRegistry.expired_evict, length_append, expired]

omit [Runtime] in
theorem InOrder.discard (h : InOrder now s) (id : String) :
    InOrder now { s with
      reg := (s.reg.discard id).1
      discarded := s.discarded ++ (s.reg.discard id).2.toList } := by
  have hperm := s.reg.entries.perm_pop (.text id)
  have hsub : ((s.reg.discard id).1.held).Sublist s.reg.held := filter_sublist.map _
  obtain ⟨bound, split, sorted, past, gone, oldest, registered, expired, overflowed⟩ := h
  refine ⟨hsub.length_le.trans bound, ?_, sorted.sublist hsub, fun e he => past e (hsub.mem he),
    gone, oldest, registered, expired, overflowed⟩
  dsimp only
  refine List.Perm.trans ?_ ((hperm.append_right _).trans split)
  rw [← append_assoc _ s.discarded, ← append_assoc s.expired, ← append_assoc]
  refine perm_append_comm.trans ?_
  rw [← append_assoc]
  exact List.Perm.refl _

omit [Runtime] in
/-- A hint of the present goes behind those that are held. -/
theorem InOrder.concat (h : InOrder now s) {hint : Hint} (hstamp : hint.registeredAt = now) :
    (s.reg.held ++ [hint]).Pairwise (·.registeredAt ≤ ·.registeredAt) ∧
      ∀ e ∈ s.reg.held ++ [hint], e.registeredAt ≤ now := by
  constructor
  · rw [pairwise_append]
    refine ⟨h.sorted, pairwise_singleton _ _, fun e he e' he' => ?_⟩
    rw [mem_singleton.mp he', hstamp]
    exact h.past e he
  · intro e he
    rcases mem_append.mp he with he | he
    · exact h.past e he
    · rw [mem_singleton.mp he, hstamp]

omit [Runtime] in
variable (clock) in
/-- What is held once a hint is stored: the back of what was there with the hint. -/
theorem held_register (reg : CorrelationRegistry) (t : ℚ) (newId : String) (record : Obj)
    (ttl : Option ℚ) {all : List Hint}
    (hset : ((reg.evict t).entries.set (CorrelationRegistry.registrationId newId record)
      (reg.stamped clock t newId record ttl)).items.map Prod.snd = all) :
    (reg.register clock t newId record ttl).1.held = all.drop (all.length - reg.maxEntries) ∧
      (reg.register clock t newId record ttl).1.overflowed =
        reg.overflowed + (all.length - reg.maxEntries) := by
  subst hset
  rw [← CorrelationRegistry.idKey_stamped reg clock t newId record ttl, length_map]
  exact ⟨map_drop, rfl⟩

/-- A hint under a new id goes to the back; the front makes room. -/
theorem InOrder.register (h : InOrder now s) {newId : String} {record : Obj} {ttl : Option ℚ}
    (hfresh : CorrelationRegistry.registrationId newId record ∉ (s.reg.evict now).entries.keys) :
    InOrder now (HintBooks.step clock s ⟨now, .register newId record ttl⟩) := by
  have hset : ((s.reg.evict now).entries.set (CorrelationRegistry.registrationId newId record)
      (s.reg.stamped clock now newId record ttl)).items.map Prod.snd =
        (s.reg.evict now).held ++ [s.reg.stamped clock now newId record ttl] := by
    rw [Dict.items_set_of_notMem hfresh, map_append]
    rfl
  obtain ⟨hheld, hover⟩ := held_register clock s.reg now newId record ttl hset
  have hstep : HintBooks.step clock s ⟨now, .register newId record ttl⟩ =
      { reg := (s.reg.register clock now newId record ttl).1
        issued := s.issued ++ [s.reg.stamped clock now newId record ttl]
        expired := s.expired ++ s.reg.expiredBy now
        overflows := s.overflows ++ Lib.trims s.reg.maxEntries
          ((s.reg.evict now).held ++ [s.reg.stamped clock now newId record ttl])
        discarded := s.discarded } := by
    rw [← hset]
    rfl
  have hstamp : (s.reg.stamped clock now newId record ttl).registeredAt = now := rfl
  rw [hstep]
  obtain ⟨-, split, -, -, gone, oldest, registered, expired, overflowed⟩ := h.evict
  generalize s.reg.stamped clock now newId record ttl = hint at hheld hover hstamp ⊢
  obtain ⟨hsorted, hpast⟩ := h.evict.concat hstamp
  refine ⟨?_, ?_, ?_, ?_, gone, ?_, ?_, expired, ?_⟩
  · dsimp only
    rw [hheld, length_drop]
    show _ ≤ s.reg.maxEntries
    omega
  · -- the front that makes room is what the books note as overflowed
    dsimp only
    have hall : (Lib.trims s.reg.maxEntries ((s.reg.evict now).held ++ [hint])).map Prod.fst ++
        (s.reg.register clock now newId record ttl).1.held = (s.reg.evict now).held ++ [hint] := by
      rw [hheld, Lib.map_fst_trims, take_append_drop]
    refine List.Perm.trans ?_ (Lib.perm_enter hall split)
    rw [map_append, append_assoc (s.overflows.map Prod.fst)]
    exact ((perm_append_comm_assoc _ _ _).append_left _).append_left _
  · dsimp only
    rw [hheld]
    exact hsorted.sublist (drop_sublist _ _)
  · dsimp only
    rw [hheld]
    exact fun e he => hpast e (mem_of_mem_drop he)
  · intro o ho
    rcases mem_append.mp ho with ho | ho
    · exact oldest o ho
    · exact Lib.le_of_mem_trims hsorted ho
  · rw [length_append, length_singleton, ← registered]
    rfl
  · have hbefore : s.reg.overflowed = s.overflows.length := overflowed
    simp only [hover, hbefore, length_append, Lib.length_trims]

omit [Runtime] in
theorem mem_held_evict {reg : CorrelationRegistry} {now : ℚ} {h : Hint}
    (hh : h ∈ (reg.evict now).held) : h ∈ reg.held := by
  rw [CorrelationRegistry.held_evict] at hh
  exact mem_of_mem_filter hh

variable (clock) in
/-- Only a registration adds to what is held. -/
theorem held_step_subset (reg : CorrelationRegistry) (now : ℚ) {op : RegistryOp}
    (hop : ∀ newId record ttl, op ≠ .register newId record ttl) :
    (registryStep clock reg ⟨now, op⟩).held ⊆ reg.held := by
  intro h hh
  cases op with
  | register newId record ttl => exact absurd rfl (hop newId record ttl)
  | pending host after => exact mem_held_evict hh
  | waitTurn host after remaining => exact mem_held_evict hh
  | get id => exact mem_held_evict hh
  | expire => exact mem_held_evict hh
  | discard id =>
    have hsub : ((reg.discard id).1.held).Sublist reg.held := filter_sublist.map _
    exact hsub.mem hh

variable (clock) in
/-- The registry after an operation holds what it held before, or what is registered now. -/
theorem mem_held_step {reg : CorrelationRegistry} {t : Timed} {h : Hint}
    (hh : h ∈ (registryStep clock reg t).held) : h ∈ reg.held ∨ h.registeredAt = t.now := by
  obtain ⟨now, op⟩ := t
  cases op with
  | register newId record ttl =>
    obtain ⟨hheld, -⟩ := held_register clock reg now newId record ttl rfl
    have hh : h ∈ (reg.register clock now newId record ttl).1.held := hh
    rw [hheld] at hh
    rcases Dict.mem_values_set (mem_of_mem_drop hh) with hh | rfl
    · exact Or.inl (mem_held_evict hh)
    · exact Or.inr rfl
  | pending | waitTurn | get | expire | discard =>
    exact Or.inl (held_step_subset clock reg now (by rintro _ _ _ ⟨⟩) hh)

/-- Every operation keeps the books in order, unless a registration takes the id of a live hint. -/
theorem InOrder.step {t : Timed} (h : InOrder t.now s) (hfresh : Fresh s.reg t) :
    InOrder t.now (HintBooks.step clock s t) := by
  obtain ⟨time, op⟩ := t
  cases op with
  | register newId record ttl => exact h.register hfresh
  | pending host after => exact h.evict
  | waitTurn host after remaining => exact h.evict
  | get id => exact h.evict
  | expire => exact h.evict
  | discard id => exact h.discard id

theorem reg_step (s : HintBooks) (t : Timed) :
    (HintBooks.step clock s t).reg = registryStep clock s.reg t := by
  obtain ⟨time, op⟩ := t
  cases op <;> rfl

theorem InOrder.balanced (h : InOrder now s) : HintsBalanced now s := by
  have hpending : (s.reg.pending now none none).2 = s.reg.held.filter (now < ·.expiresAt) :=
    s.reg.held_evict now
  have hgone : s.expired.filter (now < ·.expiresAt) = [] := by
    refine filter_eq_nil_iff.mpr fun e he => ?_
    rw [decide_eq_true_eq, not_lt]
    exact h.gone e he
  have hlength := h.split.length_eq
  refine ⟨h.bound, ?_, ?_, h.oldest, ?_⟩
  · have hsplit := h.split.filter (now < ·.expiresAt)
    rw [filter_append, filter_append, hgone, nil_append] at hsplit
    rw [hpending]
    exact hsplit
  · rw [hpending]
    exact h.sorted.sublist filter_sublist
  · rw [length_append, length_append, length_append, length_map] at hlength
    rw [h.registered, h.expired, h.overflowed, ← hlength]
    omega

/-! ## Registrations the counters cannot place -/

variable (clock)

/-- Registrations counted and not placed: a hint whose id comes again is overwritten. -/
def HintBooks.slack (s : HintBooks) : ℤ :=
  s.reg.registered - (s.reg.held.length + s.reg.expired + s.reg.overflowed + s.discarded.length)

omit [Runtime] in
theorem slack_evict (s : HintBooks) (t : ℚ) :
    HintBooks.slack { s with reg := s.reg.evict t, expired := s.expired ++ s.reg.expiredBy t } = s.slack := by
  have hlength := (s.reg.perm_evict t).length_eq
  have hexpired := s.reg.expired_evict t
  have hoverflowed : (s.reg.evict t).overflowed = s.reg.overflowed := rfl
  have hregistered : (s.reg.evict t).registered = s.reg.registered := rfl
  rw [length_append] at hlength
  simp only [HintBooks.slack]
  omega

omit [Runtime] in
theorem slack_discard (s : HintBooks) (id : String) :
    HintBooks.slack { s with
      reg := (s.reg.discard id).1
      discarded := s.discarded ++ (s.reg.discard id).2.toList } = s.slack := by
  have hlength := (s.reg.entries.perm_pop (.text id)).length_eq
  have hheld : (s.reg.discard id).1.held = (s.reg.entries.pop (.text id)).items.map Prod.snd := rfl
  have hfound : (s.reg.discard id).2 = s.reg.entries.get? (.text id) := rfl
  have hbefore : s.reg.held = s.reg.entries.items.map Prod.snd := rfl
  have hexpired : (s.reg.discard id).1.expired = s.reg.expired := rfl
  have hoverflowed : (s.reg.discard id).1.overflowed = s.reg.overflowed := rfl
  have hregistered : (s.reg.discard id).1.registered = s.reg.registered := rfl
  rw [length_append] at hlength
  simp only [HintBooks.slack, hheld, hfound, hbefore, hexpired, hoverflowed, hregistered,
    length_append]
  omega

theorem slack_register (s : HintBooks) (t : ℚ) (newId : String) (record : Obj) (ttl : Option ℚ) :
    (HintBooks.step clock s ⟨t, .register newId record ttl⟩).slack =
      s.slack + if Fresh s.reg ⟨t, .register newId record ttl⟩ then 0 else 1 := by
  obtain ⟨hheld, hover⟩ := held_register clock s.reg t newId record ttl rfl
  have hstored : (((s.reg.evict t).entries.set (CorrelationRegistry.registrationId newId record)
      (s.reg.stamped clock t newId record ttl)).items.map Prod.snd).length =
        (s.reg.evict t).held.length + if Fresh s.reg ⟨t, .register newId record ttl⟩ then 1 else 0 := by
    by_cases hfresh : Fresh s.reg ⟨t, .register newId record ttl⟩
    · rw [if_pos hfresh, Dict.items_set_of_notMem hfresh, map_append, length_append]
      rfl
    · rw [if_neg hfresh, Dict.set, dif_pos (not_not.mp hfresh), map_map, length_map,
        CorrelationRegistry.held, length_map, Nat.add_zero]
  have hreg : (HintBooks.step clock s ⟨t, .register newId record ttl⟩).reg =
      (s.reg.register clock t newId record ttl).1 := rfl
  have hdiscarded : (HintBooks.step clock s ⟨t, .register newId record ttl⟩).discarded = s.discarded := rfl
  have hregistered : (s.reg.register clock t newId record ttl).1.registered = s.reg.registered + 1 := rfl
  have hexpired : (s.reg.register clock t newId record ttl).1.expired = (s.reg.evict t).expired := rfl
  have hevicted := s.reg.expired_evict t
  have hlength := (s.reg.perm_evict t).length_eq
  rw [length_append] at hlength
  rw [HintBooks.slack, HintBooks.slack, hreg, hdiscarded, hregistered, hexpired, hheld, hover,
    length_drop]
  split_ifs at hstored ⊢ <;> omega

theorem slack_step (s : HintBooks) (t : Timed) :
    (HintBooks.step clock s t).slack = s.slack + if Fresh s.reg t then 0 else 1 := by
  have hrest : Fresh s.reg t →
      (HintBooks.step clock s t).slack = s.slack →
        (HintBooks.step clock s t).slack = s.slack + if Fresh s.reg t then 0 else 1 := by
    intro hfresh h
    rw [h, if_pos hfresh, add_zero]
  obtain ⟨time, op⟩ := t
  cases op with
  | register newId record ttl => exact slack_register clock s time newId record ttl
  | pending host after => exact hrest trivial (slack_evict s time)
  | waitTurn host after remaining => exact hrest trivial (slack_evict s time)
  | get id => exact hrest trivial (slack_evict s time)
  | expire => exact hrest trivial (slack_evict s time)
  | discard id => exact hrest trivial (slack_discard s id)

theorem le_slack_run (s : HintBooks) (ops : List Timed) : s.slack ≤ (s.run clock ops).slack := by
  induction ops generalizing s with
  | nil => exact le_refl _
  | cons t ops ih =>
    have hstep := slack_step clock s t
    refine le_trans ?_ (ih (s.step clock t))
    split_ifs at hstep <;> omega

/-- Only a run without reused ids places all its registrations. -/
theorem freshIds_of_slack {ops : List Timed} {s : HintBooks}
    (h : (s.run clock ops).slack = s.slack) : FreshIds clock s.reg ops := by
  induction ops generalizing s with
  | nil => trivial
  | cons t ops ih =>
    have h : ((s.step clock t).run clock ops).slack = s.slack := h
    have hstep := slack_step clock s t
    have hrest := le_slack_run clock (s.step clock t) ops
    have hfresh : Fresh s.reg t := by
      by_contra hreused
      rw [if_neg hreused] at hstep
      omega
    rw [if_pos hfresh, add_zero] at hstep
    refine ⟨hfresh, ?_⟩
    rw [← reg_step]
    exact ih (h.trans hstep.symm)

theorem HintsBalanced.slack_eq_zero (h : HintsBalanced now s) : s.slack = 0 := by
  have := h.counters
  rw [HintBooks.slack]
  omega

end Machine

/-- A run with a clock that does not go back leaves the books balanced, at its end and at any time
after it, exactly if none of its registrations took the id of a live hint. -/
theorem balanced_run_iff [Runtime] (clock : ℚ → FloatLit) (ttl : ℚ) (maxEntries : ℕ)
    (ops : List Timed) (hclock : ops.Pairwise (·.now ≤ ·.now)) (now : ℚ)
    (hnow : ∀ t ∈ ops, t.now ≤ now) :
    HintsBalanced now ((openedHints ttl maxEntries).run clock ops) ↔
      FreshIds clock (openedHints ttl maxEntries).reg ops := by
  constructor
  · intro h
    exact freshIds_of_slack clock h.slack_eq_zero
  · intro hfresh
    have halong := (Lib.along_map (HintBooks.step clock) HintBooks.reg (fun s t => reg_step s t)).mpr hfresh
    exact (Lib.run_timed (P := InOrder) (HintBooks.step clock) Timed.now InOrder.later InOrder.step
      (inOrder_opened ttl maxEntries) hclock halong hnow).balanced

/-- A registration under an id, as the endpoints take it. -/
def registration (now : ℚ) (id : String) : Timed where
  now := now
  op := .register "fresh" [("destination_host", .str "oast.fun"), ("correlation_id", .str id)] none

/-- The hint `a` comes again while it is live. -/
def reusedRun : List Timed :=
  [registration 0 "a", registration 1 "b", registration 2 "a", registration 3 "c"]

/-- Two hints fit: the newer of the first two is evicted, and the counters lose a registration. -/
theorem not_balanced_reused :
    let _ := Runtime.ascii
    let clock : ℚ → FloatLit := fun _ => FloatLit.ofInt 0
    let s := (openedHints 120 2).run clock reusedRun
    reusedRun.Pairwise (·.now ≤ ·.now) ∧ (∀ t ∈ reusedRun, t.now ≤ 3) ∧
      s.overflows.map (fun o => (o.1.registeredAt, o.2.map (·.registeredAt))) = [(2, [1, 3])] ∧
      (s.reg.registered, s.reg.held.length, s.reg.overflowed) = (4, 2, 1) ∧ ¬ HintsBalanced 3 s := by
  intro rt clock s
  refine ⟨by decide +kernel, by decide +kernel, by decide +kernel, by decide +kernel, fun h => ?_⟩
  have hcounters := h.counters
  revert hcounters
  decide +kernel

theorem balanced_two_hints :
    let _ := Runtime.ascii
    let clock : ℚ → FloatLit := fun _ => FloatLit.ofInt 0
    HintsBalanced 2 ((openedHints 120 2).run clock [registration 0 "a", registration 1 "b"]) := by
  intro rt clock
  have hfresh : FreshIds clock (openedHints 120 2).reg [registration 0 "a", registration 1 "b"] :=
    ⟨by decide +kernel, by decide +kernel, trivial⟩
  exact (balanced_run_iff clock 120 2 [registration 0 "a", registration 1 "b"] (by decide) 2
    (by decide)).mpr hfresh

end PtaasBench.BenchCollector
