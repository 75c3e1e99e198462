import Mathlib.Data.List.Induction
import Mathlib.Data.List.Pairwise
import Mathlib.Order.Basic

/-!
# PtaasBench.Lib.Semaphore — a counting semaphore that hands its slots over (`asyncio.Semaphore`)

Who finds no slot joins the line.  A slot that comes free is given to the first in the line who has none yet; that one
runs on later, and only then leaves the line.  `Fair` is what every operation keeps: slots are given in the order of
arrival, and nobody is left without one while a slot is free and nobody is about to run on.
-/

namespace PtaasBench.Lib

open List

/-- The slots that are free, and the line: who waits, and whether a slot was given to them. -/
structure Semaphore (ι : Type) where
  free : ℕ
  waiters : List (ι × Bool)

namespace Semaphore

variable {ι : Type}

/-- `locked`: whoever comes now has to wait, be it behind others only. -/
def locked (s : Semaphore ι) : Bool := s.free = 0 || !s.waiters.isEmpty

/-- The first without a slot is given one. -/
def wake : List (ι × Bool) → Option (List (ι × Bool))
  | [] => none
  | (i, true) :: rest => (wake rest).map ((i, true) :: ·)
  | (i, false) :: rest => some ((i, true) :: rest)

/-- `while self._value > 0: if not self._wake_up_next(): break` -/
def wakeAll : ℕ → List (ι × Bool) → Semaphore ι
  | 0, line => ⟨0, line⟩
  | free + 1, line => ((wake line).map (wakeAll free)).getD ⟨free + 1, line⟩

/-- `acquire` of one that need not wait. -/
def take (s : Semaphore ι) : Semaphore ι := ⟨s.free - 1, s.waiters⟩

/-- `acquire` up to the future. -/
def join (s : Semaphore ι) (i : ι) : Semaphore ι := ⟨s.free, s.waiters ++ [(i, false)]⟩

/-- `acquire` behind the future. -/
def resume [DecidableEq ι] (s : Semaphore ι) (i : ι) : Semaphore ι :=
  wakeAll s.free (s.waiters.erase (i, true))

def release (s : Semaphore ι) : Semaphore ι :=
  ((wake s.waiters).map fun line => ⟨s.free, line⟩).getD ⟨s.free + 1, s.waiters⟩

/-- The slots that were given to somebody in the line. -/
def given (line : List (ι × Bool)) : ℕ := line.countP Prod.snd

/-- The slots that nobody works with. -/
def idle (s : Semaphore ι) : ℕ := s.free + given s.waiters

structure Fair (s : Semaphore ι) : Prop where
  /-- Slots are given in the order of arrival. -/
  inOrder : s.waiters.Pairwise fun a b => b.2 = true → a.2 = true
  /-- Nobody sleeps beside a free slot, unless somebody who has one is about to look. -/
  alert : 0 < s.free → (∃ w ∈ s.waiters, w.2 = false) → ∃ w ∈ s.waiters, w.2 = true

/-! ## Waking -/

variable {line line' : List (ι × Bool)}

theorem wake_eq_none : wake line = none ↔ ∀ w ∈ line, w.2 = true := by
  induction line with
  | nil => simp [wake]
  | cons w rest ih =>
    obtain ⟨i, woken⟩ := w
    cases woken with
    | true => simp [wake, ih]
    | false => simp [wake]

/-- The one who is woken stands behind those who have a slot, and before those who have none. -/
theorem wake_eq_some (h : wake line = some line') :
    ∃ before i after, line = before ++ (i, false) :: after ∧ line' = before ++ (i, true) :: after ∧
      ∀ w ∈ before, w.2 = true := by
  induction line generalizing line' with
  | nil => simp [wake] at h
  | cons w rest ih =>
    obtain ⟨i, woken⟩ := w
    cases woken with
    | true =>
      obtain ⟨rest', hrest, rfl⟩ := Option.map_eq_some_iff.mp h
      obtain ⟨before, j, after, rfl, rfl, hbefore⟩ := ih hrest
      exact ⟨(i, true) :: before, j, after, rfl, rfl, forall_mem_cons.mpr ⟨rfl, hbefore⟩⟩
    | false =>
      obtain rfl := Option.some.inj h
      exact ⟨[], i, rest, rfl, rfl, forall_mem_nil _⟩

theorem given_wake (h : wake line = some line') : given line' = given line + 1 := by
  obtain ⟨before, i, after, rfl, rfl, -⟩ := wake_eq_some h
  simp [given]
  omega

theorem keys_wake (h : wake line = some line') : line'.map Prod.fst = line.map Prod.fst := by
  obtain ⟨before, i, after, rfl, rfl, -⟩ := wake_eq_some h
  simp

theorem inOrder_wake (h : wake line = some line')
    (hline : line.Pairwise fun a b => b.2 = true → a.2 = true) :
    line'.Pairwise fun a b => b.2 = true → a.2 = true := by
  obtain ⟨before, i, after, rfl, rfl, hbefore⟩ := wake_eq_some h
  rw [pairwise_append, pairwise_cons] at hline ⊢
  refine ⟨hline.1, ⟨fun w _ _ => rfl, hline.2.1.2⟩, fun a ha b _ _ => hbefore a ha⟩

theorem keys_wakeAll (free : ℕ) (line : List (ι × Bool)) :
    (wakeAll free line).waiters.map Prod.fst = line.map Prod.fst := by
  induction free generalizing line with
  | zero => rfl
  | succ free ih =>
    rw [wakeAll]
    cases hwake : wake line with
    | none => rfl
    | some line' =>
      show (wakeAll free line').waiters.map Prod.fst = _
      rw [ih, keys_wake hwake]

theorem idle_wakeAll (free : ℕ) (line : List (ι × Bool)) : (wakeAll free line).idle = free + given line := by
  induction free generalizing line with
  | zero => rfl
  | succ free ih =>
    rw [wakeAll]
    cases hwake : wake line with
    | none => rfl
    | some line' =>
      show (wakeAll free line').idle = _
      rw [ih, given_wake hwake]
      omega

theorem inOrder_wakeAll {free : ℕ} (h : line.Pairwise fun a b => b.2 = true → a.2 = true) :
    (wakeAll free line).waiters.Pairwise fun a b => b.2 = true → a.2 = true := by
  induction free generalizing line with
  | zero => exact h
  | succ free ih =>
    rw [wakeAll]
    cases hwake : wake line with
    | none => exact h
    | some line' => exact ih (inOrder_wake hwake h)

/-- All the slots are given, or everybody has one. -/
theorem wakeAll_exhausts (free : ℕ) (line : List (ι × Bool)) :
    (wakeAll free line).free = 0 ∨ ∀ w ∈ (wakeAll free line).waiters, w.2 = true := by
  induction free generalizing line with
  | zero => exact Or.inl rfl
  | succ free ih =>
    rw [wakeAll]
    cases hwake : wake line with
    | none => exact Or.inr (wake_eq_none.mp hwake)
    | some line' => exact ih line'

/-! ## The operations -/

variable {s : Semaphore ι}

theorem idle_take (h : s.locked = false) : s.take.idle + 1 = s.idle := by
  simp only [locked, Bool.or_eq_false_iff, decide_eq_false_iff_not] at h
  simp only [take, idle]
  omega

theorem waiters_of_unlocked (h : s.locked = false) : s.waiters = [] := by
  simp only [locked, Bool.or_eq_false_iff, Bool.not_eq_false'] at h
  exact List.isEmpty_iff.mp h.2

theorem fair_take (h : s.locked = false) : s.take.Fair := by
  have hnil : s.take.waiters = [] := waiters_of_unlocked (s := s) h
  constructor
  · rw [hnil]
    exact List.Pairwise.nil
  · rw [hnil]
    simp

theorem idle_join (i : ι) : (s.join i).idle = s.idle := by simp [join, idle, given]

theorem Fair.join (hs : s.Fair) (h : s.locked = true) (i : ι) : (s.join i).Fair := by
  constructor
  · rw [Semaphore.join, pairwise_append]
    exact ⟨hs.inOrder, pairwise_singleton _ _, by simp⟩
  · intro hfree _
    -- there is a free slot, so that it was the line that kept `i` from taking it
    have hline : s.waiters ≠ [] := by
      intro hnil
      simp only [Semaphore.join] at hfree
      simp only [locked, hnil, isEmpty_nil, Bool.not_true, Bool.or_false, decide_eq_true_eq] at h
      omega
    obtain ⟨w, hw, hwoken⟩ : ∃ w ∈ s.waiters, w.2 = true := by
      by_cases hsleeps : ∃ w ∈ s.waiters, w.2 = false
      · exact hs.alert hfree hsleeps
      · obtain ⟨w, hw⟩ := exists_mem_of_ne_nil _ hline
        exact ⟨w, hw, by simpa using fun hfalse => hsleeps ⟨w, hw, hfalse⟩⟩
    exact ⟨w, mem_append_left _ hw, hwoken⟩

theorem idle_release : s.release.idle = s.idle + 1 := by
  rw [release]
  cases hwake : wake s.waiters with
  | none =>
    simp only [Option.map_none, Option.getD_none, idle]
    omega
  | some line =>
    simp only [Option.map_some, Option.getD_some, idle, given_wake hwake]
    omega

theorem keys_release : s.release.waiters.map Prod.fst = s.waiters.map Prod.fst := by
  rw [release]
  cases hwake : wake s.waiters with
  | none => rfl
  | some line => exact keys_wake hwake

theorem Fair.release (hs : s.Fair) : s.release.Fair := by
  rw [Semaphore.release]
  cases hwake : wake s.waiters with
  | none =>
    refine ⟨hs.inOrder, fun _ ⟨w, hw, hsleeps⟩ => ?_⟩
    rw [wake_eq_none.mp hwake w hw] at hsleeps
    cases hsleeps
  | some line =>
    refine ⟨inOrder_wake hwake hs.inOrder, fun _ _ => ?_⟩
    obtain ⟨before, i, after, -, hline, -⟩ := wake_eq_some hwake
    exact ⟨(i, true), by simp [hline], rfl⟩

variable [DecidableEq ι]

/-- The line without one who stands in it once. -/
theorem keys_erase {i : ι} (hkeys : (line.map Prod.fst).Nodup) (h : (i, true) ∈ line) :
    (line.erase (i, true)).map Prod.fst = (line.map Prod.fst).erase i := by
  induction line with
  | nil => simp at h
  | cons w rest ih =>
    rw [map_cons, nodup_cons] at hkeys
    rcases mem_cons.mp h with rfl | hrest
    · simp
    · have hne : w.1 ≠ i := by
        intro heq
        exact hkeys.1 (heq ▸ mem_map_of_mem hrest)
      have hne' : w ≠ (i, true) := fun heq => hne (by rw [heq])
      rw [map_cons, erase_cons_tail (by simpa using hne'), erase_cons_tail (by simpa using hne),
        map_cons, ih hkeys.2 hrest]

theorem keys_resume {i : ι} (hkeys : (s.waiters.map Prod.fst).Nodup) (h : (i, true) ∈ s.waiters) :
    (s.resume i).waiters.map Prod.fst = (s.waiters.map Prod.fst).erase i := by
  rw [resume, keys_wakeAll, keys_erase hkeys h]

/-- Who runs on takes their slot out of the line. -/
theorem idle_resume {i : ι} (h : (i, true) ∈ s.waiters) : (s.resume i).idle + 1 = s.idle := by
  have herase : given s.waiters = given (s.waiters.erase (i, true)) + 1 := by
    rw [given, (perm_cons_erase h).countP_eq, countP_cons_of_pos rfl, given]
  rw [resume, idle_wakeAll, idle, herase]
  omega

theorem Fair.resume (hs : s.Fair) (i : ι) : (s.resume i).Fair := by
  constructor
  · exact inOrder_wakeAll (hs.inOrder.sublist erase_sublist)
  · intro hfree ⟨w, hw, hsleeps⟩
    rcases wakeAll_exhausts s.free (s.waiters.erase (i, true)) with hnone | hall
    · simp only [Semaphore.resume] at hfree
      omega
    · have hwoken := hall w hw
      rw [hsleeps] at hwoken
      cases hwoken

end Semaphore

end PtaasBench.Lib
