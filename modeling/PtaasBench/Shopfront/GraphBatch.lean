import PtaasBench.Lib.Runs
import PtaasBench.Shopfront.SchemaWalk

/-!
# PtaasBench.Shopfront.GraphBatch — a batch of GraphQL operations and its amplification check

The operations of a request share one context, which counts the lookups of gift cards.  Guessing pays off in a request
that finds a card behind many that are not there.  The check looks for a run of operations without a hit; the lookups
that one operation makes under its aliases are not told apart, and an operation without a lookup is one without a hit.
-/

namespace PtaasBench.Shopfront.GraphBatch

open Lib
open Shopfront.SchemaWalk (Document raisesSchemaWalk)

/-! ## The code -/

structure Context where
  lookups : ℕ
  hits : ℕ
  misses : ℕ
  missRun : ℕ
  longestMissRun : ℕ
  deriving DecidableEq

/-- What happens to one operation of the request. -/
inductive Operation where
  /-- no query, or one the parser does not take -/
  | refused
  /-- merging its variables throws, which ends the request -/
  | thrown
  /-- the lookups that are answered while it runs: is there a card? -/
  | run (document : Document) (outcomes : List Bool)

inductive Counter where
  | graphSchemaWalk
  | graphBatchAmplification
  deriving DecidableEq

/-- `giftCardBalance`, as far as it counts. -/
def giftCardBalance (c : Context) (found : Bool) : Context :=
  if found then { c with lookups := c.lookups + 1, hits := c.hits + 1 }
  else { c with lookups := c.lookups + 1, misses := c.misses + 1 }

/-- An operation that was run: its lookups, then the run of operations without a hit. -/
def settle (c : Context) (outcomes : List Bool) : Context :=
  let done := outcomes.foldl giftCardBalance c
  -- an operation that made no lookup lengthens the run, too
  if done.hits = c.hits then
    { done with missRun := done.missRun + 1, longestMissRun := max done.longestMissRun (done.missRun + 1) }
  else { done with missRun := 0 }

def amplified (c : Context) : Bool := 25 ≤ c.lookups && 1 ≤ c.hits && 10 ≤ c.longestMissRun

/-- The loop over the operations, and the check behind it: the counters that are raised. -/
def batchLoop : List Operation → Context → List Counter
  | [], c => if amplified c then [.graphBatchAmplification] else []
  | .refused :: rest, c => batchLoop rest c
  | .thrown :: _, _ => []
  | .run document outcomes :: rest, c =>
    (if raisesSchemaWalk document then [.graphSchemaWalk] else []) ++ batchLoop rest (settle c outcomes)

def maxBatch : ℕ := 512

/-- The route: the counters a request raises. -/
def post (operations : List Operation) : List Counter :=
  if operations.length = 0 then []
  else if maxBatch < operations.length then []
  else batchLoop operations ⟨0, 0, 0, 0, 0⟩

/-! ## What a request does -/

/-- A request of up to the admitted number of operations. -/
structure Request where
  operations : List Operation
  nonempty : operations.length ≠ 0
  admitted : operations.length ≤ maxBatch

/-- The operations that are run. -/
def executed : List Operation → List (List Bool)
  | [] => []
  | .refused :: rest => executed rest
  | .thrown :: _ => []
  | .run _ outcomes :: rest => outcomes :: executed rest

def throws : List Operation → Bool
  | [] => false
  | .thrown :: _ => true
  | _ :: rest => throws rest

/-- The lookups of the request, in their order. -/
def Request.lookups (r : Request) : List Bool := (executed r.operations).flatten

/-- Some successful lookup came after ten consecutive failed ones. -/
def PaidOff (lookups : List Bool) : Prop :=
  ∃ front between behind, lookups = front ++ List.replicate 10 false ++ between ++ true :: behind

/-- What the counter is there for. -/
def Request.Amplifies (r : Request) : Prop := 25 ≤ r.lookups.length ∧ PaidOff r.lookups

def idle (outcomes : List Bool) : Bool := !outcomes.contains true

/-- The request is answered, and ten operations in a row brought no success. -/
def Request.TenIdle (r : Request) : Prop := throws r.operations = false ∧ InARow idle 10 (executed r.operations)

/-! ## The counts -/

/-- What the context says about the operations that were run. -/
structure Counts (run : List (List Bool)) (c : Context) : Prop where
  lookups : c.lookups = run.flatten.length
  hits : c.hits = run.flatten.count true
  missRun : c.missRun = (Run.of idle run).now
  longestMissRun : c.longestMissRun = (Run.of idle run).longest

theorem lookups_foldl (outcomes : List Bool) (c : Context) :
    outcomes.foldl giftCardBalance c =
      { c with
        lookups := c.lookups + outcomes.length
        hits := c.hits + outcomes.count true
        misses := c.misses + outcomes.count false } := by
  induction outcomes generalizing c with
  | nil => rfl
  | cons found outcomes ih =>
    rw [List.foldl_cons, ih]
    cases found with
    | true => simp [giftCardBalance, Nat.add_comm, Nat.add_left_comm]
    | false => simp [giftCardBalance, Nat.add_comm, Nat.add_left_comm]

theorem idle_iff {outcomes : List Bool} : idle outcomes = true ↔ outcomes.count true = 0 := by
  rw [idle, Bool.not_eq_true', List.contains_eq_mem, decide_eq_false_iff_not, List.count_eq_zero]

theorem Counts.settle {run : List (List Bool)} {c : Context} (h : Counts run c) (outcomes : List Bool) :
    Counts (run ++ [outcomes]) (settle c outcomes) := by
  have hidle := @idle_iff outcomes
  unfold GraphBatch.settle
  rw [lookups_foldl]
  dsimp only
  by_cases hnone : outcomes.count true = 0
  · rw [if_pos (by rw [hnone, Nat.add_zero])]
    exact {
      lookups := by simp [h.lookups]
      hits := by simp [h.hits]
      missRun := by rw [Run.of_concat, Run.step, if_pos (hidle.mpr hnone), h.missRun]
      longestMissRun := by
        rw [Run.of_concat, Run.step, if_pos (hidle.mpr hnone), h.missRun, h.longestMissRun] }
  · rw [if_neg (by omega)]
    exact {
      lookups := by simp [h.lookups]
      hits := by simp [h.hits]
      missRun := by rw [Run.of_concat, Run.step, if_neg (mt hidle.mp hnone)]
      longestMissRun := by rw [Run.of_concat, Run.step, if_neg (mt hidle.mp hnone), h.longestMissRun] }

theorem amplified_iff {run : List (List Bool)} {c : Context} (h : Counts run c) :
    amplified c = true ↔ 25 ≤ run.flatten.length ∧ true ∈ run.flatten ∧ InARow idle 10 run := by
  rw [amplified, Bool.and_eq_true, Bool.and_eq_true, decide_eq_true_eq, decide_eq_true_eq, decide_eq_true_eq, h.lookups,
    h.hits, h.longestMissRun, le_longest_iff, and_assoc]
  refine and_congr_right fun _ => and_congr_left fun _ => ?_
  exact List.one_le_count_iff

theorem mem_batchLoop_iff {operations : List Operation} {run : List (List Bool)} {c : Context} (h : Counts run c) :
    .graphBatchAmplification ∈ batchLoop operations c ↔
      throws operations = false ∧ 25 ≤ (run ++ executed operations).flatten.length ∧
        true ∈ (run ++ executed operations).flatten ∧ InARow idle 10 (run ++ executed operations) := by
  -- over the operations that are left, with those that were run on the side: the check is made once, at the end
  induction operations generalizing run c with
  | nil =>
    rw [batchLoop, executed, List.append_nil, ← amplified_iff h]
    split_ifs with hamplified
    · exact iff_of_true (List.mem_singleton_self _) ⟨rfl, hamplified⟩
    · exact iff_of_false List.not_mem_nil fun hboth => hamplified hboth.2
  | cons operation rest ih =>
    cases operation with
    | refused => exact ih h
    | thrown => exact iff_of_false List.not_mem_nil fun hboth => Bool.noConfusion hboth.1
    | run document outcomes =>
      rw [batchLoop, List.mem_append, ih (h.settle outcomes), executed, List.append_assoc, List.singleton_append]
      refine or_iff_right fun hwalk => ?_
      split_ifs at hwalk
      · exact Counter.noConfusion (List.mem_singleton.mp hwalk)
      · exact List.not_mem_nil hwalk

/-- The code counts operations, not lookups. -/
theorem mem_post_iff (r : Request) :
    .graphBatchAmplification ∈ post r.operations ↔ 25 ≤ r.lookups.length ∧ true ∈ r.lookups ∧ r.TenIdle := by
  have hstart : Counts [] ⟨0, 0, 0, 0, 0⟩ := ⟨rfl, rfl, rfl, rfl⟩
  rw [post, if_neg r.nonempty, if_neg (Nat.not_lt.mpr r.admitted), mem_batchLoop_iff hstart, List.nil_append,
    Request.TenIdle, Request.lookups]
  tauto

theorem PaidOff.hit {lookups : List Bool} (h : PaidOff lookups) : true ∈ lookups := by
  obtain ⟨front, between, behind, rfl⟩ := h
  exact List.mem_append_right _ List.mem_cons_self

/-! ## Where operations and lookups agree -/

/-- Ten failures in front of a success, that are not ten operations. -/
def Request.Unnoticed (r : Request) : Prop := 25 ≤ r.lookups.length ∧ PaidOff r.lookups ∧ ¬r.TenIdle

/-- Ten operations without a success and some success, but no ten failures in front of one: operations without a lookup
are counted, and so are those behind the last success. -/
def Request.FalseAlarm (r : Request) : Prop :=
  25 ≤ r.lookups.length ∧ true ∈ r.lookups ∧ r.TenIdle ∧ ¬PaidOff r.lookups

/-- Amplification is counted exactly, but for the batches that go unnoticed and those that are falsely counted. -/
theorem amplification_counted_iff (r : Request) :
    (.graphBatchAmplification ∈ post r.operations ↔ r.Amplifies) ↔ ¬r.Unnoticed ∧ ¬r.FalseAlarm := by
  have hhit := @PaidOff.hit r.lookups
  rw [mem_post_iff, Request.Amplifies, Request.Unnoticed, Request.FalseAlarm]
  constructor
  · intro hcounted
    exact ⟨fun ⟨hmany, hpaid, hidle⟩ => hidle (hcounted.mpr ⟨hmany, hpaid⟩).2.2,
      fun ⟨hmany, hsome, hidle, hpaid⟩ => hpaid (hcounted.mp ⟨hmany, hsome, hidle⟩).2⟩
  · rintro ⟨hunnoticed, hfalse⟩
    constructor
    · rintro ⟨hmany, hsome, hidle⟩
      exact ⟨hmany, Classical.byContradiction fun hpaid => hfalse ⟨hmany, hsome, hidle, hpaid⟩⟩
    · rintro ⟨hmany, hpaid⟩
      exact ⟨hmany, hhit hpaid, Classical.byContradiction fun hidle => hunnoticed ⟨hmany, hpaid, hidle⟩⟩

/-- One operation with 25 aliases, of which the last finds a card. -/
def aliased : Request where
  operations := [.run [] (List.replicate 24 false ++ [true])]
  nonempty := by decide
  admitted := by decide

theorem aliased_unnoticed : ¬(.graphBatchAmplification ∈ post aliased.operations ↔ aliased.Amplifies) := by
  intro h
  have hpaid : aliased.Amplifies := ⟨by decide, List.replicate 14 false, [], [], rfl⟩
  exact absurd (h.mpr hpaid) (by decide)

end PtaasBench.Shopfront.GraphBatch
