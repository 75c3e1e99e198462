import Mathlib.Data.List.DropRight
import PtaasBench.EdgeResolver.Correlation

/-!
# PtaasBench.EdgeResolver.HintMatch — which hints an observation can meet

The calls on the index run next to a history of the hints it has taken, each with the mark whether
every reading of the clock since has come before it expires.  The dictionary by host holds the
marked ones; the scan goes over the last 512 taken, marked or not.
-/

namespace PtaasBench.EdgeResolver

open Py List

/-- A call on the index. -/
inductive Call where
  | add (hint : Hint) (now : ℚ)
  | observe (host : Option String) (sourceIp : String) (now : ℚ)

/-- The reading of the clock that comes with a call. -/
def Call.now : Call → ℚ
  | .add _ now => now
  | .observe _ _ now => now

/-- A hint the index has taken. -/
structure Held where
  hint : Hint
  live : Bool  -- no reading of the clock since has met it expired

abbrev History := List Held

namespace History

/-- A reading of the clock. -/
def read (history : History) (now : ℚ) : History :=
  history.map fun e => { e with live := e.live && decide (now < e.hint.expiresAt) }

/-- The hints taken, in order. -/
def hints (history : History) : List Hint := history.map (·.hint)

/-- The hints of a host that no reading of the clock has met expired. -/
def liveOn (history : History) (name : String) : List Hint :=
  hints (history.filter fun e => e.live && decide (e.hint.host = name))

@[simp] theorem hints_read (history : History) (now : ℚ) : (history.read now).hints = history.hints := by
  rw [hints, read, map_map]
  rfl

theorem liveOn_read (history : History) (now : ℚ) (name : String) :
    (history.read now).liveOn name = (history.liveOn name).filter (now < ·.expiresAt) := by
  simp only [liveOn, read, hints, filter_map, map_map, filter_filter]
  refine congrArg₂ List.map rfl (filter_congr fun e _ => ?_)
  simp only [Function.comp_apply]
  rw [Bool.and_assoc, Bool.and_left_comm, Bool.and_comm (decide _)]

theorem mem_read {history : History} {now : ℚ} {e : Held} (h : e ∈ history.read now) :
    e.hint ∈ history.hints ∧ (e.live = true → now < e.hint.expiresAt) := by
  obtain ⟨e, he, rfl⟩ := mem_map.mp h
  refine ⟨mem_map.mpr ⟨e, he, rfl⟩, fun hlive => ?_⟩
  exact of_decide_eq_true ((Bool.and_eq_true _ _).mp hlive).2

theorem liveOn_append (history : History) (hint : Hint) (name : String) :
    liveOn (history ++ [⟨hint, true⟩]) name = history.liveOn name ++ if hint.host = name then [hint] else [] := by
  rw [liveOn, filter_append, hints, map_append]
  split_ifs with h
  · rw [filter_cons_of_pos (by simpa using h)]
    rfl
  · rw [filter_cons_of_neg (by simpa using h)]
    rfl

end History

/-- The index with its history. -/
structure Traced where
  ix : CorrelationIndex
  history : History

namespace Traced

variable [Runtime]

/-- One call, in the index and in the history. -/
def step (t : Traced) : Call → Traced
  | .add hint now =>
    let added := t.ix.add hint now
    ⟨added.1, if added.2 then History.read (t.history ++ [⟨hint, true⟩]) now else t.history⟩
  | .observe host sourceIp now =>
    ⟨(t.ix.matchObserved host sourceIp now).1,
      if normaliseHost host = "" then t.history else t.history.read now⟩

/-- A run of calls on a new index. -/
def run (ix : CorrelationIndex) (calls : List Call) : Traced := calls.foldl step ⟨ix, []⟩

end Traced

/-- An index nothing was added to. -/
structure CorrelationIndex.New (ix : CorrelationIndex) : Prop where
  byHost : ix.byHost = Dict.empty
  recent : ix.recent = []
  seen : ix.seen = Dict.empty

/-- What the index holds of its history. -/
structure Traced.Kept (t : Traced) : Prop where
  recent : t.ix.recent = t.history.hints.rtake t.ix.maxHints
  byHost : ∀ name, t.ix.byHost.getD name [] = t.history.liveOn name
  seen : ∀ id ∈ t.ix.seen.keys, id ∈ t.history.hints.map (·.hintId)

/-! ## One call keeps it -/

namespace CorrelationIndex

/-- The index with one more hint, before the clock is read. -/
def taken (ix : CorrelationIndex) (hint : Hint) : CorrelationIndex :=
  { ix with
    seen := ix.seen.set hint.hintId hint.expiresAt
    byHost := ix.byHost.set hint.host (ix.byHost.getD hint.host [] ++ [hint])
    recent := (ix.recent ++ [hint]).rtake ix.maxHints
    added := ix.added + 1
    sources := hint.sourceIps.foldl (fun sources address =>
      if hint.app = "" then sources else sources.set address (hint.app, hint.ts)) ix.sources }

variable {ix : CorrelationIndex} {hint : Hint}

theorem add_of_seen (h : ix.seen.contains hint.hintId = true) (now : ℚ) : ix.add hint now = (ix, false) := by
  rw [add, if_pos h]

theorem add_of_new (h : ix.seen.contains hint.hintId = false) (now : ℚ) :
    ix.add hint now = ((ix.taken hint).prune now, true) := by
  rw [add, h]
  rfl

theorem fst_matchObserved [Runtime] (ix : CorrelationIndex) (host : Option String) (sourceIp : String) (now : ℚ) :
    (ix.matchObserved host sourceIp now).1 = if normaliseHost host = "" then ix else ix.prune now := by
  rw [matchObserved]
  by_cases h : normaliseHost host = ""
  · rw [if_pos h, if_pos h]
  · rw [if_neg h, if_neg h]
    dsimp only
    split <;> rfl

end CorrelationIndex

theorem rtake_rtake_append {α : Type*} (n : ℕ) (l : List α) (a : α) :
    (l.rtake n ++ [a]).rtake n = (l ++ [a]).rtake n := by
  cases n with
  | zero => rw [rtake_zero, rtake_zero]
  | succ n =>
    rw [rtake_concat_succ, rtake_concat_succ]
    simp only [rtake_eq_reverse_take_reverse, reverse_reverse, take_take]
    rw [Nat.min_eq_left (Nat.le_succ n)]

namespace Traced

theorem Kept.prune {t : Traced} (h : t.Kept) (now : ℚ) : Kept ⟨t.ix.prune now, t.history.read now⟩ where
  recent := by
    rw [History.hints_read]
    exact h.recent
  byHost name := by
    show (((t.ix.byHost.filter fun e => !e.2.all (·.expiresAt ≤ now)).mapValues
      fun hints => hints.filter (now < ·.expiresAt)).getD name []) = _
    rw [History.liveOn_read, ← h.byHost, Dict.getD, Dict.getD, Dict.get?_mapValues,
      Dict.get?_filter _ fun hints : List Hint => !hints.all (·.expiresAt ≤ now)]
    cases t.ix.byHost.get? name with
    | none => rfl
    | some hints =>
      rw [Option.getD_some]
      cases hall : hints.all (·.expiresAt ≤ now) with
      | false =>
        rw [Option.filter_some_pos (by rw [hall]; rfl)]
        rfl
      | true =>
        -- a host whose hints have all expired is dropped
        rw [Option.filter_some_neg (by rw [hall]; rfl)]
        refine (filter_eq_nil_iff.mpr fun hint hmem => ?_).symm
        have hexp : hint.expiresAt ≤ now := of_decide_eq_true (all_eq_true.mp hall hint hmem)
        exact fun hlt => absurd (of_decide_eq_true hlt) (not_lt.mpr hexp)
  seen id hid := by
    rw [History.hints_read]
    obtain ⟨e, he, rfl⟩ := mem_map.mp hid
    exact h.seen e.1 (mem_map.mpr ⟨e, mem_of_mem_filter he, rfl⟩)

theorem Kept.taken {t : Traced} (h : t.Kept) (hint : Hint) :
    Kept ⟨t.ix.taken hint, t.history ++ [⟨hint, true⟩]⟩ where
  recent := by
    show (t.ix.recent ++ [hint]).rtake t.ix.maxHints = (List.map _ (t.history ++ _)).rtake t.ix.maxHints
    rw [h.recent, rtake_rtake_append, map_append]
    rfl
  byHost name := by
    show (t.ix.byHost.set hint.host (t.ix.byHost.getD hint.host [] ++ [hint])).getD name [] = _
    rw [Dict.getD_set, History.liveOn_append, ← h.byHost]
    by_cases hname : name = hint.host
    · rw [if_pos hname, if_pos hname.symm, hname]
    · rw [if_neg hname, if_neg (Ne.symm hname), append_nil]
  seen id hid := by
    show id ∈ (List.map _ (t.history ++ _)).map _
    rw [map_append, map_append, mem_append]
    rcases Dict.mem_keys_set hid with hid | rfl
    · exact Or.inl (h.seen id hid)
    · exact Or.inr (mem_singleton.mpr rfl)

variable [Runtime]

theorem Kept.step {t : Traced} (h : t.Kept) (call : Call) : (t.step call).Kept := by
  cases call with
  | add hint now =>
    rw [Traced.step]
    cases hseen : t.ix.seen.contains hint.hintId with
    | true =>
      rw [CorrelationIndex.add_of_seen hseen now]
      exact h
    | false =>
      rw [CorrelationIndex.add_of_new hseen now]
      exact (h.taken hint).prune now
  | observe host sourceIp now =>
    rw [Traced.step, CorrelationIndex.fst_matchObserved]
    split_ifs
    · exact h
    · exact h.prune now

theorem kept_run {ix : CorrelationIndex} (hix : ix.New) (calls : List Call) : (run ix calls).Kept := by
  have hstart : Kept ⟨ix, []⟩ := by
    refine ⟨?_, fun name => ?_, fun id hid => ?_⟩
    · rw [hix.recent]
      exact (rtake_nil _).symm
    · rw [hix.byHost]
      rfl
    · rw [hix.seen] at hid
      exact absurd hid not_mem_nil
  have hsteps : ∀ (calls : List Call) (t : Traced), t.Kept → (calls.foldl Traced.step t).Kept := by
    intro calls
    induction calls with
    | nil => exact fun _ h => h
    | cons call rest ih => exact fun t h => ih (t.step call) (h.step call)
  exact hsteps calls _ hstart

/-- A hint that is not marked was met expired by the reading of some call. -/
theorem live_or_expired (ix : CorrelationIndex) (calls : List Call) :
    ∀ e ∈ (run ix calls).history, e.live = true ∨ ∃ call ∈ calls, e.hint.expiresAt ≤ call.now := by
  induction calls using List.reverseRecOn with
  | nil => exact fun e he => absurd he not_mem_nil
  | append_singleton calls call ih =>
    have hread : ∀ history : History, (∀ e ∈ history, e.live = true ∨ ∃ call ∈ calls, e.hint.expiresAt ≤ call.now) →
        ∀ e ∈ history.read call.now, e.live = true ∨ ∃ c ∈ calls ++ [call], e.hint.expiresAt ≤ c.now := by
      intro history h e he
      obtain ⟨old, hold, rfl⟩ := mem_map.mp he
      rcases h old hold with hlive | ⟨c, hc, hexp⟩
      · by_cases hnow : call.now < old.hint.expiresAt
        · exact Or.inl (by rw [hlive, decide_eq_true hnow]; rfl)
        · exact Or.inr ⟨call, mem_append_right _ (mem_singleton.mpr rfl), not_lt.mp hnow⟩
      · exact Or.inr ⟨c, mem_append_left _ hc, hexp⟩
    have hkeep : ∀ e ∈ (run ix calls).history, e.live = true ∨ ∃ c ∈ calls ++ [call], e.hint.expiresAt ≤ c.now :=
      fun e he => (ih e he).imp_right fun ⟨c, hc, hexp⟩ => ⟨c, mem_append_left _ hc, hexp⟩
    rw [run, foldl_append]
    show ∀ e ∈ ((run ix calls).step call).history, _
    cases call with
    | add hint now =>
      rw [step]
      split_ifs
      · refine hread _ fun e he => ?_
        rcases mem_append.mp he with he | he
        · exact ih e he
        · exact Or.inl (by rw [mem_singleton.mp he])
      · exact hkeep
    | observe host sourceIp now =>
      rw [step]
      split_ifs
      · exact hkeep
      · exact hread _ ih

theorem maxHints_run (ix : CorrelationIndex) (calls : List Call) : (run ix calls).ix.maxHints = ix.maxHints := by
  have hstep : ∀ (t : Traced) (call : Call), (t.step call).ix.maxHints = t.ix.maxHints := by
    intro t call
    cases call with
    | add hint now =>
      rw [Traced.step]
      cases hseen : t.ix.seen.contains hint.hintId with
      | true => rw [CorrelationIndex.add_of_seen hseen now]
      | false =>
        rw [CorrelationIndex.add_of_new hseen now]
        rfl
    | observe host sourceIp now =>
      rw [Traced.step, CorrelationIndex.fst_matchObserved]
      split_ifs <;> rfl
  have hsteps : ∀ (calls : List Call) (t : Traced), (calls.foldl Traced.step t).ix.maxHints = t.ix.maxHints := by
    intro calls
    induction calls with
    | nil => exact fun _ => rfl
    | cons call rest ih => exact fun t => (ih (t.step call)).trans (hstep t call)
  exact hsteps calls _

end Traced

/-! ## What an observation meets -/

section Meets

variable [Runtime]

omit [Runtime] in
theorem hostsMatch_self {name : String} (h : name ≠ "") : hostsMatch name name = true := by
  rw [hostsMatch, if_neg (by simp [h])]
  simp

omit [Runtime] in
theorem rtake_rtake {α : Type*} (m n : ℕ) (l : List α) : (l.rtake m).rtake n = l.rtake (min n m) := by
  simp only [rtake_eq_reverse_take_reverse, reverse_reverse, take_take]

omit [Runtime] in
theorem hint_sourceAttribution (ix : CorrelationIndex) (sourceIp : String) (now : ℚ) :
    (ix.sourceAttribution sourceIp now).hint = none := by
  unfold CorrelationIndex.sourceAttribution
  split
  · split_ifs <;> rfl
  · rfl

/-- The hint of an observation is the preferred one of the candidates. -/
theorem hint_matchObserved (ix : CorrelationIndex) {host : Option String} (hname : normaliseHost host ≠ "")
    (sourceIp : String) (now : ℚ) : (ix.matchObserved host sourceIp now).2.hint =
      (((ix.prune now).candidates (normaliseHost host) now).insertionSort fun a b =>
        CorrelationIndex.preferred sourceIp a b).head? := by
  have hfound : (ix.matchHost (normaliseHost host) sourceIp now).2 =
      (((ix.prune now).candidates (normaliseHost host) now).insertionSort fun a b =>
        CorrelationIndex.preferred sourceIp a b).head? := rfl
  rw [CorrelationIndex.matchObserved, if_neg hname, ← hfound]
  dsimp only
  cases (ix.matchHost (normaliseHost host) sourceIp now).2 with
  | none => exact hint_sourceAttribution _ _ _
  | some hint => rfl

omit [Runtime] in
/-- The candidates of an observation: the marked hints of the very host, else the related ones among
the last. -/
theorem candidates_prune {t : Traced} (h : t.Kept) (name : String) (now : ℚ) :
    (t.ix.prune now).candidates name now =
      if (t.history.read now).liveOn name = [] then
        (t.history.hints.rtake (min scanLimit t.ix.maxHints)).filter fun hint =>
          now < hint.expiresAt && hostsMatch name hint.host
      else (t.history.read now).liveOn name := by
  have hpruned := h.prune now
  have hexact : ((t.ix.prune now).byHost.getD name []).filter (now < ·.expiresAt) =
      (t.history.read now).liveOn name := by
    rw [hpruned.byHost, History.liveOn_read, filter_filter]
    simp only [Bool.and_self]
  rw [CorrelationIndex.candidates, hexact]
  split_ifs
  · show List.filter _ ((t.ix.prune now).recent.rtake scanLimit) = _
    rw [hpruned.recent, History.hints_read, rtake_rtake]
    rfl
  · rfl

variable {ix : CorrelationIndex} {calls : List Call} {host : Option String} {sourceIp : String} {now : ℚ}

/-- With the clock at its latest the marked hints are those that have not expired. -/
theorem live_iff_of_latest (hlast : ∀ call ∈ calls, call.now ≤ now) :
    ∀ e ∈ (Traced.run ix calls).history.read now, e.live = true ↔ now < e.hint.expiresAt := by
  intro e he
  refine ⟨(History.mem_read he).2, fun hexp => ?_⟩
  obtain ⟨old, hold, rfl⟩ := mem_map.mp he
  have hlive : old.live = true := (Traced.live_or_expired ix calls old hold).resolve_right fun ⟨call, hcall, hmet⟩ =>
    absurd (hexp.trans_le hmet) (not_lt.mpr (hlast call hcall))
  exact (Bool.and_eq_true _ _).mpr ⟨hlive, decide_eq_true hexp⟩

omit [Runtime] in
theorem liveOn_ne_nil_iff {history : History} {name : String} :
    history.liveOn name ≠ [] ↔ ∃ e ∈ history, e.live = true ∧ e.hint.host = name := by
  rw [History.liveOn, History.hints, Ne, map_eq_nil_iff, filter_eq_nil_iff]
  push Not
  exact exists_congr fun e => and_congr_right fun _ => by rw [Bool.and_eq_true, decide_eq_true_eq]

/-- A nameless observation meets no hint. -/
theorem hint_of_nameless (ix : CorrelationIndex) (hname : normaliseHost host = "") :
    (ix.matchObserved host sourceIp now).2.hint = none := by
  rw [CorrelationIndex.matchObserved, if_pos hname]
  exact hint_sourceAttribution _ _ _

/-- The candidates a run leaves for an observation. -/
theorem hint_run (hix : ix.New) (hname : normaliseHost host ≠ "") :
    ((Traced.run ix calls).ix.matchObserved host sourceIp now).2.hint =
      ((if ((Traced.run ix calls).history.read now).liveOn (normaliseHost host) = [] then
          ((Traced.run ix calls).history.hints.rtake (min scanLimit ix.maxHints)).filter fun hint =>
            now < hint.expiresAt && hostsMatch (normaliseHost host) hint.host
        else ((Traced.run ix calls).history.read now).liveOn (normaliseHost host)).insertionSort fun a b =>
          CorrelationIndex.preferred sourceIp a b).head? := by
  rw [hint_matchObserved _ hname, candidates_prune (Traced.kept_run hix calls), Traced.maxHints_run]

theorem isSome_hint_iff (hix : ix.New) :
    ((Traced.run ix calls).ix.matchObserved host sourceIp now).2.hint.isSome = true ↔ normaliseHost host ≠ "" ∧
      ((∃ e ∈ (Traced.run ix calls).history.read now, e.live = true ∧ e.hint.host = normaliseHost host) ∨
        ∃ hint ∈ (Traced.run ix calls).history.hints.rtake (min scanLimit ix.maxHints),
          now < hint.expiresAt ∧ hostsMatch (normaliseHost host) hint.host = true) := by
  by_cases hname : normaliseHost host = ""
  · rw [hint_of_nameless _ hname]
    exact iff_of_false Bool.false_ne_true fun h => h.1 hname
  · have hsorted (l : List Hint) : (l.insertionSort fun a b => CorrelationIndex.preferred sourceIp a b) = [] ↔
        l = [] := by rw [← length_eq_zero_iff, length_insertionSort, length_eq_zero_iff]
    rw [and_iff_right hname, ← liveOn_ne_nil_iff, hint_run hix hname, isSome_head?, Ne, hsorted]
    split_ifs with hnil
    · rw [or_iff_right (not_not.mpr hnil), filter_eq_nil_iff]
      push Not
      exact exists_congr fun hint => and_congr_right fun _ => by rw [Bool.and_eq_true, decide_eq_true_eq]
    · exact iff_of_true hnil (Or.inl hnil)

/-- What an observation meets was taken, has not expired and is related. -/
theorem hint_related (hix : ix.New) {hint : Hint}
    (hhint : ((Traced.run ix calls).ix.matchObserved host sourceIp now).2.hint = some hint) :
    hint ∈ (Traced.run ix calls).history.hints ∧ now < hint.expiresAt ∧
      hostsMatch (normaliseHost host) hint.host = true := by
  have hname : normaliseHost host ≠ "" := fun hname =>
    absurd (hhint.symm.trans (hint_of_nameless _ hname)) (Option.some_ne_none hint)
  have hmem := mem_of_head? ((hint_run hix hname).symm.trans hhint)
  rw [mem_insertionSort] at hmem
  split_ifs at hmem with hnil
  · obtain ⟨hmem, hboth⟩ := mem_filter.mp hmem
    rw [Bool.and_eq_true, decide_eq_true_eq] at hboth
    exact ⟨mem_of_mem_drop hmem, hboth⟩
  · obtain ⟨e, he, rfl⟩ := mem_map.mp hmem
    obtain ⟨he, hboth⟩ := mem_filter.mp he
    rw [Bool.and_eq_true, decide_eq_true_eq] at hboth
    obtain ⟨hin, hexp⟩ := History.mem_read he
    refine ⟨hin, hexp hboth.1, ?_⟩
    rw [hboth.2]
    exact hostsMatch_self hname

/-- An observation meets a hint just if a hint of the very host has come before its expiry at every
reading of the clock, or one of the last hints that were taken is related and has not expired. -/
theorem hint_match_iff (hix : ix.New) (calls : List Call) (host : Option String) (sourceIp : String) (now : ℚ) :
    let t := Traced.run ix calls
    let name := normaliseHost host
    let found := (t.ix.matchObserved host sourceIp now).2
    (found.hint.isSome = true ↔ name ≠ "" ∧
      ((∃ e ∈ t.history.read now, e.live = true ∧ e.hint.host = name) ∨
        ∃ hint ∈ t.history.hints.rtake (min scanLimit ix.maxHints),
          now < hint.expiresAt ∧ hostsMatch name hint.host = true)) ∧
    (∀ hint, found.hint = some hint → found.mode = .hint ∧ found.confidence = .high ∧ hint ∈ t.history.hints ∧
      now < hint.expiresAt ∧ hostsMatch name hint.host = true) ∧
    ((∀ call ∈ calls, call.now ≤ now) → ∀ e ∈ t.history.read now, e.live = true ↔ now < e.hint.expiresAt) := by
  intro t name found
  refine ⟨isSome_hint_iff hix, fun hint hhint => ?_, live_iff_of_latest⟩
  have hall := CorrelationIndex.matchObserved_hint hhint
  exact ⟨congrArg Attribution.mode hall, congrArg Attribution.confidence hall, hint_related hix hhint⟩

/-! ## A related hint behind 512 others -/

/-- A hint on a host, under an id of its own. -/
def announced (host : String) (n : ℕ) : Hint where
  hintId := String.ofList (List.replicate n 'x')
  ts := 0
  app := "shop"
  host := host
  expiresAt := 120

/-- One hint on the callback host, then one on another host for each place of the scan. -/
def crowd : List Hint := announced "oast.example" 512 :: (List.range 512).map (announced "cdn.example")

omit [Runtime] in
theorem ids_crowd : (crowd.map (·.hintId)).Nodup := by
  have hinj : Function.Injective fun n => String.ofList (List.replicate n 'x') := by
    intro m n h
    have := congrArg (fun s => s.toList.length) h
    simpa using this
  have hids : crowd.map (·.hintId) = (512 :: List.range 512).map fun n => String.ofList (List.replicate n 'x') := by
    rw [crowd, map_cons, map_map, map_cons]
    rfl
  rw [hids]
  exact List.Nodup.map hinj (nodup_cons.mpr ⟨by simp, nodup_range⟩)

/-- Hints with ids of their own are all taken. -/
theorem hints_run_adds {ix : CorrelationIndex} (hix : ix.New) (hints : List Hint)
    (hn : (hints.map (·.hintId)).Nodup) :
    (Traced.run ix (hints.map fun hint => .add hint 0)).history.hints = hints := by
  induction hints using List.reverseRecOn with
  | nil => rfl
  | append_singleton hints hint ih =>
    rw [map_append, nodup_append] at hn
    have hprev := ih hn.1
    have hkept := Traced.kept_run hix (hints.map fun hint => .add hint 0)
    rw [Traced.run] at hprev hkept ⊢
    rw [map_append, foldl_append]
    generalize (hints.map fun hint => Call.add hint 0).foldl Traced.step ⟨ix, []⟩ = t at hprev hkept
    have hnew : t.ix.seen.contains hint.hintId = false := by
      rw [Dict.contains, Option.isSome_eq_false_iff, Option.isNone_iff_eq_none, Dict.get?_eq_none_iff]
      intro hseen
      have hid := hkept.seen _ hseen
      rw [hprev] at hid
      exact hn.2.2 _ hid hint.hintId (mem_singleton.mpr rfl) rfl
    show (t.step (.add hint 0)).history.hints = _
    rw [Traced.step, CorrelationIndex.add_of_new hnew]
    show (History.read (t.history ++ [⟨hint, true⟩]) 0).hints = _
    rw [History.hints_read, History.hints, map_append]
    exact congrArg (· ++ [hint]) hprev

end Meets

/-- A subdomain of the host of a hint is met. -/
theorem hint_match_subdomain :
    let _ := Runtime.ascii
    ((Traced.run {} [.add (announced "oast.example" 0) 0]).ix.matchObserved (some "a.oast.example") "10.0.0.9"
      1).2.hint.isSome = true := by
  intro _
  have hnew : CorrelationIndex.New {} := ⟨rfl, rfl, rfl⟩
  have hhints : (Traced.run {} [.add (announced "oast.example" 0) 0]).history.hints = [announced "oast.example" 0] :=
    hints_run_adds hnew [announced "oast.example" 0] (nodup_singleton _)
  refine (hint_match_iff hnew [.add (announced "oast.example" 0) 0] (some "a.oast.example") "10.0.0.9" 1).1.mpr
    ⟨by decide, Or.inr ⟨announced "oast.example" 0, ?_, by norm_num [announced], by decide⟩⟩
  rw [hhints]
  exact mem_singleton.mpr rfl

/-- The related hint is indexed and has not expired, and is not found. -/
theorem crowd_hides_hint :
    let _ := Runtime.ascii
    let t := Traced.run {} (crowd.map fun hint => .add hint 0)
    (t.ix.matchObserved (some "a.oast.example") "10.0.0.9" 1).2.hint = none ∧
      ∃ hint ∈ t.history.hints, 1 < hint.expiresAt ∧ hostsMatch "a.oast.example" hint.host = true := by
  intro _ t
  have hhints : t.history.hints = crowd := hints_run_adds ⟨rfl, rfl, rfl⟩ crowd ids_crowd
  have hname : normaliseHost (some "a.oast.example") = "a.oast.example" := by decide
  have hlast : crowd.rtake (min scanLimit 20000) = (List.range 512).map (announced "cdn.example") := by
    rw [List.rtake, crowd, length_cons, length_map, length_range]
    rfl
  constructor
  · rw [← Option.not_isSome_iff_eq_none, isSome_hint_iff ⟨rfl, rfl, rfl⟩, hname]
    rintro ⟨-, ⟨e, he, -, hhost⟩ | ⟨hint, hmem, -, hrelated⟩⟩
    · have hin := (History.mem_read he).1
      rw [hhints] at hin
      rcases mem_cons.mp hin with heq | hin
      · rw [heq] at hhost
        exact absurd hhost (by decide)
      · obtain ⟨n, -, heq⟩ := mem_map.mp hin
        rw [← heq] at hhost
        exact absurd hhost (by decide : ¬ "cdn.example" = "a.oast.example")
    · rw [hhints, hlast] at hmem
      obtain ⟨n, -, rfl⟩ := mem_map.mp hmem
      exact absurd hrelated (by decide : ¬ hostsMatch "a.oast.example" "cdn.example" = true)
  · rw [hhints]
    exact ⟨announced "oast.example" 512, mem_cons_self, by norm_num [announced], by decide⟩

end PtaasBench.EdgeResolver
