import PtaasBench.Runners.Collector

/-!
# PtaasBench.Runners.Budget — the request counter beside a running collector

A `Turn` is one operation of the collector or one pass of the loop of `count_http_requests`.  The
client has always counted the requests of a first part of the run, the part up to its cursor
(`CountsUpTo`).
-/

namespace PtaasBench.Runners

open Py Lib BenchCollector

/-- A collector, its client, and the call of `count_http_requests` in progress. -/
structure Metering where
  collector : Collector
  client : CollectorClient := {}
  poll : Option Poll := none

inductive Turn where
  | collector (op : Op)
  /-- `count_http_requests` is called. -/
  | poll (runId : String) (page : ℕ)
  /-- One pass of its loop; the status of the response may be an error. -/
  | request (ok : Bool)
  /-- The response cannot be read, and the call raises. -/
  | abort

/-- What the call in progress asks for. -/
def Poll.response (p : Poll) (s : Collector) : Option PageBody :=
  BenchCollector.exportEvents p.runId (some "http_request") (some p.seq) p.page s

def Metering.step (d : Deployment) (m : Metering) : Turn → Metering
  | .collector op => { m with collector := BenchCollector.step d m.collector op }
  | .poll runId page =>
    match m.poll with
    | none => { m with poll := some (m.client.beginPoll runId page) }
    | some _ => m
  | .request ok =>
    match m.poll with
    | none => m
    | some p =>
      let r := p.request (if ok then p.response m.collector else none)
      if r.2 then { m with client := m.client.save r.1, poll := none } else { m with poll := some r.1 }
  | .abort => { m with poll := none }

/-! ## What has been counted -/

/-- Is this a request of the run that the platform did not make itself? -/
def isOrganicRequest (runId : String) (e : StoredEvent) : Bool :=
  inView runId (some "http_request") e && !e.synthetic

/-- The total counts the requests of the run up to the cursor. -/
def CountsUpTo (s : Collector) (runId : String) (seq : ℤ) (total : ℕ) : Prop :=
  ∃ read, read <+: view s.rows runId (some "http_request") ∧
    seq = cursorOf StoredEvent.seq read ∧ total = read.countP fun e => !e.synthetic

section Counts

variable {d : Deployment} {s : Collector} {runId : String} {seq : ℤ} {total : ℕ}

theorem countsUpTo_zero (s : Collector) (runId : String) : CountsUpTo s runId 0 0 :=
  ⟨[], List.nil_prefix, rfl, rfl⟩

/-- New rows do not change what has been counted. -/
theorem CountsUpTo.mono {s' : Collector} (h : CountsUpTo s runId seq total)
    (hrows : s.rows <+: s'.rows) : CountsUpTo s' runId seq total := by
  obtain ⟨read, hread, hseq, htotal⟩ := h
  exact ⟨read, hread.trans (view_mono hrows runId _), hseq, htotal⟩

/-- Counting by the cursor, in terms of the rows. -/
theorem CountsUpTo.total_eq (h : CountsUpTo s runId seq total) (hs : Reachable d s) :
    total = s.rows.countP fun e => isOrganicRequest runId e && (e.seq : ℤ) ≤ seq := by
  obtain ⟨read, ⟨rest, hread⟩, rfl, rfl⟩ := h
  have hnum := hs.numbered runId (some "http_request")
  rw [← hread] at hnum
  have hfilter := filter_le_cursorOf hnum
  rw [hread, view, List.filter_filter] at hfilter
  conv_lhs => rw [← hfilter, List.countP_filter]
  refine List.countP_congr fun e _ => ?_
  rw [isOrganicRequest]
  simp only [Bool.and_eq_true, Bool.not_eq_true', decide_eq_true_eq, Nat.cast_le]
  tauto

theorem organic_map_asDict (page : List StoredEvent) :
    organic (page.map StoredEvent.asDict) = page.countP fun e => !e.synthetic := by
  rw [organic, List.countP_map]
  refine List.countP_congr fun e _ => ?_
  rw [Function.comp_apply, synthetic_asDict]

/-- A page that is counted continues the count. -/
theorem countsUpTo_count {p : Poll} (h : CountsUpTo s p.runId p.seq p.total)
    (hs : Reachable d s) {body : PageBody} (hbody : p.response s = some body) :
    CountsUpTo s p.runId (p.count body).seq (p.count body).total ∧
      p.seq ≤ (p.count body).seq ∧ p.total ≤ (p.count body).total := by
  obtain ⟨read, hread, hseq, htotal⟩ := h
  have hnum := hs.numbered p.runId (some "http_request")
  have hresponse : BenchCollector.exportEvents p.runId (some "http_request")
      ((some (cursorOf StoredEvent.seq read)).map Int.ofNat) p.page s = some body := by
    rw [← hbody, Poll.response, hseq]
    rfl
  obtain ⟨-, rfl⟩ := exportEvents_eq p.runId (some "http_request") hnum _ hresponse
  obtain ⟨hpre, -⟩ := read_page hnum hread p.page
  rw [Option.getD_some]
  generalize pageAfter StoredEvent.seq (view s.rows p.runId (some "http_request"))
    (cursorOf StoredEvent.seq read) p.page = page at hpre
  have hnum' : Numbered StoredEvent.seq (read ++ page) := hnum.sublist hpre.sublist
  have hseq' : (p.count (pageBody page)).seq = cursorOf StoredEvent.seq (read ++ page) := by
    show seeNext ((page.map StoredEvent.asDict).foldl seeEvent p.seq) (pageBody page).nextSeq = _
    rw [hseq, foldl_seeEvent hnum', seeNext_pageBody]
  have htotal' : (p.count (pageBody page)).total =
      (read ++ page).countP fun e => !e.synthetic := by
    show p.total + organic (page.map StoredEvent.asDict) = _
    rw [organic_map_asDict, List.countP_append, htotal]
  refine ⟨⟨read ++ page, hpre, hseq', htotal'⟩, ?_, Nat.le_add_right _ _⟩
  rw [hseq', hseq, Nat.cast_le]
  exact cursorOf_le_append hnum'

end Counts

/-! ## Whole runs -/

namespace CollectorClient

/-- The cursor the last call for a run ended on. -/
def cursor (c : CollectorClient) (runId : String) : ℤ := c.seqCursor.getD runId 0

/-- The total the last call for a run returned. -/
def total (c : CollectorClient) (runId : String) : ℕ := c.requestCounts.getD runId 0

theorem cursor_save (c : CollectorClient) (p : Poll) (runId : String) :
    (c.save p).cursor runId = if runId = p.runId then p.seq else c.cursor runId :=
  Dict.getD_set ..

theorem total_save (c : CollectorClient) (p : Poll) (runId : String) :
    (c.save p).total runId = if runId = p.runId then p.total else c.total runId :=
  Dict.getD_set ..

end CollectorClient

/-- The client and the call in progress have counted exactly, and the call is not behind. -/
structure Metered (d : Deployment) (m : Metering) : Prop where
  reachable : Reachable d m.collector
  saved : ∀ runId, CountsUpTo m.collector runId (m.client.cursor runId) (m.client.total runId)
  poll : ∀ p ∈ m.poll, CountsUpTo m.collector p.runId p.seq p.total ∧
    m.client.cursor p.runId ≤ p.seq ∧ m.client.total p.runId ≤ p.total

/-- Cursors and totals have not gone back. -/
def Advances (m m' : Metering) : Prop :=
  ∀ runId, m.client.cursor runId ≤ m'.client.cursor runId ∧
    m.client.total runId ≤ m'.client.total runId

section Runs

variable {d : Deployment} {m : Metering}

theorem advances_refl (m : Metering) : Advances m m := fun _ => ⟨le_refl _, le_refl _⟩

theorem advances_trans (m m' m'' : Metering) (h : Advances m m') (h' : Advances m' m'') :
    Advances m m'' := fun runId =>
  ⟨(h runId).1.trans (h' runId).1, (h runId).2.trans (h' runId).2⟩

/-- A call that is not behind is saved. -/
theorem metered_save (h : Metered d m) {p : Poll}
    (hp : CountsUpTo m.collector p.runId p.seq p.total ∧
      m.client.cursor p.runId ≤ p.seq ∧ m.client.total p.runId ≤ p.total) :
    Metered d { m with client := m.client.save p, poll := none } ∧
      Advances m { m with client := m.client.save p, poll := none } := by
  refine ⟨⟨h.reachable, fun runId => ?_, fun q hq => absurd hq (by simp)⟩, fun runId => ?_⟩
  · dsimp only
    rw [CollectorClient.cursor_save, CollectorClient.total_save]
    split_ifs with hid
    · rw [hid]
      exact hp.1
    · exact h.saved runId
  · dsimp only
    rw [CollectorClient.cursor_save, CollectorClient.total_save]
    split_ifs with hid
    · rw [hid]
      exact hp.2
    · exact ⟨le_refl _, le_refl _⟩

theorem metered_request (h : Metered d m) (ok : Bool) :
    Metered d (m.step d (.request ok)) ∧ Advances m (m.step d (.request ok)) := by
  unfold Metering.step
  cases hpoll : m.poll with
  | none => exact ⟨h, advances_refl m⟩
  | some p =>
    obtain ⟨hcounts, hcursor, htotal⟩ := h.poll p hpoll
    dsimp only
    cases hresponse : (if ok then p.response m.collector else none) with
    | none => exact metered_save h ⟨hcounts, hcursor, htotal⟩
    | some body =>
      have hbody : p.response m.collector = some body := by
        cases ok with
        | true => exact hresponse
        | false => exact absurd hresponse (by simp)
      obtain ⟨hcounts', hseq, htotal'⟩ := countsUpTo_count hcounts h.reachable hbody
      have hp : CountsUpTo m.collector (p.count body).runId (p.count body).seq
          (p.count body).total ∧ m.client.cursor (p.count body).runId ≤ (p.count body).seq ∧
          m.client.total (p.count body).runId ≤ (p.count body).total :=
        ⟨hcounts', hcursor.trans hseq, htotal.trans htotal'⟩
      rw [Poll.request]
      split_ifs
      · exact metered_save h hp
      · refine ⟨⟨h.reachable, h.saved, fun q hq => ?_⟩, advances_refl m⟩
        rw [← Option.some.inj hq]
        exact hp

theorem metered_step (h : Metered d m) (turn : Turn) :
    Metered d (m.step d turn) ∧ Advances m (m.step d turn) := by
  cases turn with
  | collector op =>
    have hrows := rows_prefix_step d m.collector op
    refine ⟨⟨h.reachable.step op, fun runId => (h.saved runId).mono hrows, fun p hp => ?_⟩,
      advances_refl m⟩
    obtain ⟨hcounts, hle⟩ := h.poll p hp
    exact ⟨hcounts.mono hrows, hle⟩
  | poll runId page =>
    unfold Metering.step
    cases hpoll : m.poll with
    | some p => exact ⟨h, advances_refl m⟩
    | none =>
      refine ⟨⟨h.reachable, h.saved, fun p hp => ?_⟩, advances_refl m⟩
      rw [← Option.some.inj hp]
      exact ⟨h.saved runId, le_refl _, le_refl _⟩
  | request ok => exact metered_request h ok
  | abort => exact ⟨⟨h.reachable, h.saved, fun p hp => absurd hp (by simp [Metering.step])⟩,
      advances_refl m⟩

theorem metered_initial (d : Deployment) : Metered d { collector := initial d } :=
  ⟨⟨[], rfl⟩, fun runId => countsUpTo_zero _ runId, fun p hp => absurd hp (by simp)⟩

theorem metered_run (h : Metered d m) (turns : List Turn) :
    Metered d (Lib.run (Metering.step d) m turns) :=
  run_invariant _ h (fun _ turn h => (metered_step h turn).1) turns

theorem advances_run (h : Metered d m) (turns : List Turn) :
    Advances m (Lib.run (Metering.step d) m turns) :=
  run_rel _ advances_refl advances_trans (fun _ turn h => (metered_step h turn).1)
    (fun _ turn h => (metered_step h turn).2) h turns

/-- No turn takes a row away. -/
theorem rows_prefix_turn (d : Deployment) (m : Metering) (turn : Turn) :
    m.collector.rows <+: (m.step d turn).collector.rows := by
  cases turn with
  | collector op => exact rows_prefix_step d m.collector op
  | poll runId page =>
    unfold Metering.step
    cases m.poll <;> exact List.prefix_refl _
  | request ok =>
    unfold Metering.step
    cases m.poll with
    | none => exact List.prefix_refl _
    | some p =>
      dsimp only
      split_ifs <;> exact List.prefix_refl _
  | abort => exact List.prefix_refl _

theorem rows_prefix_turns (d : Deployment) (m : Metering) (turns : List Turn) :
    m.collector.rows <+: (Lib.run (Metering.step d) m turns).collector.rows :=
  run_rel _ (R := fun m m' : Metering => m.collector.rows <+: m'.collector.rows)
    (P := fun _ => True) (fun m => List.prefix_refl m.collector.rows)
    (fun _ _ _ h h' => h.trans h') (fun _ _ _ => trivial)
    (fun m turn _ => rows_prefix_turn d m turn) trivial turns

/-- Counting up to a later cursor, in two parts. -/
theorem countP_cursor_split (rows : List StoredEvent) (p : StoredEvent → Bool) {c c' : ℤ}
    (hc : c ≤ c') : rows.countP (fun e => p e && e.seq ≤ c') =
      rows.countP (fun e => p e && e.seq ≤ c) +
        rows.countP fun e => p e && (c < e.seq && e.seq ≤ c') := by
  induction rows with
  | nil => rfl
  | cons e rows ih =>
    rw [List.countP_cons, List.countP_cons, List.countP_cons, ih]
    cases p e with
    | false => rfl
    | true =>
      simp only [Bool.true_and, Bool.and_eq_true, decide_eq_true_eq]
      split_ifs <;> omega

end Runs

/-- **The request counter is exact.**  Whatever the collector does between the requests, the total
of a run is the number of its requests up to the cursor; what later calls add is the number of
those between the old cursor and the new one. -/
theorem countHttpRequests_exact (d : Deployment) (turns later : List Turn) (runId : String) :
    let m := Lib.run (Metering.step d) { collector := initial d } turns
    let m' := Lib.run (Metering.step d) m later
    m.client.total runId = m.collector.rows.countP
        (fun e => isOrganicRequest runId e && e.seq ≤ m.client.cursor runId) ∧
      m.client.cursor runId ≤ m'.client.cursor runId ∧
      m'.client.total runId = m.client.total runId + m'.collector.rows.countP
        (fun e => isOrganicRequest runId e && (m.client.cursor runId < e.seq &&
          e.seq ≤ m'.client.cursor runId)) := by
  intro m m'
  have hm : Metered d m := metered_run (metered_initial d) turns
  have hm' : Metered d m' := metered_run hm later
  have hadvances : Advances m m' := advances_run hm later
  refine ⟨(hm.saved runId).total_eq hm.reachable, (hadvances runId).1, ?_⟩
  have hold := ((hm.saved runId).mono (rows_prefix_turns d m later)).total_eq hm'.reachable
  have hnew := (hm'.saved runId).total_eq hm'.reachable
  rw [hold, hnew]
  exact countP_cursor_split m'.collector.rows (isOrganicRequest runId) (hadvances runId).1

end PtaasBench.Runners
