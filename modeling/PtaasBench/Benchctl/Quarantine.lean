import PtaasBench.BenchCollector.App
import PtaasBench.BenchCollector.Signals
import PtaasBench.Benchctl.Funnel
import PtaasBench.Benchctl.Joins

/-!
# PtaasBench.Benchctl.Quarantine — signals the collector flagged, in the score

The collector sets `peer_missing` on a signal that reached it without a socket peer.  The scorer reads
such a signal like any other.
-/

namespace PtaasBench.Benchctl

open Py BenchCollector List

/-- A row of a signal event that the collector flagged. -/
structure FlaggedRow (d : Deployment) (e : SignalEvent) (row : StoredEvent) : Prop where
  peerless : Peerless d e
  stored : row.payload = payloadOf d e.toAnyEvent

/-- Does a signal event name this vulnerability, by its signal or by its id? -/
def Names (e : SignalEvent) (v : Vuln) : Prop :=
  (∃ name, e.signal = some name ∧ v.oracle.signal = some name) ∨ e.vulnId = some v.id

/-! ## How the scorer reads a flagged signal -/

section Reading

variable {d : Deployment} {e : SignalEvent} {row : StoredEvent}

/-- What the collector does not write, the scorer reads as it was sent. -/
theorem FlaggedRow.get? (h : FlaggedRow d e row) {k : String}
    (hk : k ∉ ["synthetic", "peer_missing", "seq", "received_at"]) :
    row.asDict.get? k = e.dump.get? k := by
  simp only [mem_cons, not_mem_nil, or_false, not_or] at hk
  obtain ⟨hsynthetic, hpeer, hseq, hreceived⟩ := hk
  rw [StoredEvent.asDict, Obj.get?_set_of_ne _ _ hreceived, Obj.get?_set_of_ne _ _ hseq, h.stored,
    get?_payloadOf d e (by simp [hsynthetic, hpeer])]

theorem FlaggedRow.get (h : FlaggedRow d e row) {k : String}
    (hk : k ∉ ["synthetic", "peer_missing", "seq", "received_at"]) :
    row.asDict.get k = e.dump.get k := by
  rw [Obj.get, Obj.get, h.get? hk]

theorem FlaggedRow.get_synthetic (h : FlaggedRow d e row) :
    row.asDict.get "synthetic" = .bool e.synthetic := by
  rw [StoredEvent.asDict, Obj.get_set_of_ne _ _ (by decide), Obj.get_set_of_ne _ _ (by decide),
    h.stored, get_synthetic_payloadOf, isSyntheticSource_of_peerless h.peerless, Bool.or_false]

variable [Runtime]

theorem asText_optionalText (keys : List String) {x : Option String}
    (h : ∀ s, x = some s → strip s = s ∧ s ≠ "") : asText keys (optionalText x) = x := by
  cases x with
  | none => rfl
  | some s =>
    obtain ⟨hstrip, hne⟩ := h s rfl
    show scalarText (.str s) = some s
    unfold scalarText
    rw [show (Json.str s).pyStr = s from rfl, hstrip, if_neg hne]

theorem eventFromDict_flagged (h : FlaggedRow d e row) :
    eventFromDict row.asDict = .trigger (triggerFromDict row.asDict) := by
  have hkind : eventKind row.asDict = "signal" := by
    unfold eventKind
    rw [h.get? (by decide), e.get_type]
    show (if e.type = "signal" ∨ e.type = "trigger" then "signal" else e.type) = "signal"
    have hspelling := e.spelling
    rw [mem_cons, mem_singleton] at hspelling
    rw [if_pos hspelling]
  unfold eventFromDict
  rw [hkind, if_neg (by decide), if_pos rfl]

theorem synthetic_flagged (h : FlaggedRow d e row) :
    (eventFromDict row.asDict).synthetic = e.synthetic := by
  rw [eventFromDict_flagged h]
  show asBool (row.asDict.get "synthetic") = e.synthetic
  rw [h.get_synthetic]
  rfl

theorem signal_flagged (h : FlaggedRow d e row) : (triggerFromDict row.asDict).signal = e.signal := by
  show asText ["name"] (row.asDict.get "signal") = e.signal
  rw [h.get (by decide), e.get_signal]
  apply asText_optionalText
  intro s hs
  exact ⟨strip_signal (e.signal_matches s hs), signal_ne_empty (e.signal_matches s hs)⟩

theorem vulnId_flagged (h : FlaggedRow d e row) :
    (triggerFromDict row.asDict).vulnId = e.vulnId.getD "" := by
  have hread : asText [] (row.asDict.get "vuln_id") = e.vulnId := by
    rw [h.get (by decide), e.get_vulnId]
    apply asText_optionalText
    intro s hs
    exact ⟨strip_vulnId (e.vulnId_matches s hs), vulnId_ne_empty (e.vulnId_matches s hs)⟩
  show textOr (asText [] (row.asDict.get "vuln_id")) "" = _
  rw [hread]
  unfold textOr
  split_ifs with hgiven
  · rfl
  · cases hid : e.vulnId with
    | none => rfl
    | some id =>
      rw [hid] at hgiven
      simp [given, vulnId_ne_empty (e.vulnId_matches id hid)] at hgiven

/-- A flagged signal matches the vulnerabilities it names, as if it were not flagged. -/
theorem matchedBy_flagged (h : FlaggedRow d e row) (v : Vuln) :
    (matchedBy v (triggerFromDict row.asDict)).isSome ↔ Names e v := by
  have hsignal : (given v.oracle.signal && e.signal = v.oracle.signal) = true ↔
      ∃ name, e.signal = some name ∧ v.oracle.signal = some name := by
    rw [Bool.and_eq_true, decide_eq_true_eq]
    constructor
    · rintro ⟨hgiven, heq⟩
      cases hv : v.oracle.signal with
      | none => simp [given, hv] at hgiven
      | some name => exact ⟨name, heq.trans hv, rfl⟩
    · rintro ⟨name, he, hv⟩
      rw [he, hv]
      exact ⟨by simp [given, signal_ne_empty (e.signal_matches name he)], rfl⟩
  have hid : e.vulnId.getD "" ≠ "" ∧ e.vulnId.getD "" = v.id ↔ e.vulnId = some v.id := by
    cases hv : e.vulnId with
    | none => simp
    | some id =>
      have hne := vulnId_ne_empty (e.vulnId_matches id hv)
      simp [hne]
  unfold matchedBy Names
  rw [signal_flagged h, vulnId_flagged h, ← hsignal, ← hid]
  by_cases hs : (given v.oracle.signal && e.signal = v.oracle.signal) = true
  · simp [hs]
  · by_cases hi : e.vulnId.getD "" ≠ "" ∧ e.vulnId.getD "" = v.id
    · simp [hs, hi]
    · simp only [hs, if_false, Bool.false_eq_true, false_or, Bool.and_eq_true, decide_eq_true_eq]
      rw [if_neg hi]
      simp [hi]

theorem rawSignal_flagged (h : FlaggedRow d e row) : rawSignal row.asDict = e.signal := by
  unfold rawSignal
  rw [h.get (by decide), e.get_signal]
  cases hs : e.signal with
  | none => rfl
  | some name =>
    have hne := signal_ne_empty (e.signal_matches name hs)
    simp [optionalText, Json.truthy, Json.pyStr, hne]

end Reading

/-! ## What one event adds to a score -/

section Credit

variable [Runtime]

/-- The verdict on a vulnerability when `score_vuln` is not shown an event; the callbacks stay
attributed as in the whole run. -/
def verdictWithout (s : Setting) (before : EventStream) (e : Event) (after : EventStream) (v : Vuln) :
    Outcome :=
  scoreVuln v (EventStream.scored (before ++ after))
    (attributedTo (attributions (EventStream.scored (before ++ e :: after)) s.catalog s.addresses) v.id)

/-- The vulnerability and the confidence a callback is attributed with in a run. -/
def callbackCredit (s : Setting) (stream : EventStream) (cb : OobEvent) : Option (String × Confidence) :=
  (attributeOob cb s.catalog (correlationIndex (EventStream.scored stream)) s.addresses).credit

/-- An event of a run credits the headline trigger of a vulnerability in scope: it is counted as a
proof of it, or it is what attributes a callback to it with high confidence. -/
def SignalCredits (s : Setting) (before : EventStream) (e : Event) (after : EventStream) (v : Vuln) : Prop :=
  let score := scoreRun s (before ++ e :: after)
  v ∈ score.inScope ∧
    ((outcomeOf score.outcomes v).trigger = true ∧
        (outcomeOf score.outcomes v).triggerEvents ≠ (verdictWithout s before e after v).triggerEvents ∨
      ∃ cb ∈ EventStream.oob (EventStream.scored (before ++ e :: after)),
        callbackCredit s (before ++ e :: after) cb = some (v.id, .high) ∧
          callbackCredit s (before ++ after) cb ≠ some (v.id, .high))

omit [Runtime] in
theorem triggerEvents_scoreTrigger (v : Vuln) (o : Outcome) (ev : TriggerEvent) :
    (scoreTrigger v o ev).triggerEvents =
      o.triggerEvents + if (matchedBy v ev).isSome then 1 else 0 := by
  unfold scoreTrigger
  cases matchedBy v ev <;> simp

theorem triggerEvents_scoreRequest (v : Vuln) (o : Outcome) (ev : HttpRequestEvent) :
    (scoreRequest v o ev).triggerEvents = o.triggerEvents := by
  cases h : requestReaches v ev with
  | false => rw [scoreRequest_of_not v o h]
  | true =>
    obtain ⟨sample, hs⟩ := scoreRequest_of_reaches v o h
    rw [hs]

omit [Runtime] in
theorem triggerEvents_scoreCallback (o : Outcome) (a : Attribution) :
    (scoreCallback o a).triggerEvents = o.triggerEvents + if true then 1 else 0 := by
  unfold scoreCallback
  cases a.confidence <;> rfl

/-- Every matching sink event and every attributed callback is counted. -/
theorem scoreVuln_triggerEvents (v : Vuln) (stream : EventStream) (atts : List Attribution) :
    (scoreVuln v stream atts).triggerEvents =
      (EventStream.triggers stream).countP (fun t => (matchedBy v t).isSome) + atts.length := by
  have hinfer : ∀ o, (inferReach o).triggerEvents = o.triggerEvents := fun o => by
    unfold inferReach
    split_ifs <;> rfl
  rw [scoreVuln, hinfer,
    Lib.foldl_countP Outcome.triggerEvents (fun o a => triggerEvents_scoreCallback o a),
    Lib.foldl_countP Outcome.triggerEvents (fun o t => triggerEvents_scoreTrigger v o t),
    Lib.foldl_frame Outcome.triggerEvents (fun o ev => triggerEvents_scoreRequest v o ev),
    countP_true, Nat.zero_add]

omit [Runtime] in
theorem scored_append (before after : EventStream) :
    EventStream.scored (before ++ after) = EventStream.scored before ++ EventStream.scored after :=
  filter_append ..

omit [Runtime] in
theorem scored_insert {e : Event} (he : e.synthetic = false) (before after : EventStream) :
    EventStream.scored (before ++ e :: after) =
      EventStream.scored before ++ e :: EventStream.scored after := by
  rw [scored_append, EventStream.scored, EventStream.scored, EventStream.scored,
    filter_cons_of_pos (by simp [he])]

omit [Runtime] in
theorem scored_synthetic {e : Event} (he : e.synthetic = true) (before after : EventStream) :
    EventStream.scored (before ++ e :: after) = EventStream.scored (before ++ after) := by
  rw [scored_append, scored_append, EventStream.scored, EventStream.scored, EventStream.scored,
    filter_cons_of_neg (by simp [he])]

/-! ## The join, with one registration more -/

/-- One registration more gives its own signal, or changes nothing. -/
theorem firstOn_insert (k : JoinKey) (before : EventStream) (r : Event) (after : EventStream)
    (cb : OobEvent) :
    firstOn k (before ++ r :: after) cb = rawSignal r.raw ∧ (rawSignal r.raw).isSome ∨
      firstOn k (before ++ r :: after) cb = firstOn k (before ++ after) cb := by
  unfold firstOn
  rw [List.find?_append, List.find?_append]
  cases List.find? (k.matchesOn cb) before with
  | some found => exact Or.inr rfl
  | none =>
    by_cases hr : k.matchesOn cb r = true
    · rw [List.find?_cons_of_pos hr]
      exact Or.inl ⟨rfl, (Bool.and_eq_true_iff.mp hr).1⟩
    · rw [List.find?_cons_of_neg hr]
      exact Or.inr rfl

theorem joinedSignal_insert (before : EventStream) (r : Event) (after : EventStream) (cb : OobEvent) :
    joinedSignal cb (correlationIndex (before ++ r :: after)) = rawSignal r.raw ∨
      joinedSignal cb (correlationIndex (before ++ r :: after)) =
        joinedSignal cb (correlationIndex (before ++ after)) := by
  rw [joinedSignal_eq_or, joinedSignal_eq_or]
  rcases firstOn_insert .requestId before r after cb with ⟨h, hsome⟩ | h
  · left
    rw [h, Option.or_of_isSome hsome]
  rw [h]
  cases firstOn .requestId (before ++ after) cb with
  | some signal => exact Or.inr rfl
  | none =>
    simp only [Option.none_or]
    rcases firstOn_insert .host before r after cb with ⟨h, hsome⟩ | h
    · left
      rw [h, Option.or_of_isSome hsome]
    rw [h]
    cases firstOn .host (before ++ after) cb with
    | some signal => exact Or.inr rfl
    | none =>
      simp only [Option.none_or]
      rcases firstOn_insert .suffix before r after cb with ⟨h, -⟩ | h
      · exact Or.inl h
      · exact Or.inr h

/-! ## The credit of a callback -/

omit [Runtime] in
theorem signal_of_lookup {catalog : Catalog} {signal : Option String} {v : Vuln}
    (h : lookupGiven catalog.bySignal signal = some v) :
    v ∈ catalog.vulns ∧ ∃ name, signal = some name ∧ v.oracle.signal = some name := by
  unfold lookupGiven at h
  split_ifs at h
  obtain ⟨name, rfl, hget⟩ := Option.bind_eq_some_iff.mp h
  obtain ⟨w, hw, hpair⟩ := mem_filterMap.mp (Dict.mem_of_get?_ofList hget)
  split_ifs at hpair
  obtain ⟨key, hkey, hpair⟩ := Option.map_eq_some_iff.mp hpair
  obtain ⟨rfl, rfl⟩ := Prod.mk.inj hpair
  exact ⟨hw, _, rfl, hkey⟩

theorem windowCredit_ne_high (s : Setting) (cb : OobEvent) (id : String) :
    windowCredit s cb ≠ some (id, .high) := by
  unfold windowCredit
  dsimp only
  split_ifs
  · split <;> simp
  · simp

/-- Credit that depends on the signal a callback is joined to goes to the owner of that signal. -/
theorem creditVia_joined {s : Setting} {cb : OobEvent} {signal signal' : Option String} {id : String}
    (h : creditVia s cb signal = some (id, .high)) (h' : creditVia s cb signal' ≠ some (id, .high)) :
    ∃ v ∈ s.catalog.vulns, v.id = id ∧ ∃ name, signal = some name ∧ v.oracle.signal = some name := by
  unfold creditVia at h h'
  dsimp only at h h'
  cases hown : (lookupGiven s.catalog.byToken (some cb.token)).or
      (lookupGiven s.catalog.bySignal cb.signal) with
  | some v =>
    rw [hown, Option.some_or] at h h'
    exact absurd h h'
  | none =>
    rw [hown, Option.none_or] at h h'
    cases hdeclared : lookupGiven s.catalog.byId cb.vulnId with
    | some v =>
      rw [hdeclared, Option.some_or] at h h'
      exact absurd h h'
    | none =>
      rw [hdeclared, Option.none_or] at h
      cases hjoined : lookupGiven s.catalog.bySignal signal with
      | none =>
        rw [hjoined] at h
        exact absurd h (windowCredit_ne_high s cb id)
      | some v =>
        rw [hjoined] at h
        obtain ⟨hid, -⟩ := Prod.mk.inj (Option.some.inj h)
        obtain ⟨hmem, hsignal⟩ := signal_of_lookup hjoined
        exact ⟨v, hmem, hid, hsignal⟩

omit [Runtime] in
theorem eq_of_id {catalog : Catalog} {v w : Vuln} (hv : v ∈ catalog.vulns) (hw : w ∈ catalog.vulns)
    (h : v.id = w.id) : v = w :=
  inj_on_of_nodup_map catalog.ids_nodup hv hw h

end Credit

/-! ## What a flagged signal credits -/

section Flagged

variable [Runtime] {d : Deployment} {e : SignalEvent} {row : StoredEvent}

theorem triggers_flagged (h : FlaggedRow d e row) (before after : EventStream) :
    EventStream.triggers (before ++ eventFromDict row.asDict :: after) =
      EventStream.triggers before ++ triggerFromDict row.asDict :: EventStream.triggers after := by
  rw [EventStream.triggers, filterMap_append, eventFromDict_flagged h, filterMap_cons]
  rfl

omit [Runtime] in
theorem triggers_append (before after : EventStream) :
    EventStream.triggers (before ++ after) = EventStream.triggers before ++ EventStream.triggers after :=
  filterMap_append ..

/-- A flagged signal credits exactly the vulnerabilities in scope that it names, unless it is the
platform's own. -/
theorem credits_flagged_iff (h : FlaggedRow d e row) (s : Setting) (before after : EventStream)
    (v : Vuln) :
    SignalCredits s before (eventFromDict row.asDict) after v ↔
      e.synthetic = false ∧
        v ∈ (scoreRun s (before ++ eventFromDict row.asDict :: after)).inScope ∧ Names e v := by
  have hsynthetic := synthetic_flagged h
  cases hs : e.synthetic with
  | true =>
    -- the scorer never sees it
    rw [hs] at hsynthetic
    simp only [SignalCredits, verdictWithout, callbackCredit, Bool.true_eq_false, false_and, iff_false]
    rintro ⟨hscope, hcount | ⟨cb, -, hwith, hwithout⟩⟩
    · rw [outcomeOf_scoreRun s _ hscope, scored_synthetic hsynthetic] at hcount
      exact hcount.2 rfl
    · rw [scored_synthetic hsynthetic] at hwith
      exact hwithout hwith
  | false =>
    rw [hs] at hsynthetic
    simp only [true_and, SignalCredits]
    refine and_congr_right fun hscope => ?_
    rw [outcomeOf_scoreRun s _ hscope, verdictWithout, scoreVuln_triggerEvents, scoreVuln_triggerEvents,
      scored_insert hsynthetic, scored_append, triggers_flagged h, triggers_append, countP_append,
      countP_append, countP_cons]
    have hmatch := matchedBy_flagged h v
    constructor
    · rintro (⟨-, hcount⟩ | ⟨cb, -, hwith, hwithout⟩)
      · by_contra hnames
        rw [if_neg (fun hm => hnames (hmatch.mp hm))] at hcount
        exact hcount rfl
      · -- the callback was joined to this signal
        rw [callbackCredit, credit_attributeOob, scored_insert hsynthetic] at hwith
        rw [callbackCredit, credit_attributeOob, scored_append] at hwithout
        obtain ⟨w, hw, hid, name, hname, hsignal⟩ := creditVia_joined hwith hwithout
        rcases joinedSignal_insert (EventStream.scored before) (eventFromDict row.asDict)
          (EventStream.scored after) cb with hjoin | hjoin
        · have hv : v ∈ s.catalog.vulns := mem_of_mem_filter hscope
          obtain rfl := eq_of_id hw hv hid
          rw [hjoin, raw_eventFromDict, rawSignal_flagged h] at hname
          exact Or.inl ⟨name, hname, hsignal⟩
        · rw [hjoin] at hwith
          exact absurd hwith hwithout
    · intro hnames
      left
      rw [if_pos (hmatch.mpr hnames), scoreVuln_trigger, highEvidence, triggers_flagged h,
        any_append, any_cons, hmatch.mpr hnames]
      refine ⟨by simp, ?_⟩
      omega

/-- The events of some rows, as the scorer reads their export. -/
def exported (rows : List StoredEvent) : EventStream := rows.map fun row => eventFromDict row.asDict

/-- A flagged signal among the stored events credits no headline trigger exactly if it is the
platform's own, or no vulnerability of the apps in scope has its signal or its id. -/
theorem flagged_quarantined_iff (h : FlaggedRow d e row) (s : Setting) (before after : List StoredEvent) :
    (∀ v, ¬ SignalCredits s (exported before) (eventFromDict row.asDict) (exported after) v) ↔
      e.synthetic = true ∨
        ∀ v ∈ s.catalog.vulns,
          v.app ∈ (scopeOf s (EventStream.scored (exported (before ++ row :: after)))).1 → ¬ Names e v := by
  have hstream : exported (before ++ row :: after) =
      exported before ++ eventFromDict row.asDict :: exported after := by
    rw [exported, map_append, map_cons]
    rfl
  have hscope : ∀ v, v ∈ (scoreRun s (exported (before ++ row :: after))).inScope ↔
      v ∈ s.catalog.vulns ∧
        v.app ∈ (scopeOf s (EventStream.scored (exported (before ++ row :: after)))).1 := fun v => by
    rw [inScope_scoreRun, mem_filter, decide_eq_true_eq]
  rw [hstream] at hscope ⊢
  constructor
  · intro hnone
    cases hs : e.synthetic with
    | true => exact Or.inl rfl
    | false =>
      right
      intro v hv happ hnames
      exact hnone v ((credits_flagged_iff h s _ _ v).mpr ⟨hs, (hscope v).mpr ⟨hv, happ⟩, hnames⟩)
  · intro hcond v hcredits
    obtain ⟨hs, hin, hnames⟩ := (credits_flagged_iff h s _ _ v).mp hcredits
    obtain ⟨hv, happ⟩ := (hscope v).mp hin
    rcases hcond with htrue | hnot
    · rw [hs] at htrue
      exact absurd htrue (by simp)
    · exact hnot v hv happ hnames

end Flagged

end PtaasBench.Benchctl

/-! ## A background job of a shop -/

namespace PtaasBench.Benchctl.Job

open Py BenchCollector List

/-- A sink that fired on a worker thread, where there is no request and no peer. -/
def jobSignal : SignalEvent where
  app := "shopfront"
  signal := some "shop.report.render"
  spelling := by decide
  vulnId_matches := by simp
  signal_matches := by
    rintro name ⟨⟩
    decide +kernel
  identified := rfl
  extra_undeclared := by simp
  distinct := ⟨by decide, by simp [dumpSignal, DistinctFields, optionalText, Json.Distinct]⟩

/-- The schema, for that event. -/
def validateJob : Json → Option AnyEvent
  | .obj [("type", .str "signal"), ("app", .str "shopfront"), ("signal", .str "shop.report.render")] =>
    some jobSignal.toAnyEvent
  | _ => none

def deployment : Deployment := { Notes.deployment with validateEvent := validateJob }

def jobBody : String :=
  "\x7b\"events\": [\x7b\"type\": \"signal\", \"app\": \"shopfront\", \"signal\": \"shop.report.render\"\x7d]\x7d"

/-- The rows of a run in which the job reported once. -/
def rows : List StoredEvent :=
  (run deployment (initial deployment)
    (Notes.openFirst ++ [Notes.post jobBody, .writerTake, .writerDone true])).rows

def reportVuln (signal : String) : Vuln where
  id := "BENCH-SHOP-0001"
  app := "shopfront"
  entrypoint := { method := "POST", path := "/report" }
  oracle := { kind := "signal", signal := some signal }

def setting (signal : String) : Setting where
  catalog := { vulns := [reportVuln signal], ids_nodup := by simp }
  apps := ["shopfront"]

theorem validateJob_eq {item : Json} {event : AnyEvent} (h : validateJob item = some event) :
    event = jobSignal.toAnyEvent := by
  unfold validateJob at h
  split at h
  · exact (Option.some.inj h).symm
  · exact absurd h (by simp)

theorem rows_stored :
    rows.map (fun row => (row.type, (row.asDict.get "peer_missing").truthy)) = [("signal", true)] := by
  decide +kernel

theorem rows_flagged : ∃ row, rows = [row] ∧ FlaggedRow deployment jobSignal row := by
  obtain ⟨row, hrow, htype⟩ := map_eq_singleton_iff.mp rows_stored
  have hsignal : row.type ∈ ["signal", "trigger"] := by
    rw [(Prod.mk.inj htype).1]
    exact mem_cons_self
  have hmem : row ∈ rows := hrow ▸ mem_singleton.mpr rfl
  obtain ⟨item, event, hvalid, -, hstored⟩ := fromSignal_rows _ row hmem hsignal
  obtain rfl := validateJob_eq hvalid
  exact ⟨row, hrow, rfl, hstored⟩

theorem scope_setting (signal : String) (scored : EventStream) :
    "shopfront" ∈ (scopeOf (setting signal) scored).1 := by
  have hkept : ∀ p : String → Bool, "shopfront" ∈
      (if ["shopfront"].filter p = [] then ["shopfront"] else ["shopfront"].filter p) := by
    intro p
    by_cases hp : p "shopfront" = true
    · simp [hp]
    · simp [hp]
  unfold scopeOf
  rw [if_pos (show (setting signal).apps ≠ [] from cons_ne_nil _ _)]
  exact hkept fun app => app ∈ (setting signal).catalog.apps

/-- The collector flags the only event of the run, and the score counts it as proof. -/
theorem flagged_job_credits :
    let _ := Runtime.ascii
    let score := scoreRun (setting "shop.report.render") (exported rows)
    rows.map (fun row => (row.type, (row.asDict.get "peer_missing").truthy)) = [("signal", true)] ∧
      score.outcomes.items.map (fun o => (o.1, o.2.trigger, o.2.triggerEvents)) =
        [("BENCH-SHOP-0001", true, 1)] ∧
      ¬ ∀ row ∈ rows, FlaggedRow deployment jobSignal row →
        ∀ v, ¬ SignalCredits (setting "shop.report.render") [] (eventFromDict row.asDict) [] v := by
  intro rt score
  refine ⟨rows_stored, by decide +kernel, fun hnone => ?_⟩
  obtain ⟨row, hrows, hflagged⟩ := rows_flagged
  refine hnone row (by rw [hrows]; exact mem_singleton.mpr rfl) hflagged
    (reportVuln "shop.report.render") ((credits_flagged_iff hflagged _ [] [] _).mpr ⟨rfl, ?_, ?_⟩)
  · rw [inScope_scoreRun, mem_filter, decide_eq_true_eq]
    refine ⟨mem_singleton.mpr rfl, ?_⟩
    exact scope_setting _ _
  · exact Or.inl ⟨_, rfl, rfl⟩

/-- A catalog without that signal: the job credits nothing. -/
theorem flagged_job_unknown :
    let _ := Runtime.ascii
    ∃ row, rows = [row] ∧
      ∀ v, ¬ SignalCredits (setting "shop.catalog.query") (exported []) (eventFromDict row.asDict)
        (exported []) v := by
  intro rt
  obtain ⟨row, hrows, hflagged⟩ := rows_flagged
  refine ⟨row, hrows, (flagged_quarantined_iff hflagged (setting "shop.catalog.query") [] []).mpr
    (Or.inr fun v hv _ => ?_)⟩
  obtain rfl := mem_singleton.mp hv
  rintro (⟨name, hname, hsignal⟩ | hid)
  · obtain rfl := Option.some.inj hname
    exact absurd (Option.some.inj hsignal) (by decide)
  · exact absurd hid (by simp [jobSignal])

end PtaasBench.Benchctl.Job
