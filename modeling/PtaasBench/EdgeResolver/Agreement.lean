import PtaasBench.BenchCollector.App
import PtaasBench.BenchCollector.Schemas
import PtaasBench.Benchctl.Joins
import PtaasBench.EdgeResolver.Recorder
import PtaasBench.Py.JsonText

/-!
# PtaasBench.EdgeResolver.Agreement — what the scorer makes of a matched observation

The report of an observation travels through the collector and its export to the scorer.  Of the
hint it was matched to, the scorer's reader finds the mode only: signal and request id are inside
`attribution`, and the host is called `observed_host`.  What is left to credit a vulnerability by is
the identifier of the observation (`agrees_iff`).
-/

namespace PtaasBench.EdgeResolver

open Py BenchCollector Benchctl

/-- A reported observation as it is read back: the collector admitted the report to a run, and the
stored event is served as it is or decoded from a line of the harness's file. -/
inductive Exported (cfg : Config) (d : Deployment) (o : Observation) : Obj → Prop
  | served {draw : Draw} {peer : Option String} {runId : String} {a : Admission} {i : ℕ}
      (e : StoredEvent)
      (h : (admitEvent d draw peer (some runId) a (.obj (report cfg o), i)).accepted =
        a.accepted ++ [e.toQueuedEvent]) : Exported cfg d o e.asDict
  | filed {draw : Draw} {peer : Option String} {runId : String} {a : Admission} {i : ℕ}
      (e : StoredEvent)
      (h : (admitEvent d draw peer (some runId) a (.obj (report cfg o), i)).accepted =
        a.accepted ++ [e.toQueuedEvent]) : Exported cfg d o (sortedFields e.asDict)

/-- Fields that are filled in or converted on the way. -/
def altered : List String := ["ts", "synthetic", "raw", "seq", "received_at"]

section Transport

variable {cfg : Config} {d : Deployment} {o : Observation} {fields : Obj}

theorem payload_of_admitEvent {draw : Draw} {peer : Option String} {runId : String} {a : Admission}
    {item : Json × ℕ} {q : QueuedEvent}
    (h : (admitEvent d draw peer (some runId) a item).accepted = a.accepted ++ [q]) :
    ∃ event, d.validateEvent item.1 = some event ∧
      q.payload = (registered d draw peer item.2 a.correlations event).2 := by
  unfold admitEvent at h
  split_ifs at h with hover
  · exact absurd h (by simp)
  · split at h
    · exact absurd h (by simp)
    · rename_i event hevent
      have hq := List.append_cancel_left h
      exact ⟨event, hevent, by rw [← List.singleton_inj.mp hq]⟩

theorem get_asDict_of_admitEvent (hkeeps : KeepsCallbacks d) {draw : Draw} {peer : Option String}
    {runId : String} {a : Admission} {i : ℕ} {e : StoredEvent}
    (h : (admitEvent d draw peer (some runId) a (.obj (report cfg o), i)).accepted =
      a.accepted ++ [e.toQueuedEvent]) {k : String} (hk : k ∉ altered) :
    e.asDict.get k = (report cfg o).get k := by
  obtain ⟨event, hevent, hpayload⟩ := payload_of_admitEvent h
  obtain ⟨htype, hget⟩ := hkeeps _ _ hevent rfl
  simp only [altered, List.mem_cons, List.not_mem_nil, or_false, not_or] at hk
  obtain ⟨hts, hsynthetic, hraw, hseq, hreceived⟩ := hk
  rw [StoredEvent.asDict, Obj.get_set_of_ne _ _ hreceived, Obj.get_set_of_ne _ _ hseq, hpayload,
    registered, if_neg (by rw [htype]; decide), payloadOf, if_neg (by rw [htype]; simp),
    Obj.get_set_of_ne _ _ hsynthetic]
  exact hget k (by simp [hts, hsynthetic, hraw])

/-- What is neither filled in nor converted arrives, its keys possibly sorted. -/
theorem get_exported (hkeeps : KeepsCallbacks d) (he : Exported cfg d o fields) {k : String}
    (hk : k ∉ altered) :
    fields.get k = (report cfg o).get k ∨ fields.get k = sortKeys ((report cfg o).get k) := by
  cases he with
  | served e h => exact Or.inl (get_asDict_of_admitEvent hkeeps h hk)
  | filed e h =>
    rw [get_sortedFields (distinct_asDict e), get_asDict_of_admitEvent hkeeps h hk]
    exact Or.inr rfl

theorem get_exported_str (hkeeps : KeepsCallbacks d) (he : Exported cfg d o fields) {k s : String}
    (hk : k ∉ altered) (h : (report cfg o).get k = .str s) : fields.get k = .str s := by
  rcases get_exported hkeeps he hk with hget | hget <;> rw [hget, h]
  rfl

theorem get_exported_null (hkeeps : KeepsCallbacks d) (he : Exported cfg d o fields) {k : String}
    (hk : k ∉ altered) (h : (report cfg o).get k = .null) : fields.get k = .null := by
  rcases get_exported hkeeps he hk with hget | hget <;> rw [hget, h]
  rfl

/-- The attribution arrives as an object with the texts it was reported with. -/
theorem get_exported_attribution (hkeeps : KeepsCallbacks d) (he : Exported cfg d o fields) :
    ∃ attribution : Obj, fields.get "attribution" = .obj attribution ∧
      ∀ k s, o.attribution.get k = .str s → attribution.get k = .str s := by
  have hreport : (report cfg o).get "attribution" = .obj o.attribution := rfl
  cases he with
  | served e h =>
    exact ⟨o.attribution, (get_asDict_of_admitEvent hkeeps h (by decide)).trans hreport,
      fun _ _ hs => hs⟩
  | filed e h =>
    have hget := (get_asDict_of_admitEvent hkeeps h (by decide)).trans hreport
    have hdistinct : o.attribution.Distinct := by
      have := (distinct_asDict e).get "attribution"
      rwa [hget] at this
    refine ⟨sortedFields o.attribution, ?_, fun k s hs => ?_⟩
    · rw [get_sortedFields (distinct_asDict e), hget, sortKeys_obj]
    · rw [get_sortedFields hdistinct, hs]
      rfl

end Transport

/-! ## The callback the scorer sees -/

/-- `token`, as the scorer strips it. -/
def identifier (o : Observation) : String := strip (textOr o.token unidentified)

/-- A callback that names a vulnerability by its token only, and is not flagged as weak. -/
structure TokenOnly [Runtime] (token : String) (ev : OobEvent) : Prop where
  token : ev.token = token
  signal : ev.signal = none
  vulnId : ev.vulnId = none
  requestId : ev.requestId = none
  destinationHost : ev.destinationHost = none
  strong : isWeak ev = false

theorem mode_asJson {a : Attribution} : a.asJson.get "mode" = .str a.mode.text := by
  unfold Attribution.asJson
  cases a.hint with
  | none => rfl
  | some h => rfl

section Callback

variable [Runtime]

theorem asText_str (keys : List String) {s : String} (h : strip s ≠ "") :
    asText keys (.str s) = some (strip s) := by
  rw [asText, scalarText, Json.pyStr, if_neg h]

theorem textOr_asText_str (keys : List String) (s : String) :
    textOr (asText keys (.str s)) "" = strip s := by
  by_cases h : strip s = ""
  · rw [asText, scalarText, Json.pyStr, if_pos h, h]
    rfl
  · rw [asText_str keys h, textOr, if_pos (by simpa [given] using h), Option.getD_some]

theorem lower_of_ascii {s t : String} (h : IsAscii s) (ht : mapChars Char.toLower s = t) :
    lower s = t := (Runtime.lower_ascii s h).trans ht

theorem isWeak_eq_false {ev : OobEvent} (hlow : ev.lowConfidence = false)
    (hconfidence : ev.confidence = some "high") (hattribution : ev.attribution = some "hint") :
    isWeak ev = false := by
  have hhigh : lower (strip "high") = "high" :=
    lower_of_ascii (by decide) (by decide)
  have hhint : lower (strip "hint") = "hint" :=
    lower_of_ascii (by decide) (by decide)
  rw [isWeak, hlow, hconfidence, hattribution, Option.getD_some, Option.getD_some, hhigh, hhint]
  rfl

variable {cfg : Config} {d : Deployment} {o : Observation} {fields : Obj} {hint : Hint}

theorem tokenOnly_exported (hkeeps : KeepsCallbacks d) (hmatch : MatchedTo hint o)
    (he : Exported cfg d o fields) : TokenOnly (identifier o) (oobFromDict fields) := by
  have hnull : ∀ k ∉ altered, (report cfg o).get k = .null → fields.get k = .null :=
    fun k hk => get_exported_null hkeeps he hk
  obtain ⟨attribution, hattribution, hmode⟩ := get_exported_attribution hkeeps he
  obtain ⟨a, ha, -, hjson⟩ := hmatch.attribution
  have hhint : attribution.get "mode" = .str "hint" := by
    refine hmode "mode" "hint" ?_
    rw [hjson, mode_asJson, ha]
    rfl
  have hconfidence : fields.get "confidence" = .str "high" := by
    refine get_exported_str hkeeps he (by decide) ?_
    exact congrArg (fun l => Json.str (Level.text l)) hmatch.confidence
  have htoken : fields.get "token" = .str (textOr o.token unidentified) :=
    get_exported_str hkeeps he (by decide) rfl
  refine
    { token := ?_, signal := ?_, vulnId := ?_, requestId := ?_, destinationHost := ?_, strong := ?_ }
  · exact (congrArg (fun x => textOr (asText [] x) "") htoken).trans (textOr_asText_str [] _)
  · exact congrArg (asText []) (hnull "signal" (by decide) rfl)
  · exact congrArg (asText []) (hnull "vuln_id" (by decide) rfl)
  · exact congrArg (asText []) (hnull "request_id" (by decide) rfl)
  · simp only [oobFromDict, hnull "destination_host" (by decide) rfl, hnull "host" (by decide) rfl]
    rfl
  · refine isWeak_eq_false (congrArg asBool (hnull "low_confidence" (by decide) rfl)) ?_ ?_
    · refine (congrArg (asText ["level"]) hconfidence).trans ?_
      rw [asText_str _ (by decide)]
      rfl
    · have hne : attribution ≠ [] := by
        rintro rfl
        exact absurd hhint (by simp)
      have horElse : (fields.get "attribution").orElse (fields.get "attribution_kind") =
          .obj attribution := by
        rw [hattribution, Json.orElse, if_pos (by simpa [Json.truthy] using hne)]
      refine (congrArg (asText ["mode", "kind"]) horElse).trans ?_
      rw [asText, List.cons_append, firstText, hhint]
      rfl

/-- A guess by container and time window is never of high confidence. -/
theorem windowCredit_ne_high (s : Setting) (cb : OobEvent) (vulnId : String) :
    windowCredit s cb ≠ some (vulnId, .high) := by
  unfold windowCredit
  dsimp only
  split_ifs
  · split <;> simp
  · simp

/-- A callback that names a vulnerability by its token only is credited by it or not at all. -/
theorem credit_tokenOnly (s : Setting) (ix : Correlations) {token : String} {ev : OobEvent}
    (h : TokenOnly token ev) (vulnId : String) :
    (attributeOob ev s.catalog ix s.addresses).credit = some (vulnId, .high) ↔
      (lookupGiven s.catalog.byToken (some token)).map Vuln.id = some vulnId := by
  have hjoined : joinedSignal ev ix = none := by
    have hhost : signalForHost ev.destinationHost ix.1 = none := by
      rw [h.destinationHost, signalForHost, if_pos]
      exact lower_of_ascii (by decide) (by decide)
    rw [joinedSignal, h.requestId, hhost]
    rfl
  rw [credit_attributeOob, creditVia, hjoined, h.token, h.signal, h.vulnId, h.strong]
  cases lookupGiven s.catalog.byToken (some token) with
  | none => exact iff_of_false (windowCredit_ne_high s ev vulnId) (by simp)
  | some v => simp [lookupGiven, given]

theorem eventFromDict_exported (hkeeps : KeepsCallbacks d) (he : Exported cfg d o fields) :
    eventFromDict fields = .oob (oobFromDict fields) := by
  have htype : fields.get "type" = .str "oob" := get_exported_str hkeeps he (by decide) rfl
  have hkind : Benchctl.eventKind fields = "oob" := by
    unfold Benchctl.eventKind
    rw [Obj.get] at htype
    cases hget : fields.get? "type" with
    | none =>
      rw [hget] at htype
      exact absurd htype (by simp)
    | some x =>
      rw [hget, Option.getD_some] at htype
      subst htype
      exact if_neg (by simp [Json.pyStr])
  rw [eventFromDict, hkind]
  rfl

/-! ## The agreement -/

/-- The vulnerability that owns the signal of a hint. -/
def ownerOf (catalog : Catalog) (hint : Hint) : Option Vuln :=
  hint.signal.asStr?.bind catalog.bySignal.get?

/-- The scorer credits the event to the owner of the hint's signal, with high confidence. -/
def Agrees (s : Setting) (ix : Correlations) (hint : Hint) (fields : Obj) : Prop :=
  ∀ owner, ownerOf s.catalog hint = some owner →
    ∃ ev, eventFromDict fields = .oob ev ∧
      (attributeOob ev s.catalog ix s.addresses).credit = some (owner.id, .high)

theorem credited_iff (s : Setting) (ix : Correlations) (hkeeps : KeepsCallbacks d)
    (hresolved : Resolved cfg hint o) (he : Exported cfg d o fields) (vulnId : String) :
    (∃ ev, eventFromDict fields = .oob ev ∧
        (attributeOob ev s.catalog ix s.addresses).credit = some (vulnId, .high)) ↔
      (lookupGiven s.catalog.byToken (some (identifier o))).map Vuln.id = some vulnId := by
  rw [← credit_tokenOnly s ix (tokenOnly_exported hkeeps hresolved.matchedTo he),
    eventFromDict_exported hkeeps he]
  exact ⟨fun ⟨ev, hev, hcredit⟩ => Event.oob.inj hev ▸ hcredit, fun hcredit => ⟨_, rfl, hcredit⟩⟩

/-- **The scorer agrees with the resolver** exactly when the observation carries an identifier of the
same vulnerability. -/
theorem agrees_iff (s : Setting) (ix : Correlations) (hkeeps : KeepsCallbacks d)
    (hresolved : Resolved cfg hint o) (he : Exported cfg d o fields) :
    Agrees s ix hint fields ↔
      ∀ owner, ownerOf s.catalog hint = some owner →
        (lookupGiven s.catalog.byToken (some (identifier o))).map Vuln.id = some owner.id :=
  forall_congr' fun owner => imp_congr_right fun _ =>
    credited_iff s ix hkeeps hresolved he owner.id

end Callback

end PtaasBench.EdgeResolver

/-! ## A blind request of the shop -/

namespace PtaasBench.EdgeResolver.Shop

open Py BenchCollector Benchctl Benchctl.Shop BenchCollector.Notes

def validateCallback : Json → Option AnyEvent
  | .obj fields => if h : Obj.Distinct fields then validateOob fields h else none
  | _ => none

/-- A collector that takes callbacks only. -/
def callbacks : Deployment := { deployment with
  validateEvent := validateCallback
  parseAddress := Json.asStr? }

theorem keepsCallbacks : KeepsCallbacks callbacks := by
  intro fields event h _
  replace h : validateCallback (.obj fields) = some event := h
  rw [validateCallback] at h
  split_ifs at h
  exact validateOob_keeps h

def config : Config where
  isSyntheticSource _ := false
  clock now := FloatLit.ofInt ⌊now⌋

/-- The hint of a sink about to fetch `host`, as the collector lists it. -/
def pending (host : String) : Obj :=
  registration "shop.imports.fetch.external" "req-7" host ++
    [("client_ip", .str "172.20.0.4"), ("correlation_id", .str "c1"),
      ("registered_at", .float (FloatLit.ofInt 95)), ("expires_at", .float (FloatLit.ofInt 215))]

def hinted [Runtime] (host : String) : CorrelationIndex :=
  CorrelationIndex.addPayloads (fun _ => "") {} [pending host] 96

/-- The lookup of that host, four seconds later. -/
def observed [Runtime] (extraction : Extraction) (host : String) (ownedZone : Bool) : Observation :=
  (record config (hinted host) "dns" "172.30.1.7" extraction ("A " ++ host) (some host) []
    (some ownedZone) 100).2

/-- The hint that lookup is matched to. -/
def matched [Runtime] (host : String) : Option Hint :=
  ((hinted host).matchObserved (some host) "172.30.1.7" 100).2.hint

theorem resolved_observed [Runtime] (extraction : Extraction) {host : String} (ownedZone : Bool)
    {hint : Hint} (h : matched host = some hint) :
    Resolved config hint (observed extraction host ownedZone) :=
  .record _ _ _ _ _ h

/-- The collector's answer to the report: what it queues for the run. -/
def accepted (o : Observation) : List QueuedEvent :=
  (admitEvent callbacks draw none (some "r1")
    { correlations := (initial callbacks).correlations, counters := {} }
    (.obj (report config o), 0)).accepted

theorem exported_of_length {o : Observation} (h : (accepted o).length = 1) :
    ∃ fields, Exported config callbacks o fields := by
  obtain ⟨q, hq⟩ := List.length_eq_one_iff.mp h
  exact ⟨_, .served { q with seq := 1 } hq⟩

/-- A callback to a host of the tool's own: the resolver is sure of the sink, and the scorer credits
nothing. -/
theorem foreign_host_not_credited :
    ∃ hint o fields,
      @Resolved Runtime.ascii config hint o ∧ Exported config callbacks o fields ∧
        (ownerOf setting.catalog hint).map Vuln.id = some "BENCH-SHOP-0031" ∧
        ¬ @Agrees Runtime.ascii setting
          (@correlationIndex Runtime.ascii
            [@eventFromDict Runtime.ascii (pending "9zk.oast.fun")]) hint fields := by
  let _ := Runtime.ascii
  obtain ⟨owner, hbind, hid⟩ := Option.map_eq_some_iff.mp (show ((matched "9zk.oast.fun").bind
    (ownerOf setting.catalog)).map Vuln.id = some "BENCH-SHOP-0031" by decide +kernel)
  obtain ⟨hint, hhint, howner⟩ := Option.bind_eq_some_iff.mp hbind
  have hresolved := resolved_observed { candidate := some "9zk" } false hhint
  obtain ⟨fields, he⟩ := exported_of_length
    (o := observed { candidate := some "9zk" } "9zk.oast.fun" false) (by decide +kernel)
  refine ⟨hint, _, fields, hresolved, he, by rw [howner, Option.map_some, hid], fun hagrees => ?_⟩
  have hcredited := (credited_iff setting _ keepsCallbacks hresolved he owner.id).mp
    (hagrees owner howner)
  rw [hid] at hcredited
  revert hcredited
  decide

/-- The importer, with a label under the resolver's own zone. -/
def labelled : Setting where
  catalog :=
    { vulns :=
        [{ fetchVuln with
            oracle := { fetchVuln.oracle with canaryToken := some "shop0031" } }]
      ids_nodup := by decide }

theorem owned_label_credited :
    ∃ hint o fields,
      @Resolved Runtime.ascii config hint o ∧ Exported config callbacks o fields ∧
        (ownerOf labelled.catalog hint).map Vuln.id = some "BENCH-SHOP-0031" ∧
        @Agrees Runtime.ascii labelled (Dict.empty, Dict.empty) hint fields := by
  let _ := Runtime.ascii
  obtain ⟨owner, hbind, hid⟩ := Option.map_eq_some_iff.mp
    (show ((matched "shop0031.telemetry-edge.net").bind (ownerOf labelled.catalog)).map Vuln.id =
      some "BENCH-SHOP-0031" by decide +kernel)
  obtain ⟨hint, hhint, howner⟩ := Option.bind_eq_some_iff.mp hbind
  have hresolved := resolved_observed { token := some "shop0031", source := some "dns_label" } true
    hhint
  obtain ⟨fields, he⟩ := exported_of_length
    (o := observed { token := some "shop0031", source := some "dns_label" }
      "shop0031.telemetry-edge.net" true) (by decide +kernel)
  refine ⟨hint, _, fields, hresolved, he, by rw [howner, Option.map_some, hid], ?_⟩
  refine (agrees_iff labelled _ keepsCallbacks hresolved he).mpr fun owner' howner' => ?_
  rw [Option.some.inj (howner'.symm.trans howner), hid]
  decide

end PtaasBench.EdgeResolver.Shop
