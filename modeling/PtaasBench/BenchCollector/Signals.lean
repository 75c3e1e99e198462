import PtaasBench.BenchCollector.Accounting

/-!
# PtaasBench.BenchCollector.Signals — a planted sink fired (`schemas.py`, `SignalEvent`)

A validated signal event, and what `submit` makes of it.  The conversions pydantic tries on the sent
values happen before this; what it refuses is not a `SignalEvent`.
-/

namespace PtaasBench.BenchCollector

open Py

def isLowerAlnum (c : Char) : Bool := c.isLower || c.isDigit

/-- `SIGNAL_PATTERN`, `^[a-z][a-z0-9]*(\.[a-z0-9_]+){2,}$` -/
def signalPattern (s : String) : Bool :=
  s.toList.all (fun c => isLowerAlnum c || c = '_' || c = '.') &&
    match (splitChar '.' s).map String.toList with
    | (first :: rest) :: segments =>
      first.isLower && rest.all isLowerAlnum && 2 ≤ segments.length && segments.all (!·.isEmpty)
    | _ => false

/-- `VULN_ID_PATTERN`, `^BENCH-[A-Z0-9]+-[0-9]{4}$` -/
def vulnIdPattern (s : String) : Bool :=
  s.toList.all (fun c => c.isUpper || c.isDigit || c = '-') &&
    match (splitChar '-' s).map String.toList with
    | [prefixText, app, number] =>
      prefixText = "BENCH".toList && !app.isEmpty && number.length = 4 && number.all Char.isDigit
    | _ => false

theorem strip_signal {s : String} (h : signalPattern s = true) : strip s = s := by
  unfold signalPattern at h
  rw [Bool.and_eq_true] at h
  refine strip_of_visible h.1 fun c hc => isSpace_of_graphic ?_
  simp only [isLowerAlnum, Bool.or_eq_true, decide_eq_true_eq] at hc
  rcases hc with ((hc | hc) | rfl) | rfl
  · exact graphic_of_isLower hc
  · exact graphic_of_isDigit hc
  · decide
  · decide

theorem strip_vulnId {s : String} (h : vulnIdPattern s = true) : strip s = s := by
  unfold vulnIdPattern at h
  rw [Bool.and_eq_true] at h
  refine strip_of_visible h.1 fun c hc => isSpace_of_graphic ?_
  simp only [Bool.or_eq_true, decide_eq_true_eq] at hc
  rcases hc with (hc | hc) | rfl
  · exact graphic_of_isUpper hc
  · exact graphic_of_isDigit hc
  · decide

theorem signal_ne_empty {s : String} (h : signalPattern s = true) : s ≠ "" := by
  rintro rfl
  revert h
  decide

theorem vulnId_ne_empty {s : String} (h : vulnIdPattern s = true) : s ≠ "" := by
  rintro rfl
  revert h
  decide

def optionalText (x : Option String) : Json := x.elim .null .str

/-- The names of the fields `SignalEvent` declares. -/
def signalFields : List String :=
  ["app", "ts", "synthetic", "peer_ip", "client_ip", "type", "vuln_id", "signal", "attributes",
    "evidence"]

/-- `dump_event` of a signal event.  `attributes` and `evidence` are there only if they were sent. -/
def dumpSignal (app : String) (ts : Option FloatLit) (synthetic : Bool) (peerIp clientIp : Option String)
    (type : String) (vulnId signal : Option String) (attributes evidence : Option Json) (extra : Obj) :
    Obj :=
  [("app", .str app), ("ts", ts.elim .null .float), ("synthetic", .bool synthetic),
    ("peer_ip", optionalText peerIp), ("client_ip", optionalText clientIp), ("type", .str type),
    ("vuln_id", optionalText vulnId), ("signal", optionalText signal)] ++
    (attributes.toList.map fun x => ("attributes", x)) ++
    (evidence.toList.map fun x => ("evidence", x)) ++ extra

structure SignalEvent where
  app : String
  ts : Option FloatLit := none
  synthetic : Bool := false
  peerIp : Option String := none
  clientIp : Option String := none
  type : String := "signal"
  vulnId : Option String := none
  signal : Option String := none
  attributes : Option Json := none
  evidence : Option Json := none
  extra : Obj := []
  spelling : type ∈ ["signal", "trigger"]
  vulnId_matches : ∀ id, vulnId = some id → vulnIdPattern id = true
  signal_matches : ∀ name, signal = some name → signalPattern name = true
  /-- `_needs_an_identifier` -/
  identified : (vulnId.isSome || signal.isSome) = true
  extra_undeclared : ∀ f ∈ extra, f.1 ∉ signalFields
  distinct : (dumpSignal app ts synthetic peerIp clientIp type vulnId signal attributes evidence
    extra).Distinct

namespace SignalEvent

def dump (e : SignalEvent) : Obj :=
  dumpSignal e.app e.ts e.synthetic e.peerIp e.clientIp e.type e.vulnId e.signal e.attributes
    e.evidence e.extra

def toAnyEvent (e : SignalEvent) : AnyEvent where
  type := e.type
  app := e.app
  ts := e.ts.map FloatLit.value
  synthetic := e.synthetic
  ttl := none
  dump := e.dump
  distinct := e.distinct

theorem get_type (e : SignalEvent) : e.dump.get? "type" = some (.str e.type) := rfl

theorem get_signal (e : SignalEvent) : e.dump.get "signal" = optionalText e.signal := rfl

theorem get_vulnId (e : SignalEvent) : e.dump.get "vuln_id" = optionalText e.vulnId := rfl

end SignalEvent

/-! ## What is stored -/

/-- A signal whose reporter saw no socket peer: `submit` sets `peer_missing` on it. -/
def Peerless (d : Deployment) (e : SignalEvent) : Prop := peerAddress d e.dump = none

instance (d : Deployment) (e : SignalEvent) : Decidable (Peerless d e) :=
  inferInstanceAs (Decidable (peerAddress d e.dump = none))

section Stored

variable (d : Deployment) (e : SignalEvent)

theorem get?_payloadOf {k : String} (h : k ∉ ["synthetic", "peer_missing"]) :
    (payloadOf d e.toAnyEvent).get? k = e.dump.get? k := by
  simp only [List.mem_cons, List.not_mem_nil, or_false, not_or] at h
  unfold payloadOf
  split_ifs
  · rw [Obj.get?_set_of_ne _ _ h.2, Obj.get?_set_of_ne _ _ h.1]
    rfl
  · rw [Obj.get?_set_of_ne _ _ h.1]
    rfl

theorem get_synthetic_payloadOf :
    (payloadOf d e.toAnyEvent).get "synthetic" =
      .bool (e.synthetic || isSyntheticSource d e.dump) := by
  unfold payloadOf
  split_ifs
  · rw [Obj.get_set_of_ne _ _ (by decide), Obj.get_set_self]
    rfl
  · rw [Obj.get_set_self]
    rfl

variable {d e}

/-- Without a peer there is no network to recognise the platform by. -/
theorem isSyntheticSource_of_peerless (h : Peerless d e) : isSyntheticSource d e.dump = false := by
  unfold isSyntheticSource
  rw [show peerAddress d e.dump = none from h]
  rfl

end Stored

/-! ## Where stored signals come from -/

/-- What `submit` queues for a valid event that is a signal. -/
def FromSignal (d : Deployment) (q : QueuedEvent) : Prop :=
  q.type ∈ ["signal", "trigger"] →
    ∃ item event, d.validateEvent item = some event ∧ event.type = q.type ∧ q.payload = payloadOf d event

section Provenance

variable {d : Deployment}

theorem fromSignal_admission (draw : Draw) (peer : Option String) (s : Collector) (events : List Json) :
    ∀ q ∈ (admission d draw peer s events).accepted, FromSignal d q := by
  refine Lib.foldl_invariant (P := fun a : Admission => ∀ q ∈ a.accepted, FromSignal d q)
    (fun a item h => ?_) events.zipIdx fun q hq => absurd hq (by simp)
  unfold admitEvent
  split_ifs
  · exact h
  · split
    · exact h
    · rename_i event hvalid
      cases s.activeRunId with
      | none => exact h
      | some r =>
        intro q hq
        rcases List.mem_append.mp hq with hq | hq
        · exact h q hq
        · rw [List.mem_singleton.mp hq]
          intro htype
          refine ⟨item.1, event, hvalid, rfl, ?_⟩
          have hne : event.type ≠ "correlation" := by
            intro heq
            have htype : event.type ∈ ["signal", "trigger"] := htype
            rw [heq] at htype
            exact absurd htype (by decide)
          show (registered d draw peer item.2 a.correlations event).2 = payloadOf d event
          unfold registered
          rw [if_neg hne]

/-- A hint is not a signal. -/
theorem type_registerEntry (draw : Draw) (peer : Option String) (reg : CorrelationRegistry)
    (spec : CorrelationCreate) :
    Obj.get (registerEntry d draw peer reg spec).2 "type" = .str "correlation" := by
  unfold registerEntry
  rw [CorrelationRegistry.get_register _ _ _ _ _ _ (by decide)]
  have hstamp : (stampRegistrationPeer d (spec.record.set "type" (.str "correlation")) peer).get "type" =
      .str "correlation" := by
    rw [get_stampRegistrationPeer _ _ _ (by decide), Obj.get_set_self]
  split_ifs
  · rw [Obj.get_set_of_ne _ _ (by decide), hstamp]
  · exact hstamp

theorem fromSignal_intake (s : Collector) (op : Op) : ∀ q ∈ intake d s op, FromSignal d q := by
  cases op with
  | ingestEvents draw peer raw =>
    rw [intake]
    cases batchOf d raw with
    | none => exact fun q hq => absurd hq (by simp)
    | some events => exact fromSignal_admission draw peer s events
  | postCorrelation draw peer raw =>
    rw [intake]
    cases d.validateCorrelation raw with
    | none => exact fun q hq => absurd hq (by simp)
    | some spec =>
      intro q hq htype
      dsimp only at hq
      split_ifs at hq
      · exact absurd hq (by simp)
      · obtain ⟨r, -, rfl⟩ := List.mem_map.mp hq
        simp only [payloadItem, type_registerEntry] at htype
        exact absurd htype (by decide)
  | _ => exact fun q hq => absurd hq (by simp [intake])

theorem fromSignal_accepted (s : Collector) (ops : List Op) :
    ∀ e ∈ accepted d s ops, FromSignal d e.event := by
  induction ops generalizing s with
  | nil => exact fun e he => absurd he List.not_mem_nil
  | cons op ops ih =>
    intro e he
    rcases List.mem_append.mp he with he | he
    · obtain ⟨q, hq, rfl⟩ := List.mem_map.mp he
      exact fromSignal_intake s op q hq
    · exact ih _ e he

/-- A stored signal is a valid event, as `submit` writes it. -/
theorem fromSignal_rows (ops : List Op) :
    ∀ row ∈ (run d (initial d) ops).rows, FromSignal d row.toQueuedEvent := by
  obtain ⟨-, -, before, earlier, current, -, hearlier, hcurrent, -, hrows, -⟩ := run_accounted d ops
  intro row hrow
  rw [hrows, List.mem_filterMap] at hrow
  obtain ⟨⟨sub, outcome⟩, hsettled, hstored⟩ := hrow
  have hevent : row.toQueuedEvent = sub.event := by
    cases outcome with
    | stored seq => rw [← Option.some.inj hstored]
    | writeError => exact absurd hstored (by simp [storedRow])
  rw [hevent]
  have hsub : sub ∈ earlier.map Prod.fst ++ current.map Prod.fst := by
    rw [← List.map_append]
    obtain ⟨e, he, hfate⟩ := List.mem_filterMap.mp hsettled
    obtain ⟨o, -, hpair⟩ := Option.map_eq_some_iff.mp hfate
    exact List.mem_map.mpr ⟨e, he, congrArg Prod.fst hpair⟩
  rcases List.mem_append.mp hsub with hsub | hsub
  · rw [hearlier] at hsub
    exact fromSignal_accepted _ _ sub hsub
  · rw [hcurrent] at hsub
    exact fromSignal_accepted _ _ sub hsub

end Provenance

end PtaasBench.BenchCollector
