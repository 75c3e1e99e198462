import Mathlib.Data.List.Sort
import PtaasBench.Benchctl.Funnel
import PtaasBench.Benchctl.Joins
import PtaasBench.Lib.FirstMatch

/-!
# PtaasBench.Benchctl.Order — when the order of the events does not matter

Requests, sink events and the keys of the callbacks are read as sets.  What depends on the order is
which of several registrations on one key a callback is joined to: the first.  `Settled` says when
this choice cannot change the credit of a vulnerability, and `orderIndependent_iff` that nothing
else is needed.
-/

namespace PtaasBench.Benchctl

open Py Lib

/-- What the score reports of one vulnerability: the four axes and the low-confidence flag. -/
def Outcome.verdict (o : Outcome) : (Axis → Option Bool) × Bool := (o.axis, o.triggerLowConfidence)

variable [Runtime]

/-- Is there evidence of one confidence for `v`?  A sink event counts as high. -/
def evidence (s : Setting) (v : Vuln) (c : Confidence) (stream : EventStream) : Bool :=
  (c = .high && (EventStream.triggers stream).any fun t => (matchedBy v t).isSome) ||
    (EventStream.oob stream).any fun cb => creditIn s stream cb = some (v.id, c)

section Verdict

variable (s : Setting) (v : Vuln)

theorem highEvidence_eq (stream : EventStream) :
    highEvidence v stream (attributedTo (attributions stream s.catalog s.addresses) v.id) =
      evidence s v .high stream := by
  rw [highEvidence, any_attributedTo]
  simp [evidence]

theorem lowEvidence_eq (stream : EventStream) :
    lowEvidence (attributedTo (attributions stream s.catalog s.addresses) v.id) =
      evidence s v .low stream := by
  rw [lowEvidence, any_attributedTo]
  simp [evidence]

theorem verdict_scoreVuln (stream : EventStream) :
    (scoreVuln v stream (attributedTo (attributions stream s.catalog s.addresses) v.id)).verdict =
      (fun
        | .reach => some ((EventStream.requests stream).any (requestReaches v) ||
            evidence s v .high stream)
        | .exercise =>
          if v.hasParam then some ((EventStream.requests stream).any (requestExercises v)) else none
        | .trigger => some (evidence s v .high stream)
        | .triggerAny => some (evidence s v .high stream || evidence s v .low stream),
        evidence s v .low stream) := by
  rw [← highEvidence_eq, ← lowEvidence_eq]
  refine Prod.ext (funext fun a => ?_) (scoreVuln_low v _ _)
  cases a with
  | reach => exact congrArg some (scoreVuln_reach v _ _)
  | exercise => exact scoreVuln_exercise v _ _
  | trigger => exact congrArg some (scoreVuln_trigger v _ _)
  | triggerAny => exact congrArg some (scoreVuln_triggerAny v _ _)

theorem verdict_scoreVuln_eq_iff {stream stream' : EventStream} (h : stream'.Perm stream) :
    (scoreVuln v stream'
        (attributedTo (attributions stream' s.catalog s.addresses) v.id)).verdict =
      (scoreVuln v stream (attributedTo (attributions stream s.catalog s.addresses) v.id)).verdict ↔
      ∀ c, evidence s v c stream' = evidence s v c stream := by
  have hreq : (EventStream.requests stream').Perm (EventStream.requests stream) := h.filterMap _
  rw [verdict_scoreVuln, verdict_scoreVuln, hreq.any_eq, hreq.any_eq]
  constructor
  · intro he c
    cases c with
    | high => exact Option.some.inj (congrFun (congrArg Prod.fst he) .trigger)
    | low => exact congrArg Prod.snd he
  · intro he
    rw [he .high, he .low]

end Verdict

/-! ## Evidence in every order -/

theorem joinKey_perm {stream stream' : EventStream} (h : stream'.Perm stream) (cb : OobEvent) :
    joinKey stream' cb = joinKey stream cb := by
  rw [joinKey, joinKey]
  congr 1
  funext k
  exact h.any_eq

theorem joins_perm {stream stream' : EventStream} (h : stream'.Perm stream) :
    joins stream' = joins stream := by
  funext cb r
  rw [joins, joins, joinKey_perm h]

/-- Joined to this registration, the callback is credited to `v` with confidence `c`. -/
def leadsTo (s : Setting) (v : Vuln) (c : Confidence) (cb : OobEvent) (r : Event) : Prop :=
  creditVia s cb (rawSignal r.raw) = some (v.id, c)

/-- Evidence no order can take away: a sink event, or a callback no registration matches. -/
def FixedEvidence (s : Setting) (v : Vuln) (c : Confidence) (stream : EventStream) : Prop :=
  (c = .high ∧ ∃ t ∈ EventStream.triggers stream, (matchedBy v t).isSome) ∨
    ∃ cb ∈ EventStream.oob stream,
      (∀ r ∈ stream, joins stream cb r = false) ∧ creditVia s cb none = some (v.id, c)

/-- The choice among the registrations cannot matter to `v`: there is evidence without it, or no
choice leads to `v`, or some callbacks are so placed that whichever registration comes first leads
one of them to `v`. -/
def Settled (s : Setting) (v : Vuln) (c : Confidence) (stream : EventStream) : Prop :=
  FixedEvidence s v c stream ∨
    (∀ cb ∈ EventStream.oob stream, ∀ r ∈ stream, joins stream cb r = true →
      ¬ leadsTo s v c cb r) ∨
    ∃ D ⊆ {cb | cb ∈ EventStream.oob stream}, Stubborn (joins stream) (leadsTo s v c) stream D

section Evidence

variable {s : Setting} {v : Vuln} {c : Confidence} {stream : EventStream}

/-- In an order of the stream, evidence is fixed evidence or a lucky first match. -/
theorem evidence_perm_iff {stream' : EventStream} (h : stream'.Perm stream) :
    evidence s v c stream' = true ↔
      FixedEvidence s v c stream ∨
        ∃ cb ∈ {cb | cb ∈ EventStream.oob stream}, ∃ r,
          stream'.find? (joins stream cb) = some r ∧ leadsTo s v c cb r := by
  have htrig : (EventStream.triggers stream').Perm (EventStream.triggers stream) := h.filterMap _
  have hoob : (EventStream.oob stream').Perm (EventStream.oob stream) := h.filterMap _
  rw [evidence, htrig.any_eq, hoob.any_eq, Bool.or_eq_true, Bool.and_eq_true, decide_eq_true_eq,
    List.any_eq_true, List.any_eq_true, FixedEvidence, or_assoc]
  refine or_congr Iff.rfl ?_
  simp only [decide_eq_true_eq, creditIn, joins_perm h]
  constructor
  · rintro ⟨cb, hcb, hcredit⟩
    cases hf : stream'.find? (joins stream cb) with
    | none =>
      rw [hf, Option.bind_none] at hcredit
      refine Or.inl ⟨cb, hcb, fun r hr => ?_, hcredit⟩
      simpa using List.find?_eq_none.mp hf r (h.mem_iff.mpr hr)
    | some r =>
      rw [hf, Option.bind_some] at hcredit
      exact Or.inr ⟨cb, hcb, r, hf, hcredit⟩
  · rintro (⟨cb, hcb, hno, hcredit⟩ | ⟨cb, hcb, r, hf, hlead⟩)
    · have hf : stream'.find? (joins stream cb) = none :=
        List.find?_eq_none.mpr fun r hr => by simp [hno r (h.mem_iff.mp hr)]
      exact ⟨cb, hcb, by rw [hf, Option.bind_none, hcredit]⟩
    · exact ⟨cb, hcb, by rw [hf, Option.bind_some]; exact hlead⟩

theorem forall_perm_evidence_iff :
    (∀ stream' : EventStream, stream'.Perm stream →
      evidence s v c stream' = evidence s v c stream) ↔ Settled s v c stream := by
  have hself := evidence_perm_iff (s := s) (v := v) (c := c) (List.Perm.refl stream)
  constructor
  · intro h
    by_cases hfix : FixedEvidence s v c stream
    · exact Or.inl hfix
    by_cases he : evidence s v c stream = true
    · -- every order has evidence, none of it fixed
      refine Or.inr (Or.inr ((forall_perm_exists_bad_iff stream _).mp fun stream' hp => ?_))
      have := (evidence_perm_iff hp).mp ((h stream' hp).trans he)
      exact this.resolve_left hfix
    · -- no order has any: a registration that led to `v` could be put first
      refine Or.inr (Or.inl fun cb hcb r hr hj hlead => he ?_)
      obtain ⟨stream', hp, hfirst⟩ := exists_perm_find?_eq hr
      rw [← h stream' hp]
      exact (evidence_perm_iff hp).mpr (Or.inr ⟨cb, hcb, r, hfirst _ hj, hlead⟩)
  · rintro (hfix | hnone | hstub) stream' hp
    · rw [hself.mpr (Or.inl hfix), (evidence_perm_iff hp).mpr (Or.inl hfix)]
    · have hno : ∀ stream'' : EventStream, stream''.Perm stream →
          (evidence s v c stream'' = true ↔ FixedEvidence s v c stream) := by
        intro stream'' hp'
        rw [evidence_perm_iff hp', or_iff_left]
        rintro ⟨cb, hcb, r, hf, hlead⟩
        exact hnone cb hcb r (hp'.mem_iff.mp (List.mem_of_find?_eq_some hf)) (List.find?_some hf)
          hlead
      rw [Bool.eq_iff_iff, hno stream' hp, hno stream (List.Perm.refl _)]
    · have hall := (forall_perm_exists_bad_iff stream _).mpr hstub
      rw [hself.mpr (Or.inr (hall stream (List.Perm.refl _))),
        (evidence_perm_iff hp).mpr (Or.inr (hall stream' hp))]

end Evidence

/-! ## The correlation index in every order -/

/-- Two registrations of one host, or of one request id, carry the same signal. -/
def ConsistentRegistrations (stream : EventStream) : Prop :=
  ∀ r ∈ stream, ∀ r' ∈ stream, (rawSignal r.raw).isSome → (rawSignal r'.raw).isSome →
    ((rawHost r.raw ≠ "" ∧ rawHost r.raw = rawHost r'.raw) ∨
      ((rawRequestId r.raw).isSome ∧ rawRequestId r.raw = rawRequestId r'.raw)) →
    rawSignal r.raw = rawSignal r'.raw

/-- The lookups in the index are the same in every order. -/
def IndexIndependent (stream : EventStream) : Prop :=
  ∀ stream' : EventStream, stream'.Perm stream → ∀ key,
    (correlationIndex stream').1.get? key = (correlationIndex stream).1.get? key ∧
      (correlationIndex stream').2.get? key = (correlationIndex stream).2.get? key

/-- Looking up what a list of pairs set by default, in every order of the list. -/
theorem forall_perm_get?_iff {pair : Event → Option (String × String)}
    (hpair : ∀ r e, pair r = some e → rawSignal r.raw = some e.2) (stream : EventStream)
    (key : String) :
    (∀ stream' : EventStream, stream'.Perm stream →
      (Dict.empty.addAll (stream'.filterMap pair)).get? key =
        (Dict.empty.addAll (stream.filterMap pair)).get? key) ↔
      ∀ r ∈ stream, ∀ r' ∈ stream, (pair r).any (·.1 = key) = true →
        (pair r').any (·.1 = key) = true → rawSignal r.raw = rawSignal r'.raw := by
  rw [← forall_perm_find?_iff stream (fun r => (pair r).any (·.1 = key)) (rawSignal ·.raw)]
  refine forall_congr' fun stream' => imp_congr_right fun _ => ?_
  rw [Dict.get?_addAll, Dict.get?_addAll, find?_pairs hpair stream' (fun x => decide (x = key)),
    find?_pairs hpair stream (fun x => decide (x = key))]

theorem any_hostPair (r : Event) (key : String) :
    (hostPair r).any (·.1 = key) = true ↔
      (rawSignal r.raw).isSome ∧ rawHost r.raw ≠ "" ∧ rawHost r.raw = key := by
  unfold hostPair
  cases rawSignal r.raw <;> by_cases h : rawHost r.raw = "" <;> simp [h]

theorem any_requestPair (r : Event) (key : String) :
    (requestPair r).any (·.1 = key) = true ↔
      (rawSignal r.raw).isSome ∧ rawRequestId r.raw = some key := by
  unfold requestPair
  cases rawSignal r.raw <;> cases rawRequestId r.raw <;> simp

theorem indexIndependent_iff (stream : EventStream) :
    IndexIndependent stream ↔ ConsistentRegistrations stream := by
  have hhost := forall_perm_get?_iff rawSignal_of_hostPair stream
  have hrequest := forall_perm_get?_iff rawSignal_of_requestPair stream
  unfold IndexIndependent
  simp only [correlationIndex_eq]
  constructor
  · rintro h r hr r' hr' hs hs' (⟨hne, heq⟩ | ⟨hq, heq⟩)
    · refine (hhost (rawHost r.raw)).mp (fun stream' hp => (h stream' hp _).1) r hr r' hr' ?_ ?_
      · exact (any_hostPair r _).mpr ⟨hs, hne, rfl⟩
      · exact (any_hostPair r' _).mpr ⟨hs', heq ▸ hne, heq.symm⟩
    · obtain ⟨q, hq⟩ := Option.isSome_iff_exists.mp hq
      refine (hrequest q).mp (fun stream' hp => (h stream' hp _).2) r hr r' hr' ?_ ?_
      · exact (any_requestPair r _).mpr ⟨hs, hq⟩
      · exact (any_requestPair r' _).mpr ⟨hs', heq ▸ hq⟩
  · intro h stream' hp key
    constructor
    · refine (hhost key).mpr (fun r hr r' hr' hm hm' => ?_) stream' hp
      obtain ⟨hs, hne, hk⟩ := (any_hostPair r key).mp hm
      obtain ⟨hs', -, hk'⟩ := (any_hostPair r' key).mp hm'
      exact h r hr r' hr' hs hs' (Or.inl ⟨hne, hk.trans hk'.symm⟩)
    · refine (hrequest key).mpr (fun r hr r' hr' hm hm' => ?_) stream' hp
      obtain ⟨hs, hk⟩ := (any_requestPair r key).mp hm
      obtain ⟨hs', hk'⟩ := (any_requestPair r' key).mp hm'
      exact h r hr r' hr' hs hs' (Or.inr ⟨by rw [hk]; rfl, hk.trans hk'.symm⟩)

/-! ## The score in every order -/

omit [Runtime] in
theorem sortedSet_perm {xs ys : List String} (h : xs.Perm ys) :
    Catalog.sortedSet xs = Catalog.sortedSet ys :=
  Catalog.sortedSet_congr fun _ => h.mem_iff

omit [Runtime] in
theorem scopeOf_perm (s : Setting) {stream stream' : EventStream} (h : stream'.Perm stream) :
    scopeOf s stream' = scopeOf s stream := by
  unfold scopeOf
  rw [sortedSet_perm ((h.filterMap _).filter _)]

/-- The score without its reports: the order of the events does not show in it. -/
structure OrderIndependent (s : Setting) (stream : EventStream) : Prop where
  inScope : ∀ stream' : EventStream, stream'.Perm stream →
    (scoreRun s stream').inScope = (scoreRun s stream).inScope
  verdict : ∀ stream' : EventStream, stream'.Perm stream → ∀ v ∈ (scoreRun s stream).inScope,
    (outcomeOf (scoreRun s stream').outcomes v).verdict =
      (outcomeOf (scoreRun s stream).outcomes v).verdict
  overall : ∀ stream' : EventStream, stream'.Perm stream →
    (scoreRun s stream').metrics.overall = (scoreRun s stream).metrics.overall
  index : IndexIndependent (EventStream.scored stream)

theorem inScope_scoreRun_perm (s : Setting) {stream stream' : EventStream}
    (h : stream'.Perm stream) : (scoreRun s stream').inScope = (scoreRun s stream).inScope := by
  have hscored : (EventStream.scored stream').Perm (EventStream.scored stream) := h.filter _
  rw [inScope_scoreRun, inScope_scoreRun, scopeOf_perm s hscored]

omit [Runtime] in
theorem metric_congr {vulns : List Vuln} {outcomes outcomes' : Dict String Outcome}
    (h : ∀ v ∈ vulns, (outcomeOf outcomes' v).axis = (outcomeOf outcomes v).axis) :
    metric vulns outcomes' = metric vulns outcomes := by
  have happ : ∀ a, (vulns.countP fun v => ((outcomeOf outcomes' v).axis a).isSome) =
      vulns.countP fun v => ((outcomeOf outcomes v).axis a).isSome := fun a =>
    List.countP_congr fun v hv => by rw [h v hv]
  have hhit : ∀ a, (vulns.countP fun v => (outcomeOf outcomes' v).axis a = some true) =
      vulns.countP fun v => (outcomeOf outcomes v).axis a = some true := fun a =>
    List.countP_congr fun v hv => by rw [h v hv]
  unfold metric
  simp only [happ, hhit]

/-- **When the order of the events does not matter**: no two registrations of one host or request
id disagree, and no choice among the registrations of a callback can change a credit. -/
theorem orderIndependent_iff (s : Setting) (stream : EventStream) :
    OrderIndependent s stream ↔
      ConsistentRegistrations (EventStream.scored stream) ∧
        ∀ v ∈ s.catalog.vulns, v.app ∈ (scopeOf s (EventStream.scored stream)).1 →
          ∀ c, Settled s v c (EventStream.scored stream) := by
  have hmem : ∀ v, v ∈ (scoreRun s stream).inScope ↔
      v ∈ s.catalog.vulns ∧ v.app ∈ (scopeOf s (EventStream.scored stream)).1 := fun v => by
    rw [inScope_scoreRun, List.mem_filter, decide_eq_true_eq]
  have hscored : ∀ {stream' : EventStream}, stream'.Perm stream →
      (EventStream.scored stream').Perm (EventStream.scored stream) := fun h => h.filter _
  -- the verdict on `v` is that of an order of the scored events
  have hverdict : ∀ v ∈ (scoreRun s stream).inScope,
      (∀ stream' : EventStream, stream'.Perm stream →
        (outcomeOf (scoreRun s stream').outcomes v).verdict =
          (outcomeOf (scoreRun s stream).outcomes v).verdict) ↔
      ∀ c, Settled s v c (EventStream.scored stream) := by
    intro v hv
    have hout : ∀ stream' : EventStream, stream'.Perm stream →
        ((outcomeOf (scoreRun s stream').outcomes v).verdict =
          (outcomeOf (scoreRun s stream).outcomes v).verdict ↔
        ∀ c, evidence s v c (EventStream.scored stream') =
          evidence s v c (EventStream.scored stream)) := by
      intro stream' hp
      rw [outcomeOf_scoreRun s stream' (by rw [inScope_scoreRun_perm s hp]; exact hv),
        outcomeOf_scoreRun s stream hv, verdict_scoreVuln_eq_iff s v (hscored hp)]
    have hperm := fun c => forall_perm_filter
      (P := fun m => evidence s v c m = evidence s v c (EventStream.scored stream)) stream
      (fun e => !e.synthetic)
    constructor
    · intro h c
      exact forall_perm_evidence_iff.mp ((hperm c).mp fun stream' hp =>
        (hout stream' hp).mp (h stream' hp) c)
    · intro h stream' hp
      exact (hout stream' hp).mpr fun c =>
        forall_perm_evidence_iff.mpr (h c) _ (hscored hp)
  constructor
  · intro h
    refine ⟨(indexIndependent_iff _).mp h.index, fun v hv happ => ?_⟩
    have hin := (hmem v).mpr ⟨hv, happ⟩
    exact (hverdict v hin).mp fun stream' hp => h.verdict stream' hp v hin
  · rintro ⟨hreg, hset⟩
    have hv : ∀ stream' : EventStream, stream'.Perm stream → ∀ v ∈ (scoreRun s stream).inScope,
        (outcomeOf (scoreRun s stream').outcomes v).verdict =
          (outcomeOf (scoreRun s stream).outcomes v).verdict := fun stream' hp v hv =>
      (hverdict v hv).mpr (hset v ((hmem v).mp hv).1 ((hmem v).mp hv).2) stream' hp
    refine ⟨fun stream' hp => inScope_scoreRun_perm s hp, hv, fun stream' hp => ?_,
      (indexIndependent_iff _).mpr hreg⟩
    change metric (scoreRun s stream').inScope _ = metric (scoreRun s stream).inScope _
    rw [inScope_scoreRun_perm s hp]
    exact metric_congr fun v hm => congrArg Prod.fst (hv stream' hp v hm)

end PtaasBench.Benchctl

/-! ## Two registrations of one host -/

namespace PtaasBench.Benchctl.Shop

open Py

/-- Both sinks fetch one host; the callback carries no request id. -/
def sharedHost [Runtime] : EventStream :=
  eventsFromIterable
    [.obj (registration "shop.imports.fetch.external" "req-7" "9zk.oast.fun"),
      .obj (registration "shop.imports.fetch.retry" "req-8" "9zk.oast.fun"),
      .obj (callback "" "9zk.oast.fun")]

/-- The first registration gets the callback: swapping the two moves the trigger. -/
theorem sharedHost_order_dependent : ¬ @OrderIndependent Runtime.ascii setting
    (@sharedHost Runtime.ascii) := by
  let _ := Runtime.ascii
  intro h
  have hin : fetchVuln ∈ (scoreRun setting sharedHost).inScope :=
    List.mem_filter.mpr ⟨List.mem_cons_self, by rfl⟩
  have hswap := h.verdict
    [eventFromDict (registration "shop.imports.fetch.retry" "req-8" "9zk.oast.fun"),
      eventFromDict (registration "shop.imports.fetch.external" "req-7" "9zk.oast.fun"),
      eventFromDict (callback "" "9zk.oast.fun")] (List.Perm.swap _ _ _) fetchVuln hin
  have htrigger := congrFun (congrArg Prod.fst hswap) .trigger
  revert htrigger
  decide

end PtaasBench.Benchctl.Shop
