import PtaasBench.Benchctl.LoadCatalog

/-!
# PtaasBench.Benchctl.OneFlaw — which events credit more than one flaw

In a catalog without errors every id, canary token and signal has one owner, so the lookups lose nothing.  A callback
is attributed once; a signal event is matched against every vulnerability, by its signal or by its id.
-/

namespace PtaasBench.Benchctl

open Py List

/-! ## No errors, no second owner -/

/-- Nothing found is an error. -/
def Clean (issues : List Issue) : Prop := ∀ i ∈ issues, i.level ≠ .error

theorem clean_append {xs ys : List Issue} : Clean (xs ++ ys) ↔ Clean xs ∧ Clean ys := by
  simp only [Clean, mem_append, or_imp, forall_and]

theorem not_clean_cons {i : Issue} {xs : List Issue} (h : i.level = .error) : ¬ Clean (i :: xs) :=
  fun hc => hc i mem_cons_self h

section Owners

theorem keys_set_of_none {κ ν : Type*} [DecidableEq κ] {d : Dict κ ν} {k : κ} (h : d.get? k = none) (v : ν) :
    (d.set k v).keys = d.keys ++ [k] := by
  rw [Dict.keys, Dict.items_set_of_notMem (Dict.get?_eq_none_iff.mp h), map_append]
  rfl

/-- A lookup that keeps the last entry of a key loses none where no key comes twice. -/
theorem get?_indexBy {key : Vuln → Option String} {vulns : List Vuln}
    (hn : (vulns.filterMap fun v => setText (key v)).Nodup) {v : Vuln} (hv : v ∈ vulns) {k : String}
    (hk : setText (key v) = some k) : (indexBy key vulns).get? k = some v := by
  have hkeys : ((vulns.filterMap fun v => if given (key v) then (key v).map fun k => (k, v) else none).map
      Prod.fst) = vulns.filterMap fun v => setText (key v) := by
    rw [map_filterMap]
    refine filterMap_congr fun w _ => ?_
    unfold setText
    split_ifs
    · rw [Option.map_map]
      exact Option.map_id'
    · rfl
  refine Dict.get?_ofList_of_mem (by rw [hkeys]; exact hn) (mem_filterMap.mpr ⟨v, hv, ?_⟩)
  unfold setText at hk
  split_ifs at hk with hg
  rw [if_pos hg, hk]
  rfl

variable [Runtime]

theorem keys_checkToken {tokens : Dict String String} {v : Vuln} {source : String}
    (h : Clean (checkToken tokens v source).1) :
    (checkToken tokens v source).2.keys = tokens.keys ++ (setText v.oracle.canaryToken).toList := by
  unfold checkToken at h ⊢
  cases ht : setText v.oracle.canaryToken with
  | none => simp
  | some token =>
    rw [ht] at h
    cases hget : tokens.get? token with
    | none => simpa [hget] using keys_set_of_none hget v.id
    | some other =>
      simp only [hget] at h
      exact absurd h (not_clean_cons rfl)

theorem keys_checkSignal {signals : Dict String (String × String)} {v : Vuln} {source : String}
    (h : Clean (checkSignal signals v source).1) :
    (checkSignal signals v source).2.keys = signals.keys ++ (setText v.oracle.signal).toList := by
  unfold checkSignal at h ⊢
  cases hs : setText v.oracle.signal with
  | none =>
    dsimp only
    split_ifs <;> simp
  | some signal =>
    rw [hs] at h
    cases hget : signals.get? signal with
    | none => simpa [hget] using keys_set_of_none hget (v.id, v.app)
    | some other =>
      simp only [hget] at h
      exact absurd h (not_clean_cons rfl)

omit [Runtime] in
theorem filterMap_concat {α β : Type*} (f : α → Option β) (xs : List α) (x : α) :
    (xs ++ [x]).filterMap f = xs.filterMap f ++ (f x).toList := by
  rw [filterMap_append]
  cases h : f x <;> simp [h]

/-- Every token and every signal of the entries is claimed, each once. -/
structure Loading.Owned (st : Loading) : Prop where
  tokens : st.vulns.filterMap (fun v => setText v.oracle.canaryToken) = st.tokens.keys
  signals : st.vulns.filterMap (fun v => setText v.oracle.signal) = st.signals.keys

variable (isAlnum : Char → Bool) (taxonomy : Taxonomy) (roadmap : Roadmap)

theorem owned_add {st : Loading} {source : String} {raw : RawVuln} {hid : raw.id ∉ st.seenIds.keys} (hst : st.Owned)
    (h : Clean (st.add isAlnum taxonomy roadmap source raw hid).issues) :
    (st.add isAlnum taxonomy roadmap source raw hid).Owned := by
  obtain ⟨⟨-, htoken⟩, hsignal⟩ := (clean_append.mp (clean_append.mp h).2).imp_left clean_append.mp
  constructor
  · show List.filterMap _ (st.vulns ++ [_]) = (checkToken _ _ _).2.keys
    rw [keys_checkToken htoken, filterMap_concat, hst.tokens]
  · show List.filterMap _ (st.vulns ++ [_]) = (checkSignal _ _ _).2.keys
    rw [keys_checkSignal hsignal, filterMap_concat, hst.signals]

/-- A file without an error is an entry, and what it claims was free. -/
theorem loadFile_clean {st : Loading} {file : String × CatalogFile}
    (h : Clean (loadFile isAlnum taxonomy roadmap st file).issues) :
    Clean st.issues ∧ (st.Owned → (loadFile isAlnum taxonomy roadmap st file).Owned) ∧
      ∃ raw spec, file.2 = .entry raw ∧
        (loadFile isAlnum taxonomy roadmap st file).vulns = st.vulns ++ [buildVuln raw spec] := by
  obtain ⟨source, content⟩ := file
  cases content with
  | unparsed error => exact absurd (clean_append.mp h).2 (not_clean_cons rfl)
  | unshaped => exact absurd (clean_append.mp h).2 (not_clean_cons rfl)
  | invalid id first rest => exact absurd (clean_append.mp h).2 (not_clean_cons rfl)
  | entry raw =>
    by_cases hid : raw.id ∈ st.seenIds.keys
    · rw [loadFile] at h
      simp only [dif_pos hid] at h
      exact absurd (clean_append.mp h).2 (not_clean_cons rfl)
    · have hadd : loadFile isAlnum taxonomy roadmap st (source, .entry raw) =
          st.add isAlnum taxonomy roadmap source raw hid := by
        simp only [loadFile, dif_neg hid]
      rw [hadd] at h ⊢
      exact ⟨(clean_append.mp h).1, fun hst => owned_add isAlnum taxonomy roadmap hst h, raw, _, rfl, rfl⟩

/-- Files without an error are entries, all of them kept. -/
theorem loadFiles_clean {before : List Issue} {files : List (String × CatalogFile)} {st : Loading}
    (hst : st = files.foldl (loadFile isAlnum taxonomy roadmap) { issues := before, ids := rfl })
    (h : Clean st.issues) : st.Owned ∧
      List.Forall₂ (fun file v => ∃ raw spec, file.2 = .entry raw ∧ v = buildVuln raw spec) files st.vulns := by
  subst hst
  induction files using List.reverseRecOn with
  | nil => exact ⟨⟨rfl, rfl⟩, .nil⟩
  | append_singleton files file ih =>
    rw [foldl_append] at h ⊢
    obtain ⟨hclean, howned, raw, spec, hraw, hvulns⟩ := loadFile_clean isAlnum taxonomy roadmap h
    obtain ⟨hst, hall⟩ := ih hclean
    refine ⟨howned hst, ?_⟩
    show List.Forall₂ _ _ (loadFile _ _ _ _ _).vulns
    rw [hvulns]
    exact rel_append hall (.cons ⟨raw, spec, hraw, rfl⟩ .nil)

theorem clean_of_errors {before : List Issue} {files : List (String × CatalogFile)}
    (h : (loadCatalog isAlnum taxonomy roadmap before files).errors = []) :
    Clean (files.foldl (loadFile isAlnum taxonomy roadmap) { issues := before, ids := rfl }).issues := by
  intro i hi hlevel
  refine not_mem_nil (a := i) ?_
  rw [← h]
  refine mem_filter.mpr ⟨?_, decide_eq_true hlevel⟩
  exact mem_append_left _ (mem_append_left _ (mem_append_left _ hi))

end Owners

/-! ## What one event credits -/

section Credits

variable [Runtime] (s : Setting)

/-- One event, as the scorer takes it for one vulnerability. -/
def creditsWith (correlations : Correlations) (e : Event) (v : Vuln) : Bool :=
  match e with
  | .trigger t => (matchedBy v t).isSome
  | .oob cb => (attributeOob cb s.catalog correlations s.addresses).vulnId = some v.id
  | _ => false

/-- Does an event of the stream set or strengthen the trigger of a vulnerability? -/
def credits (stream : EventStream) (e : Event) (v : Vuln) : Bool := creditsWith s (correlationIndex stream) e v

theorem countP_creditsWith (correlations : Correlations) (v : Vuln) (stream : EventStream) :
    stream.countP (creditsWith s correlations · v) =
      (EventStream.triggers stream).countP (fun t => (matchedBy v t).isSome) +
        (EventStream.oob stream).countP fun cb =>
          (attributeOob cb s.catalog correlations s.addresses).vulnId = some v.id := by
  rw [EventStream.triggers, EventStream.oob, countP_filterMap, countP_filterMap]
  induction stream with
  | nil => rfl
  | cons e stream ih =>
    have hstep : (if creditsWith s correlations e v = true then 1 else 0) =
        (if ((Event.asTrigger? e).map fun t => (matchedBy v t).isSome).getD false = true then 1 else 0) +
          if ((Event.asOob? e).map fun cb => decide
            ((attributeOob cb s.catalog correlations s.addresses).vulnId = some v.id)).getD false = true
          then 1 else 0 := by
      cases e with
      | request e => rfl
      | trigger t => rfl
      | oob cb => exact (Nat.zero_add _).symm
      | other e => rfl
    rw [countP_cons, countP_cons, countP_cons, ih, hstep]
    omega

/-- The trigger events of a vulnerability are the events that credit it. -/
theorem triggerEvents_scoreRun {stream : EventStream} {v : Vuln} (hv : v ∈ (scoreRun s stream).inScope) :
    (outcomeOf (scoreRun s stream).outcomes v).triggerEvents =
      (EventStream.scored stream).countP (credits s (EventStream.scored stream) · v) := by
  rw [outcomeOf_scoreRun s stream hv, scoreVuln_triggerEvents, attributedTo, attributions, ← countP_eq_length_filter,
    countP_map]
  exact (countP_creditsWith s (correlationIndex (EventStream.scored stream)) v (EventStream.scored stream)).symm

/-- Two vulnerabilities of a list, one by its signal and one by its id. -/
def NamesTwo (vulns : List Vuln) (e : Event) : Prop :=
  ∃ t, e = .trigger t ∧ ∃ v ∈ vulns, ∃ w ∈ vulns, v ≠ w ∧
    (given v.oracle.signal = true ∧ t.signal = v.oracle.signal) ∧ t.vulnId ≠ "" ∧ t.vulnId = w.id

omit [Runtime] in
theorem matchedBy_isSome_iff {v : Vuln} {t : TriggerEvent} : (matchedBy v t).isSome = true ↔
    (given v.oracle.signal = true ∧ t.signal = v.oracle.signal) ∨ (t.vulnId ≠ "" ∧ t.vulnId = v.id) := by
  rw [matchedBy]
  split_ifs with hsignal hid
  · exact iff_of_true rfl (Or.inl (by simpa using hsignal))
  · exact iff_of_true rfl (Or.inr (by simpa using hid))
  · refine iff_of_false (by simp) ?_
    rintro (h | h)
    · exact hsignal (by simpa using h)
    · exact hid (by simpa using h)

/-- With one owner for every id and every signal, an event credits two just if it names two. -/
theorem credits_unique_iff {stream : EventStream} {vulns : List Vuln} (hids : (vulns.map Vuln.id).Nodup)
    (hsignals : (vulns.filterMap fun v => setText v.oracle.signal).Nodup) (e : Event) :
    (∀ v ∈ vulns, ∀ w ∈ vulns, credits s stream e v = true → credits s stream e w = true → v = w) ↔
      ¬ NamesTwo vulns e := by
  have hid : ∀ v ∈ vulns, ∀ w ∈ vulns, v.id = w.id → v = w := fun v hv w hw => inj_on_of_nodup_map hids hv hw
  have hsignal : ∀ v ∈ vulns, ∀ w ∈ vulns, given v.oracle.signal = true →
      v.oracle.signal = w.oracle.signal → v = w := by
    intro v hv w hw hg heq
    obtain ⟨k, hk⟩ : ∃ k, v.oracle.signal = some k := by
      cases hs : v.oracle.signal with
      | none => rw [hs] at hg; exact absurd hg (by simp [given])
      | some k => exact ⟨k, rfl⟩
    have hset : setText v.oracle.signal = some k := by rw [setText, if_pos hg, hk]
    have hv' : (indexBy (fun v => v.oracle.signal) vulns).get? k = some v := get?_indexBy hsignals hv hset
    have hw' : (indexBy (fun v => v.oracle.signal) vulns).get? k = some w := get?_indexBy hsignals hw (heq ▸ hset)
    exact Option.some.inj (hv'.symm.trans hw')
  constructor
  · rintro h ⟨t, rfl, v, hv, w, hw, hne, hsig, hname⟩
    exact hne (h v hv w hw (matchedBy_isSome_iff.mpr (Or.inl hsig)) (matchedBy_isSome_iff.mpr (Or.inr hname)))
  · intro hnone v hv w hw hcv hcw
    cases e with
    | request e => exact absurd hcv Bool.false_ne_true
    | other e => exact absurd hcv Bool.false_ne_true
    | oob cb =>
      have hv' := of_decide_eq_true hcv
      have hw' := of_decide_eq_true hcw
      exact hid v hv w hw (Option.some.inj (hv'.symm.trans hw'))
    | trigger t =>
      by_contra hne
      rcases matchedBy_isSome_iff.mp hcv with hsv | hiv <;> rcases matchedBy_isSome_iff.mp hcw with hsw | hiw
      · exact hne (hsignal v hv w hw hsv.1 (hsv.2.symm.trans hsw.2))
      · exact hnone ⟨t, rfl, v, hv, w, hw, hne, hsv, hiw⟩
      · exact hnone ⟨t, rfl, w, hw, v, hv, Ne.symm hne, hsw, hiv⟩
      · exact hne (hid v hv w hw (hiv.2.symm.trans hiw.2))

end Credits

/-- A catalog loaded without errors keeps every file's entry and finds each under its id, token and signal; and of
the events of a run those credit more than one flaw that carry the signal of one and the id of another. -/
theorem one_event_one_flaw_iff [Runtime] (isAlnum : Char → Bool) (taxonomy : Taxonomy) (roadmap : Roadmap)
    (before : List Issue) (files : List (String × CatalogFile))
    (h : (loadCatalog isAlnum taxonomy roadmap before files).errors = []) :
    let c := (loadCatalog isAlnum taxonomy roadmap before files).catalog
    List.Forall₂ (fun file v => ∃ raw spec, file.2 = .entry raw ∧ v = buildVuln raw spec) files c.vulns ∧
    (∀ v ∈ c.vulns, c.byId.get? v.id = some v ∧
      (∀ token, setText v.oracle.canaryToken = some token → c.byToken.get? token = some v) ∧
      ∀ signal, setText v.oracle.signal = some signal → c.bySignal.get? signal = some v) ∧
    ∀ (s : Setting) (stream : EventStream), s.catalog = c →
      (∀ v ∈ (scoreRun s stream).inScope, (outcomeOf (scoreRun s stream).outcomes v).triggerEvents =
        (EventStream.scored stream).countP (credits s (EventStream.scored stream) · v)) ∧
      ∀ e ∈ EventStream.scored stream,
        (∀ v ∈ (scoreRun s stream).inScope, ∀ w ∈ (scoreRun s stream).inScope,
          credits s (EventStream.scored stream) e v = true → credits s (EventStream.scored stream) e w = true →
            v = w) ↔ ¬ NamesTwo (scoreRun s stream).inScope e := by
  intro c
  obtain ⟨howned, hfiles⟩ := loadFiles_clean isAlnum taxonomy roadmap rfl (clean_of_errors isAlnum taxonomy roadmap h)
  have htokens : (c.vulns.filterMap fun v => setText v.oracle.canaryToken).Nodup := by
    show (List.filterMap _ (Loading.vulns _)).Nodup
    rw [howned.tokens]
    exact Dict.nodup _
  have hsignals : (c.vulns.filterMap fun v => setText v.oracle.signal).Nodup := by
    show (List.filterMap _ (Loading.vulns _)).Nodup
    rw [howned.signals]
    exact Dict.nodup _
  refine ⟨hfiles, fun v hv => ⟨Catalog.byId_of_mem hv, fun token ht => ?_, fun signal hs => ?_⟩, ?_⟩
  · exact @get?_indexBy (fun v => v.oracle.canaryToken) _ htokens v hv token ht
  · exact @get?_indexBy (fun v => v.oracle.signal) _ hsignals v hv signal hs
  · rintro s stream hs
    refine ⟨fun v hv => triggerEvents_scoreRun s hv, fun e _ => credits_unique_iff s ?_ ?_ e⟩
    · exact s.catalog.ids_nodup.sublist (filter_sublist.map _)
    · rw [inScope_scoreRun]
      rw [← hs] at hsignals
      exact hsignals.sublist (filter_sublist.filterMap _)

end PtaasBench.Benchctl

/-! ## Two flaws of the shop -/

namespace PtaasBench.Benchctl.Shop

open Py List

/-- The files of the two requests the importer makes. -/
def files : List (String × CatalogFile) :=
  [("catalog/vulns/BENCH-SHOP-0031.yaml", .entry
      { id := "BENCH-SHOP-0031", app := "shopfront", cls := "ssrf", method := "POST", path := "/api/import"
        kind := "oob", signal := some "shop.imports.fetch.external" }),
    ("catalog/vulns/BENCH-SHOP-0032.yaml", .entry
      { id := "BENCH-SHOP-0032", app := "shopfront", cls := "ssrf", method := "POST", path := "/api/retry"
        kind := "oob", signal := some "shop.imports.fetch.retry" })]

def taxonomy : Taxonomy where
  classes := Dict.ofList [("ssrf", { severity := some "high" })]

/-- What the files load as. -/
def loaded [Runtime] : LoadedCatalog := loadCatalog Char.isAlphanum taxonomy Dict.empty [] files

/-- The sink of the first flaw, from an emitter that names the second. -/
def twoNames [Runtime] : EventStream :=
  [eventFromDict [("type", .str "signal"), ("app", .str "shopfront"),
    ("signal", .str "shop.imports.fetch.external"), ("vuln_id", .str "BENCH-SHOP-0032")]]

theorem errors_loaded : (@loaded Runtime.ascii).errors = [] := by
  decide +kernel

theorem one_event_one_flaw_files :
    let _ := Runtime.ascii
    ∀ v ∈ loaded.catalog.vulns, loaded.catalog.byId.get? v.id = some v := by
  intro _ v hv
  exact ((one_event_one_flaw_iff Char.isAlphanum taxonomy Dict.empty [] files errors_loaded).2.1 v hv).1

/-- One event triggers both. -/
theorem twoNames_credits_both :
    let _ := Runtime.ascii
    let s : Setting := { catalog := loaded.catalog, apps := ["shopfront"] }
    loaded.errors = [] ∧ twoNames.length = 1 ∧
      (scoreRun s twoNames).inScope.map (fun v => (v.id, (outcomeOf (scoreRun s twoNames).outcomes v).trigger)) =
        [("BENCH-SHOP-0031", true), ("BENCH-SHOP-0032", true)] := by
  decide +kernel

end PtaasBench.Benchctl.Shop
