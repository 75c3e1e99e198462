import PtaasBench.Benchctl.Scoring

/-!
# PtaasBench.Benchctl.Joins — which registration a callback is joined to

A registration is any event that carries a signal.  A callback is joined to the first registration
that matches it on the strongest key any registration matches it on (`joinedSignal_eq`), and its
credit depends on the stream only through the signal of that registration (`credit_attributeOob`).
-/

namespace PtaasBench.Benchctl

open Py

/-- What a registration and a callback can have in common, strongest first. -/
inductive JoinKey where
  | requestId
  | host
  | suffix
deriving DecidableEq

namespace JoinKey

def rank : JoinKey → ℕ
  | requestId => 0
  | host => 1
  | suffix => 2

variable [Runtime]

/-- Does this event register a signal under the key the callback carries? -/
def matchesOn (k : JoinKey) (cb : OobEvent) (r : Event) : Bool :=
  (rawSignal r.raw).isSome &&
  match k with
  | requestId => given cb.requestId && rawRequestId r.raw = cb.requestId
  | host => normHost cb.destinationHost ≠ "" && rawHost r.raw = normHost cb.destinationHost
  | suffix => normHost cb.destinationHost ≠ "" && rawHost r.raw ≠ "" &&
      suffixRelated (normHost cb.destinationHost) (rawHost r.raw)

end JoinKey

variable [Runtime]

/-- The strongest key on which any event of the stream matches the callback. -/
def joinKey (stream : EventStream) (cb : OobEvent) : Option JoinKey :=
  [JoinKey.requestId, .host, .suffix].find? fun k => stream.any (k.matchesOn cb)

/-- Is this one of the registrations the callback may be joined to? -/
def joins (stream : EventStream) (cb : OobEvent) (r : Event) : Bool :=
  (joinKey stream cb).any fun k => k.matchesOn cb r

/-! ## The index, as a scan of the stream -/

/-- The pairs `correlation_index` sets by default, of hosts and of request ids. -/
def hostPair (r : Event) : Option (String × String) :=
  (rawSignal r.raw).bind fun signal =>
    if rawHost r.raw = "" then none else some (rawHost r.raw, signal)

def requestPair (r : Event) : Option (String × String) :=
  (rawSignal r.raw).bind fun signal => (rawRequestId r.raw).map fun q => (q, signal)

theorem foldl_indexEvent (ix : Correlations) (stream : EventStream) :
    stream.foldl indexEvent ix =
      (ix.1.addAll (stream.filterMap hostPair), ix.2.addAll (stream.filterMap requestPair)) := by
  induction stream generalizing ix with
  | nil => rfl
  | cons r stream ih =>
    rw [List.foldl_cons, ih, List.filterMap_cons, List.filterMap_cons]
    unfold indexEvent hostPair requestPair
    cases rawSignal r.raw with
    | none => rfl
    | some signal =>
      by_cases hh : rawHost r.raw = "" <;> cases rawRequestId r.raw <;>
        simp [hh, Dict.addAll]

theorem correlationIndex_eq (stream : EventStream) :
    correlationIndex stream =
      (Dict.empty.addAll (stream.filterMap hostPair),
        Dict.empty.addAll (stream.filterMap requestPair)) :=
  foldl_indexEvent _ stream

theorem rawSignal_given {raw : Obj} {signal : String} (h : rawSignal raw = some signal) :
    given (some signal) = true := by
  unfold rawSignal at h
  split_ifs at h with ht
  rw [← Option.some.inj h]
  simpa [given] using Json.pyStr_ne_empty ht

/-- A scan of the registered pairs for a key with some property reads the signal of the first
event that registers such a key. -/
theorem find?_pairs {pair : Event → Option (String × String)}
    (hpair : ∀ r e, pair r = some e → rawSignal r.raw = some e.2) (stream : EventStream)
    (p : String → Bool) :
    ((stream.filterMap pair).find? fun e => p e.1).map Prod.snd =
      (stream.find? fun r => (pair r).any fun e => p e.1).bind (rawSignal ·.raw) := by
  rw [List.find?_filterMap]
  cases hf : stream.find? fun r => (pair r).any fun e => p e.1 with
  | none => rfl
  | some r =>
    have hr := List.find?_some hf
    obtain ⟨e, he⟩ : ∃ e, pair r = some e := by
      cases h : pair r with
      | none => rw [h] at hr; exact absurd hr (by simp)
      | some e => exact ⟨e, rfl⟩
    rw [Option.bind_some, Option.bind_some, he, Option.map_some, hpair r e he]

theorem rawSignal_of_hostPair (r : Event) (e : String × String) (h : hostPair r = some e) :
    rawSignal r.raw = some e.2 := by
  unfold hostPair at h
  cases hs : rawSignal r.raw with
  | none => rw [hs] at h; exact absurd h (by simp)
  | some signal =>
    rw [hs, Option.bind_some] at h
    split_ifs at h
    rw [← Option.some.inj h]

theorem rawSignal_of_requestPair (r : Event) (e : String × String) (h : requestPair r = some e) :
    rawSignal r.raw = some e.2 := by
  unfold requestPair at h
  cases hs : rawSignal r.raw with
  | none => rw [hs] at h; exact absurd h (by simp)
  | some signal =>
    rw [hs, Option.bind_some] at h
    obtain ⟨q, -, rfl⟩ := Option.map_eq_some_iff.mp h
    rfl

/-- The first registration that matches on one key. -/
def firstOn (k : JoinKey) (stream : EventStream) (cb : OobEvent) : Option String :=
  (stream.find? (k.matchesOn cb)).bind (rawSignal ·.raw)

theorem firstOn_eq_none_iff (k : JoinKey) (stream : EventStream) (cb : OobEvent) :
    firstOn k stream cb = none ↔ stream.any (k.matchesOn cb) = false := by
  unfold firstOn
  cases hf : stream.find? (k.matchesOn cb) with
  | none => simpa [List.find?_eq_none] using hf
  | some r =>
    have hr := List.find?_some hf
    have hs : (rawSignal r.raw).isSome := (Bool.and_eq_true_iff.mp hr).1
    have hany : stream.any (k.matchesOn cb) = true :=
      List.any_eq_true.mpr ⟨r, List.mem_of_find?_eq_some hf, hr⟩
    rw [Option.bind_some, hany, Option.eq_none_iff_forall_not_mem]
    obtain ⟨signal, hsig⟩ := Option.isSome_iff_exists.mp hs
    simp [hsig]

theorem get?_byRequest (stream : EventStream) (cb : OobEvent) :
    (if given cb.requestId then (correlationIndex stream).2.get? (cb.requestId.getD "") else none) =
      firstOn .requestId stream cb := by
  by_cases hg : given cb.requestId = true
  · obtain ⟨q, hq⟩ : ∃ q, cb.requestId = some q := by
      cases h : cb.requestId with
      | none => rw [h] at hg; exact absurd hg (by simp [given])
      | some q => exact ⟨q, rfl⟩
    rw [if_pos hg, correlationIndex_eq, Dict.get?_addAll, hq, Option.getD_some,
      find?_pairs rawSignal_of_requestPair stream (fun x => decide (x = q)), firstOn]
    congr 2
    funext r
    unfold requestPair JoinKey.matchesOn
    rw [hq] at hg ⊢
    cases rawSignal r.raw <;> cases rawRequestId r.raw <;> simp [hg]
  · have hm : ∀ r, JoinKey.requestId.matchesOn cb r = false := fun r => by
      simp [JoinKey.matchesOn, hg]
    rw [if_neg hg]
    exact ((firstOn_eq_none_iff _ _ _).mpr (by simp [hm])).symm

theorem signalForHost_eq (stream : EventStream) (cb : OobEvent) :
    signalForHost cb.destinationHost (correlationIndex stream).1 =
      (firstOn .host stream cb).or (firstOn .suffix stream cb) := by
  unfold signalForHost
  by_cases hk : normHost cb.destinationHost = ""
  · have hm : ∀ k ∈ [JoinKey.host, .suffix], ∀ r, k.matchesOn cb r = false := by
      intro k hmem r
      simp only [List.mem_cons, List.not_mem_nil, or_false] at hmem
      rcases hmem with rfl | rfl <;> simp [JoinKey.matchesOn, hk]
    have hhost := (firstOn_eq_none_iff .host stream cb).mpr (by simp [hm .host (by simp)])
    have hsuffix := (firstOn_eq_none_iff .suffix stream cb).mpr (by simp [hm .suffix (by simp)])
    rw [if_pos hk, hhost, hsuffix, Option.or_none]
  · have hexact : (correlationIndex stream).1.get? (normHost cb.destinationHost) =
        firstOn .host stream cb := by
      rw [correlationIndex_eq, Dict.get?_addAll, find?_pairs rawSignal_of_hostPair stream
        (fun x => decide (x = normHost cb.destinationHost)), firstOn]
      congr 2
      funext r
      unfold hostPair JoinKey.matchesOn
      by_cases hr : rawHost r.raw = ""
      · have hne : ¬ "" = normHost cb.destinationHost := fun h => hk h.symm
        cases rawSignal r.raw <;> simp [hr, hk, hne]
      · cases rawSignal r.raw <;> simp [hr, hk]
    have hscan : ((correlationIndex stream).1.items.find?
        fun e => suffixRelated (normHost cb.destinationHost) e.1).map Prod.snd =
          firstOn .suffix stream cb := by
      rw [correlationIndex_eq, Dict.find?_addAll, Dict.empty, List.nil_append,
        find?_pairs rawSignal_of_hostPair stream
          (suffixRelated (normHost cb.destinationHost)), firstOn]
      congr 2
      funext r
      unfold hostPair JoinKey.matchesOn
      by_cases hr : rawHost r.raw = "" <;> cases rawSignal r.raw <;> simp [hr, hk]
    rw [if_neg hk, hexact, hscan]
    cases firstOn .host stream cb <;> rfl

/-- The join, key by key. -/
theorem joinedSignal_eq_or (stream : EventStream) (cb : OobEvent) :
    joinedSignal cb (correlationIndex stream) =
      (firstOn .requestId stream cb).or
        ((firstOn .host stream cb).or (firstOn .suffix stream cb)) := by
  have hgiven : ∀ signal, firstOn .requestId stream cb = some signal →
      given (some signal) = true := by
    intro signal h
    obtain ⟨r, -, hr⟩ := Option.bind_eq_some_iff.mp h
    exact rawSignal_given hr
  rw [joinedSignal, get?_byRequest, signalForHost_eq]
  cases h : firstOn .requestId stream cb with
  | none => simp [given]
  | some signal => rw [if_pos (hgiven signal h)]; rfl

/-- **The join**: the first registration on the strongest key. -/
theorem joinedSignal_eq (stream : EventStream) (cb : OobEvent) :
    joinedSignal cb (correlationIndex stream) =
      (stream.find? (joins stream cb)).bind (rawSignal ·.raw) := by
  have hjoins : ∀ k, joinKey stream cb = some k → joins stream cb = k.matchesOn cb := by
    intro k hk
    funext r
    simp [joins, hk]
  rw [joinedSignal_eq_or]
  by_cases h1 : stream.any (JoinKey.requestId.matchesOn cb) = true
  · have hk : joinKey stream cb = some .requestId := by simp [joinKey, h1]
    have hsome : firstOn .requestId stream cb ≠ none := by
      rw [Ne, firstOn_eq_none_iff, h1]; simp
    rw [hjoins _ hk, ← firstOn, Option.or_of_isSome (Option.isSome_iff_ne_none.mpr hsome)]
  have h1' := (firstOn_eq_none_iff .requestId stream cb).mpr (by simpa using h1)
  rw [h1', Option.none_or]
  by_cases h2 : stream.any (JoinKey.host.matchesOn cb) = true
  · have hk : joinKey stream cb = some .host := by simp [joinKey, h1, h2]
    have hsome : firstOn .host stream cb ≠ none := by
      rw [Ne, firstOn_eq_none_iff, h2]; simp
    rw [hjoins _ hk, ← firstOn, Option.or_of_isSome (Option.isSome_iff_ne_none.mpr hsome)]
  have h2' := (firstOn_eq_none_iff .host stream cb).mpr (by simpa using h2)
  rw [h2', Option.none_or]
  by_cases h3 : stream.any (JoinKey.suffix.matchesOn cb) = true
  · have hk : joinKey stream cb = some .suffix := by simp [joinKey, h1, h2, h3]
    rw [hjoins _ hk, ← firstOn]
  · have hk : joinKey stream cb = none := by simp [joinKey, h1, h2, h3]
    have hnone : ∀ r, joins stream cb r = false := fun r => by simp [joins, hk]
    rw [(firstOn_eq_none_iff .suffix stream cb).mpr (by simpa using h3),
      List.find?_eq_none.mpr (by simp [hnone])]
    rfl

/-! ## The credit -/

/-- The vulnerability and the confidence an attribution credits. -/
def Attribution.credit (a : Attribution) : Option (String × Confidence) :=
  a.vulnId.map fun id => (id, a.confidence)

/-- The last resort of `attribute_oob`. -/
def windowCredit (s : Setting) (cb : OobEvent) : Option (String × Confidence) :=
  let sourceApp := resolveSourceApp cb s.catalog s.addresses
  if given sourceApp || given cb.route then
    match windowCandidates cb s.catalog sourceApp with
    | [v] => some (v.id, .low)
    | _ => none
  else none

/-- The credit of a callback that is joined to a registration of `signal`. -/
def creditVia (s : Setting) (cb : OobEvent) (signal : Option String) :
    Option (String × Confidence) :=
  let owner := ((lookupGiven s.catalog.byToken (some cb.token)).or
    (lookupGiven s.catalog.bySignal cb.signal)).or
      ((lookupGiven s.catalog.byId cb.vulnId).or (lookupGiven s.catalog.bySignal signal))
  match owner with
  | some v => some (v.id, if isWeak cb then .low else .high)
  | none => windowCredit s cb

theorem credit_attributeOob (s : Setting) (cb : OobEvent) (ix : Correlations) :
    (attributeOob cb s.catalog ix s.addresses).credit = creditVia s cb (joinedSignal cb ix) := by
  unfold attributeOob creditVia windowCredit
  cases lookupGiven s.catalog.byToken (some cb.token) with
  | some v => rfl
  | none =>
    cases lookupGiven s.catalog.bySignal cb.signal with
    | some v => rfl
    | none =>
      cases lookupGiven s.catalog.byId cb.vulnId with
      | some v => rfl
      | none =>
        cases lookupGiven s.catalog.bySignal (joinedSignal cb ix) with
        | some v => rfl
        | none =>
          by_cases hw : (given (resolveSourceApp cb s.catalog s.addresses) || given cb.route) = true
          · simp only [hw, if_true, Option.or_none]
            rcases windowCandidates cb s.catalog (resolveSourceApp cb s.catalog s.addresses) with
              _ | ⟨v, _ | ⟨w, vs⟩⟩ <;> rfl
          · simp only [hw, Option.or_none]
            rfl

/-- The credit of a callback in a stream. -/
def creditIn (s : Setting) (stream : EventStream) (cb : OobEvent) : Option (String × Confidence) :=
  creditVia s cb ((stream.find? (joins stream cb)).bind (rawSignal ·.raw))

theorem any_attributedTo (s : Setting) (stream : EventStream) (vulnId : String) (c : Confidence) :
    (attributedTo (attributions stream s.catalog s.addresses) vulnId).any (·.confidence = c) =
      (EventStream.oob stream).any fun cb => creditIn s stream cb = some (vulnId, c) := by
  rw [attributedTo, attributions, List.any_filter, List.any_map]
  refine List.any_congr rfl fun cb => ?_
  rw [Function.comp_apply, creditIn, ← joinedSignal_eq, ← credit_attributeOob, Attribution.credit]
  cases (attributeOob cb s.catalog (correlationIndex stream) s.addresses).vulnId <;> simp

end PtaasBench.Benchctl

/-! ## Two flaws proved by a callback -/

namespace PtaasBench.Benchctl.Shop

open Py

/-- A server-side request forgery in the importer. -/
def fetchVuln : Vuln where
  id := "BENCH-SHOP-0031"
  app := "shopfront"
  entrypoint := { method := "POST", path := "/api/import", auth := "user", param := some "url" }
  oracle := { kind := "oob", signal := some "shop.imports.fetch.external" }

/-- Another one, in the code that retries an import. -/
def retryVuln : Vuln where
  id := "BENCH-SHOP-0032"
  app := "shopfront"
  entrypoint := { method := "POST", path := "/api/retry", auth := "user", param := some "url" }
  oracle := { kind := "oob", signal := some "shop.imports.fetch.retry" }

def setting : Setting where
  catalog := { vulns := [fetchVuln, retryVuln], ids_nodup := by decide }
  apps := ["shopfront"]

/-- A sink of the shop registers the host it is about to fetch. -/
def registration (signal requestId host : String) : Obj :=
  [("type", .str "correlation"), ("app", .str "shopfront"), ("signal", .str signal),
    ("request_id", .str requestId), ("destination_host", .str host)]

/-- The sinkhole sees the lookup of a host. -/
def callback (requestId host : String) : Obj :=
  [("type", .str "oob"), ("channel", .str "dns"), ("request_id", .str requestId),
    ("destination_host", .str host)]

end PtaasBench.Benchctl.Shop
