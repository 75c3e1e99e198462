import PtaasBench.Runners.Parsers

/-!
# PtaasBench.Runners.Malformed — which reports a parser gets through

For each parser the claims that its well-formed records make, as one comprehension over the report, and the condition on
the report under which it returns.  Where it returns, its findings are these claims.
-/

namespace PtaasBench.Runners.Normalise

open Py Lib List

/-- The findings as the arguments they were built from. -/
def NormaliseResult.claims (out : NormaliseResult) : List Claim := out.findings.map Subtype.val

/-- The dictionaries of a list, with their places. -/
def dictsOf (xs : List Json) : List (Obj × ℕ) := xs.zipIdx.filterMap fun e => e.1.asObj?.map fun fields => (fields, e.2)

/-- What a computation gives, `none` where it raises. -/
def valueOf {α : Type} (x : Except Raised (Option α)) : Option α := x.toOption.join

theorem valueOf_ok {α : Type} {x : Except Raised (Option α)} {a : Option α} (h : x = .ok a) : valueOf x = a := by
  rw [h]
  rfl

/-- No CWE, or a positive one. -/
def CwePositive (cwe : Option ℤ) : Prop := ∀ n ∈ cwe, 0 < n

def RulePositive (rule : Option Rule) : Prop := ∀ r ∈ rule, CwePositive r.cwe

/-- What `enumerate(x or [])` accepts. -/
def Iterable (x : Json) : Prop :=
  x.truthy = true → match x with
    | .arr _ | .obj _ | .str _ => True
    | _ => False

/-- The elements that are run over, none where that raises. -/
def elementsOf (x : Json) : List Json := (elements x).toOption.getD []

/-! ## Results -/

@[simp] theorem claims_extend (out other : NormaliseResult) :
    (out.extend other).claims = out.claims ++ other.claims := by
  simp [NormaliseResult.claims, NormaliseResult.extend]

theorem claims_extend_unmapped (us : List Unmapped) (out : NormaliseResult) :
    (NormaliseResult.extend ⟨[], us⟩ out).claims = out.claims := by
  rw [claims_extend]
  rfl

theorem returns_emit (c : Claim) : Returns (emit c) c.Valid fun out => out.claims = [c] := by
  unfold emit Finding.new
  by_cases h : c.Valid
  · rw [dif_pos h]
    exact Returns.of_ok h rfl
  · rw [dif_neg h]
    exact Returns.of_error h

theorem returns_forEach {α : Type} {turn : ℕ → α → Except Raised NormaliseResult} (good : α × ℕ → Prop)
    (said : α × ℕ → List Claim) {xs : List α}
    (h : ∀ e : α × ℕ, Returns (turn e.2 e.1) (good e) fun out => out.claims = said e) :
    Returns (forEach turn xs) (∀ e ∈ xs.zipIdx, good e) fun out => out.claims = xs.zipIdx.flatMap said := by
  have hstart : ({} : NormaliseResult).claims = [].flatMap said := rfl
  refine Returns.of_foldlM good (fun (s : NormaliseResult) e s' => s'.claims = s.claims ++ said e)
    (fun done (s : NormaliseResult) => s.claims = done.flatMap said) (fun s e => ?_) ?_ xs.zipIdx [] hstart
  · refine (h e).map fun out hout => ?_
    rw [claims_extend, hout]
  · intro done s e s' hs hnext
    rw [hnext, hs, flatMap_append, flatMap_singleton]

/-- A loop whose turns do not look at the place. -/
theorem returns_each {α : Type} {turn : α → Except Raised NormaliseResult} {good : α → Prop} {said : α → List Claim}
    {xs : List α} (h : ∀ x, Returns (turn x) (good x) fun out => out.claims = said x) :
    Returns (forEach (fun _ => turn) xs) (∀ x ∈ xs, good x) fun out => out.claims = xs.flatMap said := by
  refine (returns_forEach (fun e => good e.1) (fun e => said e.1) fun e => h e.1).weaken ?_ ?_
  · constructor
    · intro hg x hx
      obtain ⟨i, hi, rfl⟩ := mem_iff_getElem.mp hx
      exact hg (xs[i], i) (mk_mem_zipIdx_iff_getElem?.mpr (List.getElem?_eq_getElem hi))
    · rintro hg ⟨x, i⟩ he
      exact hg x (fst_mem_of_mem_zipIdx he)
  · intro out hout
    rw [hout]
    have hmap : xs.zipIdx.map Prod.fst = xs := zipIdx_map_fst 0 xs
    conv_rhs => rw [← hmap]
    rw [flatMap_map]

theorem forEach_map {α β : Type} (f : α → β) (turn : ℕ → β → Except Raised NormaliseResult) (xs : List α) :
    forEach (fun i x => turn i (f x)) xs = forEach turn (xs.map f) := by
  rw [forEach, forEach, zipIdx_map, foldlM_map]
  rfl

theorem mem_dictsOf {xs : List Json} {fields : Obj} {i : ℕ} :
    (fields, i) ∈ dictsOf xs ↔ (Json.obj fields, i) ∈ xs.zipIdx := by
  rw [dictsOf, mem_filterMap]
  constructor
  · rintro ⟨⟨x, j⟩, hx, hdict⟩
    cases x with
    | obj fs =>
      obtain ⟨rfl, rfl⟩ := Prod.mk.inj (Option.some.inj hdict)
      exact hx
    | _ => cases hdict
  · intro h
    exact ⟨(.obj fields, i), h, rfl⟩

theorem flatMap_dictsOf {β : Type} (xs : List (Json × ℕ)) (f : Obj × ℕ → List β) :
    (xs.flatMap fun e => (e.1.asObj?.map fun fields => f (fields, e.2)).getD []) =
      (xs.filterMap fun e => e.1.asObj?.map fun fields => (fields, e.2)).flatMap f := by
  induction xs with
  | nil => rfl
  | cons e xs ih =>
    obtain ⟨x, i⟩ := e
    rw [flatMap_cons, filterMap_cons, ih]
    cases x with
    | obj fields => rfl
    | _ => rfl

/-- A loop over the dictionaries among the values. -/
theorem returns_dicts {turn : ℕ → Obj → Except Raised NormaliseResult} {good : Obj × ℕ → Prop}
    {said : Obj × ℕ → List Claim} {xs : List Json}
    (h : ∀ e : Obj × ℕ, Returns (turn e.2 e.1) (good e) fun out => out.claims = said e) :
    Returns (forEach (fun i => ofDict (turn i)) xs) (∀ e ∈ dictsOf xs, good e)
      fun out => out.claims = (dictsOf xs).flatMap said := by
  refine (returns_forEach (fun e => ∀ o, e.1 = Json.obj o → good (o, e.2))
    (fun e => (e.1.asObj?.map fun fields => said (fields, e.2)).getD []) ?_).weaken ?_ ?_
  · rintro ⟨x, i⟩
    cases x with
    | obj fields =>
      exact (h (fields, i)).weaken ⟨fun hg o ho => Json.obj.inj ho ▸ hg, fun hg => hg fields rfl⟩ fun _ => id
    | _ => exact Returns.of_ok (fun o ho => (nomatch ho)) rfl
  · constructor
    · rintro hg ⟨fields, i⟩ he
      exact hg _ (mem_dictsOf.mp he) fields rfl
    · rintro hg ⟨x, i⟩ he o rfl
      exact hg (o, i) (mem_dictsOf.mpr he)
  · intro out hout
    rw [hout]
    exact flatMap_dictsOf xs.zipIdx said

theorem returns_elements (x : Json) : Returns (elements x) (Iterable x) fun xs => xs = elementsOf x := by
  unfold elementsOf
  by_cases hx : x.truthy = true
  · cases x with
    | arr xs => rw [elements.eq_def, if_pos hx]; exact Returns.of_ok (fun _ => trivial) rfl
    | obj fields => rw [elements.eq_def, if_pos hx]; exact Returns.of_ok (fun _ => trivial) rfl
    | str s => rw [elements.eq_def, if_pos hx]; exact Returns.of_ok (fun _ => trivial) rfl
    | _ => rw [elements.eq_def, if_pos hx]; exact Returns.of_error fun h => h hx
  · rw [elements.eq_def, if_neg hx]
    exact Returns.of_ok (fun h => absurd h hx) rfl

/-! ## Turns -/

/-- A claim whose last piece is the parameter. -/
theorem returns_emit_param {param : Except Raised (Option String)} {safe : Prop} {cwe : Option ℤ}
    {c : Option String → Claim} (hparam : (∃ p, param = .ok p) ↔ safe) (hvalid : ∀ p, (c p).Valid ↔ CwePositive cwe) :
    Returns (param >>= fun p => emit (c p)) (safe ∧ CwePositive cwe) fun out => out.claims = [c (valueOf param)] := by
  refine (Returns.of_self hparam).bind fun p hp _ => ?_
  rw [valueOf_ok hp]
  exact (returns_emit (c p)).weaken (hvalid p) fun _ => id

/-- A turn for a record that the table may skip. -/
theorem returns_unless_skipped {rule : Option Rule} {x : Except Raised NormaliseResult} {safe : Prop} {cs : List Claim}
    (h : Returns x safe fun out => out.claims = cs) :
    Returns (if rule.any Rule.skip then .ok {} else x) (rule.any Rule.skip = false → safe)
      fun out => out.claims = if rule.any Rule.skip then [] else cs := by
  by_cases hs : rule.any Rule.skip = true
  · rw [if_pos hs, if_pos hs]
    exact Returns.of_ok (fun hf => absurd (hs.symm.trans hf) (by decide)) rfl
  · rw [if_neg hs, if_neg hs]
    exact h.weaken ⟨fun hsafe _ => hsafe, fun hsafe => hsafe (Bool.eq_false_iff.mpr hs)⟩ fun _ => id

/-- The unmapped entries of a turn make no claims. -/
theorem returns_found {x : Except Raised NormaliseResult} {safe : Prop} {cs : List Claim} (us : List Unmapped)
    (h : Returns x safe fun out => out.claims = cs) :
    Returns (x >>= fun found => .ok (NormaliseResult.extend ⟨[], us⟩ found)) safe fun out => out.claims = cs := by
  exact h.bind_ok fun found _ hfound => (claims_extend_unmapped us found).trans hfound

/-! ## Words of a vocabulary -/

theorem lookup_mem (codes : List (String × String)) {words : List String} (h : ∀ e ∈ codes, e.2 ∈ words)
    {text w : String} (hw : w ∈ codes.lookup text) : w ∈ words := by
  obtain ⟨l₁, l₂, hl, -⟩ := lookup_eq_some_iff.mp hw
  exact h (text, w) (hl ▸ mem_append_right l₁ mem_cons_self)

theorem or_mem {words : List String} {a b : Option String} (ha : ∀ w ∈ a, w ∈ words) (hb : ∀ w ∈ b, w ∈ words) :
    ∀ w ∈ a.or b, w ∈ words := by
  cases a with
  | none => exact hb
  | some w => exact ha

/-- With words of the vocabularies, a claim is let through when its CWE is positive. -/
theorem valid_iff {c : Claim} (hseverity : ∀ s ∈ c.severity, s ∈ severities)
    (hconfidence : ∀ s ∈ c.confidence, s ∈ confidences) : c.Valid ↔ CwePositive c.cwe :=
  ⟨fun h => h.2.2, fun h => ⟨hseverity, hconfidence, h⟩⟩

/-! ## Numbers and parameters -/

variable [Library]

/-- The text of a number that `int` accepts. -/
def Short (digits : Option (List Char)) : Prop := ∀ ds ∈ digits, ds.length ≤ 4300

mutual

/-- What `parse_cwe` gets through. -/
def CweReadable : Json → Prop
  | .null => True
  | .bool _ => True
  | .arr items => CwesReadable items
  | .int _ => True
  | value => Short (cweDigits (strip value.pyStr).toList)

/-- An item is read when none before it gave a number. -/
def CwesReadable : List Json → Prop
  | [] => True
  | item :: items => CweReadable item ∧ (valueOf (parseCwe item) = none → CwesReadable items)

end

theorem intOf_ok_iff {digits : List Char} : (∃ n, intOf digits = .ok n) ↔ digits.length ≤ 4300 := by
  unfold intOf
  by_cases h : digits.length ≤ 4300
  · rw [if_pos h]
    exact ⟨fun _ => h, fun _ => ⟨_, rfl⟩⟩
  · rw [if_neg h]
    exact ⟨fun ⟨_, hn⟩ => (nomatch hn), fun hl => absurd hl h⟩

theorem textCwe_ok_iff (text : String) : (∃ r, textCwe text = .ok r) ↔ Short (cweDigits (strip text).toList) := by
  unfold textCwe
  cases cweDigits (strip text).toList with
  | none => exact ⟨fun _ ds h => (nomatch h), fun _ => ⟨none, rfl⟩⟩
  | some ds =>
    rw [map_ok_iff, intOf_ok_iff]
    exact ⟨fun h ds' hds => Option.some.inj hds ▸ h, fun h => h ds rfl⟩

mutual

theorem parseCwe_ok_iff : (x : Json) → ((∃ r, parseCwe x = .ok r) ↔ CweReadable x)
  | .null => ⟨fun _ => trivial, fun _ => ⟨_, rfl⟩⟩
  | .bool _ => ⟨fun _ => trivial, fun _ => ⟨_, rfl⟩⟩
  | .int _ => ⟨fun _ => trivial, fun _ => ⟨_, rfl⟩⟩
  | .arr items => parseCwes_ok_iff items
  | .float f => textCwe_ok_iff (Json.float f).pyStr
  | .nan => textCwe_ok_iff Json.nan.pyStr
  | .infinity neg => textCwe_ok_iff (Json.infinity neg).pyStr
  | .str s => textCwe_ok_iff (Json.str s).pyStr
  | .obj fields => textCwe_ok_iff (Json.obj fields).pyStr

theorem parseCwes_ok_iff : (xs : List Json) → ((∃ r, parseCwes xs = .ok r) ↔ CwesReadable xs)
  | [] => ⟨fun _ => trivial, fun _ => ⟨_, rfl⟩⟩
  | item :: items => by
    rw [parseCwes, CwesReadable, ← parseCwe_ok_iff item]
    cases hitem : parseCwe item with
    | error e => exact ⟨fun ⟨_, hr⟩ => (nomatch hr), fun ⟨⟨_, hr⟩, _⟩ => (nomatch hr)⟩
    | ok got =>
      cases got with
      | none =>
        have ih := parseCwes_ok_iff items
        exact ⟨fun h => ⟨⟨_, rfl⟩, fun _ => ih.mp h⟩, fun h => ih.mpr (h.2 rfl)⟩
      | some n => exact ⟨fun _ => ⟨⟨_, rfl⟩, fun h => (nomatch h)⟩, fun _ => ⟨_, rfl⟩⟩

end

theorem textCwe_positive (text : String) {n : ℤ} (h : textCwe text = .ok (some n)) : 0 < n := by
  unfold textCwe at h
  split at h
  · cases h
  · obtain ⟨m, -, hm⟩ := map_eq_ok.mp h
    unfold positive at hm
    split_ifs at hm with hpos
    exact Option.some.inj hm ▸ hpos

theorem parseCwes_cons_of_none {item : Json} (h : parseCwe item = .ok none) (items : List Json) :
    parseCwes (item :: items) = parseCwes items := by
  rw [parseCwes, h]

theorem parseCwes_cons_of_some {item : Json} {n : ℤ} (h : parseCwe item = .ok (some n)) (items : List Json) :
    parseCwes (item :: items) = .ok (some n) := by
  rw [parseCwes, h]

theorem parseCwes_cons_of_error {item : Json} {e : Raised} (h : parseCwe item = .error e) (items : List Json) :
    parseCwes (item :: items) = .error e := by
  rw [parseCwes, h]

mutual

theorem parseCwe_positive : (x : Json) → ∀ n, parseCwe x = .ok (some n) → 0 < n
  | .null => fun n h => absurd (Except.ok.inj h) (Option.some_ne_none n).symm
  | .bool _ => fun n h => absurd (Except.ok.inj h) (Option.some_ne_none n).symm
  | .int m => fun n h => by
    have hm : positive m = some n := Except.ok.inj h
    unfold positive at hm
    split_ifs at hm with hpos
    exact Option.some.inj hm ▸ hpos
  | .arr items => fun n h => parseCwes_positive items n h
  | .float f => fun n h => textCwe_positive (Json.float f).pyStr h
  | .nan => fun n h => textCwe_positive Json.nan.pyStr h
  | .infinity neg => fun n h => textCwe_positive (Json.infinity neg).pyStr h
  | .str s => fun n h => textCwe_positive (Json.str s).pyStr h
  | .obj fields => fun n h => textCwe_positive (Json.obj fields).pyStr h

theorem parseCwes_positive : (xs : List Json) → ∀ n, parseCwes xs = .ok (some n) → 0 < n
  | [] => fun n h => absurd (Except.ok.inj h) (Option.some_ne_none n).symm
  | item :: items => fun n h => by
    have hitem := parseCwe_positive item
    have hitems := parseCwes_positive items
    cases hgot : parseCwe item with
    | error e =>
      rw [parseCwes_cons_of_error hgot] at h
      cases h
    | ok got =>
      cases got with
      | none =>
        rw [parseCwes_cons_of_none hgot] at h
        exact hitems n h
      | some m =>
        rw [parseCwes_cons_of_some hgot] at h
        exact hitem n (hgot.trans h)

end

/-- The query of the URL can be taken apart. -/
def UrlReadable (url : Option String) : Prop := ∀ u ∈ url, '?' ∈ u.toList → (urlQuery u).isSome

/-- The parameter is named, or the URL can be searched for it. -/
def ParamReadable (param url : Option String) : Prop := param = none → UrlReadable url

theorem paramFromUrl_ok_iff (url : Option String) : (∃ p, paramFromUrl url = .ok p) ↔ UrlReadable url := by
  cases url with
  | none => exact ⟨fun _ u hu => (nomatch hu), fun _ => ⟨none, rfl⟩⟩
  | some url =>
    have hreadable : UrlReadable (some url) ↔ ('?' ∈ url.toList → (urlQuery url).isSome) :=
      ⟨fun h => h url rfl, fun h u hu => Option.some.inj hu ▸ h⟩
    rw [hreadable, paramFromUrl]
    by_cases hq : '?' ∈ url.toList
    · rw [if_pos hq]
      cases hquery : urlQuery url with
      | none => exact ⟨fun ⟨_, hp⟩ => (nomatch hp), fun h => absurd (h hq) Bool.false_ne_true⟩
      | some query =>
        refine ⟨fun _ _ => rfl, fun _ => ?_⟩
        dsimp only
        split
        · exact ⟨_, rfl⟩
        · exact ⟨none, rfl⟩
    · rw [if_neg hq]
      exact ⟨fun _ h => absurd h hq, fun _ => ⟨none, rfl⟩⟩

theorem paramOr_ok_iff (param url : Option String) : (∃ p, paramOr param url = .ok p) ↔ ParamReadable param url := by
  cases param with
  | none =>
    rw [paramOr, paramFromUrl_ok_iff]
    exact ⟨fun h _ => h, fun h => h rfl⟩
  | some p => exact ⟨fun _ h => (nomatch h), fun _ => ⟨some p, rfl⟩⟩

/-! ## The vocabularies -/

theorem normWord_mem {aliases : List (String × Option String)} {words : List String}
    (h : ∀ e ∈ aliases, ∀ w ∈ e.2, w ∈ words) {value : Json} {w : String} (hw : w ∈ normWord aliases value) :
    w ∈ words := by
  have hjoin : ∀ text : String, w ∈ (aliases.lookup text).join → w ∈ words := by
    intro text hmem
    have hfound : ∃ o, aliases.lookup text = some o ∧ w ∈ o := ⟨some w, Option.join_eq_some_iff.mp hmem, rfl⟩
    obtain ⟨o, ho, hwo⟩ := hfound
    obtain ⟨l₁, l₂, hl, -⟩ := lookup_eq_some_iff.mp ho
    exact h (text, o) (hl ▸ mem_append_right l₁ mem_cons_self) w hwo
  cases value with
  | null => cases hw
  | _ => exact hjoin _ hw

theorem normSeverity_mem {value : Json} {w : String} (hw : w ∈ normSeverity value) : w ∈ severities :=
  normWord_mem (by decide) hw

theorem normConfidence_mem {value : Json} {w : String} (hw : w ∈ normConfidence value) : w ∈ confidences :=
  normWord_mem (by decide) hw

/-! ## ZAP -/

section Reports

variable (table : CweTable) (tool file : String)

/-- The CWE field is read where there is neither a rule nor a sentinel. -/
def ZapCweReadable (alert : Obj) : Prop :=
  zapRule table tool alert = none → table.isNullValue tool (alert.get "cweid") = false → CweReadable (alert.get "cweid")

/-- The description of the risk is text where the code is not known. -/
def ZapRiskReadable (alert : Obj) : Prop :=
  riskByCode.lookup (strip (alert.get "riskcode").pyStr) = none → (alert.get "riskdesc").truthy = true →
    (alert.get "riskdesc").asStr?.isSome

theorem zapCwe_ok_iff (alert : Obj) :
    (∃ cwe, zapCwe table tool alert = .ok cwe) ↔ ZapCweReadable table tool alert := by
  unfold zapCwe ZapCweReadable
  cases zapRule table tool alert with
  | some rule => exact ⟨fun _ h => (nomatch h), fun _ => ⟨rule.cwe, rfl⟩⟩
  | none =>
    dsimp only
    by_cases hnull : table.isNullValue tool (alert.get "cweid") = true
    · rw [if_pos hnull]
      exact ⟨fun _ _ h => absurd (hnull.symm.trans h) (by decide), fun _ => ⟨none, rfl⟩⟩
    · rw [if_neg hnull, parseCwe_ok_iff]
      exact ⟨fun h _ _ => h, fun h => h rfl (Bool.eq_false_iff.mpr hnull)⟩

theorem zapCwe_positive (alert : Obj) {cwe : Option ℤ} (h : zapCwe table tool alert = .ok cwe) :
    CwePositive cwe ↔ RulePositive (zapRule table tool alert) := by
  unfold zapCwe at h
  cases hrule : zapRule table tool alert with
  | some rule =>
    rw [hrule] at h
    obtain rfl := Except.ok.inj h
    exact ⟨fun hc r hr => Option.some.inj hr ▸ hc, fun hr => hr rule rfl⟩
  | none =>
    rw [hrule] at h
    refine ⟨fun _ r hr => (nomatch hr), fun _ n hn => ?_⟩
    obtain rfl := Option.mem_def.mp hn
    dsimp only at h
    split_ifs at h with hnull
    · cases h
    · exact parseCwe_positive _ n h

theorem zapSeverity_ok_iff (alert : Obj) : (∃ s, zapSeverity alert = .ok s) ↔ ZapRiskReadable alert := by
  unfold zapSeverity ZapRiskReadable
  cases riskByCode.lookup (strip (alert.get "riskcode").pyStr) with
  | some risk => exact ⟨fun _ h => (nomatch h), fun _ => ⟨_, rfl⟩⟩
  | none =>
    dsimp only
    by_cases hdesc : (alert.get "riskdesc").truthy = true
    · rw [if_pos hdesc]
      revert hdesc
      cases alert.get "riskdesc" with
      | str s => exact fun _ => ⟨fun _ _ _ => rfl, fun _ => ⟨_, rfl⟩⟩
      | _ => exact fun hdesc => ⟨fun ⟨_, hs⟩ => (nomatch hs), fun h => absurd (h rfl hdesc) Bool.false_ne_true⟩
    · rw [if_neg hdesc]
      exact ⟨fun _ _ h => absurd h hdesc, fun _ => ⟨_, rfl⟩⟩

theorem zapSeverity_mem {alert : Obj} {s : Option String} (h : zapSeverity alert = .ok s) :
    ∀ w ∈ s, w ∈ severities := by
  unfold zapSeverity at h
  split at h
  · rename_i risk hrisk
    obtain rfl := Except.ok.inj h
    intro w hw
    obtain rfl := Option.some.inj hw
    exact lookup_mem riskByCode (by decide) hrisk
  · split_ifs at h with hdesc
    · split at h
      · obtain rfl := Except.ok.inj h
        exact fun w hw => normSeverity_mem hw
      · cases h
    · obtain rfl := Except.ok.inj h
      exact fun w hw => normSeverity_mem hw

theorem zapConfidence_mem (alert : Obj) : ∀ w ∈ zapConfidence alert, w ∈ confidences :=
  or_mem (fun _ hw => lookup_mem confByCode (by decide) hw) fun _ hw => normConfidence_mem hw

/-- What an instance adds to the claim of its alert. -/
def zapSaid (claim : Claim) (inst : Obj) : Claim :=
  { claim with
    url := clean (inst.get "uri"), method := normMethod (inst.get "method")
    param := valueOf (paramOr (clean (inst.get "param")) (clean (inst.get "uri"))) }

/-- The claim of an alert, without its instance. -/
def zapAlertClaim (si ai : ℕ) (alert : Obj) (ii : ℕ) : Claim where
  tool := tool
  url := none
  method := none
  param := none
  cwe := valueOf (zapCwe table tool alert)
  name := zapName alert
  severity := valueOf (zapSeverity alert)
  confidence := zapConfidence alert
  rawRef := s!"{file}#site[{si}].alerts[{ai}].instances[{ii}]"

def zapAlertClaims (site : Obj) (si ai : ℕ) (alert : Obj) : List Claim :=
  if (zapRule table tool alert).any Rule.skip then []
  else (dictsOf (zapInstances site alert)).flatMap fun e => [zapSaid (zapAlertClaim table tool file si ai alert e.2) e.1]

def zapSiteClaims (si : ℕ) (site : Obj) : List Claim :=
  (dictsOf (elementsOf (site.get "alerts"))).flatMap fun e => zapAlertClaims table tool file site si e.2 e.1

def zapClaims (doc : Json) : List Claim :=
  (dictsOf (zapSites doc)).flatMap fun e => zapSiteClaims table tool file e.2 e.1

def ZapAlertSafe (site alert : Obj) : Prop :=
  (zapRule table tool alert).any Rule.skip = false →
    ZapCweReadable table tool alert ∧ ZapRiskReadable alert ∧ ∀ e ∈ dictsOf (zapInstances site alert),
      ParamReadable (clean (e.1.get "param")) (clean (e.1.get "uri")) ∧ RulePositive (zapRule table tool alert)

def ZapSafe (doc : Json) : Prop :=
  ∀ site ∈ dictsOf (zapSites doc), Iterable (site.1.get "alerts") ∧
    ∀ alert ∈ dictsOf (elementsOf (site.1.get "alerts")), ZapAlertSafe table tool site.1 alert.1

theorem returns_zapAlert (site : Obj) (si ai : ℕ) (alert : Obj) :
    Returns (zapAlert table tool file site si ai alert) (ZapAlertSafe table tool site alert)
      fun out => out.claims = zapAlertClaims table tool file site si ai alert := by
  refine returns_unless_skipped ?_
  refine (Returns.of_self (zapCwe_ok_iff table tool alert)).bind fun cwe hcwe _ => ?_
  refine (Returns.of_self (zapSeverity_ok_iff alert)).bind fun severity hseverity _ => ?_
  refine returns_found _ (returns_dicts fun e => ?_)
  have hparam := paramOr_ok_iff (clean (e.1.get "param")) (clean (e.1.get "uri"))
  rw [← zapCwe_positive table tool alert hcwe, zapAlertClaim, valueOf_ok hcwe, valueOf_ok hseverity]
  exact returns_emit_param hparam fun p => valid_iff (zapSeverity_mem hseverity) (zapConfidence_mem alert)

theorem returns_zap (doc : Json) : Returns (normaliseZap table tool file doc) (ZapSafe table tool doc)
    fun out => out.claims = zapClaims table tool file doc := by
  refine returns_dicts fun site => ?_
  refine (returns_elements (site.1.get "alerts")).bind fun alerts _ halerts => ?_
  rw [halerts]
  exact returns_dicts fun alert => returns_zapAlert table tool file site.1 site.2 alert.2 alert.1

/-! ## nuclei -/

/-- The tags that are run over. -/
def tagsOf (rec : Obj) : List Json := (nucleiTags rec).toOption.getD []

def NucleiReadable (rec : Obj) : Prop :=
  table.lookup tool [nucleiTemplate rec] = none → CweReadable (nucleiOwn rec) ∧
    (valueOf (parseCwe (nucleiOwn rec)) = none → Iterable ((dictOr (rec.get "info")).get "tags"))

/-- The CWE of a record that is read. -/
def nucleiFound (rec : Obj) : Option ℤ :=
  match table.lookup tool [nucleiTemplate rec] with
  | some rule => rule.cwe
  | none =>
    match valueOf (parseCwe (nucleiOwn rec)) with
    | some n => some n
    | none => (tagCwe (table.rules (tool ++ "_tags")) (tagsOf rec) (none, false)).1

omit [Library] in
theorem nucleiTags_ok_iff (rec : Obj) :
    (∃ tags, nucleiTags rec = .ok tags) ↔ Iterable ((dictOr (rec.get "info")).get "tags") := by
  unfold nucleiTags
  cases (dictOr (rec.get "info")).get "tags" with
  | str s => exact ⟨fun _ _ => trivial, fun _ => ⟨_, rfl⟩⟩
  | _ => exact (returns_elements _).ok_iff

theorem returns_nucleiCwe (rec : Obj) : Returns (nucleiCwe table tool rec) (NucleiReadable table tool rec)
    fun r => r.1 = nucleiFound table tool rec := by
  unfold nucleiCwe NucleiReadable nucleiFound
  cases table.lookup tool [nucleiTemplate rec] with
  | some rule => exact Returns.of_ok (fun h => (nomatch h)) rfl
  | none =>
    refine ((Returns.of_self (parseCwe_ok_iff (nucleiOwn rec))).bind_with
      (valueOf (parseCwe (nucleiOwn rec)) = none → Iterable ((dictOr (rec.get "info")).get "tags"))
      fun own hown _ => ?_).weaken ⟨fun h _ => h, fun h => h rfl⟩ fun _ => id
    rw [valueOf_ok hown]
    cases own with
    | some n => exact Returns.of_ok (fun h => (nomatch h)) rfl
    | none =>
      refine Returns.weaken ?_ ⟨fun h _ => h, fun h => h rfl⟩ fun _ => id
      refine (Returns.of_self (nucleiTags_ok_iff rec)).bind_ok fun tags htags _ => ?_
      have htagsOf : tagsOf rec = tags := by rw [tagsOf, htags]; rfl
      rw [htagsOf]

def nucleiClaim (lineno : ℕ) (rec : Obj) : Claim where
  tool := tool
  url := nucleiUrl rec
  method := (normMethod (rec.get "fuzzing_method")).or (normMethod (((firstRequestMethod rec).map Json.str).getD .null))
  param := valueOf (paramOr (clean (rec.get "fuzzing_parameter")) (nucleiUrl rec))
  cwe := nucleiFound table tool rec
  name := nucleiName rec
  severity := normSeverity ((dictOr (rec.get "info")).get "severity")
  confidence := if ((rec.get? "matcher-status").getD (.bool true)).truthy then some "high" else some "medium"
  rawRef := s!"{file}#L{lineno + 1}"

def nucleiClaims (lines : List (Option Json)) : List Claim :=
  (dictsOf (lines.map fun line => line.getD .null)).flatMap fun e =>
    if (table.lookup tool [nucleiTemplate e.1]).any Rule.skip then [] else [nucleiClaim table tool file e.2 e.1]

def NucleiRecordSafe (rec : Obj) : Prop :=
  (table.lookup tool [nucleiTemplate rec]).any Rule.skip = false →
    NucleiReadable table tool rec ∧ ParamReadable (clean (rec.get "fuzzing_parameter")) (nucleiUrl rec) ∧
      CwePositive (nucleiFound table tool rec)

def NucleiSafe (lines : List (Option Json)) : Prop :=
  ∀ e ∈ dictsOf (lines.map fun line => line.getD .null), NucleiRecordSafe table tool e.1

theorem returns_nuclei (lines : List (Option Json)) : Returns (normaliseNuclei table tool file lines)
    (NucleiSafe table tool lines) fun out => out.claims = nucleiClaims table tool file lines := by
  rw [normaliseNuclei, forEach_map fun line : Option Json => line.getD .null]
  refine returns_dicts fun e => returns_unless_skipped ?_
  refine (returns_nucleiCwe table tool e.1).bind fun r _ hr => ?_
  obtain ⟨cwe, decided, tags⟩ := r
  obtain rfl : cwe = nucleiFound table tool e.1 := hr
  have hparam := paramOr_ok_iff (clean (e.1.get "fuzzing_parameter")) (nucleiUrl e.1)
  refine ((Returns.of_self hparam).bind fun p hp _ => ?_)
  rw [nucleiClaim, valueOf_ok hp]
  refine returns_found _ ((returns_emit _).weaken (valid_iff (fun w hw => normSeverity_mem hw) ?_) fun _ => id)
  dsimp only
  split_ifs
  · exact fun w hw => Option.some.inj hw ▸ by decide
  · exact fun w hw => Option.some.inj hw ▸ by decide

/-! ## wapiti -/

/-- The reference links are looked at where the category's own field gives nothing. -/
def WapitiReadable (classifications : Obj) (category : String) : Prop :=
  table.lookup tool [some category] = none → CweReadable (dig (.obj classifications) (category ++ ".cwe")) ∧
    (valueOf (parseCwe (dig (.obj classifications) (category ++ ".cwe"))) = none →
      ∀ digits ∈ refNumbers (classifications.get category), digits.length ≤ 4300)

theorem wapitiRefCwe_ok_iff (classification : Json) :
    (∃ r, wapitiRefCwe classification = .ok r) ↔ ∀ digits ∈ refNumbers classification, digits.length ≤ 4300 := by
  rw [wapitiRefCwe, map_ok_iff]
  exact mapM_ok_iff (fun _ => intOf_ok_iff) (refNumbers classification)

/-- The CWE of a category that is read. -/
def wapitiFound (classifications : Obj) (category : String) : Option ℤ :=
  match table.lookup tool [some category] with
  | some rule => rule.cwe
  | none =>
    match valueOf (parseCwe (dig (.obj classifications) (category ++ ".cwe"))) with
    | some n => some n
    | none => valueOf (wapitiRefCwe (classifications.get category))

theorem returns_wapitiCwe (classifications : Obj) (category : String) :
    Returns (wapitiCwe table tool classifications category) (WapitiReadable table tool classifications category)
      fun cwe => cwe = wapitiFound table tool classifications category := by
  unfold wapitiCwe WapitiReadable wapitiFound
  cases table.lookup tool [some category] with
  | some rule => exact Returns.of_ok (fun h => (nomatch h)) rfl
  | none =>
    have hread := parseCwe_ok_iff (dig (.obj classifications) (category ++ ".cwe"))
    refine ((Returns.of_self hread).bind_with
      (valueOf (parseCwe (dig (.obj classifications) (category ++ ".cwe"))) = none →
        ∀ digits ∈ refNumbers (classifications.get category), digits.length ≤ 4300)
      fun own hown _ => ?_).weaken ⟨fun h _ => h, fun h => h rfl⟩ fun _ => id
    rw [valueOf_ok hown]
    cases own with
    | some n => exact Returns.of_ok (fun h => (nomatch h)) rfl
    | none =>
      have hlinks := wapitiRefCwe_ok_iff (classifications.get category)
      exact (Returns.of_self hlinks).weaken ⟨fun h _ => h, fun h => h rfl⟩ fun cwe hcwe => (valueOf_ok hcwe).symm

/-- What an entry adds to the claim of its category. -/
def wapitiSaid (claim : Claim) (entry : Obj) : Claim :=
  { claim with
    url := wapitiUrl entry, method := (normMethod (entry.get "method")).or (some "GET")
    param := valueOf (paramOr (clean (entry.get "parameter")) (wapitiUrl entry))
    severity := wapitiLevel (entry.get "level") }

/-- The claim of a category, without its entry. -/
def wapitiCategoryClaim (classifications : Obj) (category : String) (ei : ℕ) : Claim where
  tool := tool
  url := none
  method := none
  param := none
  cwe := wapitiFound table tool classifications category
  name := clean (.str category)
  severity := none
  confidence := none
  rawRef := s!"{file}#vulnerabilities['{category}'][{ei}]"

def wapitiCategoryClaims (classifications : Obj) (e : String × Json) : List Claim :=
  match e.2 with
  | .arr entries =>
    if (table.lookup tool [some e.1]).any Rule.skip then []
    else (dictsOf entries).flatMap fun entry =>
      [wapitiSaid (wapitiCategoryClaim table tool file classifications e.1 entry.2) entry.1]
  | _ => []

def WapitiCategorySafe (classifications : Obj) (e : String × Json) : Prop :=
  match e.2 with
  | .arr entries =>
    (table.lookup tool [some e.1]).any Rule.skip = false →
      WapitiReadable table tool classifications e.1 ∧ ∀ entry ∈ dictsOf entries,
        ParamReadable (clean (entry.1.get "parameter")) (wapitiUrl entry.1) ∧
          CwePositive (wapitiFound table tool classifications e.1)
  | _ => True

/-- The vulnerabilities and the classifications of a report. -/
def wapitiParts (doc : Json) : Obj × Obj :=
  (dictOr (Obj.get (dictOr doc) "vulnerabilities"), dictOr (Obj.get (dictOr doc) "classifications"))

def wapitiClaims (doc : Json) : List Claim :=
  (wapitiParts doc).1.flatMap (wapitiCategoryClaims table tool file (wapitiParts doc).2)

def WapitiSafe (doc : Json) : Prop :=
  ∀ e ∈ (wapitiParts doc).1, WapitiCategorySafe table tool (wapitiParts doc).2 e

theorem wapitiLevel_mem (value : Json) : ∀ w ∈ wapitiLevel value, w ∈ severities := by
  cases value with
  | null => exact fun w hw => (nomatch hw)
  | _ => exact or_mem (fun _ hw => lookup_mem wapitiLevels (by decide) hw) fun _ hw => normSeverity_mem hw

theorem returns_wapitiCategory (classifications : Obj) (e : String × Json) :
    Returns (wapitiCategory table tool file classifications e) (WapitiCategorySafe table tool classifications e)
      fun out => out.claims = wapitiCategoryClaims table tool file classifications e := by
  obtain ⟨category, value⟩ := e
  cases value with
  | arr entries =>
    refine returns_unless_skipped ?_
    refine (returns_wapitiCwe table tool classifications category).bind fun cwe _ hcwe => ?_
    rw [hcwe]
    refine returns_found _ (returns_dicts fun entry => ?_)
    have hparam := paramOr_ok_iff (clean (entry.1.get "parameter")) (wapitiUrl entry.1)
    exact returns_emit_param hparam fun p => valid_iff (wapitiLevel_mem _) fun w hw => (nomatch hw)
  | _ => exact Returns.of_ok trivial rfl

theorem returns_wapiti (doc : Json) : Returns (normaliseWapiti table tool file doc) (WapitiSafe table tool doc)
    fun out => out.claims = wapitiClaims table tool file doc := by
  cases doc with
  | obj fields =>
    have hvulns : (wapitiParts (.obj fields)).1 = dictOr (Obj.get fields "vulnerabilities") := rfl
    unfold WapitiSafe wapitiClaims normaliseWapiti
    rw [hvulns]
    dsimp only
    cases Obj.get fields "vulnerabilities" with
    | obj vulns => exact returns_each (returns_wapitiCategory table tool file _)
    | _ => exact Returns.of_ok (forall_mem_nil _) rfl
  | _ => exact Returns.of_ok (forall_mem_nil _) rfl

/-! ## nikto -/

def NiktoReadable (item : Obj) : Prop :=
  niktoRule table tool item = none → table.useReferenceCwe tool = true →
    Short (search (cweAt cweSeparator "") ((clean (item.get "references")).getD "").toList)

theorem firstCweInText_ok_iff (text : Option String) :
    (∃ r, firstCweInText text = .ok r) ↔ Short (search (cweAt cweSeparator "") (text.getD "").toList) := by
  unfold firstCweInText
  cases search (cweAt cweSeparator "") (text.getD "").toList with
  | none => exact ⟨fun _ ds h => (nomatch h), fun _ => ⟨none, rfl⟩⟩
  | some ds =>
    rw [map_ok_iff, intOf_ok_iff]
    exact ⟨fun h ds' hds => Option.some.inj hds ▸ h, fun h => h ds rfl⟩

theorem niktoCwe_ok_iff (item : Obj) :
    (∃ cwe, niktoCwe table tool item = .ok cwe) ↔ NiktoReadable table tool item := by
  unfold niktoCwe NiktoReadable
  cases niktoRule table tool item with
  | some rule => exact ⟨fun _ h => (nomatch h), fun _ => ⟨rule.cwe, rfl⟩⟩
  | none =>
    dsimp only
    by_cases huse : table.useReferenceCwe tool = true
    · rw [if_pos huse, firstCweInText_ok_iff]
      exact ⟨fun h _ _ => h, fun h => h rfl huse⟩
    · rw [if_neg huse]
      exact ⟨fun _ _ h => absurd h huse, fun _ => ⟨none, rfl⟩⟩

def niktoClaim (r : String × Obj × Obj) : Claim where
  tool := tool
  url := niktoUrl r.2.1 r.2.2
  method := (normMethod (r.2.2.get "method")).or (some "GET")
  param := valueOf (paramFromUrl (niktoUrl r.2.1 r.2.2))
  cwe := valueOf (niktoCwe table tool r.2.2)
  name := niktoMsg r.2.2
  severity := (niktoRule table tool r.2.2).bind Rule.severity
  confidence := none
  rawRef := r.1

def NiktoRecordSafe (r : String × Obj × Obj) : Prop :=
  (niktoRule table tool r.2.2).any Rule.skip = false →
    NiktoReadable table tool r.2.2 ∧ UrlReadable (niktoUrl r.2.1 r.2.2) ∧
      CwePositive (valueOf (niktoCwe table tool r.2.2)) ∧
      ∀ s ∈ (niktoRule table tool r.2.2).bind Rule.severity, s ∈ severities

theorem returns_niktoRecord (r : String × Obj × Obj) :
    Returns (niktoRecord table tool r) (NiktoRecordSafe table tool r) fun out =>
      out.claims = if (niktoRule table tool r.2.2).any Rule.skip then [] else [niktoClaim table tool r] := by
  obtain ⟨ref, host, item⟩ := r
  refine returns_unless_skipped ?_
  refine (Returns.of_self (niktoCwe_ok_iff table tool item)).bind fun cwe hcwe _ => ?_
  refine (Returns.of_self (paramFromUrl_ok_iff (niktoUrl host item))).bind fun p hp _ => ?_
  unfold niktoClaim
  rw [valueOf_ok hcwe, valueOf_ok hp]
  refine returns_found _ ((returns_emit _).weaken ?_ fun _ => id)
  exact ⟨fun h => ⟨h.2.2, h.1⟩, fun h => ⟨h.2, fun w hw => (nomatch hw), h.1⟩⟩

/-- The records of one scan. -/
def niktoScanFound (e : Obj × ℕ) : List (String × Obj × Obj) :=
  (dictsOf (elementsOf (e.1.get "vulnerabilities"))).map fun item =>
    (s!"{file}#[{e.2}].vulnerabilities[{item.2}]", e.1, item.1)

/-- The records of a report, with the scan they are in. -/
def niktoRecordsOf : NiktoFile → List (String × Obj × Obj)
  | .json doc => (dictsOf (niktoScans doc)).flatMap (niktoScanFound file)
  | .xml root => root.elim [] (niktoXmlRecords file)

/-- The scans of a report list their records; an XML report has no other form. -/
def ScansReadable : NiktoFile → Prop
  | .json doc => ∀ scan ∈ dictsOf (niktoScans doc), Iterable (scan.1.get "vulnerabilities")
  | .xml _ => True

omit [Library] in
theorem returns_niktoScanItems (e : Obj × ℕ) : Returns (niktoScanItems file e.2 e.1)
    (Iterable (e.1.get "vulnerabilities")) fun rs => rs = niktoScanFound file e := by
  refine (returns_elements (e.1.get "vulnerabilities")).map fun items hitems => ?_
  rw [hitems, niktoScanFound, dictsOf, map_filterMap]
  refine filterMap_congr fun item _ => ?_
  rw [Option.map_map]
  rfl

omit [Library] in
theorem returns_niktoScanRecords (e : Json × ℕ) : Returns (niktoScanRecords file e.2 e.1)
    (∀ scan, e.1 = .obj scan → Iterable (Obj.get scan "vulnerabilities")) fun rs =>
      rs = (e.1.asObj?.map fun scan => niktoScanFound file (scan, e.2)).getD [] := by
  obtain ⟨x, i⟩ := e
  cases x with
  | obj scan =>
    exact (returns_niktoScanItems file (scan, i)).weaken
      ⟨fun hg o ho => Json.obj.inj ho ▸ hg, fun hg => hg scan rfl⟩ fun _ => id
  | _ => exact Returns.of_ok (fun o ho => (nomatch ho)) rfl

omit [Library] in
theorem returns_niktoRecords (report : NiktoFile) : Returns (niktoRecords file report) (ScansReadable report)
    fun rs => rs = niktoRecordsOf file report := by
  cases report with
  | xml root => exact Returns.of_ok trivial rfl
  | json doc =>
    have hscans := Returns.of_mapM (returns_niktoScanRecords file) (niktoScans doc).zipIdx
    have hflat : ∀ found, found = (niktoScans doc).zipIdx.map (fun e => (e.1.asObj?.map fun scan =>
        niktoScanFound file (scan, e.2)).getD []) → found.flatten = niktoRecordsOf file (.json doc) := by
      intro found hfound
      rw [hfound, ← flatMap_def]
      exact flatMap_dictsOf (niktoScans doc).zipIdx (niktoScanFound file)
    refine (hscans.map hflat).weaken ?_ fun _ => id
    · constructor
      · rintro hg ⟨scan, i⟩ he
        exact hg _ (mem_dictsOf.mp he) scan rfl
      · rintro hg ⟨x, i⟩ he scan rfl
        exact hg (scan, i) (mem_dictsOf.mpr he)

def niktoClaims (report : NiktoFile) : List Claim :=
  (niktoRecordsOf file report).flatMap fun r =>
    if (niktoRule table tool r.2.2).any Rule.skip then [] else [niktoClaim table tool r]

def NiktoSafe (report : NiktoFile) : Prop :=
  ScansReadable report ∧ ∀ r ∈ niktoRecordsOf file report, NiktoRecordSafe table tool r

theorem returns_nikto (report : NiktoFile) :
    Returns (normaliseNikto table tool file report) (NiktoSafe table tool file report)
      fun out => out.claims = niktoClaims table tool file report := by
  refine (returns_niktoRecords file report).bind fun rs _ hrs => ?_
  rw [hrs]
  exact returns_each (returns_niktoRecord table tool)

/-! ## skipfish -/

/-- The URL is searched where the extra text names no parameter of it. -/
def SkipfishReadable (extra : Json) (url : Option String) : Prop :=
  (∀ candidate ∈ clean extra, ¬ (given url ∧ (candidate ++ "=").toList <:+: (url.getD "").toList)) → UrlReadable url

theorem skipfishParam_ok_iff (extra : Json) (url : Option String) :
    (∃ p, skipfishParam extra url = .ok p) ↔ SkipfishReadable extra url := by
  unfold skipfishParam SkipfishReadable
  cases clean extra with
  | none =>
    rw [paramFromUrl_ok_iff]
    exact ⟨fun h _ => h, fun h => h fun c hc => (nomatch hc)⟩
  | some candidate =>
    dsimp only
    by_cases hnamed : given url ∧ (candidate ++ "=").toList <:+: (url.getD "").toList
    · rw [if_pos hnamed]
      exact ⟨fun _ h => absurd hnamed (h candidate rfl), fun _ => ⟨_, rfl⟩⟩
    · rw [if_neg hnamed, paramFromUrl_ok_iff]
      exact ⟨fun h _ => h, fun h => h fun c hc => Option.some.inj hc ▸ hnamed⟩

/-- What a sample adds to the claim of its group. -/
def skipfishSaid (claim : Claim) (sample : Obj) : Claim :=
  { claim with
    url := clean (sample.get "url"), param := valueOf (skipfishParam (sample.get "extra") (clean (sample.get "url"))) }

/-- The claim of a group, without its sample. -/
def skipfishGroupClaim (gi : ℕ) (group : Obj) (si : ℕ) : Claim where
  tool := tool
  url := none
  method := none
  param := none
  cwe := (skipfishRule table tool group).bind Rule.cwe
  name := skipfishName table tool group
  severity := skipfishSeverity table tool group
  confidence := none
  rawRef := s!"{file}#issue_samples[{gi}].samples[{si}]"

def skipfishGroupClaims (gi : ℕ) (group : Obj) : List Claim :=
  if (skipfishRule table tool group).any Rule.skip then []
  else (dictsOf (elementsOf (group.get "samples"))).flatMap fun e =>
    [skipfishSaid (skipfishGroupClaim table tool file gi group e.2) e.1]

def SkipfishGroupSafe (group : Obj) : Prop :=
  (skipfishRule table tool group).any Rule.skip = false → Iterable (group.get "samples") ∧
    ∀ e ∈ dictsOf (elementsOf (group.get "samples")),
      SkipfishReadable (e.1.get "extra") (clean (e.1.get "url")) ∧
        CwePositive ((skipfishRule table tool group).bind Rule.cwe)

def skipfishClaims (doc : Obj) : List Claim :=
  (dictsOf (listOr (doc.get "issue_samples"))).flatMap fun e => skipfishGroupClaims table tool file e.2 e.1

def SkipfishSafe (doc : Obj) : Prop :=
  ∀ e ∈ dictsOf (listOr (doc.get "issue_samples")), SkipfishGroupSafe table tool e.1

theorem returns_skipfishGroup (gi : ℕ) (group : Obj) :
    Returns (skipfishGroup table tool file gi group) (SkipfishGroupSafe table tool group) fun out =>
      out.claims = skipfishGroupClaims table tool file gi group := by
  refine returns_unless_skipped ?_
  refine (returns_elements (group.get "samples")).bind fun samples _ hsamples => ?_
  rw [hsamples]
  refine returns_found _ (returns_dicts fun e => ?_)
  have hparam := skipfishParam_ok_iff (e.1.get "extra") (clean (e.1.get "url"))
  exact returns_emit_param hparam fun p => valid_iff (fun w hw => normSeverity_mem hw) fun w hw => (nomatch hw)

theorem returns_skipfish (doc : Obj) : Returns (normaliseSkipfish table tool file doc) (SkipfishSafe table tool doc)
    fun out => out.claims = skipfishClaims table tool file doc := by
  unfold normaliseSkipfish SkipfishSafe skipfishClaims
  cases doc.get "issue_samples" with
  | arr groups => exact returns_dicts fun e => returns_skipfishGroup table tool file e.2 e.1
  | _ => exact Returns.of_ok (forall_mem_nil _) rfl

/-! ## generic JSON -/

def GenericReadable (rec : Obj) : Prop := genericRule table tool rec = none → CweReadable (pick rec "cwe")

theorem genericCwe_ok_iff (rec : Obj) :
    (∃ cwe, genericCwe table tool rec = .ok cwe) ↔ GenericReadable table tool rec := by
  unfold genericCwe GenericReadable
  cases genericRule table tool rec with
  | some rule => exact ⟨fun _ h => (nomatch h), fun _ => ⟨rule.cwe, rfl⟩⟩
  | none =>
    rw [parseCwe_ok_iff]
    exact ⟨fun h _ => h, fun h => h rfl⟩

def genericClaim (ri : ℕ) (rec : Obj) : Claim where
  tool := tool
  url := clean (pick rec "url")
  method := normMethod (pick rec "method")
  param := valueOf (paramOr (clean (pick rec "param")) (clean (pick rec "url")))
  cwe := valueOf (genericCwe table tool rec)
  name := clean (pick rec "name")
  severity := normSeverity (pick rec "severity")
  confidence := normConfidence (pick rec "confidence")
  rawRef := s!"{file}#[{ri}]"

def genericClaims (doc : Json) : List Claim :=
  (dictsOf (genericRecords doc)).flatMap fun e =>
    if (genericRule table tool e.1).any Rule.skip then [] else [genericClaim table tool file e.2 e.1]

def GenericRecordSafe (rec : Obj) : Prop :=
  (genericRule table tool rec).any Rule.skip = false →
    GenericReadable table tool rec ∧ ParamReadable (clean (pick rec "param")) (clean (pick rec "url")) ∧
      CwePositive (valueOf (genericCwe table tool rec))

def GenericSafe (doc : Json) : Prop := ∀ e ∈ dictsOf (genericRecords doc), GenericRecordSafe table tool e.1

theorem returns_genericJson (doc : Json) : Returns (normaliseGenericJson table tool file doc)
    (GenericSafe table tool doc) fun out => out.claims = genericClaims table tool file doc := by
  refine returns_dicts fun e => returns_unless_skipped ?_
  refine (Returns.of_self (genericCwe_ok_iff table tool e.1)).bind fun cwe hcwe _ => ?_
  have hparam := paramOr_ok_iff (clean (pick e.1 "param")) (clean (pick e.1 "url"))
  refine (Returns.of_self hparam).bind fun p hp _ => ?_
  unfold genericClaim
  rw [valueOf_ok hcwe, valueOf_ok hp]
  exact returns_found _ ((returns_emit _).weaken
    (valid_iff (fun w hw => normSeverity_mem hw) fun w hw => normConfidence_mem hw) fun _ => id)

/-! ## SARIF -/

/-- What `(x or {}).get("rules") or []` runs over. -/
def RulesReadable (x : Json) : Prop :=
  match Json.orElse x (.obj []) with
  | .obj fields => Iterable (Obj.get fields "rules")
  | _ => False

def SarifRulesReadable (run : Obj) : Prop :=
  RulesReadable (dig (.obj run) "tool.driver") ∧ Iterable (dig (.obj run) "tool.extensions") ∧
    ∀ ext ∈ elementsOf (dig (.obj run) "tool.extensions"), RulesReadable ext

/-- The rules of a run that is read. -/
def sarifRulesOf (run : Obj) : Dict String Obj := (sarifRules run).toOption.getD .empty

omit [Library] in
theorem rulesOf_ok_iff (x : Json) : (∃ rules, rulesOf x = .ok rules) ↔ RulesReadable x := by
  unfold rulesOf RulesReadable
  cases Json.orElse x (.obj []) with
  | obj fields => exact (returns_elements _).ok_iff
  | _ => exact ⟨fun ⟨_, h⟩ => (nomatch h), False.elim⟩

theorem sarifRules_ok_iff (run : Obj) : (∃ rules, sarifRules run = .ok rules) ↔ SarifRulesReadable run := by
  refine (Returns.ok_iff : Returns _ _ (fun _ => True) → _) ?_
  refine (Returns.of_self (rulesOf_ok_iff _)).bind fun driver _ _ => ?_
  refine (returns_elements _).bind fun extensions _ hextensions => ?_
  rw [hextensions]
  exact (Returns.of_self (mapM_ok_iff rulesOf_ok_iff _)).bind_ok fun _ _ _ => trivial

/-- `(a or []) + (b or [])` is of two lists or of two texts. -/
def Concatenable (a b : Json) : Prop :=
  (∃ xs ys, Json.orElse a (.arr []) = .arr xs ∧ Json.orElse b (.arr []) = .arr ys) ∨
    ∃ s t, Json.orElse a (.arr []) = .str s ∧ Json.orElse b (.arr []) = .str t

omit [Library] in
theorem concatenated_ok_iff (a b : Json) : (∃ xs, concatenated a b = .ok xs) ↔ Concatenable a b := by
  unfold concatenated Concatenable
  split
  · rename_i xs ys ha hb
    exact ⟨fun _ => Or.inl ⟨xs, ys, ha, hb⟩, fun _ => ⟨_, rfl⟩⟩
  · rename_i s t ha hb
    exact ⟨fun _ => Or.inr ⟨s, t, ha, hb⟩, fun _ => ⟨_, rfl⟩⟩
  · rename_i hlists htexts
    refine ⟨fun ⟨_, h⟩ => (nomatch h), ?_⟩
    rintro (⟨xs, ys, ha, hb⟩ | ⟨s, t, ha, hb⟩)
    · exact absurd hb (hlists xs ys ha)
    · exact absurd hb (htexts s t ha)

/-- The tags of a result, its rule's first and the taxa last. -/
def sarifTags (result ruleMeta : Obj) : List Json :=
  listOr (dig (.obj ruleMeta) "properties.tags") ++ listOr (dig (.obj result) "properties.tags") ++
    ((concatenated (result.get "taxa") (ruleMeta.get "relationships")).toOption.getD []).flatMap taxonTags

def TagsReadable (result ruleMeta : Obj) : Prop :=
  Concatenable (result.get "taxa") (ruleMeta.get "relationships") ∧ Short (tagNumber (sarifTags result ruleMeta))

theorem sarifTagCwe_ok_iff (result ruleMeta : Obj) :
    (∃ cwe, sarifTagCwe result ruleMeta = .ok cwe) ↔ TagsReadable result ruleMeta := by
  refine (Returns.ok_iff : Returns _ _ (fun _ => True) → _) ?_
  refine (Returns.of_self (concatenated_ok_iff _ _)).bind fun taxa htaxa _ => ?_
  have htags : sarifTags result ruleMeta = listOr (dig (.obj ruleMeta) "properties.tags") ++
      listOr (dig (.obj result) "properties.tags") ++ taxa.flatMap taxonTags := by
    rw [sarifTags, htaxa]
    rfl
  rw [htags]
  dsimp only
  cases tagNumber _ with
  | none => exact Returns.of_ok (fun ds h => (nomatch h)) trivial
  | some digits =>
    have hvalue : Returns ((intOf digits).map some) (digits.length ≤ 4300) fun _ => True :=
      (Returns.of_self intOf_ok_iff).map fun _ _ => trivial
    exact hvalue.weaken ⟨fun h ds hds => Option.some.inj hds ▸ h, fun h => h digits rfl⟩ fun _ => id

/-- The result's own field, then its rule's, then the tags. -/
def SarifCweReadable (result ruleMeta : Obj) : Prop :=
  CweReadable (dig (.obj result) "properties.cwe") ∧ (valueOf (parseCwe (dig (.obj result) "properties.cwe")) = none →
    CweReadable (dig (.obj ruleMeta) "properties.cwe") ∧
      (valueOf (parseCwe (dig (.obj ruleMeta) "properties.cwe")) = none → TagsReadable result ruleMeta))

theorem sarifCwe_ok_iff (result ruleMeta : Obj) :
    (∃ cwe, sarifCwe result ruleMeta = .ok cwe) ↔ SarifCweReadable result ruleMeta := by
  refine (Returns.ok_iff : Returns _ _ (fun _ => True) → _) ?_
  refine (Returns.of_self (parseCwe_ok_iff (dig (.obj result) "properties.cwe"))).bind fun own hown _ => ?_
  rw [valueOf_ok hown]
  cases own with
  | some n => exact Returns.of_ok (fun h => (nomatch h)) trivial
  | none =>
    refine Returns.weaken ?_ ⟨fun h _ => h, fun h => h rfl⟩ fun _ => id
    refine (Returns.of_self (parseCwe_ok_iff (dig (.obj ruleMeta) "properties.cwe"))).bind fun next hnext _ => ?_
    rw [valueOf_ok hnext]
    cases next with
    | some n => exact Returns.of_ok (fun h => (nomatch h)) trivial
    | none =>
      exact (Returns.of_self (sarifTagCwe_ok_iff result ruleMeta)).weaken ⟨fun h _ => h, fun h => h rfl⟩
        fun _ _ => trivial

def SarifReadable (result ruleMeta : Obj) : Prop :=
  table.lookup tool [sarifRuleId result] = none → SarifCweReadable result ruleMeta

theorem sarifOwnCwe_ok_iff (result ruleMeta : Obj) :
    (∃ cwe, sarifOwnCwe table tool result ruleMeta = .ok cwe) ↔ SarifReadable table tool result ruleMeta := by
  unfold sarifOwnCwe SarifReadable
  cases table.lookup tool [sarifRuleId result] with
  | some rule => exact ⟨fun _ h => (nomatch h), fun _ => ⟨rule.cwe, rfl⟩⟩
  | none =>
    rw [sarifCwe_ok_iff]
    exact ⟨fun h _ => h, fun h => h rfl⟩

/-- The score is not an integer that `float` refuses. -/
def ScoreReadable (result ruleMeta : Obj) : Prop := ∀ n, sarifScore result ruleMeta = .int n → |n| < floatLimit

theorem sarifSeverity_ok_iff (result ruleMeta : Obj) :
    (∃ s, sarifSeverity result ruleMeta = .ok s) ↔ ScoreReadable result ruleMeta := by
  unfold sarifSeverity ScoreReadable
  rw [map_ok_iff]
  cases sarifScore result ruleMeta with
  | int n =>
    rw [floatOf]
    by_cases hn : |n| < floatLimit
    · rw [if_pos hn]
      exact ⟨fun _ m hm => Json.int.inj hm ▸ hn, fun _ => ⟨_, rfl⟩⟩
    · rw [if_neg hn]
      exact ⟨fun ⟨_, h⟩ => (nomatch h), fun h => absurd (h n rfl) hn⟩
  | _ => exact ⟨fun _ n h => (nomatch h), fun _ => ⟨_, rfl⟩⟩

omit [Library] in
theorem scoreSeverity_mem (score : Score) : scoreSeverity score ∈ severities := by
  cases score with
  | nan => decide
  | infinity neg => cases neg <;> decide
  | finite q =>
    rw [scoreSeverity]
    split_ifs <;> decide

theorem sarifSeverity_mem {result ruleMeta : Obj} {s : Option String}
    (h : sarifSeverity result ruleMeta = .ok s) : ∀ w ∈ s, w ∈ severities := by
  obtain ⟨score, -, rfl⟩ := map_eq_ok.mp h
  cases score with
  | some score => exact fun w hw => Option.some.inj hw ▸ scoreSeverity_mem score
  | none => exact or_mem (fun _ hw => normSeverity_mem hw) fun _ hw => normSeverity_mem hw

def LocationsReadable (result : Obj) : Prop :=
  clean ((sarifRequest result).get "target") = none → Iterable (result.get "locations")

theorem sarifUrl_ok_iff (result : Obj) : (∃ url, sarifUrl result = .ok url) ↔ LocationsReadable result := by
  unfold sarifUrl LocationsReadable
  cases clean ((sarifRequest result).get "target") with
  | some url => exact ⟨fun _ h => (nomatch h), fun _ => ⟨_, rfl⟩⟩
  | none =>
    rw [map_ok_iff, (returns_elements _).ok_iff]
    exact ⟨fun h _ => h, fun h => h rfl⟩

def sarifClaim (rules : Dict String Obj) (ri si : ℕ) (result : Obj) : Claim where
  tool := tool
  url := valueOf (sarifUrl result)
  method := normMethod ((sarifRequest result).get "method")
  param := valueOf (paramOr (sarifParam result) (valueOf (sarifUrl result)))
  cwe := valueOf (sarifOwnCwe table tool result (sarifMeta rules result))
  name := sarifName result (sarifMeta rules result)
  severity := valueOf (sarifSeverity result (sarifMeta rules result))
  confidence := normConfidence (dig (.obj result) "properties.confidence")
  rawRef := s!"{file}#runs[{ri}].results[{si}]"

def SarifResultSafe (rules : Dict String Obj) (result : Obj) : Prop :=
  SarifReadable table tool result (sarifMeta rules result) ∧ LocationsReadable result ∧
    ParamReadable (sarifParam result) (valueOf (sarifUrl result)) ∧ ScoreReadable result (sarifMeta rules result) ∧
      CwePositive (valueOf (sarifOwnCwe table tool result (sarifMeta rules result)))

def sarifRunClaims (ri : ℕ) (run : Obj) : List Claim :=
  (dictsOf (elementsOf (run.get "results"))).flatMap fun e =>
    [sarifClaim table tool file (sarifRulesOf run) ri e.2 e.1]

def sarifClaims (doc : Obj) : List Claim :=
  (dictsOf (elementsOf (doc.get "runs"))).flatMap fun e => sarifRunClaims table tool file e.2 e.1

def SarifSafe (doc : Obj) : Prop :=
  Iterable (doc.get "runs") ∧ ∀ run ∈ dictsOf (elementsOf (doc.get "runs")),
    SarifRulesReadable run.1 ∧ Iterable (run.1.get "results") ∧
      ∀ e ∈ dictsOf (elementsOf (run.1.get "results")), SarifResultSafe table tool (sarifRulesOf run.1) e.1

theorem returns_sarifResult (rules : Dict String Obj) (ri : ℕ) (e : Obj × ℕ) :
    Returns (sarifResult table tool file rules ri e.2 e.1) (SarifResultSafe table tool rules e.1)
      fun out => out.claims = [sarifClaim table tool file rules ri e.2 e.1] := by
  have hcwe := sarifOwnCwe_ok_iff table tool e.1 (sarifMeta rules e.1)
  refine (Returns.of_self hcwe).bind fun cwe hcwe _ => ?_
  refine (Returns.of_self (sarifUrl_ok_iff e.1)).bind fun url hurl _ => ?_
  rw [valueOf_ok hurl]
  refine (Returns.of_self (paramOr_ok_iff (sarifParam e.1) url)).bind fun param hparam _ => ?_
  have hseverity := sarifSeverity_ok_iff e.1 (sarifMeta rules e.1)
  refine (Returns.of_self hseverity).bind fun severity hseverity _ => ?_
  unfold sarifClaim
  rw [valueOf_ok hcwe, valueOf_ok hurl, valueOf_ok hparam, valueOf_ok hseverity]
  exact returns_found _ ((returns_emit _).weaken
    (valid_iff (sarifSeverity_mem hseverity) fun w hw => normConfidence_mem hw) fun _ => id)

theorem returns_sarif (doc : Obj) : Returns (normaliseSarif table tool file doc) (SarifSafe table tool doc)
    fun out => out.claims = sarifClaims table tool file doc := by
  refine (returns_elements (doc.get "runs")).bind fun runs _ hruns => ?_
  rw [hruns]
  refine returns_dicts fun run => ?_
  refine (Returns.of_self (sarifRules_ok_iff run.1)).bind fun rules hrules _ => ?_
  refine (returns_elements (run.1.get "results")).bind fun results _ hresults => ?_
  have hrulesOf : sarifRulesOf run.1 = rules := by
    rw [sarifRulesOf, hrules]
    rfl
  unfold sarifRunClaims
  rw [hresults, hrulesOf]
  exact returns_dicts (returns_sarifResult table tool file rules run.2)

/-! ## All reports -/

/-- The claims of the well-formed records of a report. -/
def Report.claims : Report → List Claim
  | .zap doc => zapClaims table tool file doc
  | .nuclei lines => nucleiClaims table tool file lines
  | .wapiti doc => wapitiClaims table tool file doc
  | .nikto report => niktoClaims table tool file report
  | .skipfish doc => skipfishClaims table tool file doc
  | .generic doc =>
    if isSarif (dictOr doc) then sarifClaims table tool file (dictOr doc) else genericClaims table tool file doc

/-- The reports that a parser gets through. -/
def Report.Safe : Report → Prop
  | .zap doc => ZapSafe table tool doc
  | .nuclei lines => NucleiSafe table tool lines
  | .wapiti doc => WapitiSafe table tool doc
  | .nikto report => NiktoSafe table tool file report
  | .skipfish doc => SkipfishSafe table tool doc
  | .generic doc => if isSarif (dictOr doc) then SarifSafe table tool (dictOr doc) else GenericSafe table tool doc

theorem returns_generic (doc : Json) :
    Returns (normaliseGeneric table tool file doc) (Report.Safe table tool file (.generic doc))
      fun out => out.claims = Report.claims table tool file (.generic doc) := by
  unfold Report.Safe Report.claims
  cases doc with
  | obj fields =>
    show Returns (if isSarif fields then normaliseSarif table tool file fields
      else normaliseGenericJson table tool file (.obj fields))
      (if isSarif fields then SarifSafe table tool fields else GenericSafe table tool (.obj fields))
      fun out => out.claims = if isSarif fields then sarifClaims table tool file fields
        else genericClaims table tool file (.obj fields)
    by_cases hs : isSarif fields = true
    · simp only [if_pos hs]
      exact returns_sarif table tool file fields
    · simp only [if_neg hs]
      exact returns_genericJson table tool file (.obj fields)
  | _ => exact returns_genericJson table tool file _

theorem returns_normalise (report : Report) : Returns (normalise table tool file report)
    (report.Safe table tool file) fun out => out.claims = report.claims table tool file := by
  cases report with
  | zap doc => exact returns_zap table tool file doc
  | nuclei lines => exact returns_nuclei table tool file lines
  | wapiti doc => exact returns_wapiti table tool file doc
  | nikto report => exact returns_nikto table tool file report
  | skipfish doc => exact returns_skipfish table tool file doc
  | generic doc => exact returns_generic table tool file doc

end Reports

end PtaasBench.Runners.Normalise
