import PtaasBench.Py.JsonText
import PtaasBench.Benchctl.Findings

/-!
# PtaasBench.Benchctl.OutOfCatalog — the breakdown of what nothing here could confirm

A finding is out of catalog as a whole, and its CWEs are then listed with one reason, that of the first.  Where some
are planted by no class and others only outside the scanned apps, the second are not listed at all.
-/

namespace PtaasBench.Benchctl

open Py List

/-! ## Reading findings -/

section Reading

variable [Runtime] (decimal : Char → Option ℕ)

/-- `int` of the first match of `(\d+)`, from the decimal values of characters. -/
def firstNumber (s : String) : Option ℤ :=
  match (s.toList.dropWhile fun c => (decimal c).isNone).takeWhile fun c => (decimal c).isSome with
  | [] => none
  | ds => some (ds.foldl (fun n d => 10 * n + ((decimal d).getD 0 : ℤ)) 0)

def cweOf : Json → Option ℤ
  | .bool _ => none
  | .int n => some n
  | item => firstNumber decimal item.pyStr

/-- `parse_cwes` -/
def parseCwes : Json → List ℤ
  | .null => []
  | .arr items => fromKeys (items.filterMap (cweOf decimal))
  | item => fromKeys ([item].filterMap (cweOf decimal))

/-- `finding_from_dict` -/
def findingFromDict (d : Obj) : Finding where
  tool := (d.get "tool").asStr?
  url := if d.contains "url" then (d.get "url").pyStr else ""
  method := if (d.get "method").truthy then some (upper (d.get "method").pyStr) else none
  param := if (d.get "param").truthy then (d.get "param").asStr? else none
  cwe := parseCwes decimal (d.get "cwe")
  name := (d.get "name").asStr?
  severity := (d.get "severity").asStr?
  confidence := (d.get "confidence").asStr?
  app := (d.get "app").asStr?

/-- `load_findings`, from the parsed document. -/
def loadFindings (data : Json) : List Finding :=
  let items :=
    match data with
    | .obj fields => Obj.get fields "findings"
    | data => data
  match items with
  | .arr items => (items.filterMap Json.asObj?).map (findingFromDict decimal)
  | _ => []

theorem nodup_parseCwes (value : Json) : (parseCwes decimal value).Nodup := by
  cases value with
  | null => exact nodup_nil
  | _ => exact nodup_fromKeys _

theorem nodup_of_loadFindings {data : Json} {f : Finding} (hf : f ∈ loadFindings decimal data) : f.cwe.Nodup := by
  unfold loadFindings at hf
  dsimp only at hf
  split at hf
  · obtain ⟨d, -, rfl⟩ := mem_map.mp hf
    exact nodup_parseCwes decimal _
  · exact absurd hf not_mem_nil

end Reading

/-! ## The texts of the reasons -/

theorem intText_injective : Function.Injective intText := by
  have hchar : Function.Injective digitChar := by decide
  have hminus : ∀ d, digitChar d ≠ '-' := by decide
  have hdigits : ∀ a b : ℕ, (natDigits a).map digitChar = (natDigits b).map digitChar → a = b := by
    intro a b h
    rw [← ofDigitList_natDigits a, ← ofDigitList_natDigits b, map_injective_iff.mpr hchar h]
  have hhead : ∀ a b : ℕ, (natDigits a).map digitChar ≠ '-' :: (natDigits b).map digitChar := by
    intro a b h
    obtain ⟨d, -, hd⟩ := mem_map.mp (h ▸ mem_cons_self : '-' ∈ (natDigits a).map digitChar)
    exact hminus d hd
  intro a b h
  unfold intText at h
  by_cases ha : a < 0 <;> by_cases hb : b < 0
  · rw [if_pos ha, if_pos hb] at h
    have := hdigits _ _ (append_cancel_left h)
    omega
  · rw [if_pos ha, if_neg hb] at h
    exact absurd h.symm (hhead _ _)
  · rw [if_neg ha, if_pos hb] at h
    exact absurd h (hhead _ _)
  · rw [if_neg ha, if_neg hb] at h
    have := hdigits _ _ h
    omega

theorem space_notMem_intText (n : ℤ) : ' ' ∉ intText n := by
  have hchar : ∀ d, digitChar d ≠ ' ' := by decide
  intro h
  rcases mem_append.mp h with h | h
  · split_ifs at h
    · exact absurd (mem_singleton.mp h) (by decide)
    · exact absurd h not_mem_nil
  · obtain ⟨d, -, hd⟩ := mem_map.mp h
    exact hchar d hd

theorem append_space_inj {a b r t : List Char} (ha : ' ' ∉ a) (hb : ' ' ∉ b)
    (h : a ++ ' ' :: r = b ++ ' ' :: t) : a = b ∧ r = t := by
  induction a generalizing b with
  | nil =>
    cases b with
    | nil => exact ⟨rfl, (List.cons.inj h).2⟩
    | cons c b => exact absurd (List.cons.inj h).1 fun hc => hb (hc ▸ mem_cons_self)
  | cons c a ih =>
    cases b with
    | nil => exact absurd (List.cons.inj h).1 fun hc => ha (hc ▸ mem_cons_self)
    | cons d b =>
      obtain ⟨rfl, htail⟩ := List.cons.inj h
      obtain ⟨rfl, rfl⟩ := ih (fun hc => ha (mem_cons_of_mem _ hc)) (fun hc => hb (mem_cons_of_mem _ hc))
        htail
      exact ⟨rfl, rfl⟩

/-- A reason names its CWE. -/
theorem reason_inj {a b : ℤ} {r t : String}
    (h : "CWE " ++ String.ofList (intText a) ++ (" " ++ r) = "CWE " ++ String.ofList (intText b) ++ (" " ++ t)) :
    a = b ∧ r = t := by
  have h' := congrArg String.toList h
  simp only [String.toList_append, String.toList_ofList, append_assoc] at h'
  obtain ⟨hn, hr⟩ := append_space_inj (space_notMem_intText a) (space_notMem_intText b) (append_cancel_left h')
  exact ⟨intText_injective hn, String.toList_inj.mp hr⟩

/-! ## What is counted, and why -/

section Hits

variable [Runtime] (ctx : Judging)

namespace Judging

/-- The reason that no class plants a CWE. -/
def noClass (cwe : ℤ) : String :=
  textOr (ctx.reasons.get? cwe) ("CWE " ++ String.ofList (intText cwe) ++ " is planted by no class in the taxonomy")

/-- The reason that nothing scanned carries a CWE. -/
def notScanned (cwe : ℤ) : String :=
  "CWE " ++ String.ofList (intText cwe) ++ " is planted by a taxonomy class, but nothing in " ++
    textOr (some (join ", " ctx.scopeApps)) "the scanned apps" ++
    " carries it, so no ground truth here can confirm or contradict this finding"

def planted (cwe : ℤ) : Prop := cwe ∈ catalogCwes ctx.catalog

instance : DecidablePred ctx.planted := fun _ => inferInstanceAs (Decidable (_ ∈ _))

/-- The reason that applies to a CWE. -/
def reasonFor (cwe : ℤ) : String := if ctx.planted cwe then ctx.notScanned cwe else ctx.noClass cwe

/-- An out-of-catalog finding that carries a CWE. -/
def carries (cwe : ℤ) (f : Finding) : Bool := (ctx.outOfCatalog f).isSome && f.cwe.contains cwe

/-- An out-of-catalog finding that lists it. -/
def lists (cwe : ℤ) (f : Finding) : Bool := (ctx.outOfCatalog f).isSome && (ctx.unplanted f).contains cwe

/-- The reason an out-of-catalog finding gives. -/
def given (f : Finding) : String := (ctx.outOfCatalog f).elim "" (ctx.why f)

end Judging

variable {ctx} {f : Finding} {cwe : ℤ}

omit [Runtime] in
theorem unplanted_sublist : (ctx.unplanted f).Sublist f.cwe := by
  unfold Judging.unplanted
  dsimp only
  split_ifs <;> exact filter_sublist

omit [Runtime] in
theorem get?_foldl_hit {why : String} {hits : Dict ℤ (ℕ × String)} {cwes : List ℤ} (hn : cwes.Nodup) (cwe : ℤ) :
    (cwes.foldl (Judging.hit why) hits).get? cwe =
      if cwe ∈ cwes then some ((hits.getD cwe (0, why)).1 + 1, (hits.getD cwe (0, why)).2) else hits.get? cwe := by
  induction cwes generalizing hits with
  | nil => rfl
  | cons c cwes ih =>
    rw [nodup_cons] at hn
    rw [foldl_cons, ih hn.2]
    by_cases hc : cwe = c
    · subst hc
      rw [if_neg hn.1, if_pos mem_cons_self, Judging.hit, Dict.get?_set_self]
    · have hrest : (Judging.hit why hits c).get? cwe = hits.get? cwe := Dict.get?_set_of_ne _ _ hc
      simp only [Dict.getD, hrest, mem_cons, hc, false_or]

/-- A listed CWE is counted for every finding that lists it, with the reason of the first. -/
theorem get?_outOfCatalogHits {findings : List Finding} (hn : ∀ f ∈ findings, f.cwe.Nodup) (cwe : ℤ) :
    (ctx.classify findings).outOfCatalogHits.get? cwe =
      (findings.find? (ctx.lists cwe)).map fun f => (findings.countP (ctx.lists cwe), ctx.given f) := by
  induction findings using List.reverseRecOn with
  | nil => rfl
  | append_singleton findings f ih =>
    have hprev := ih fun g hg => hn g (mem_append_left _ hg)
    have hlast : (f.cwe).Nodup := hn f (mem_append_right _ mem_cons_self)
    rw [Judging.classify, foldl_append, foldl_cons, foldl_nil, ← Judging.classify,
      List.find?_append, countP_append, countP_singleton]
    cases hkind : ctx.outOfCatalog f with
    | none =>
      have hnot : ctx.lists cwe f = false := by simp [Judging.lists, hkind]
      have hkeep : (ctx.classifyOne (ctx.classify findings) f).outOfCatalogHits =
          (ctx.classify findings).outOfCatalogHits := by
        rw [Judging.classifyOne, hkind]
        dsimp only
        cases ctx.claim f with
        | none => rfl
        | some key =>
          dsimp only
          split_ifs <;> rfl
      rw [hkeep, hprev, hnot, List.find?_cons_of_neg (by simp [hnot]), List.find?_nil, Option.or_none]
      simp
    | some kind =>
      have hstep : (ctx.classifyOne (ctx.classify findings) f).outOfCatalogHits =
          (ctx.unplanted f).foldl (Judging.hit (ctx.why f kind)) (ctx.classify findings).outOfCatalogHits := by
        rw [Judging.classifyOne, hkind]
      have hgiven : ctx.given f = ctx.why f kind := by rw [Judging.given, hkind]; rfl
      have hlists : ctx.lists cwe f = true ↔ cwe ∈ ctx.unplanted f := by simp [Judging.lists, hkind]
      rw [hstep, get?_foldl_hit (hlast.sublist unplanted_sublist), Dict.getD, hprev]
      by_cases hmem : cwe ∈ ctx.unplanted f
      · rw [if_pos hmem, if_pos (hlists.mpr hmem), List.find?_cons_of_pos (hlists.mpr hmem)]
        cases hfind : findings.find? (ctx.lists cwe) with
        | none =>
          have hzero : findings.countP (ctx.lists cwe) = 0 :=
            countP_eq_zero.mpr (List.find?_eq_none.mp hfind)
          simp [hzero, hgiven]
        | some g => rfl
      · have hnot : ¬ ctx.lists cwe f = true := fun h => hmem (hlists.mp h)
        rw [if_neg hmem, if_neg hnot, List.find?_cons_of_neg hnot, List.find?_nil, Option.or_none, Nat.add_zero]

/-! ## Which findings list all they carry -/

omit [Runtime] in
theorem planted_of_scoped {c : ℤ} (h : c ∈ ctx.scopedCwes) : ctx.planted c := by
  obtain ⟨v, hv, hc⟩ := mem_flatMap.mp h
  exact mem_append_right _ (mem_flatMap.mpr ⟨v, mem_of_mem_filter hv, hc⟩)

omit [Runtime] in
theorem unplanted_eq : ctx.unplanted f = if (∀ d ∈ f.cwe, ctx.planted d) then f.cwe.filter (· ∉ ctx.scopedCwes)
    else f.cwe.filter fun d => ¬ ctx.planted d := by
  have hnil : (f.cwe.filter (· ∉ catalogCwes ctx.catalog) = []) ↔ ∀ d ∈ f.cwe, ctx.planted d := by
    rw [filter_eq_nil_iff]
    refine forall₂_congr fun d _ => ?_
    simp [Judging.planted]
  unfold Judging.unplanted
  dsimp only
  by_cases h : ∀ d ∈ f.cwe, ctx.planted d
  · rw [if_pos h, if_pos (hnil.mpr h)]
  · rw [if_neg h, if_neg fun hn => h (hnil.mp hn)]
    rfl

/-- What an out-of-catalog finding carries. -/
theorem kind_of_outOfCatalog {kind : Unscoreable} (h : ctx.outOfCatalog f = some kind) : f.cwe ≠ [] ∧
    (∀ d ∈ f.cwe, d ∉ ctx.scopedCwes) ∧ (kind = .unplantedClass ↔ ∀ d ∈ f.cwe, ¬ ctx.planted d) := by
  unfold Judging.outOfCatalog Judging.unscoreableKind at h
  split_ifs at h with htp hnil hclass hscope
  · have hall : ∀ d ∈ f.cwe, ¬ ctx.planted d := fun d hd => of_decide_eq_true (all_eq_true.mp hclass d hd)
    obtain rfl := Option.some.inj h
    exact ⟨hnil, fun d hd hs => hall d hd (planted_of_scoped hs), iff_of_true rfl hall⟩
  · obtain rfl := Option.some.inj h
    refine ⟨hnil, fun d hd => by simpa using all_eq_true.mp hscope d hd, iff_of_false (by simp) fun hall => ?_⟩
    exact hclass (all_eq_true.mpr fun d hd => decide_eq_true (hall d hd))

theorem lists_iff : ctx.lists cwe f = true ↔
    ctx.carries cwe f = true ∧ (ctx.planted cwe → ∀ d ∈ f.cwe, ctx.planted d) := by
  rw [Judging.lists, Judging.carries]
  cases hkind : ctx.outOfCatalog f with
  | none => simp
  | some kind =>
    obtain ⟨-, hscope, -⟩ := kind_of_outOfCatalog hkind
    simp only [Option.isSome_some, Bool.true_and, contains_iff_mem]
    rw [unplanted_eq]
    split_ifs with hall
    · rw [mem_filter]
      exact ⟨fun h => ⟨h.1, fun _ => hall⟩, fun h => ⟨h.1, decide_eq_true (hscope cwe h.1)⟩⟩
    · rw [mem_filter, decide_eq_true_iff]
      exact and_congr_right fun _ => ⟨fun h hp => absurd hp h, fun h hp => hall (h hp)⟩

namespace Judging

variable (ctx)

/-- The first CWE an out-of-catalog finding lists. -/
def first (f : Finding) : ℤ := (ctx.unplanted f).headD 0

/-- Its reason fits another that it lists. -/
def ReasonFits (f : Finding) (cwe : ℤ) : Prop :=
  if ∀ d ∈ f.cwe, ¬ ctx.planted d then ctx.noClass (ctx.first f) = ctx.noClass cwe
  else if ∀ d ∈ f.cwe, ctx.planted d then ctx.first f = cwe
  else ctx.reasons.get? cwe = some (ctx.notScanned (ctx.first f))

/-- No planted CWE is carried by an out-of-catalog finding with unplanted ones and by one without. -/
def Unmixed (findings : List Finding) : Prop :=
  ∀ cwe, ctx.planted cwe → ∀ f ∈ findings, ∀ g ∈ findings, ctx.carries cwe f = true → ctx.carries cwe g = true →
    (∀ d ∈ g.cwe, ctx.planted d) → ∀ d ∈ f.cwe, ctx.planted d

end Judging

omit [Runtime] in
theorem notScanned_eq (cwe : ℤ) : ctx.notScanned cwe = "CWE " ++ String.ofList (intText cwe) ++
    (" " ++ ("is planted by a taxonomy class, but nothing in " ++
      (textOr (some (join ", " ctx.scopeApps)) "the scanned apps" ++
        " carries it, so no ground truth here can confirm or contradict this finding"))) := by
  rw [← @String.append_assoc " ", show " " ++ "is planted by a taxonomy class, but nothing in " =
    " is planted by a taxonomy class, but nothing in " by rfl, Judging.notScanned]
  simp only [String.append_assoc]

omit [Runtime] in
theorem notScanned_inj {a b : ℤ} (h : ctx.notScanned a = ctx.notScanned b) : a = b := by
  rw [notScanned_eq, notScanned_eq] at h
  exact (reason_inj h).1

omit [Runtime] in
/-- Where the table has no text of its own, a CWE no class plants is said to be that. -/
theorem noClass_eq_notScanned_iff (a b : ℤ) :
    ctx.noClass a = ctx.notScanned b ↔ ctx.reasons.get? a = some (ctx.notScanned b) := by
  have hne : ctx.notScanned b ≠ "" := by
    rw [Judging.notScanned]
    intro h
    have := congrArg (fun s => s.toList.length) h
    simp at this
  rw [Judging.noClass, textOr]
  split_ifs with hg
  · cases hget : ctx.reasons.get? a with
    | none => rw [hget] at hg; exact absurd hg Bool.false_ne_true
    | some text => rw [Option.getD_some, Option.some.injEq]
  · refine iff_of_false (fun h => ?_) fun h => hg ?_
    · rw [notScanned_eq, show " is planted by no class in the taxonomy" =
        " " ++ "is planted by no class in the taxonomy" by rfl] at h
      have htail := congrArg (fun s => s.toList[14]?) (reason_inj h).2
      simp at htail
    · rw [h]
      exact decide_eq_true hne

theorem given_eq_iff (h : ctx.lists cwe f = true) : ctx.given f = ctx.reasonFor cwe ↔ ctx.ReasonFits f cwe := by
  obtain ⟨hcarries, hlisted⟩ := lists_iff.mp h
  cases hkind : ctx.outOfCatalog f with
  | none => exact absurd hcarries (by simp [Judging.carries, hkind])
  | some kind =>
    obtain ⟨-, -, hclass⟩ := kind_of_outOfCatalog hkind
    have hmem : cwe ∈ f.cwe := by simpa [Judging.carries, hkind] using hcarries
    have hgiven : ctx.given f = ctx.why f kind := by rw [Judging.given, hkind]; rfl
    rw [Judging.ReasonFits, Judging.reasonFor, hgiven]
    cases kind with
    | unplantedClass =>
      have hall := hclass.mp rfl
      rw [if_pos hall, if_neg (hall cwe hmem)]
      rfl
    | unplantedInScope =>
      have hsome : ¬ ∀ d ∈ f.cwe, ¬ ctx.planted d := fun hall => absurd (hclass.mpr hall) (by decide)
      have hwhy : ctx.why f .unplantedInScope = ctx.notScanned (ctx.first f) := rfl
      rw [if_neg hsome, hwhy]
      by_cases hall : ∀ d ∈ f.cwe, ctx.planted d
      · rw [if_pos hall, if_pos (hall cwe hmem)]
        exact ⟨notScanned_inj, congrArg _⟩
      · rw [if_neg hall, if_neg fun hp => hall (hlisted hp), eq_comm]
        exact noClass_eq_notScanned_iff cwe _

omit [Runtime] in
/-- Of two conditions, one of which holds wherever the other does, the counts agree just if both hold alike. -/
theorem countP_eq_iff_of_imp {α : Type*} {p q : α → Bool} {l : List α} (h : ∀ x ∈ l, p x = true → q x = true) :
    l.countP p = l.countP q ↔ ∀ x ∈ l, q x = true → p x = true := by
  induction l with
  | nil => simp
  | cons x l ih =>
    have hle := countP_mono_left fun y hy => h y (mem_cons_of_mem x hy)
    rw [countP_cons, countP_cons, forall_mem_cons, ← ih fun y hy => h y (mem_cons_of_mem x hy)]
    have hx := h x mem_cons_self
    cases hp : p x with
    | true =>
      rw [hx hp]
      exact ⟨fun heq => ⟨fun _ => rfl, Nat.add_right_cancel heq⟩, fun heq => congrArg (· + 1) heq.2⟩
    | false =>
      cases hq : q x with
      | true =>
        refine ⟨fun heq => ?_, fun heq => absurd (heq.1 rfl) Bool.false_ne_true⟩
        rw [if_neg Bool.false_ne_true, if_pos rfl] at heq
        omega
      | false => exact ⟨fun heq => ⟨id, heq⟩, fun heq => heq.2⟩

/-- The breakdown is exact just if no CWE is left out of a count, and every first reason fits. -/
theorem outOfCatalogHits_exact_iff {findings : List Finding} (hn : ∀ f ∈ findings, f.cwe.Nodup) :
    (∀ cwe h, (ctx.classify findings).outOfCatalogHits.get? cwe = some h →
      h.1 = findings.countP (ctx.carries cwe) ∧ h.2 = ctx.reasonFor cwe) ↔
    ctx.Unmixed findings ∧ ∀ cwe f, findings.find? (ctx.lists cwe) = some f → ctx.ReasonFits f cwe := by
  have hcount : ∀ cwe, findings.countP (ctx.lists cwe) = findings.countP (ctx.carries cwe) ↔
      ∀ f ∈ findings, ctx.carries cwe f = true → ctx.lists cwe f = true :=
    fun cwe => countP_eq_iff_of_imp fun f _ h => (lists_iff.mp h).1
  constructor
  · intro h
    have hentry : ∀ cwe f, findings.find? (ctx.lists cwe) = some f →
        findings.countP (ctx.lists cwe) = findings.countP (ctx.carries cwe) ∧ ctx.given f = ctx.reasonFor cwe := by
      intro cwe f hf
      exact h cwe (findings.countP (ctx.lists cwe), ctx.given f) (by rw [get?_outOfCatalogHits hn, hf]; rfl)
    refine ⟨fun cwe hp f hf g hg hcf hcg hall => ?_, fun cwe f hf => ?_⟩
    · have hlists := lists_iff.mpr ⟨hcg, fun _ => hall⟩
      obtain ⟨first, hfirst⟩ := Option.isSome_iff_exists.mp (List.find?_isSome.mpr ⟨g, hg, hlists⟩)
      exact (lists_iff.mp ((hcount cwe).mp (hentry cwe first hfirst).1 f hf hcf)).2 hp
    · exact (given_eq_iff (List.find?_some hf)).mp (hentry cwe f hf).2
  · rintro ⟨hunmixed, hfits⟩ cwe h hget
    rw [get?_outOfCatalogHits hn] at hget
    obtain ⟨first, hfirst, rfl⟩ := Option.map_eq_some_iff.mp hget
    have hlisted := List.find?_some hfirst
    refine ⟨(hcount cwe).mpr fun f hf hcf => lists_iff.mpr ⟨hcf, fun hp => ?_⟩,
      (given_eq_iff hlisted).mpr (hfits cwe first hfirst)⟩
    obtain ⟨hcarries, hall⟩ := lists_iff.mp hlisted
    exact hunmixed cwe hp f hf first (mem_of_find?_eq_some hfirst) hcf hcarries (hall hp)

end Hits

/-- Of the findings of a document, the breakdown counts each listed CWE once for every out-of-catalog finding that
carries it and gives the reason that applies, just if planted CWEs are not mixed with unplanted ones there and the
first finding to list a CWE has a reason that fits it. -/
theorem outOfCatalogByCwe_exact_iff [Runtime] (ctx : Judging) (decimal : Char → Option ℕ) (data : Json) :
    let findings := loadFindings decimal data
    (∀ e ∈ (classifyFindings ctx findings).outOfCatalogByCwe,
      e.2.1 = findings.countP (ctx.carries e.1) ∧ e.2.2 = ctx.reasonFor e.1) ↔
    ctx.Unmixed findings ∧ ∀ cwe f, findings.find? (ctx.lists cwe) = some f → ctx.ReasonFits f cwe := by
  intro findings
  rw [← outOfCatalogHits_exact_iff fun f hf => nodup_of_loadFindings decimal hf]
  have hmem : ∀ e, e ∈ (classifyFindings ctx findings).outOfCatalogByCwe ↔
      e ∈ (ctx.classify findings).outOfCatalogHits.items := fun e => mem_insertionSort _
  constructor
  · exact fun h cwe hit hget => h (cwe, hit) ((hmem _).mpr (Dict.mem_items_of_get? hget))
  · exact fun h e he => h e.1 e.2 (Dict.get?_of_mem ((hmem e).mp he))

/-! ## Two findings of a header scan -/

/-- The class of CWE 352 is in the taxonomy, and nothing of it in the shop. -/
def headerSite : Judging where
  catalog :=
    { vulns := [{ id := "XSS-1", app := "shop", entrypoint := { method := "GET", path := "/search", param := some "q" }
                  oracle := { kind := "signal" }, cwe := [79] }]
      classes := [{ cwe := [352], family := some "csrf" }]
      ids_nodup := by decide }

/-- The same missing header twice, once with the class of a request forgery beside it. -/
def headerReport : Json :=
  .arr [.obj [("url", .str "/cart"), ("cwe", .arr [.int 693, .int 352])],
    .obj [("url", .str "/pay"), ("cwe", .int 352)]]

/-- One of the two is not counted, and the unplanted CWE is said to be planted. -/
theorem headerReport_miscounts :
    let _ := Runtime.ascii
    let findings := loadFindings (fun _ => none) headerReport
    (classifyFindings headerSite findings).outOfCatalogByCwe =
        [(352, 1, headerSite.notScanned 352), (693, 1, headerSite.notScanned 693)] ∧
      findings.countP (headerSite.carries 352) = 2 ∧ headerSite.reasonFor 693 ≠ headerSite.notScanned 693 := by
  decide +kernel

end PtaasBench.Benchctl
