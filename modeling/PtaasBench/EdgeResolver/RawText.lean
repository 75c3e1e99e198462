import PtaasBench.EdgeResolver.Tokens

/-!
# PtaasBench.EdgeResolver.RawText — the text of an observation when its confidence changes

`_annotate` cuts the text so that it fits with its marker; `_reannotate` puts another level into the
marker and cuts nothing.  The text is a body, the same throughout, and the marker of the level.
-/

namespace PtaasBench.EdgeResolver

open Py Lib

/-- Whose name the host is, for the reader. -/
def originText : Option Bool → String
  | none => "n/a"
  | some true => "owned"
  | some false => "external"

/-- The text before the level: where the identifier was found, and whose name it is. -/
def provenanceText (source : Option String) (ownedZone : Option Bool) : String :=
  " | src=" ++ textOr source "none" ++ " origin=" ++ originText ownedZone ++ " conf="

/-- How much of the text `_annotate` leaves room for. -/
def roomFor (source : Option String) (ownedZone : Option Bool) (confidence : Level) : ℕ :=
  rawMax - ((provenanceText source ownedZone).toList.length + confidence.text.toList.length)

/-- The changes of the confidence before the report, each by a late attribution. -/
def finaliseAll (o : Observation) (lates : List Attribution) : Observation := lates.foldl finalise o

/-- The confidence they leave. -/
def settled (confidence : Level) (lates : List Attribution) : Level :=
  lates.foldl (fun confidence late => if late.mode ≠ .unattributed then late.confidence else confidence) confidence

/-! ## The marker -/

theorem beforeLast_eq_none {c : Char} {sep l : List Char} (h : c ∉ l) : beforeLast (c :: sep) l = none := by
  induction l with
  | nil => rfl
  | cons d l ih =>
    rw [List.mem_cons, not_or] at h
    have hstarts : (c :: sep).isPrefixOf (d :: l) = false := by
      rw [List.isPrefixOf, beq_false_of_ne h.1, Bool.false_and]
    rw [beforeLast, ih h.2, hstarts]
    rfl

/-- A separator whose first character is not met again in what follows is the last one. -/
theorem beforeLast_append {c : Char} {sep t : List Char} (h : c ∉ sep ++ t) (body : List Char) :
    beforeLast (c :: sep) (body ++ c :: (sep ++ t)) = some body := by
  induction body with
  | nil =>
    have hstarts : (c :: sep).isPrefixOf (c :: (sep ++ t)) = true :=
      List.isPrefixOf_iff_prefix.mpr ((List.prefix_append (c :: sep) t))
    rw [List.nil_append, beforeLast, beforeLast_eq_none h, hstarts]
    rfl
  | cons d body ih => rw [List.cons_append, beforeLast, ih]

theorem blank_notMem_text (confidence : Level) : ' ' ∉ "conf=".toList ++ confidence.text.toList := by
  cases confidence <;> decide

/-- The level of the marker is replaced, and the rest is kept. -/
theorem reannotate_marked (body : String) (confidence confidence' : Level) :
    reannotate (body ++ " conf=" ++ confidence.text) confidence' = body ++ " conf=" ++ confidence'.text := by
  have hcut : beforeLast " conf=".toList (body ++ " conf=" ++ confidence.text).toList = some body.toList := by
    rw [String.toList_append, String.toList_append, List.append_assoc]
    exact beforeLast_append (blank_notMem_text confidence) body.toList
  rw [reannotate, hcut]
  dsimp only
  rw [String.ofList_toList]

/-- `finalise` keeps the body and marks the level. -/
theorem finalise_marked {o : Observation} {body : String} (h : o.raw = body ++ " conf=" ++ o.confidence.text)
    (late : Attribution) :
    (finalise o late).raw = body ++ " conf=" ++ (finalise o late).confidence.text ∧
      (finalise o late).confidence = if late.mode ≠ .unattributed then late.confidence else o.confidence := by
  rw [finalise]
  by_cases hmode : late.mode ≠ .unattributed
  · by_cases hsame : late.confidence ≠ o.confidence
    · rw [if_pos ⟨hmode, hsame⟩, if_pos hmode]
      exact ⟨by rw [h, reannotate_marked], rfl⟩
    · rw [if_neg fun hboth => hsame hboth.2, if_pos hmode]
      exact ⟨h, (not_not.mp hsame).symm⟩
  · rw [if_neg fun hboth => hmode hboth.1, if_neg hmode]
    exact ⟨h, rfl⟩

theorem finaliseAll_marked {o : Observation} {body : String} (h : o.raw = body ++ " conf=" ++ o.confidence.text)
    (lates : List Attribution) :
    (finaliseAll o lates).raw = body ++ " conf=" ++ (finaliseAll o lates).confidence.text ∧
      (finaliseAll o lates).confidence = settled o.confidence lates := by
  induction lates generalizing o with
  | nil => exact ⟨h, rfl⟩
  | cons late lates ih =>
    obtain ⟨hraw, hconf⟩ := finalise_marked h late
    obtain ⟨hraw', hconf'⟩ := ih hraw
    exact ⟨hraw', by rw [settled, List.foldl_cons, ← hconf]; exact hconf'⟩

/-! ## The length -/

theorem length_sliceTo (s : String) (n : ℕ) : (sliceTo s n).toList.length = min n s.toList.length := by
  rw [sliceTo, if_pos (Int.natCast_nonneg n), String.toList_ofList, List.length_take, Int.toNat_natCast]

theorem annotate_eq (raw : String) (source : Option String) (ownedZone : Option Bool) (confidence : Level) :
    annotate raw source ownedZone confidence =
      sliceTo raw ((rawMax : ℤ) - (provenanceText source ownedZone ++ confidence.text).toList.length) ++
        (provenanceText source ownedZone ++ confidence.text) := by
  rcases ownedZone with _ | _ | _ <;> rfl

/-- What `_annotate` writes: the body, and the marker of the level. -/
theorem annotate_marked (raw : String) {source : Option String} {ownedZone : Option Bool} {confidence : Level}
    (hfits : (provenanceText source ownedZone).toList.length + confidence.text.toList.length ≤ rawMax) :
    ∃ body : String, annotate raw source ownedZone confidence = body ++ " conf=" ++ confidence.text ∧
      (body ++ " conf=").toList.length = min (roomFor source ownedZone confidence) raw.toList.length +
        (provenanceText source ownedZone).toList.length := by
  refine ⟨sliceTo raw (roomFor source ownedZone confidence) ++
    (" | src=" ++ textOr source "none" ++ " origin=" ++ originText ownedZone), ?_, ?_⟩
  · have hroom : (rawMax : ℤ) - ((provenanceText source ownedZone) ++ confidence.text).toList.length =
        (roomFor source ownedZone confidence : ℕ) := by
      rw [String.toList_append, List.length_append, roomFor, Nat.cast_sub hfits]
    rw [annotate_eq, hroom, provenanceText]
    simp only [String.append_assoc]
  · rw [String.append_assoc, String.toList_append, List.length_append, length_sliceTo]
    rfl

/-- The known sources leave room for the marker. -/
theorem provenance_fits {source : Option String} (h : ∀ s ∈ source, s ∈ sourceRanks.map Prod.fst)
    (ownedZone : Option Bool) (confidence : Level) :
    (provenanceText source ownedZone).toList.length + confidence.text.toList.length ≤ rawMax := by
  have htext : (textOr source "none").toList.length ≤ 14 := by
    cases source with
    | none => decide
    | some s =>
      have hall : ∀ s ∈ sourceRanks.map Prod.fst, (textOr (some s) "none").toList.length ≤ 14 := by decide
      exact hall s (h s rfl)
  have hlevel : confidence.text.toList.length ≤ 4 := by cases confidence <;> decide
  have horigin : (originText ownedZone).toList.length ≤ 8 := by rcases ownedZone with _ | _ | _ <;> decide
  have hprovenance : (provenanceText source ownedZone).toList.length =
      (" | src=".toList.length + (textOr source "none").toList.length + " origin=".toList.length +
        (originText ownedZone).toList.length) + " conf=".toList.length := by
    rw [provenanceText]
    simp only [String.toList_append, List.length_append]
  have hconstants : " | src=".toList.length = 7 ∧ " origin=".toList.length = 8 ∧ " conf=".toList.length = 6 := by
    decide
  show _ ≤ 2048
  omega

section Bounded

variable [Runtime]

theorem source_of_extract {candidates : List Candidate}
    (h : ∀ c ∈ candidates, c.source ∈ sourceRanks.map Prod.fst) :
    ∀ s ∈ (extract candidates).source, s ∈ sourceRanks.map Prod.fst := by
  intro s hs
  rw [(extract_eq candidates).2] at hs
  obtain ⟨c, hc, rfl⟩ := Option.map_eq_some_iff.mp hs
  exact h c (IsBest.of_firstRanked hc).mem

/-- The length of the text after any changes of the confidence. -/
theorem length_finaliseAll (cfg : Config) (ix : CorrelationIndex) (channel sourceIp : String)
    (candidates : List Candidate) (hsources : ∀ c ∈ candidates, c.source ∈ sourceRanks.map Prod.fst) (raw : String)
    (host : Option String) (detail : Obj) (ownedZone : Option Bool) (now : ℚ) (lates : List Attribution) :
    let o := (record cfg ix channel sourceIp (extract candidates) raw host detail ownedZone now).2
    (finaliseAll o lates).confidence = settled o.confidence lates ∧
      (" conf=" ++ (settled o.confidence lates).text).toList <:+ (finaliseAll o lates).raw.toList ∧
      (finaliseAll o lates).raw.toList.length =
        min (roomFor (extract candidates).source ownedZone o.confidence) raw.toList.length +
          (provenanceText (extract candidates).source ownedZone).toList.length +
            (settled o.confidence lates).text.toList.length := by
  intro o
  have hfits := provenance_fits (source_of_extract hsources) ownedZone o.confidence
  obtain ⟨body, hraw, hlength⟩ := annotate_marked raw hfits
  have hmarked : o.raw = body ++ " conf=" ++ o.confidence.text := hraw
  obtain ⟨hfinal, hconf⟩ := finaliseAll_marked hmarked lates
  refine ⟨hconf, ?_⟩
  rw [hfinal, hconf]
  constructor
  · simp only [String.append_assoc, String.toList_append]
    exact List.suffix_append body.toList _
  · rw [String.toList_append, List.length_append, hlength]

omit [Runtime] in
/-- Only the marker of the low level is shorter than the others. -/
theorem fits_iff (first last : Level) {provenance : ℕ} (length : ℕ)
    (hfits : provenance + first.text.toList.length ≤ rawMax) :
    min (rawMax - (provenance + first.text.toList.length)) length + provenance + last.text.toList.length ≤ rawMax ↔
      ¬ (first = .low ∧ last ≠ .low ∧ rawMax - (provenance + Level.low.text.toList.length) ≤ length) := by
  have htexts : Level.high.text.toList.length = 4 ∧ Level.low.text.toList.length = 3 ∧
      Level.none.text.toList.length = 4 := by decide
  rw [show rawMax = 2048 from rfl] at hfits ⊢
  cases first <;> cases last <;> simp only [htexts, ne_eq, reduceCtorEq, not_true_eq_false, not_false_eq_true,
    true_and, false_and, iff_true] at hfits ⊢ <;> omega

/-- The text ends in the marker of the final confidence, and fits unless the confidence was low, is not
low any more, and the text had filled the room beside the marker. -/
theorem raw_bounded_iff (cfg : Config) (ix : CorrelationIndex) (channel sourceIp : String)
    (candidates : List Candidate) (hsources : ∀ c ∈ candidates, c.source ∈ sourceRanks.map Prod.fst) (raw : String)
    (host : Option String) (detail : Obj) (ownedZone : Option Bool) (now : ℚ) (lates : List Attribution) :
    let o := (record cfg ix channel sourceIp (extract candidates) raw host detail ownedZone now).2
    let final := finaliseAll o lates
    ((report cfg final).get "raw" = .str final.raw ∧ final.raw.toList.length ≤ rawMax ∧
      (" conf=" ++ final.confidence.text).toList <:+ final.raw.toList) ↔
    ¬ (o.confidence = .low ∧ settled o.confidence lates ≠ .low ∧
      roomFor (extract candidates).source ownedZone .low ≤ raw.toList.length) := by
  intro o final
  obtain ⟨hconf, hends, hlength⟩ :=
    length_finaliseAll cfg ix channel sourceIp candidates hsources raw host detail ownedZone now lates
  have hfits := provenance_fits (source_of_extract hsources) ownedZone o.confidence
  have hreport : (report cfg final).get "raw" = .str final.raw := rfl
  rw [and_iff_right hreport, hconf, and_iff_left hends, hlength]
  exact fits_iff o.confidence (settled o.confidence lates) raw.toList.length hfits

end Bounded

/-! ## A text that fills its room, and a hint that comes late -/

/-- A resolver that knows the address of the shop. -/
def knownShop : CorrelationIndex where
  staticSources := Dict.ofList [("10.0.0.9", "shop")]

def callback : Hint where
  hintId := "h1"
  ts := 0
  app := "shop"
  host := "oast.example"
  expiresAt := 120

def shopConfig : Config where
  isSyntheticSource _ := false
  clock _ := ⟨false, 0, [digit 0], none, Or.inl (List.cons_ne_nil _ _)⟩

/-- A short text fits with either marker. -/
theorem short_raw_bounded :
    let _ := Runtime.ascii
    let o := (record shopConfig knownShop "http" "10.0.0.9" (extract []) "GET /" (some "a.oast.example") [] none 1).2
    (finaliseAll o [CorrelationIndex.hintAttribution callback "10.0.0.9" 1]).raw.toList.length ≤ rawMax := by
  intro _ o
  exact ((raw_bounded_iff shopConfig knownShop "http" "10.0.0.9" [] (fun c hc => absurd hc List.not_mem_nil)
    "GET /" (some "a.oast.example") [] none 1
      [CorrelationIndex.hintAttribution callback "10.0.0.9" 1]).mpr fun h => absurd h.2.2 (by decide)).2.1

/-- The address says the shop, with low confidence; the hint that is found later is of high confidence. -/
theorem late_hint_overflows :
    let _ := Runtime.ascii
    let raw := String.ofList (List.replicate 2048 'a')
    let o := (record shopConfig knownShop "http" "10.0.0.9" (extract []) raw (some "a.oast.example") [] none 1).2
    let late := ((knownShop.add callback 1).1.matchObserved (some "a.oast.example") "10.0.0.9" 1).2
    o.confidence = .low ∧ late.confidence = .high ∧ o.raw.toList.length = 2048 ∧
      (finaliseAll o [late]).raw.toList.length = 2049 := by
  intro _ raw o late
  have hfirst : o.confidence = .low := by decide
  have hlate : late.confidence = .high ∧ late.mode = .hint := by decide
  have hlast : settled o.confidence [late] = .high := by
    rw [settled, List.foldl_cons, List.foldl_nil, hlate.2, if_pos (by decide), hlate.1]
  have hraw : raw.toList.length = 2048 := by rw [String.toList_ofList, List.length_replicate]
  have hlength := length_finaliseAll shopConfig knownShop "http" "10.0.0.9" []
    (fun c hc => absurd hc List.not_mem_nil) raw (some "a.oast.example") [] none 1
  have hroom : roomFor (extract []).source none .low = 2017 ∧
      (provenanceText (extract []).source none).toList.length = 28 := by decide
  refine ⟨hfirst, hlate.1, ?_, ?_⟩
  · refine (hlength []).2.2.trans ?_
    show min (roomFor _ none o.confidence) raw.toList.length + _ + o.confidence.text.toList.length = 2048
    rw [hfirst, hraw, hroom.1, hroom.2]
    rfl
  · refine (hlength [late]).2.2.trans ?_
    show min (roomFor _ none o.confidence) raw.toList.length + _ + (settled o.confidence [late]).text.toList.length = 2049
    rw [hlast, hfirst, hraw, hroom.1, hroom.2]
    rfl

end PtaasBench.EdgeResolver
