import PtaasBench.Runners.Orchestrate

/-!
# PtaasBench.Runners.References — the digest a target must come back to (`orchestrate.py`)

`_reference_digests` takes the pins, then walks the earlier records from the most recent one until there
is any reference at all, for whatever app.
-/

namespace PtaasBench.Runners

open Py Benchctl

/-- A field of an entry, when it is text with something in it. -/
def textField (fields : Obj) (key : String) : Option String := (fields.get key).asStr?.filter (· ≠ "")

/-- The digests of a record, with their apps.  An entry on which the source raises is read as absent. -/
def recordedDigests (record : Obj) : List (String × String) :=
  (iterate (record.get "reset")).filterMap fun entry => entry.asObj?.bind fun fields =>
    (textField fields "app").bind fun app => (textField fields "state_digest").map fun digest => (app, digest)

/-- What is in the results directory: each record with its time of modification, `none` when it cannot be
read or parsed. -/
abbrev ResultsDir := List (ℚ × Option Obj)

/-- The records, the most recent first. -/
def mostRecentFirst (dir : ResultsDir) : List (Option Obj) :=
  ((dir.insertionSort fun a b => a.1 ≤ b.1).reverse).map Prod.snd

/-- The digests pinned in `apps.yaml`, by app. -/
def pins (apps : List (String × Option String)) : Dict String String :=
  Dict.ofList (apps.filterMap fun a => (a.2.filter (· ≠ "")).map fun digest => (a.1, digest))

/-- The walk over the earlier records. -/
def walkRecords (references : Dict String String) : List (Option Obj) → Dict String String
  | [] => references
  | none :: records => walkRecords references records
  | some previous :: records =>
    let references := references.addAll (recordedDigests previous)
    if references.items.isEmpty then walkRecords references records else references

/-- `_reference_digests`; without a directory there are only the pins. -/
def referenceDigests (apps : List (String × Option String)) (dir : Option ResultsDir) : Dict String String :=
  match dir with
  | none => pins apps
  | some dir => walkRecords (pins apps) (mostRecentFirst dir)

/-- The digest that a record has for an app. -/
def recordedFor (app : String) (record : Option Obj) : Option String :=
  record.bind fun previous => ((recordedDigests previous).find? fun e => e.1 = app).map Prod.snd

/-- The digest for an app in the most recent record that has one. -/
def latestDigest (app : String) (dir : Option ResultsDir) : Option String :=
  (dir.elim [] mostRecentFirst).findSome? (recordedFor app)

/-- The record at which the walk stops: with a pin the most recent that can be read, else the most recent
with a digest of any app. -/
def lastWalked (apps : List (String × Option String)) (dir : Option ResultsDir) : Option Obj :=
  (dir.elim [] mostRecentFirst).findSome? fun record => record.bind fun previous =>
    if (pins apps).items ≠ [] ∨ recordedDigests previous ≠ [] then some previous else none

/-! ## The walk -/

theorem get?_addAll_of {d : Dict String String} (ps : List (String × String)) (app : String) :
    (d.addAll ps).get? app = (d.get? app).or ((ps.find? fun e => e.1 = app).map Prod.snd) := by
  have hfind := Dict.find?_addAll d ps fun key => decide (key = app)
  rw [Dict.get?, hfind, List.find?_append, Option.map_or]
  rfl

theorem items_addAll_eq_nil_iff {d : Dict String String} {ps : List (String × String)} :
    (d.addAll ps).items = [] ↔ d.items = [] ∧ ps = [] := by
  have hall := Dict.find?_addAll d ps fun _ => true
  have hhead (l : List (String × String)) : l.find? (fun _ => true) = l.head? := by cases l <;> rfl
  rw [hhead, hhead] at hall
  rw [← List.head?_eq_none_iff, hall, List.head?_eq_none_iff, List.append_eq_nil_iff]

/-- What an app has as reference behind the walk: its pin, or what the last record walked has for it. -/
theorem get?_walkRecords (references : Dict String String) (records : List (Option Obj)) (app : String) :
    (walkRecords references records).get? app = (references.get? app).or
      ((records.findSome? fun record => record.bind fun previous =>
        if references.items ≠ [] ∨ recordedDigests previous ≠ [] then some previous else none).bind fun previous =>
          recordedFor app (some previous)) := by
  induction records with
  | nil => rw [walkRecords, List.findSome?_nil, Option.bind_none, Option.or_none]
  | cons record records ih =>
    cases record with
    | none => rw [walkRecords, List.findSome?_cons, Option.bind_none, ih]
    | some previous =>
      rw [walkRecords, List.findSome?_cons, Option.bind_some]
      by_cases hempty : references.items = [] ∧ recordedDigests previous = []
      · have hsame : references.addAll (recordedDigests previous) = references := by
          rw [hempty.2]
          rfl
        rw [hsame, hempty.1, List.isEmpty_nil, if_pos rfl, ih,
          if_neg (not_or.mpr ⟨not_not.mpr rfl, not_not.mpr hempty.2⟩), hempty.1]
      · have hstop : references.items ≠ [] ∨ recordedDigests previous ≠ [] := not_and_or.mp hempty
        have hmore : (references.addAll (recordedDigests previous)).items.isEmpty = false := by
          rw [← Bool.not_eq_true, List.isEmpty_iff, items_addAll_eq_nil_iff]
          exact hempty
        rw [hmore, if_neg Bool.false_ne_true, if_pos hstop, get?_addAll_of]
        rfl

/-- The reference of an app that is not pinned. -/
theorem get?_referenceDigests {apps : List (String × Option String)} {app : String}
    (hpin : (pins apps).get? app = none) (dir : Option ResultsDir) :
    (referenceDigests apps dir).get? app = (lastWalked apps dir).bind fun previous => recordedFor app (some previous) := by
  cases dir with
  | none => exact hpin
  | some dir =>
    rw [referenceDigests, get?_walkRecords, hpin, Option.none_or]
    rfl

/-- What the last record walked has for an app is the latest there is. -/
theorem latestDigest_of_lastWalked {apps : List (String × Option String)} {dir : Option ResultsDir} {app digest : String}
    (h : ((lastWalked apps dir).bind fun previous => recordedFor app (some previous)) = some digest) :
    latestDigest app dir = some digest := by
  obtain ⟨previous, hlast, hdigest⟩ := Option.bind_eq_some_iff.mp h
  rw [lastWalked] at hlast
  rw [latestDigest]
  obtain ⟨newer, record, older, hsplit, hrecord, hskipped⟩ := List.findSome?_eq_some_iff.mp hlast
  rw [hsplit, List.findSome?_append]
  have hnone : newer.findSome? (recordedFor app) = none := by
    refine List.findSome?_eq_none_iff.mpr fun r hr => ?_
    have hskip := hskipped r hr
    cases r with
    | none => rfl
    | some earlier =>
      rw [Option.bind_some] at hskip
      split_ifs at hskip with hstop
      have hnil : recordedDigests earlier = [] := not_not.mp (not_or.mp hstop).2
      rw [recordedFor, Option.bind_some, hnil]
      rfl
  obtain ⟨earlier, rfl, hearlier⟩ := Option.bind_eq_some_iff.mp hrecord
  split_ifs at hearlier
  obtain rfl := Option.some.inj hearlier
  rw [hnone, Option.none_or, List.findSome?_cons, hdigest]

/-- Every app without a pin has the latest recorded digest as reference just if each of them that any
record has a digest for is in the record where the walk stops. -/
theorem reference_latest_iff (apps : List (String × Option String)) (dir : Option ResultsDir) :
    (∀ a ∈ apps, (pins apps).get? a.1 = none → (referenceDigests apps dir).get? a.1 = latestDigest a.1 dir) ↔
      ∀ a ∈ apps, (pins apps).get? a.1 = none → latestDigest a.1 dir ≠ none →
        ∃ previous, lastWalked apps dir = some previous ∧ recordedFor a.1 (some previous) ≠ none := by
  refine forall_congr' fun a => forall_congr' fun _ => forall_congr' fun hpin => ?_
  rw [get?_referenceDigests hpin]
  constructor
  · intro heq hlatest
    rw [← heq] at hlatest
    obtain ⟨digest, hdigest⟩ := Option.ne_none_iff_exists'.mp hlatest
    obtain ⟨previous, hlast, hrecorded⟩ := Option.bind_eq_some_iff.mp hdigest
    exact ⟨previous, hlast, hrecorded ▸ Option.some_ne_none digest⟩
  · intro hcovered
    cases hreference : (lastWalked apps dir).bind fun previous => recordedFor a.1 (some previous) with
    | some digest => exact (latestDigest_of_lastWalked hreference).symm
    | none =>
      by_contra hlatest
      obtain ⟨previous, hlast, hrecorded⟩ := hcovered (Ne.symm hlatest)
      rw [hlast, Option.bind_some] at hreference
      exact hrecorded hreference

/-! ## A pin beside an older record -/

/-- A record that only says what the reset of one app printed. -/
def resetRecord (app digest : String) : Obj :=
  [("reset", .arr [ResetOutcome.toDict { app := app, ok := true, stateDigest := some digest }])]

/-- The last run had no reset; the one before it recorded the blog. -/
def pinnedShop : List (String × Option String) := [("shop", some "aaaaaaaaaaaa"), ("blog", none)]

def skippedThenBlog : ResultsDir := [(2, some [("reset", .arr [])]), (1, some (resetRecord "blog" "bbbbbbbbbbbb"))]

/-- The walk stops at a record without any digest, because the shop is pinned. -/
theorem pin_stops_walk :
    (referenceDigests pinnedShop (some skippedThenBlog)).get? "blog" = none ∧
      latestDigest "blog" (some skippedThenBlog) = some "bbbbbbbbbbbb" ∧
      (referenceDigests [("blog", none)] (some skippedThenBlog)).get? "blog" = some "bbbbbbbbbbbb" := by
  decide +kernel

end PtaasBench.Runners
