import PtaasBench.BenchCollector.Ingest

/-!
# PtaasBench.BenchCollector.CloseMerge — what closing a run does to its record (`ingest.py`)

The body of a close is merged per app and per field; of a record only what is neither null nor a default
is supplied.  Any number of closes leaves, under each field, what the last close to supply it has.
-/

namespace PtaasBench.BenchCollector

open Py

/-- The `addresses` of a close, as they were sent: the fields of each app. -/
abbrev ClosingBody := Dict String (Dict String Json)

/-- Dropped by `model_dump(exclude_none=True, exclude_defaults=True)`. -/
def isDefault (key : String) : Json → Bool
  | .null => true
  | .arr [] => key == "addresses"
  | _ => false

/-- `model_dump` of a record of a close; the order of the fields is that of the body. -/
def supplied (record : Dict String Json) : Obj := record.items.filter fun f => !isDefault f.1 f.2

/-- `_close_run_locked` on the row of the run, for a body that was sent. -/
def closeWith (body : Option ClosingBody) (now : ℚ) (r : Run) : Run :=
  closeRow (body.map fun closing => closing.mapValues supplied) now r

/-- What the run has recorded for an app under a field. -/
def Run.field (r : Run) (app key : String) : Option Json := (r.addresses.get? app).bind fun record => record.get? key

/-- What a close supplies for an app under a field. -/
def suppliedField (app key : String) (body : Option ClosingBody) : Option Json :=
  body.bind fun closing => (closing.get? app).bind fun record => (record.get? key).filter fun v => !isDefault key v

/-- A sequence of closes, each with its time. -/
def closeAll (closes : List (Option ClosingBody × ℚ)) (r : Run) : Run :=
  closes.foldl (fun r close => closeWith close.1 close.2 r) r

/-! ## One record over another -/

/-- `record.update(fields)` -/
def updated (record fields : Obj) : Obj := fields.foldl (fun record f => record.set f.1 f.2) record

theorem get?_updated {fields : Obj} (hn : (fields.map Prod.fst).Nodup) (record : Obj) (key : String) :
    (updated record fields).get? key = (fields.get? key).or (record.get? key) := by
  induction fields generalizing record with
  | nil => rw [updated, List.foldl_nil, Obj.get?_nil, Option.none_or]
  | cons f fields ih =>
    obtain ⟨hnotin, hrest⟩ := List.nodup_cons.mp hn
    have hstep : updated record (f :: fields) = updated (record.set f.1 f.2) fields := rfl
    rw [hstep, ih hrest, Obj.get?_set, Obj.get?_cons]
    by_cases hkey : key = f.1
    · have hnone : Obj.get? fields key = none := by
        cases hget : Obj.get? fields key with
        | none => rfl
        | some v => exact absurd (List.mem_map.mpr ⟨_, Obj.mem_of_get? hget, hkey⟩) hnotin
      rw [if_pos hkey, if_pos hkey, hnone, Option.none_or, Option.some_or]
    · rw [if_neg hkey, if_neg hkey]

theorem set_eq_self {record : Obj} {key : String} {v : Json} (h : record.get? key = some v) :
    record.set key v = record := by
  induction record with
  | nil => exact absurd h.symm (Option.some_ne_none v)
  | cons f record ih =>
    obtain ⟨k, w⟩ := f
    rw [Obj.get?_cons] at h
    rw [Obj.set]
    by_cases hkey : key = k
    · rw [if_pos hkey] at h ⊢
      rw [Option.some.inj h, hkey]
    · rw [if_neg hkey] at h ⊢
      rw [ih h]

/-- A record that has the fields already is left as it is. -/
theorem updated_eq_self {record fields : Obj} (h : ∀ f ∈ fields, record.get? f.1 = some f.2) :
    updated record fields = record := by
  induction fields with
  | nil => rfl
  | cons f fields ih =>
    have hstep : updated record (f :: fields) = updated (record.set f.1 f.2) fields := rfl
    rw [hstep, set_eq_self (h f List.mem_cons_self)]
    exact ih fun f hf => h f (List.mem_cons_of_mem _ hf)

theorem nodup_supplied (record : Dict String Json) : ((supplied record).map Prod.fst).Nodup :=
  record.nodup.sublist (List.filter_sublist.map _)

theorem get?_supplied (record : Dict String Json) (key : String) :
    (supplied record).get? key = (record.get? key).filter fun v => !isDefault key v := by
  refine Option.ext fun v => ?_
  rw [Obj.get?_eq_some_iff (nodup_supplied record), supplied, List.mem_filter, Option.filter_eq_some_iff]
  exact and_congr_left fun _ => ⟨Dict.get?_of_mem, Dict.mem_items_of_get?⟩

/-! ## One close -/

/-- One app of a close. -/
def mergeApp (merged : Dict String Obj) (e : String × Obj) : Dict String Obj :=
  merged.set e.1 (updated (merged.getD e.1 []) e.2)

theorem get?_mergeApps {es : List (String × Obj)} (hn : (es.map Prod.fst).Nodup) (existing : Dict String Obj)
    (app : String) : (es.foldl mergeApp existing).get? app =
      match (es.find? fun e => e.1 = app).map Prod.snd with
      | none => existing.get? app
      | some fields => some (updated (existing.getD app []) fields) := by
  induction es generalizing existing with
  | nil => rfl
  | cons e es ih =>
    obtain ⟨hnotin, hrest⟩ := List.nodup_cons.mp hn
    rw [List.foldl_cons, ih hrest]
    by_cases happ : e.1 = app
    · have hnone : (es.find? fun e => e.1 = app) = none := by
        refine List.find?_eq_none.mpr fun e' he' heq => hnotin ?_
        exact List.mem_map.mpr ⟨e', he', (of_decide_eq_true heq).trans happ.symm⟩
      rw [List.find?_cons_of_pos (by simpa using happ), hnone, mergeApp, happ]
      exact Dict.get?_set_self _ _ _
    · have hother (v : Obj) : (existing.set e.1 v).get? app = existing.get? app :=
        Dict.get?_set_of_ne _ _ (Ne.symm happ)
      rw [List.find?_cons_of_neg (by simpa using happ)]
      simp only [mergeApp, Dict.getD, hother]

theorem set_dict_eq_self {d : Dict String Obj} {k : String} {v : Obj} (h : d.get? k = some v) : d.set k v = d := by
  have hmem := Dict.mem_items_of_get? h
  have hkey : k ∈ d.keys := List.mem_map.mpr ⟨_, hmem, rfl⟩
  obtain ⟨items, hn⟩ := d
  rw [Dict.set, dif_pos hkey, Dict.mk.injEq]
  refine (List.map_congr_left fun e he => ?_).trans (List.map_id _)
  by_cases hek : e.1 = k
  · rw [if_pos hek]
    exact (List.inj_on_of_nodup_map hn he hmem hek).symm
  · rw [if_neg hek]
    rfl

/-- Apps whose fields are there already leave the map as it is. -/
theorem mergeApps_eq_self {es : List (String × Obj)} {existing : Dict String Obj}
    (h : ∀ e ∈ es, ∃ record, existing.get? e.1 = some record ∧ ∀ f ∈ e.2, record.get? f.1 = some f.2) :
    es.foldl mergeApp existing = existing := by
  induction es with
  | nil => rfl
  | cons e es ih =>
    obtain ⟨record, hget, hfields⟩ := h e List.mem_cons_self
    have hsame : mergeApp existing e = existing := by
      rw [mergeApp, Dict.getD, hget, Option.getD_some, updated_eq_self hfields]
      exact set_dict_eq_self hget
    rw [List.foldl_cons, hsame]
    exact ih fun e he => h e (List.mem_cons_of_mem _ he)

/-- What a body adds to the recorded addresses. -/
def closedAddresses (existing : Dict String Obj) (body : Option ClosingBody) : Dict String Obj :=
  match body with
  | none => existing
  | some closing => (closing.mapValues supplied).items.foldl mergeApp existing

theorem getD_mergeAddresses (existing : Dict String Obj) (body : Option ClosingBody) :
    (mergeAddresses existing (body.map fun closing => closing.mapValues supplied)).getD existing =
      closedAddresses existing body := by
  rcases body with _ | ⟨_ | ⟨e, es⟩, hn⟩ <;> rfl

/-- A close writes to a run that is active, and to one for which the body has an app. -/
theorem closeWith_eq (body : Option ClosingBody) (now : ℚ) (r : Run) :
    closeWith body now r =
      if r.active || (mergeAddresses r.addresses (body.map fun closing => closing.mapValues supplied)).isSome then
        { r with
          addresses := closedAddresses r.addresses body
          active := false
          closedAt := some (r.closedAt.getD now) }
      else r := by
  rw [closeWith, closeRow, ← getD_mergeAddresses]

theorem addresses_closeWith (body : Option ClosingBody) (now : ℚ) (r : Run) :
    (closeWith body now r).addresses = closedAddresses r.addresses body := by
  rw [closeWith_eq]
  split_ifs with hwritten
  · rfl
  · rw [Bool.or_eq_true, not_or, Bool.not_eq_true, Bool.not_eq_true, Option.isSome_eq_false_iff,
      Option.isNone_iff_eq_none] at hwritten
    rw [← getD_mergeAddresses, hwritten.2, Option.getD_none]

theorem get?_closedAddresses (existing : Dict String Obj) (body : Option ClosingBody) (app : String) :
    (closedAddresses existing body).get? app =
      match body.bind fun closing => closing.get? app with
      | none => existing.get? app
      | some record => some (updated (existing.getD app []) (supplied record)) := by
  cases body with
  | none => rfl
  | some closing =>
    have hfind : ((closing.mapValues supplied).items.find? fun e => e.1 = app).map Prod.snd =
        (closing.get? app).map supplied := Dict.get?_mapValues closing supplied app
    rw [closedAddresses, get?_mergeApps (closing.mapValues supplied).nodup, hfind, Option.bind_some]
    cases closing.get? app <;> rfl

/-- A close replaces what it supplies and leaves every other field. -/
theorem field_closeWith (body : Option ClosingBody) (now : ℚ) (r : Run) (app key : String) :
    (closeWith body now r).field app key = (suppliedField app key body).or (r.field app key) := by
  rw [Run.field, addresses_closeWith, get?_closedAddresses, suppliedField, Run.field]
  cases hbody : body.bind fun closing => closing.get? app with
  | none =>
    have hsupplied : (body.bind fun closing => (closing.get? app).bind fun record =>
        (record.get? key).filter fun v => !isDefault key v) = none := by
      rw [← Option.bind_assoc, hbody, Option.bind_none]
    rw [hsupplied, Option.none_or]
  | some record =>
    have hsupplied : (body.bind fun closing => (closing.get? app).bind fun record =>
        (record.get? key).filter fun v => !isDefault key v) =
        (record.get? key).filter fun v => !isDefault key v := by
      rw [← Option.bind_assoc, hbody, Option.bind_some]
    rw [hsupplied]
    dsimp only
    rw [Option.bind_some, get?_updated (nodup_supplied record), get?_supplied, Dict.getD]
    cases r.addresses.get? app <;> rfl

theorem isSome_closeWith (body : Option ClosingBody) (now : ℚ) {r : Run} {app : String}
    (h : (r.addresses.get? app).isSome) : ((closeWith body now r).addresses.get? app).isSome := by
  rw [addresses_closeWith, get?_closedAddresses]
  cases body.bind fun closing => closing.get? app with
  | none => exact h
  | some record => rfl

/-- The same body adds nothing the second time. -/
theorem closedAddresses_again (existing : Dict String Obj) (body : Option ClosingBody) :
    closedAddresses (closedAddresses existing body) body = closedAddresses existing body := by
  cases body with
  | none => rfl
  | some closing =>
    refine mergeApps_eq_self fun e he => ?_
    obtain ⟨e', he', rfl⟩ := List.mem_map.mp he
    have hget : (some closing).bind (fun closing => closing.get? e'.1) = some e'.2 := Dict.get?_of_mem he'
    refine ⟨updated (existing.getD e'.1 []) (supplied e'.2), ?_, fun f hf => ?_⟩
    · have h := get?_closedAddresses existing (some closing) e'.1
      rw [hget] at h
      exact h
    · have hf' := (Obj.get?_eq_some_iff (nodup_supplied e'.2)).mpr hf
      rw [get?_updated (nodup_supplied e'.2), hf', Option.some_or]

theorem closedAt_closeWith (body : Option ClosingBody) (now : ℚ) {r : Run} {t : ℚ} (h : r.closedAt = some t) :
    (closeWith body now r).closedAt = some t := by
  rw [closeWith_eq]
  split_ifs
  · rw [h, Option.getD_some]
  · exact h

theorem closeWith_again (body : Option ClosingBody) (now later : ℚ) (r : Run) :
    closeWith body later (closeWith body now r) = closeWith body now r := by
  by_cases hwritten : (r.active ||
      (mergeAddresses r.addresses (body.map fun closing => closing.mapValues supplied)).isSome) = true
  · rw [closeWith_eq body now, if_pos hwritten, closeWith_eq]
    split_ifs
    · rw [closedAddresses_again, Option.getD_some]
    · rfl
  · rw [closeWith_eq body now, if_neg hwritten, closeWith_eq, if_neg hwritten]

/-! ## Any number of closes -/

theorem closeAll_append (closes closes' : List (Option ClosingBody × ℚ)) (r : Run) :
    closeAll (closes ++ closes') r = closeAll closes' (closeAll closes r) :=
  List.foldl_append

theorem field_closeAll (closes : List (Option ClosingBody × ℚ)) (r : Run) (app key : String) :
    (closeAll closes r).field app key =
      (closes.reverse.findSome? fun close => suppliedField app key close.1).or (r.field app key) := by
  induction closes generalizing r with
  | nil => rfl
  | cons close closes ih =>
    have hstep : closeAll (close :: closes) r = closeAll closes (closeWith close.1 close.2 r) := rfl
    rw [hstep, ih, field_closeWith, ← Option.or_assoc, List.reverse_cons, List.findSome?_append, List.findSome?_singleton]

theorem isSome_closeAll (closes : List (Option ClosingBody × ℚ)) {r : Run} {app : String}
    (h : (r.addresses.get? app).isSome) : ((closeAll closes r).addresses.get? app).isSome := by
  induction closes generalizing r with
  | nil => exact h
  | cons close closes ih => exact ih (isSome_closeWith close.1 close.2 h)

theorem closedAt_closeAll (closes : List (Option ClosingBody × ℚ)) {r : Run} {t : ℚ} (h : r.closedAt = some t) :
    (closeAll closes r).closedAt = some t := by
  induction closes generalizing r with
  | nil => exact h
  | cons close closes ih => exact ih (closedAt_closeWith close.1 close.2 h)

/-- An active run is closed at the time of its first close, whatever closes follow. -/
theorem first_closedAt (close : Option ClosingBody × ℚ) (closes : List (Option ClosingBody × ℚ)) {r : Run}
    (hactive : r.active = true) (hopen : r.closedAt = none) :
    (closeAll (close :: closes) r).closedAt = some close.2 := by
  refine closedAt_closeAll closes (r := closeWith close.1 close.2 r) ?_
  rw [closeWith_eq, hactive, Bool.true_or, if_pos rfl, hopen, Option.getD_none]

/-- However often a run is closed, its record has under each field what the last close to supply the field has,
else what it had: closes take nothing away, a repeated close changes nothing, and `closed_at` stays. -/
theorem closes_keep_record (closes : List (Option ClosingBody × ℚ)) (r : Run) :
    (∀ app key, (closeAll closes r).field app key =
      (closes.reverse.findSome? fun close => suppliedField app key close.1).or (r.field app key)) ∧
    (∀ app, (r.addresses.get? app).isSome → ((closeAll closes r).addresses.get? app).isSome) ∧
    (∀ body now later, closeAll (closes ++ [(body, now), (body, later)]) r = closeAll (closes ++ [(body, now)]) r) ∧
    (∀ t, r.closedAt = some t → (closeAll closes r).closedAt = some t) ∧
    ∀ close rest, closes = close :: rest → r.active = true → r.closedAt = none →
      (closeAll closes r).closedAt = some close.2 := by
  refine ⟨field_closeAll closes r, fun app => isSome_closeAll closes, fun body now later => ?_,
    fun t => closedAt_closeAll closes, ?_⟩
  · rw [closeAll_append, closeAll_append]
    exact closeWith_again body now later (closeAll closes r)
  · rintro close rest rfl
    exact first_closedAt close rest

/-- A run whose record has an address. -/
def recordedRun : Run where
  runId := "r1"
  addresses := Dict.empty.set "shop" [("addresses", .arr [.str "10.77.0.9"])]
  startedAt := 0

/-- An empty list of addresses is sent and replaces nothing. -/
theorem empty_addresses_kept :
    (closeWith (some (Dict.empty.set "shop" (Dict.empty.set "addresses" (.arr [])))) 1 recordedRun).field
      "shop" "addresses" = some (.arr [.str "10.77.0.9"]) := by
  rw [field_closeWith]
  rfl

end PtaasBench.BenchCollector
