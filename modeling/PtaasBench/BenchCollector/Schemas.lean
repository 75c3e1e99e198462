import PtaasBench.BenchCollector.Ingest

/-!
# PtaasBench.BenchCollector.Schemas — what the schema makes of a callback (`schemas.py`)

A model is the list of its declared fields; extra fields are kept as they are.  The conversions
pydantic tries on a value that is not of the declared type are left out: such an event is refused.
-/

namespace PtaasBench.BenchCollector

open Py

/-- `_normalise_host`: what a correlation makes of its `destination_host`. -/
def normaliseDestination [Runtime] (value : String) : String := lower (rstripDot (strip value))

/-- The types of the declared fields. -/
inductive FieldType where
  | text
  | literal (values : List String)
  | optionalText (limit : Option ℕ)
  | optionalNumber
  | flag

namespace FieldType

/-- `_truncator` -/
def clip (limit : Option ℕ) (s : String) : String :=
  match limit with
  | none => s
  | some n => String.ofList (s.toList.take n)

/-- What a field makes of the value sent for it. -/
def read : FieldType → Json → Option Json
  | text, .str s => some (.str s)
  | literal values, .str s => if s ∈ values then some (.str s) else none
  | optionalText _, .null => some .null
  | optionalText limit, .str s => some (.str (clip limit s))
  | optionalNumber, .null => some .null
  | optionalNumber, .int n => some (.float (.ofInt n))
  | optionalNumber, .float f => some (.float f)
  | flag, .bool b => some (.bool b)
  | _, _ => none

/-- The value of a field that was not sent; a field without one is required. -/
def default : FieldType → Option Json
  | text => none
  | literal _ => none
  | optionalText _ => some .null
  | optionalNumber => some .null
  | flag => some (.bool false)

/-- Text that is not clipped. -/
def verbatim : FieldType → Bool
  | text => true
  | literal _ => true
  | optionalText limit => limit.isNone
  | _ => false

theorem distinct_read {t : FieldType} {x y : Json} (h : t.read x = some y) : y.Distinct := by
  unfold read at h
  split at h
  case h_2 =>
    split_ifs at h
    rw [← Option.some.inj h]
    trivial
  case h_9 => cases h
  all_goals
    rw [← Option.some.inj h]
    trivial

theorem distinct_default {t : FieldType} {y : Json} (h : t.default = some y) : y.Distinct := by
  cases t with
  | text => exact absurd h (by simp [default])
  | literal values => exact absurd h (by simp [default])
  | optionalText limit => rw [← Option.some.inj h]; trivial
  | optionalNumber => rw [← Option.some.inj h]; trivial
  | flag => rw [← Option.some.inj h]; trivial

theorem read_verbatim {t : FieldType} (ht : t.verbatim = true) {x y : Json} (h : t.read x = some y) :
    y = x := by
  cases t with
  | text => cases x <;> simp_all [read]
  | literal values => cases x <;> simp_all [read]
  | optionalText limit =>
    obtain rfl := Option.isNone_iff_eq_none.mp ht
    cases x <;> simp_all [read, clip]
  | optionalNumber => exact absurd ht (by decide)
  | flag => exact absurd ht (by decide)

theorem default_verbatim {t : FieldType} (ht : t.verbatim = true) {y : Json} (h : t.default = some y) :
    y = .null := by
  cases t with
  | text => exact absurd h (by simp [default])
  | literal values => exact absurd h (by simp [default])
  | optionalText limit => exact (Option.some.inj h).symm
  | optionalNumber => exact absurd ht (by decide)
  | flag => exact absurd ht (by decide)

end FieldType

/-- The declared fields of a model, by their names on the wire. -/
abbrev Model := List (String × FieldType)

def readField (fields : Obj) (f : String × FieldType) : Option (String × Json) :=
  (match fields.get? f.1 with
    | none => f.2.default
    | some x => f.2.read x).map fun y => (f.1, y)

/-- `model_dump` of the validated fields: the declared ones, then the others. -/
def dumpModel (m : Model) (fields : Obj) : Option Obj :=
  (m.mapM (readField fields)).map fun declared =>
    declared ++ fields.filter fun e => e.1 ∉ m.map Prod.fst

theorem readField_fst {fields : Obj} {f : String × FieldType} {e : String × Json}
    (h : readField fields f = some e) : e.1 = f.1 := by
  obtain ⟨y, -, rfl⟩ := Option.map_eq_some_iff.mp h
  rfl

theorem distinct_readField {fields : Obj} {f : String × FieldType} {e : String × Json}
    (h : readField fields f = some e) : e.2.Distinct := by
  obtain ⟨y, hy, rfl⟩ := Option.map_eq_some_iff.mp h
  split at hy
  · exact FieldType.distinct_default hy
  · exact FieldType.distinct_read hy

/-- The declared part of a dump, field by field. -/
theorem forall₂_of_mapM {fields : Obj} {m : Model} {declared : Obj}
    (h : m.mapM (readField fields) = some declared) :
    List.Forall₂ (fun f e => readField fields f = some e) m declared := by
  induction m generalizing declared with
  | nil =>
    rw [List.mapM_nil] at h
    rw [← Option.some.inj h]
    exact .nil
  | cons f m ih =>
    rw [List.mapM_cons] at h
    obtain ⟨e, he, h⟩ := Option.bind_eq_some_iff.mp h
    obtain ⟨rest, hrest, h⟩ := Option.bind_eq_some_iff.mp h
    rw [← Option.some.inj h]
    exact .cons he (ih hrest)

theorem map_fst_declared {fields : Obj} {m : Model} {declared : Obj}
    (h : List.Forall₂ (fun f e => readField fields f = some e) m declared) :
    declared.map Prod.fst = m.map Prod.fst := by
  induction h with
  | nil => rfl
  | cons he _ ih => rw [List.map_cons, List.map_cons, ih, readField_fst he]

theorem distinct_declared {fields : Obj} {m : Model} {declared : Obj}
    (h : List.Forall₂ (fun f e => readField fields f = some e) m declared) :
    DistinctFields declared := by
  induction h with
  | nil => trivial
  | cons he _ ih => exact ⟨distinct_readField he, ih⟩

/-- The value of a declared field is what some declaration of it makes of the fields sent. -/
theorem get?_declared {fields : Obj} {m : Model} {declared : Obj}
    (h : List.Forall₂ (fun f e => readField fields f = some e) m declared) {k : String}
    (hk : k ∈ m.map Prod.fst) :
    ∃ t v, (k, t) ∈ m ∧ readField fields (k, t) = some (k, v) ∧ declared.get? k = some v := by
  induction h with
  | nil => exact absurd hk List.not_mem_nil
  | @cons f e m declared he _ ih =>
    obtain ⟨name, t⟩ := f
    obtain ⟨name', v⟩ := e
    have hname : name' = name := readField_fst he
    subst hname
    by_cases heq : k = name'
    · subst heq
      exact ⟨t, v, List.mem_cons_self, he, by rw [Obj.get?_cons, if_pos rfl]⟩
    · rw [List.map_cons, List.mem_cons] at hk
      obtain ⟨t', v', hmem, hread, hget⟩ := ih (hk.resolve_left heq)
      exact ⟨t', v', List.mem_cons_of_mem _ hmem, hread, by rw [Obj.get?_cons, if_neg heq, hget]⟩

theorem get?_others {m : Model} {fields : Obj} {k : String} (hk : k ∉ m.map Prod.fst) :
    Obj.get? (fields.filter fun e => e.1 ∉ m.map Prod.fst) k = fields.get? k := by
  induction fields with
  | nil => rfl
  | cons e fields ih =>
    obtain ⟨name, v⟩ := e
    rw [List.filter_cons, Obj.get?_cons]
    split_ifs with hkept heq heq
    · rw [Obj.get?_cons, if_pos heq]
    · rw [Obj.get?_cons, if_neg heq, ih]
    · subst heq
      exact absurd hk (by simpa using hkept)
    · exact ih

/-- **A field that is not declared, or declared as verbatim text, is kept.** -/
theorem get_dumpModel {m : Model} {fields o : Obj} (h : dumpModel m fields = some o) {k : String}
    (hk : ∀ t, (k, t) ∈ m → t.verbatim = true) : o.get k = fields.get k := by
  obtain ⟨declared, hdeclared, rfl⟩ := Option.map_eq_some_iff.mp h
  have hall := forall₂_of_mapM hdeclared
  by_cases hmem : k ∈ m.map Prod.fst
  · obtain ⟨t, v, ht, hread, hget⟩ := get?_declared hall hmem
    rw [Obj.get, Obj.get?, List.lookup_append]
    rw [Obj.get?] at hget
    rw [hget, Option.some_or, Option.getD_some]
    obtain ⟨y, hy, hv⟩ := Option.map_eq_some_iff.mp hread
    obtain rfl : y = v := congrArg Prod.snd hv
    rw [Obj.get]
    dsimp only at hy
    cases hf : fields.get? k with
    | none =>
      rw [hf] at hy
      exact FieldType.default_verbatim (hk t ht) hy
    | some x =>
      rw [hf] at hy
      exact FieldType.read_verbatim (hk t ht) hy
  · have hnone : List.lookup k declared = none := by
      rw [List.lookup_eq_none_iff]
      intro e he
      rw [bne_iff_ne]
      rintro rfl
      exact hmem (map_fst_declared hall ▸ List.mem_map_of_mem he)
    rw [Obj.get, Obj.get?, List.lookup_append, hnone, Option.none_or]
    exact congrArg (Option.getD · Json.null) (get?_others hmem)

theorem distinct_dumpModel {m : Model} (hm : (m.map Prod.fst).Nodup) {fields o : Obj}
    (hfields : fields.Distinct) (h : dumpModel m fields = some o) : o.Distinct := by
  obtain ⟨declared, hdeclared, rfl⟩ := Option.map_eq_some_iff.mp h
  have hall := forall₂_of_mapM hdeclared
  refine ⟨?_, distinctFields_iff.mpr fun e he => ?_⟩
  · rw [List.map_append, map_fst_declared hall]
    refine hm.append (hfields.1.sublist (List.filter_sublist.map _)) ?_
    intro k hk hother
    obtain ⟨e, he, rfl⟩ := List.mem_map.mp hother
    exact absurd hk (of_decide_eq_true (List.mem_filter.mp he).2)
  · rcases List.mem_append.mp he with he | he
    · exact distinctFields_iff.mp (distinct_declared hall) e he
    · exact distinctFields_iff.mp hfields.2 e (List.mem_of_mem_filter he)

/-! ## Callbacks -/

/-- `_EventBase` -/
def eventBase : Model :=
  [("app", .text), ("ts", .optionalNumber), ("synthetic", .flag), ("peer_ip", .optionalText none),
    ("client_ip", .optionalText none)]

/-- `OOB_CHANNELS` -/
def oobChannels : List String := ["dns", "http", "https", "smtp", "ldap"]

/-- `OobEvent` -/
def oobEvent : Model :=
  eventBase ++
    [("type", .literal ["oob"]), ("token", .text), ("channel", .literal oobChannels),
      ("source_ip", .optionalText none), ("raw", .optionalText (some 2048))]

/-- A callback as the schema accepts it. -/
def validateOob (fields : Obj) (h : fields.Distinct) : Option AnyEvent :=
  match hdump : dumpModel oobEvent fields with
  | none => none
  | some dump =>
    some
      { type := "oob"
        app := ((dump.get "app").asStr?).getD ""
        ts := (dump.get "ts").asNum?
        synthetic := (dump.get "synthetic").truthy
        ttl := none
        dump := dump
        distinct := distinct_dumpModel (by decide) h hdump }

/-- The schema of this deployment stores a callback with the fields it was sent with, up to those
it converts, fills in or clips. -/
def KeepsCallbacks (d : Deployment) : Prop :=
  ∀ (fields : Obj) event, d.validateEvent (.obj fields) = some event → fields.get "type" = .str "oob" →
    event.type = "oob" ∧
      ∀ k, k ∉ ["ts", "synthetic", "raw"] → event.dump.get k = fields.get k

theorem validateOob_keeps {fields : Obj} {h : fields.Distinct} {event : AnyEvent}
    (hevent : validateOob fields h = some event) :
    event.type = "oob" ∧ ∀ k, k ∉ ["ts", "synthetic", "raw"] → event.dump.get k = fields.get k := by
  unfold validateOob at hevent
  split at hevent
  · exact absurd hevent (by simp)
  · rename_i dump hdump
    rw [← Option.some.inj hevent]
    have hverbatim : ∀ f ∈ oobEvent, f.1 ∈ ["ts", "synthetic", "raw"] ∨ f.2.verbatim = true := by
      decide
    exact ⟨rfl, fun k hk => get_dumpModel hdump fun t ht => (hverbatim _ ht).resolve_left hk⟩

end PtaasBench.BenchCollector
