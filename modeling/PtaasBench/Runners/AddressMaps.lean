import PtaasBench.Runners.Orchestrate

/-!
# PtaasBench.Runners.AddressMaps — whose address is it, for the runner and for the scorer

`address_owner` is filled by `setdefault`, so the first app of the map that answers on an address
has it; `address_index` is filled by assignment, so the last one has it.  An address with two owners
is what `duplicate_addresses` lists for the operator.
-/

namespace PtaasBench.Runners

open Py Benchctl List

/-- `address_owner` -/
def addressOwner (topologies : Dict String AppTopology) : Dict String String :=
  topologies.items.foldl (fun owners e =>
    e.2.addresses.foldl (fun owners address => owners.setdefault address e.1) owners) Dict.empty

/-- `duplicate_addresses` -/
def duplicateAddresses (topologies : Dict String AppTopology) : Dict String (List String) :=
  (topologies.items.foldl (fun owners e =>
    e.2.addresses.foldl (fun owners address => owners.set address (owners.getD address [] ++ [e.1])) owners)
      Dict.empty).filter fun e => decide (1 < e.2.length)

/-- The apps that answer on an address, in the order of the map. -/
def answering (topologies : Dict String AppTopology) (address : String) : List String :=
  (topologies.items.filter fun e => decide (address ∈ e.2.addresses)).map Prod.fst

/-- The container id and the name by which the record knows an app: those of its first service. -/
def AppTopology.recordNames (t : AppTopology) : List String :=
  ((t.services.head?.bind (·.containerId)).toList ++ (t.services.head?.map (·.service)).toList).filter (· ≠ "")

/-- The apps that answer on an address, or go by it in the record. -/
def knownBy (topologies : Dict String AppTopology) (address : String) : List String :=
  (topologies.items.filter fun e => decide (address ∈ e.2.addresses ∨ address ∈ e.2.recordNames)).map Prod.fst

/-! ## The first and the last to write -/

theorem nodup_addresses (t : AppTopology) : t.addresses.Nodup := nodup_fromKeys _

theorem get?_addressOwner (topologies : Dict String AppTopology) (address : String) :
    (addressOwner topologies).get? address = (answering topologies address).head? := by
  have hpairs : addressOwner topologies = Dict.empty.addAll
      (topologies.items.flatMap fun e => e.2.addresses.map fun address => (address, e.1)) := by
    rw [addressOwner, Dict.addAll, foldl_flatMap]
    simp only [foldl_map]
  rw [hpairs, Dict.get?_addAll, answering]
  induction topologies.items with
  | nil => rfl
  | cons e es ih =>
    rw [flatMap_cons, List.find?_append]
    by_cases hmem : address ∈ e.2.addresses
    · obtain ⟨p, hp⟩ : ∃ p, (e.2.addresses.map fun address => (address, e.1)).find? (fun p => p.1 = address) = some p := by
        refine Option.isSome_iff_exists.mp (List.find?_isSome.mpr ⟨(address, e.1), ?_, by simp⟩)
        exact mem_map.mpr ⟨address, hmem, rfl⟩
      obtain ⟨a, -, rfl⟩ := mem_map.mp (mem_of_find?_eq_some hp)
      rw [hp, filter_cons_of_pos (by simpa using hmem)]
      rfl
    · have hnone : (e.2.addresses.map fun address => (address, e.1)).find? (fun p => p.1 = address) = none := by
        refine List.find?_eq_none.mpr fun p hp hpa => hmem ?_
        obtain ⟨a, ha, rfl⟩ := mem_map.mp hp
        rwa [← of_decide_eq_true hpa]
      rw [hnone, Option.none_or, ih, filter_cons_of_neg (by simpa using hmem)]

/-- One app's addresses, each given to it as one more owner. -/
theorem getD_owners (addresses : List String) (hn : addresses.Nodup) (app : String)
    (owners : Dict String (List String)) (address : String) :
    (addresses.foldl (fun owners a => owners.set a (owners.getD a [] ++ [app])) owners).getD address [] =
      owners.getD address [] ++ if address ∈ addresses then [app] else [] := by
  induction addresses generalizing owners with
  | nil => simp
  | cons a rest ih =>
    obtain ⟨hnotin, hrest⟩ := nodup_cons.mp hn
    rw [foldl_cons, ih hrest, Dict.getD_set]
    by_cases ha : address = a
    · subst ha
      rw [if_pos rfl, if_neg hnotin, if_pos mem_cons_self, append_nil]
    · rw [if_neg ha]
      simp only [mem_cons, ha, false_or]

/-- Every key the map of owners has was given to it with an owner. -/
theorem getD_allOwners (es : List (String × AppTopology)) (owners : Dict String (List String)) (address : String) :
    (es.foldl (fun owners e =>
      e.2.addresses.foldl (fun owners a => owners.set a (owners.getD a [] ++ [e.1])) owners) owners).getD address [] =
      owners.getD address [] ++ (es.filter fun e => decide (address ∈ e.2.addresses)).map Prod.fst := by
  induction es generalizing owners with
  | nil => simp
  | cons e es ih =>
    rw [foldl_cons, ih, getD_owners _ (nodup_addresses e.2)]
    by_cases hmem : address ∈ e.2.addresses
    · rw [if_pos hmem, filter_cons_of_pos (by simpa using hmem), append_assoc]
      rfl
    · rw [if_neg hmem, filter_cons_of_neg (by simpa using hmem), append_nil]

/-- An address is listed with the apps that answer on it, when there are two or more. -/
theorem get?_duplicateAddresses (topologies : Dict String AppTopology) (address : String) :
    (duplicateAddresses topologies).get? address =
      if 1 < (answering topologies address).length then some (answering topologies address) else none := by
  have hall := getD_allOwners topologies.items Dict.empty address
  rw [show (Dict.empty : Dict String (List String)).getD address [] = [] from rfl, nil_append] at hall
  rw [duplicateAddresses, Dict.get?_filter _ fun apps : List String => decide (1 < apps.length), answering,
    ← hall, Dict.getD]
  cases (topologies.items.foldl (fun owners e => e.2.addresses.foldl
      (fun owners a => owners.set a (owners.getD a [] ++ [e.1])) owners) Dict.empty).get? address with
  | none => rfl
  | some apps =>
    rw [Option.getD_some]
    split_ifs with hlen
    · exact Option.filter_some_pos (by simpa using hlen)
    · exact Option.filter_some_neg (by simpa using hlen)

/-! ## The record -/

section Index

variable [Runtime]

/-- The fields of an app in the record. -/
def AppTopology.fields (t : AppTopology) : Obj :=
  [("app", .str t.app), ("addresses", .arr (t.addresses.map .str)),
    ("services", .arr (t.services.map ServiceTopology.toDict)),
    ("state_digest_before", jsonText t.stateDigestBefore), ("state_digest_after", jsonText t.stateDigestAfter)]

theorem containersOf_buildRecord (o : Orchestrator) (resets : List ResetOutcome)
    (topologies : Dict String AppTopology) :
    (containersOf (o.buildRecord resets topologies)).items =
      topologies.items.map fun e => (e.1, containerOf e.2.fields) := by
  have hentries : (topologies.items.map fun e => (e.1, e.2.toDict)).filterMap
      (fun e => e.2.asObj?.map fun entry => (e.1, containerOf entry)) =
        topologies.items.map fun e => (e.1, containerOf e.2.fields) := by
    rw [filterMap_map]
    exact congrFun filterMap_eq_map _
  rw [containersOf, containerMap_buildRecord, hentries, Dict.items_ofList]
  rw [map_map]
  exact topologies.nodup

theorem asStr_str (text : String) : asStr (.str text) = if text = "" then none else some text := by
  by_cases h : text = ""
  · subst h
    rfl
  · rw [if_neg h]
    unfold asStr
    split
    · next heq => cases heq
    · next heq => exact absurd (Json.str.inj heq) h
    · rfl

theorem asStr_jsonText (text : Option String) : asStr (jsonText text) = text.filter (· ≠ "") := by
  cases text with
  | none => rfl
  | some text =>
    rw [jsonText, Option.elim_some, asStr_str]
    split_ifs with h
    · rw [h]
      rfl
    · exact (Option.filter_some_pos (by simpa using h)).symm

/-- The names the index takes from a container. -/
def indexNames (c : Container) : List String :=
  c.addresses ++ (c.containerId.toList ++ c.service.toList).filter (· ≠ "")

theorem mem_serviceAddresses {s : ServiceTopology} {fields : Obj} (h : s.toDict.asObj? = some fields) {a : String} :
    a ∈ serviceAddresses fields ↔ a ≠ "" ∧ a ∈ s.addresses.items.map Prod.snd := by
  obtain rfl := Option.some.inj h
  have hlist : serviceAddresses [("service", .str s.service), ("container_id", jsonText s.containerId),
      ("container_name", jsonText s.containerName), ("image", jsonText s.image), ("image_id", jsonText s.imageId),
      ("image_digest", jsonText s.imageDigest),
      ("addresses", .arr ((sortedDict s.addresses).items.map fun a =>
        .obj [("network", .str a.1), ("ip", .str a.2)])),
      ("started_at", jsonText s.startedAt)] =
        ((sortedDict s.addresses).items.map Prod.snd).filter (· ≠ "") := by
    show List.filterMap _ (List.map _ _) = _
    rw [filterMap_map, ← filterMap_eq_filter, filterMap_map]
    refine filterMap_congr fun e _ => ?_
    show (if ((Json.str e.2).orElse .null).truthy then some ((Json.str e.2).orElse .null).pyStr else none) =
      Option.guard (fun ip : String => decide (ip ≠ "")) e.2
    by_cases he : e.2 = ""
    · rw [he]
      rfl
    · have htruthy : (Json.str e.2).truthy = true := decide_eq_true he
      rw [Json.orElse, if_pos htruthy, if_pos htruthy, Option.guard, if_pos (decide_eq_true he)]
      rfl
  rw [hlist, mem_filter, decide_eq_true_eq, and_comm]
  exact and_congr_right fun _ => ((perm_insertionSort _ _).map Prod.snd).mem_iff

omit [Runtime] in
theorem mem_addresses {t : AppTopology} {a : String} :
    a ∈ t.addresses ↔ a ≠ "" ∧ ∃ s ∈ t.services, a ∈ s.addresses.items.map Prod.snd := by
  rw [AppTopology.addresses, mem_fromKeys, mem_filter, mem_flatMap, and_comm, decide_eq_true_eq]

/-- The record knows an app by its addresses, and by the id and the name of its first service. -/
theorem mem_indexNames {t : AppTopology} {a : String} :
    a ∈ indexNames (containerOf t.fields) ↔ a ∈ t.addresses ∨ a ∈ t.recordNames := by
  have haddresses : a ∈ (containerOf t.fields).addresses ↔ a ∈ t.addresses := by
    have hservices : (t.services.map ServiceTopology.toDict).filterMap Json.asObj? =
        t.services.filterMap fun s => s.toDict.asObj? := by rw [filterMap_map]; rfl
    have hown : iterate ((Json.arr (t.addresses.map .str)).orElse (t.fields.get "ips")) = t.addresses.map .str := by
      cases t.addresses with
      | nil => rfl
      | cons b bs => rfl
    have hflat : (containerOf t.fields).addresses = fromKeys ((t.addresses.map Json.str).map Json.pyStr ++
        (t.services.filterMap fun s => s.toDict.asObj?).flatMap serviceAddresses) := by
      rw [← hown, ← hservices]
      rfl
    rw [hflat, mem_fromKeys, mem_append, mem_flatMap]
    refine or_iff_left_of_imp ?_ |>.trans ?_
    · rintro ⟨fields, hfields, ha⟩
      obtain ⟨s, hs, hsf⟩ := mem_filterMap.mp hfields
      obtain ⟨hne, hmem⟩ := (mem_serviceAddresses hsf).mp ha
      rw [map_map]
      exact mem_map.mpr ⟨a, mem_addresses.mpr ⟨hne, s, hs, hmem⟩, rfl⟩
    · rw [map_map]
      exact Iff.of_eq (congrArg (a ∈ ·) (map_id t.addresses))
  have hfirst : (containerOf t.fields).containerId = (t.services.head?.bind (·.containerId)).filter (· ≠ "") ∧
      (containerOf t.fields).service = (t.services.head?.map (·.service)).filter (· ≠ "") := by
    have hread (key : String) : ((t.services.map ServiceTopology.toDict).filterMap Json.asObj?).head?.bind
        (fun s => asStr (s.get key)) = t.services.head?.bind fun s => (s.toDict.asObj?).bind fun fields =>
          asStr (fields.get key) := by
      cases t.services <;> rfl
    constructor
    · refine (hread "container_id").trans ?_
      cases t.services with
      | nil => rfl
      | cons s rest => exact asStr_jsonText s.containerId
    · refine (hread "service").trans ?_
      cases t.services with
      | nil => rfl
      | cons s rest => exact asStr_jsonText (some s.service)
  rw [indexNames, mem_append, haddresses, hfirst.1, hfirst.2, AppTopology.recordNames]
  refine or_congr_right ?_
  have hfilter (o : Option String) : (o.filter (· ≠ "")).toList = o.toList.filter (· ≠ "") := by
    cases o with
    | none => rfl
    | some text => by_cases h : text = "" <;> simp [h]
  rw [hfilter, hfilter, ← filter_append, filter_filter]
  simp only [Bool.and_self]

omit [Runtime] in
/-- The names of one app, each set to it. -/
theorem get?_foldl_set (names : List String) (app : String) (index : Dict String String) (a : String) :
    (names.foldl (fun index name => index.set name app) index).get? a =
      if a ∈ names then some app else index.get? a := by
  induction names generalizing index with
  | nil => simp
  | cons name rest ih =>
    rw [foldl_cons, ih, Dict.get?_set]
    by_cases hname : a = name
    · rw [if_pos hname, if_pos (mem_cons.mpr (Or.inl hname)), ite_id]
    · rw [if_neg hname]
      simp only [mem_cons, hname, false_or]

omit [Runtime] in
/-- The last app to have a name has it in the index. -/
theorem get?_addressIndex (containers : Dict String Container) (a : String)
    (h : ∃ e ∈ containers.items, a ∈ indexNames e.2) :
    (addressIndex containers).get? a =
      (containers.items.filter fun e => decide (a ∈ indexNames e.2)).getLast?.map Prod.fst := by
  have hrun : ∀ es : List (String × Container), (∃ e ∈ es, a ∈ indexNames e.2) →
      (es.foldl (fun index e => ((indexNames e.2).foldl (fun index name => index.set name e.1) index).setdefault
        e.1 e.1) Dict.empty).get? a = (es.filter fun e => decide (a ∈ indexNames e.2)).getLast?.map Prod.fst := by
    intro es
    induction es using List.reverseRecOn with
    | nil =>
      rintro ⟨e, he, -⟩
      exact absurd he not_mem_nil
    | append_singleton es e ih =>
      rintro ⟨e', he', hname'⟩
      rw [foldl_append, filter_append]
      by_cases hname : a ∈ indexNames e.2
      · rw [filter_cons_of_pos (by simpa using hname), filter_nil, List.getLast?_append,
          List.getLast?_singleton, Option.some_or]
        refine Dict.get?_setdefault_of_some ?_
        rw [get?_foldl_set, if_pos hname]
      · have hes : ∃ e ∈ es, a ∈ indexNames e.2 := by
          refine ⟨e', (mem_append.mp he').resolve_right fun h => ?_, hname'⟩
          rw [mem_singleton.mp h] at hname'
          exact hname hname'
        obtain ⟨last, hlast⟩ : ∃ last, (es.filter fun e => decide (a ∈ indexNames e.2)).getLast? = some last := by
          obtain ⟨e, he, hea⟩ := hes
          have hmem : e ∈ es.filter fun e => decide (a ∈ indexNames e.2) :=
            mem_filter.mpr ⟨he, decide_eq_true hea⟩
          exact ⟨_, List.getLast?_eq_some_getLast (ne_nil_of_mem hmem)⟩
        rw [filter_cons_of_neg (by simpa using hname), filter_nil, append_nil, hlast]
        refine Dict.get?_setdefault_of_some ?_
        rw [get?_foldl_set, if_neg hname, ih hes, hlast]
        rfl
  exact hrun containers.items h

/-- The last app that the record knows by an address has it in the index. -/
theorem addressIndex_buildRecord (o : Orchestrator) (resets : List ResetOutcome) (topologies : Dict String AppTopology)
    {address : String} (h : knownBy topologies address ≠ []) :
    (addressIndex (normalizeRunRecord (o.buildRecord resets topologies)).containers).get? address =
      (knownBy topologies address).getLast? := by
  have hitems : (normalizeRunRecord (o.buildRecord resets topologies)).containers.items =
      topologies.items.map fun e => (e.1, containerOf e.2.fields) := containersOf_buildRecord o resets topologies
  have hfilter : ((normalizeRunRecord (o.buildRecord resets topologies)).containers.items.filter fun e =>
      decide (address ∈ indexNames e.2)).map Prod.fst = knownBy topologies address := by
    rw [hitems, filter_map, map_map, knownBy]
    refine congrArg (List.map Prod.fst) (filter_congr fun e _ => ?_)
    exact decide_eq_decide.mpr mem_indexNames
  rw [get?_addressIndex, ← List.getLast?_map, hfilter]
  rw [← hfilter] at h
  obtain ⟨e, he⟩ := exists_mem_of_ne_nil _ fun hnil => h (congrArg (List.map Prod.fst) hnil)
  exact ⟨e, (mem_filter.mp he).1, of_decide_eq_true (mem_filter.mp he).2⟩

/-! ## When they say the same -/

omit [Runtime] in
theorem knownBy_eq_answering {topologies : Dict String AppTopology} {address : String}
    (h : ∀ e ∈ topologies.items, address ∈ e.2.recordNames → address ∈ e.2.addresses) :
    knownBy topologies address = answering topologies address := by
  rw [knownBy, answering]
  refine congrArg (List.map Prod.fst) (filter_congr fun e he => ?_)
  exact decide_eq_decide.mpr (or_iff_left_of_imp (h e he))

omit [Runtime] in
theorem answering_sublist (topologies : Dict String AppTopology) (address : String) :
    (answering topologies address).Sublist (knownBy topologies address) :=
  (monotone_filter_right topologies.items fun _ h =>
    decide_eq_true (Or.inl (of_decide_eq_true h))).map Prod.fst

omit [Runtime] in
theorem nodup_answering (topologies : Dict String AppTopology) (address : String) :
    (answering topologies address).Nodup :=
  topologies.nodup.sublist (filter_sublist.map _)

omit [Runtime] in
theorem head?_ne_getLast? {α : Type*} {l : List α} (hn : l.Nodup) (hl : 1 < l.length) : l.head? ≠ l.getLast? := by
  rcases l with _ | ⟨a, _ | ⟨b, rest⟩⟩
  · exact absurd hl (Nat.not_lt_zero 1)
  · exact absurd hl (Nat.lt_irrefl 1)
  · intro h
    have hlast : (b :: rest).getLast (cons_ne_nil b rest) = a :=
      (Option.some.inj (h.trans (List.getLast?_eq_some_getLast (cons_ne_nil a _)))).symm
    exact (nodup_cons.mp hn).1 (hlast ▸ getLast_mem (cons_ne_nil b rest))

/-- The runner has an address from the first app that answers on it, the scorer from the last one the
record knows by it: they agree on the addresses that are not listed as duplicates and are not the
name of another app, and on a listed one they name its first and its last owner, who differ. -/
theorem attribution_of_record (o : Orchestrator) (resets : List ResetOutcome) (topologies : Dict String AppTopology)
    (address : String) (apps : List String) :
    let index := addressIndex (normalizeRunRecord (o.buildRecord resets topologies)).containers
    let owners := addressOwner topologies
    (answering topologies address ≠ [] → owners.get? address = (answering topologies address).head? ∧
      index.get? address = (knownBy topologies address).getLast?) ∧
    ((∀ e ∈ topologies.items, address ∈ e.2.recordNames → address ∈ e.2.addresses) →
      (answering topologies address ≠ [] → (duplicateAddresses topologies).get? address = none →
        index.get? address = owners.get? address) ∧
      ((duplicateAddresses topologies).get? address = some apps →
        owners.get? address = apps.head? ∧ index.get? address = apps.getLast? ∧
          owners.get? address ≠ index.get? address)) := by
  intro index owners
  have howner : owners.get? address = (answering topologies address).head? := get?_addressOwner topologies address
  have hindex (h : answering topologies address ≠ []) :
      index.get? address = (knownBy topologies address).getLast? := by
    refine addressIndex_buildRecord o resets topologies fun hnil => h ?_
    exact sublist_nil.mp (hnil ▸ answering_sublist topologies address)
  refine ⟨fun h => ⟨howner, hindex h⟩, fun hnames => ⟨fun h hdup => ?_, fun hdup => ?_⟩⟩
  · rw [get?_duplicateAddresses] at hdup
    split_ifs at hdup with hlen
    rw [howner, hindex h, knownBy_eq_answering hnames]
    obtain ⟨app, happ⟩ : ∃ app, answering topologies address = [app] := by
      refine length_eq_one_iff.mp ?_
      have := length_pos_iff.mpr h
      omega
    rw [happ]
    rfl
  · rw [get?_duplicateAddresses] at hdup
    split_ifs at hdup with hlen
    obtain rfl := Option.some.inj hdup
    have hne : answering topologies address ≠ [] := length_pos_iff.mp (by omega)
    have hlast := hindex hne
    rw [knownBy_eq_answering hnames] at hlast
    refine ⟨howner, hlast, ?_⟩
    rw [howner, hlast]
    exact head?_ne_getLast? (nodup_answering topologies address) hlen

end Index

/-- Two apps on one address. -/
def sidecar : Dict String AppTopology :=
  let topology (app : String) : AppTopology :=
    { app := app, services := [{ service := app, addresses := Dict.ofList [("bench-internal", "10.77.0.7")] }] }
  Dict.ofList (["edge", "blog"].map fun app => (app, topology app))

/-- The runner says the one, the scorer the other. -/
theorem sidecar_attribution :
    let _ := Runtime.ascii
    let record := Orchestrator.buildRecord { apps := [] } [] sidecar
    (addressOwner sidecar).get? "10.77.0.7" = some "edge" ∧
      (addressIndex (normalizeRunRecord record).containers).get? "10.77.0.7" = some "blog" ∧
      (duplicateAddresses sidecar).get? "10.77.0.7" = some ["edge", "blog"] := by
  decide

end PtaasBench.Runners
