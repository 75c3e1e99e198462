import PtaasBench.Benchctl.Catalog
import PtaasBench.Lib.FirstPath

/-!
# PtaasBench.Benchctl.PrereqCycles — which prerequisite cycles are reported (`catalog._find_cycles`)

A depth-first search over `requires_prereq`, with a colour for each id and the ids on the way as its stack; a grey
id among the prerequisites closes a cycle, and the stack from that id on is reported.  The search comes to every id
along its first path, so what it reports is what the first paths close.
-/

namespace PtaasBench.Benchctl

open Py List
open Lib (OrderedGraph)

inductive Colour
  | white
  | grey
  | black
deriving DecidableEq

structure Search where
  colour : Dict String Colour
  bad : List String := []

/-- One prerequisite in the loop of `visit`. -/
def meet (visit : String → List String → Search → Search) (stack : List String) (s : Search) (nxt : String) :
    Search :=
  match s.colour.get? nxt with
  | none => s
  | some .grey => { s with bad := s.bad ++ stack.drop (stack.idxOf nxt) }
  | some .white => visit nxt stack s
  | some .black => s

/-- `visit` -/
def visit (graph : Dict String (List String)) : ℕ → String → List String → Search → Search
  | 0, _, _, s => s
  | fuel + 1, node, stack, s =>
    let s := (graph.getD node []).foldl (meet (visit graph fuel) (stack ++ [node]))
      { s with colour := s.colour.set node .grey }
    { s with colour := s.colour.set node .black }

/-- One id of the outer loop. -/
def start (graph : Dict String (List String)) (s : Search) (node : String) : Search :=
  if s.colour.get? node = some .white then visit graph graph.keys.length node [] s else s

/-- `_find_cycles` -/
def findCycles (graph : Dict String (List String)) : List String :=
  Catalog.sortedSet (graph.keys.foldl (start graph) { colour := graph.mapValues fun _ => .white }).bad

/-- `{v.id: v.requires_prereq for v in vulns}` -/
def prereqs (c : Catalog) : Dict String (List String) := Dict.ofList (c.vulns.map fun v => (v.id, v.requiresPrereq))

/-- The ids of the `prereq-cycle` issues. -/
def cycleIds (c : Catalog) : List String := findCycles (prereqs c)

/-! ## The search and the first paths -/

section Walk

variable (graph : Dict String (List String))

/-- The ids in catalog order, each with its prerequisites in theirs. -/
def ordered : OrderedGraph String where
  roots := graph.keys
  next id := graph.getD id []

/-- The search stands at the end of `p`, with `done` of its prerequisites behind it. -/
structure Stands (s : Search) (p done : List String) : Prop where
  unknown : ∀ v, s.colour.get? v = none ↔ v ∉ graph.keys
  grey : ∀ v, s.colour.get? v = some .grey ↔ v ∈ p
  black : ∀ v, s.colour.get? v = some .black ↔ v ∉ p ∧ (ordered graph).Reached p done v

variable {graph} {s : Search} {p done rest : List String} {y : String}

theorem Stands.congr {done' : List String} (h : Stands graph s p done)
    (hreached : ∀ v, v ∉ p → ((ordered graph).Reached p done' v ↔ (ordered graph).Reached p done v)) :
    Stands graph s p done' :=
  ⟨h.unknown, h.grey, fun v => (h.black v).trans (and_congr_right fun hv => (hreached v hv).symm)⟩

/-- What a step may add to the report. -/
def Adds (graph : Dict String (List String)) (s s' : Search) (p done : List String) (y : String) : Prop :=
  ∀ bad : List String, (∀ v, v ∈ s.bad ↔ v ∈ bad ∨ (ordered graph).Found p done v) →
    ∀ v, v ∈ s'.bad ↔ v ∈ bad ∨ (ordered graph).Found p (done ++ [y]) v

theorem adds_of_iff {s' : Search} (h : ∀ v, v ∈ s'.bad ↔ v ∈ s.bad ∨ ((y ∈ p ∧ v ∈ p.drop (p.idxOf y)) ∨
    ∃ q, (ordered graph).First q ∧ p ++ [y] <+: q ∧ (ordered graph).Closes q v)) : Adds graph s s' p done y := by
  intro bad hbad v
  rw [h v, hbad v, OrderedGraph.found_concat, or_assoc]

/-- The prerequisites of a node, gone through from any point on. -/
theorem stands_foldl {f : Search → String → Search}
    (hstep : ∀ s done y rest, (ordered graph).choices p = done ++ y :: rest → Stands graph s p done →
      Stands graph (f s y) p (done ++ [y]) ∧ Adds graph s (f s y) p done y)
    {bad : List String} (todo : List String) (hchoices : (ordered graph).choices p = done ++ todo)
    (hs : Stands graph s p done) (hbad : ∀ v, v ∈ s.bad ↔ v ∈ bad ∨ (ordered graph).Found p done v) :
    Stands graph (todo.foldl f s) p (done ++ todo) ∧
      ∀ v, v ∈ (todo.foldl f s).bad ↔ v ∈ bad ∨ (ordered graph).Found p (done ++ todo) v := by
  induction todo generalizing s done with
  | nil =>
    rw [append_nil]
    exact ⟨hs, hbad⟩
  | cons y rest ih =>
    obtain ⟨hnext, hadds⟩ := hstep s done y rest hchoices hs
    have := ih (by rw [hchoices, append_assoc, singleton_append]) hnext (hadds bad hbad)
    rwa [append_assoc, singleton_append] at this

/-- A visit, as it is used by the loops. -/
def VisitSpec (graph : Dict String (List String)) (visit : String → List String → Search → Search)
    (p : List String) : Prop :=
  ∀ s done y rest, (ordered graph).choices p = done ++ y :: rest → y ∉ done → y ∈ graph.keys → y ∉ p →
    ¬ (ordered graph).Reached p done y → Stands graph s p done →
    Stands graph (visit y p s) p (done ++ [y]) ∧
      ∀ v, v ∈ (visit y p s).bad ↔ v ∈ s.bad ∨
        ∃ q, (ordered graph).First q ∧ p ++ [y] <+: q ∧ (ordered graph).Closes q v

theorem meet_step {visit : String → List String → Search → Search} (hvisit : VisitSpec graph visit p)
    (hp : (ordered graph).Chain p) (hchoices : (ordered graph).choices p = done ++ y :: rest)
    (hs : Stands graph s p done) :
    Stands graph (meet visit p s y) p (done ++ [y]) ∧ Adds graph s (meet visit p s y) p done y := by
  have hchoice : y ∈ (ordered graph).choices p := by
    rw [hchoices]
    simp
  -- where no chain goes on through `y`, nothing changes but what a grey `y` reports
  have hstuck : (∀ q, (ordered graph).Chain q → ¬ p ++ [y] <+: q) →
      Stands graph s p (done ++ [y]) ∧ ∀ s' : Search,
        (∀ v, v ∈ s'.bad ↔ v ∈ s.bad ∨ (y ∈ p ∧ v ∈ p.drop (p.idxOf y))) → Adds graph s s' p done y := by
    intro hnone
    refine ⟨hs.congr fun v _ => OrderedGraph.reached_concat.trans (or_iff_left ?_), fun s' hbad => adds_of_iff ?_⟩
    · rintro ⟨q, hq, -, hpq⟩
      exact hnone q hq hpq
    · intro v
      rw [hbad v]
      refine or_congr_right (or_iff_left ?_).symm
      rintro ⟨q, hq, hpq, -⟩
      exact hnone q hq.chain hpq
  rw [meet]
  cases hcolour : s.colour.get? y with
  | none =>
    have hkey := (hs.unknown y).mp hcolour
    obtain ⟨hstands, hadds⟩ := hstuck fun q hq hpq => hkey (OrderedGraph.chain_through hq hpq).2.1
    exact ⟨hstands, hadds s fun v => (or_iff_left fun h => hkey (hp.subset y h.1)).symm⟩
  | some colour =>
    have hkey : y ∈ graph.keys := by
      by_contra hkey
      rw [(hs.unknown y).mpr hkey] at hcolour
      cases hcolour
    cases colour with
    | grey =>
      have hmem := (hs.grey y).mp hcolour
      obtain ⟨hstands, hadds⟩ := hstuck fun q hq hpq => (OrderedGraph.chain_through hq hpq).2.2 hmem
      refine ⟨⟨hstands.unknown, hstands.grey, hstands.black⟩, hadds _ fun v => ?_⟩
      show v ∈ s.bad ++ p.drop (p.idxOf y) ↔ _
      rw [mem_append, and_iff_right hmem]
    | black =>
      obtain ⟨hne, hreached⟩ := (hs.black y).mp hcolour
      refine ⟨hs.congr fun v _ => OrderedGraph.reached_concat.trans (or_iff_left_of_imp ?_), ?_⟩
      · rintro ⟨q, hq, hlast, hpq⟩
        exact OrderedGraph.reached_along hq hreached hpq hlast
      · intro bad hbad v
        rw [hbad v]
        refine or_congr_right ?_
        rw [OrderedGraph.found_concat]
        refine (or_iff_left_of_imp ?_).symm
        rintro (⟨hmem, -⟩ | ⟨q, hq, hpq, hcloses⟩)
        · exact absurd hmem hne
        · by_cases hdone : y ∈ done
          · exact ⟨y, hdone, Or.inr ⟨q, hq, hpq, hcloses⟩⟩
          · exact absurd hq (OrderedGraph.not_first_of_reached hchoices hdone hreached hpq)
    | white =>
      have hne : y ∉ p := by
        intro hmem
        rw [(hs.grey y).mpr hmem] at hcolour
        cases hcolour
      have hreached : ¬ (ordered graph).Reached p done y := by
        intro hreached
        rw [(hs.black y).mpr ⟨hne, hreached⟩] at hcolour
        cases hcolour
      have hdone : y ∉ done := fun hdone =>
        hreached (OrderedGraph.reached_of_mem hp hchoice hkey hne hdone)
      obtain ⟨hstands, hbad⟩ := hvisit s done y rest hchoices hdone hkey hne hreached hs
      refine ⟨hstands, adds_of_iff fun v => ?_⟩
      rw [hbad v, or_iff_right (a := y ∈ p ∧ _) fun h => hne h.1]

/-- A visit does what the loops ask of it, if its fuel covers the ids that are not on the stack. -/
theorem visit_spec (fuel : ℕ) (hp : (ordered graph).Chain p) (hfuel : graph.keys.length ≤ fuel + p.length) :
    VisitSpec graph (visit graph fuel) p := by
  induction fuel generalizing p with
  | zero =>
    intro s done y rest hchoices hdone hkey hne hreached hs
    have hchain : (ordered graph).Chain (p ++ [y]) := .snoc hp (by rw [hchoices]; simp) hkey hne
    have hlength := (hchain.nodup.subperm hchain.subset).length_le
    rw [length_append, length_singleton] at hlength
    have : (ordered graph).roots.length = graph.keys.length := rfl
    omega
  | succ fuel ih =>
    intro s done y rest hchoices hdone hkey hne hreached hs
    have hchain : (ordered graph).Chain (p ++ [y]) := .snoc hp (by rw [hchoices]; simp) hkey hne
    have hfirst := OrderedGraph.first_of_not_reached hchoices hdone hchain hreached
    have hnexts : (ordered graph).choices (p ++ [y]) = graph.getD y [] := by
      rw [OrderedGraph.choices, List.getLast?_concat]
      rfl
    have hahead : ∀ v, (ordered graph).Reached (p ++ [y]) [] v ↔ (ordered graph).Reached p done v := by
      intro v
      rw [OrderedGraph.reached_nil_iff]
      simp only [OrderedGraph.before_concat_iff hchoices hdone, OrderedGraph.Reached]
    -- the node is grey now
    have hgrey : Stands graph { s with colour := s.colour.set y .grey } (p ++ [y]) [] := by
      refine ⟨fun v => ?_, fun v => ?_, fun v => ?_⟩
      · rw [Dict.get?_set]
        split_ifs with hv
        · simp [hv, hkey]
        · exact hs.unknown v
      · rw [Dict.get?_set, mem_append, mem_singleton]
        split_ifs with hv
        · simp [hv]
        · rw [hs.grey v, or_iff_left hv]
      · rw [Dict.get?_set, mem_append, mem_singleton, hahead]
        split_ifs with hv
        · simp [hv]
        · rw [hs.black v, or_iff_left hv]
    have hrec : VisitSpec graph (visit graph fuel) (p ++ [y]) := by
      refine ih hchain ?_
      rw [length_append, length_singleton]
      omega
    have hbefore : ∀ v, v ∈ s.bad ↔ v ∈ s.bad ∨ (ordered graph).Found (p ++ [y]) [] v := by
      simp [OrderedGraph.Found]
    obtain ⟨hstands, hbad⟩ := stands_foldl (f := meet (visit graph fuel) (p ++ [y]))
      (fun s done y rest hchoices hs => meet_step hrec hchain hchoices hs) (graph.getD y [])
      (by rw [nil_append, hnexts]) hgrey hbefore
    rw [nil_append, ← hnexts] at hstands hbad
    rw [visit, ← hnexts]
    dsimp only
    refine ⟨⟨fun v => ?_, fun v => ?_, fun v => ?_⟩, fun v => ?_⟩
    · rw [Dict.get?_set]
      split_ifs with hv
      · simp [hv, hkey]
      · exact hstands.unknown v
    · rw [Dict.get?_set]
      split_ifs with hv
      · simp [hv, hne]
      · rw [hstands.grey v, mem_append, mem_singleton, or_iff_left hv]
    · rw [Dict.get?_set, ← OrderedGraph.reached_close hchoices hdone hchain]
      split_ifs with hv
      · simp [hv, hne]
      · rw [hstands.black v, mem_append, mem_singleton, or_iff_left hv, or_iff_left hv]
    · rw [hbad v, OrderedGraph.found_close hfirst]

/-- No id is grey between two visits of the outer loop. -/
theorem start_eq_meet (hs : Stands graph s [] done) : start graph s y = meet (visit graph graph.keys.length) [] s y := by
  rw [start, meet]
  cases hcolour : s.colour.get? y with
  | none => exact if_neg (by simp)
  | some colour =>
    cases colour with
    | white => exact if_pos rfl
    | grey => exact absurd ((hs.grey y).mp hcolour) not_mem_nil
    | black => exact if_neg (by simp)

theorem mem_findCycles_iff {v : String} :
    v ∈ findCycles graph ↔ ∃ p, (ordered graph).First p ∧ (ordered graph).Closes p v := by
  rw [findCycles, Catalog.mem_sortedSet]
  set s₀ : Search := { colour := graph.mapValues fun _ => .white } with hs₀
  have hwhite : ∀ v, s₀.colour.get? v = none ∨ s₀.colour.get? v = some .white := by
    intro v
    rw [hs₀, Dict.get?_mapValues]
    cases graph.get? v with
    | none => exact Or.inl rfl
    | some ids => exact Or.inr rfl
  have hstands : Stands graph s₀ [] [] := by
    refine ⟨fun v => ?_, fun v => ?_, fun v => ?_⟩
    · rw [hs₀, Dict.get?_mapValues, Option.map_eq_none_iff, Dict.get?_eq_none_iff]
    · refine iff_of_false (fun h => ?_) not_mem_nil
      rcases hwhite v with h' | h' <;> rw [h'] at h <;> cases h
    · refine iff_of_false (fun h => ?_) ?_
      · rcases hwhite v with h' | h' <;> rw [h'] at h <;> cases h
      · rintro ⟨-, hreached⟩
        obtain ⟨q, -, -, c, a, z, -, hz, -⟩ := OrderedGraph.reached_nil_iff.mp hreached
        simp at hz
  have hspec : VisitSpec graph (visit graph graph.keys.length) [] := visit_spec _ .nil (Nat.le_add_right _ _)
  have hbefore : ∀ v, v ∈ s₀.bad ↔ v ∈ s₀.bad ∨ (ordered graph).Found [] [] v := by
    simp [OrderedGraph.Found]
  have hstep : ∀ s done y rest, (ordered graph).choices [] = done ++ y :: rest → Stands graph s [] done →
      Stands graph (start graph s y) [] (done ++ [y]) ∧ Adds graph s (start graph s y) [] done y := by
    intro s done y rest hchoices hs
    rw [start_eq_meet hs]
    exact meet_step hspec .nil hchoices hs
  obtain ⟨-, hbad⟩ := stands_foldl hstep graph.keys rfl hstands hbefore
  rw [hbad v, nil_append]
  exact (or_iff_right not_mem_nil).trans OrderedGraph.found_roots

end Walk

/-! ## Cycles of a catalog -/

section Cycles

/-- The entry with the first id lists the second among its prerequisites. -/
def Requires (c : Catalog) (x y : String) : Prop := ∃ v ∈ c.vulns, v.id = x ∧ y ∈ v.requiresPrereq

/-- The id lies on a cycle of prerequisites. -/
def OnCycle (c : Catalog) (id : String) : Prop := Relation.TransGen (Requires c) id id

theorem mem_getD_prereqs {c : Catalog} {x y : String} : y ∈ (prereqs c).getD x [] ↔ Requires c x y := by
  have hnodup : ((c.vulns.map fun v => (v.id, v.requiresPrereq)).map Prod.fst).Nodup := by
    rw [map_map]
    exact c.ids_nodup
  rw [Dict.getD]
  constructor
  · intro h
    cases hids : (prereqs c).get? x with
    | none =>
      rw [hids] at h
      exact absurd h not_mem_nil
    | some ids =>
      rw [hids] at h
      obtain ⟨v, hv, heq⟩ := mem_map.mp (Dict.mem_of_get?_ofList hids)
      obtain ⟨hid, rfl⟩ := Prod.mk.inj heq
      exact ⟨v, hv, hid, h⟩
  · rintro ⟨v, hv, rfl, hy⟩
    have hmem : (v.id, v.requiresPrereq) ∈ c.vulns.map fun v => (v.id, v.requiresPrereq) :=
      mem_map_of_mem hv
    rw [prereqs, Dict.get?_ofList_of_mem hnodup hmem]
    exact hy

theorem mem_cycleIds_iff {c : Catalog} {id : String} :
    id ∈ cycleIds c ↔ ∃ p, (ordered (prereqs c)).First p ∧ (ordered (prereqs c)).Closes p id :=
  mem_findCycles_iff

/-- Whatever is reported lies on a cycle. -/
theorem onCycle_of_mem_cycleIds {c : Catalog} {id : String} (h : id ∈ cycleIds c) : OnCycle c id := by
  obtain ⟨p, hp, hcloses⟩ := mem_cycleIds_iff.mp h
  exact Relation.TransGen.mono (p := Requires c) (fun x y => mem_getD_prereqs.mp) id id (hcloses.cycle hp.chain)

/-- The reported ids are those on cycles just if every id on a cycle stands on the first path to some id, at or
behind a prerequisite of that id. -/
theorem cycleIds_exact_iff (c : Catalog) :
    (∀ id, id ∈ cycleIds c ↔ OnCycle c id) ↔
      ∀ id, OnCycle c id → ∃ p, (ordered (prereqs c)).First p ∧ (ordered (prereqs c)).Closes p id := by
  constructor
  · exact fun h id hid => mem_cycleIds_iff.mp ((h id).mpr hid)
  · exact fun h id => ⟨onCycle_of_mem_cycleIds, fun hid => mem_cycleIds_iff.mpr (h id hid)⟩

end Cycles

namespace ThreeIds

def vuln (id : String) (requiresPrereq : List String) : Vuln where
  id := id
  app := "shopfront"
  entrypoint := { method := "GET", path := "/" }
  oracle := { kind := "trigger" }
  requiresPrereq := requiresPrereq

/-- Two cycles through the first two ids, the second one by way of the third. -/
def catalog : Catalog where
  vulns := [vuln "BENCH-SHOP-0001" ["BENCH-SHOP-0002", "BENCH-SHOP-0003"],
    vuln "BENCH-SHOP-0002" ["BENCH-SHOP-0001"], vuln "BENCH-SHOP-0003" ["BENCH-SHOP-0002"]]
  ids_nodup := by decide

/-- The third id is reached when the second is black already. -/
theorem third_id_not_reported : OnCycle catalog "BENCH-SHOP-0003" ∧ "BENCH-SHOP-0003" ∉ cycleIds catalog := by
  have h12 : Requires catalog "BENCH-SHOP-0001" "BENCH-SHOP-0003" := ⟨_, mem_cons_self, rfl, by decide⟩
  have h21 : Requires catalog "BENCH-SHOP-0002" "BENCH-SHOP-0001" :=
    ⟨_, mem_cons_of_mem _ mem_cons_self, rfl, by decide⟩
  have h32 : Requires catalog "BENCH-SHOP-0003" "BENCH-SHOP-0002" :=
    ⟨_, mem_cons_of_mem _ (mem_cons_of_mem _ mem_cons_self), rfl, by decide⟩
  exact ⟨(Relation.TransGen.single h32).tail h21 |>.tail h12, by decide⟩

end ThreeIds

end PtaasBench.Benchctl
