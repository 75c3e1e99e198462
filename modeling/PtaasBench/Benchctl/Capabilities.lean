import PtaasBench.Benchctl.Breakdown

/-!
# PtaasBench.Benchctl.Capabilities — the breakdown by required capability

A vulnerability is put in the bucket of every capability it lists, once for each time it lists it, and
nothing in the schema keeps a list from naming a capability twice.
-/

namespace PtaasBench.Benchctl

open Py List

/-- The `enum` that `schema.json` has for the items of `discovery.requires`. -/
def capabilities : List String :=
  ["js-execution", "form-submit", "multi-step-flow", "file-upload", "custom-header", "openapi-spec",
    "graphql-introspection", "sitemap", "robots", "wordlist", "state-change", "websocket", "http2"]

/-- A setting whose catalog the schema admits. -/
structure SchemaSetting extends Setting where
  known : ∀ v ∈ catalog.vulns, ∀ k ∈ v.discovery.requires, k ∈ capabilities

/-- The vulnerabilities whose `requires` list has the capability. -/
def requiring (vulns : List Vuln) (k : String) : List Vuln :=
  vulns.filter fun v => k ∈ v.discovery.requires

/-- The published figures of two buckets are the same. -/
def SameFigures (m m' : Metric) : Prop :=
  m.vulns = m'.vulns ∧ ∀ a, (m.axis a).hit = (m'.axis a).hit ∧ (m.axis a).applicable = (m'.axis a).applicable

/-- The bucket of a capability has the figures of the set of vulnerabilities that list it. -/
def CountsOnce (vulns : List Vuln) (outcomes : Dict String Outcome) (breakdown : List (String × Metric)) : Prop :=
  ∀ b ∈ breakdown, b.1 ∈ capabilities → SameFigures b.2 (metric (requiring vulns b.1) outcomes)

/-! ## What a bucket holds -/

section Buckets

variable (vulns : List Vuln) (keys : Vuln → List String)

theorem mem_buckets {b : String × List Vuln} :
    b ∈ buckets vulns keys ↔ (∃ v ∈ vulns, b.1 ∈ keys v) ∧
      b.2 = vulns.flatMap fun v => List.replicate ((keys v).count b.1) v := by
  have hbucket : ∀ k, (((vulns.flatMap fun v => (keys v).map fun k => (k, v)).filter (·.1 = k)).map Prod.snd) =
      vulns.flatMap fun v => List.replicate ((keys v).count k) v := by
    intro k
    rw [filter_flatMap, map_flatMap]
    refine flatMap_congr fun v _ => ?_
    rw [filter_map, map_map, count_eq_countP, countP_eq_length_filter]
    exact map_const'
  unfold buckets
  dsimp only
  rw [mem_map]
  constructor
  · rintro ⟨k, hk, rfl⟩
    obtain ⟨p, hp, rfl⟩ := mem_map.mp (Catalog.mem_sortedSet.mp hk)
    obtain ⟨v, hv, hpv⟩ := mem_flatMap.mp hp
    obtain ⟨k, hkey, rfl⟩ := mem_map.mp hpv
    exact ⟨⟨v, hv, hkey⟩, hbucket k⟩
  · rintro ⟨⟨v, hv, hk⟩, hb⟩
    refine ⟨b.1, Catalog.mem_sortedSet.mpr (mem_map.mpr ⟨(b.1, v), ?_, rfl⟩), ?_⟩
    · exact mem_flatMap.mpr ⟨v, hv, mem_map.mpr ⟨b.1, hk, rfl⟩⟩
    · rw [hbucket, ← hb]

/-- A bucket is the class of its key if every list names the key once at most. -/
theorem flatMap_replicate_of_nodup {k : String} (h : ∀ v ∈ vulns, (keys v).count k ≤ 1) :
    (vulns.flatMap fun v => List.replicate ((keys v).count k) v) = vulns.filter fun v => k ∈ keys v := by
  induction vulns with
  | nil => rfl
  | cons v vulns ih =>
    have hone := h v mem_cons_self
    rw [flatMap_cons, ih fun w hw => h w (mem_cons_of_mem _ hw)]
    by_cases hk : k ∈ keys v
    · have hcount : (keys v).count k = 1 := by
        have hpos := count_pos_iff.mpr hk
        omega
      rw [hcount, filter_cons_of_pos (by simpa using hk)]
      rfl
    · rw [count_eq_zero.mpr hk, filter_cons_of_neg (by simpa using hk)]
      rfl

/-- A bucket has at least the class of its key, and is longer if a list names the key twice. -/
theorem length_flatMap_replicate (k : String) :
    (vulns.filter fun v => k ∈ keys v).length ≤
        (vulns.flatMap fun v => List.replicate ((keys v).count k) v).length ∧
      ((∃ v ∈ vulns, 1 < (keys v).count k) →
        (vulns.filter fun v => k ∈ keys v).length <
          (vulns.flatMap fun v => List.replicate ((keys v).count k) v).length) := by
  induction vulns with
  | nil => simp
  | cons v vulns ih =>
    have hfilter : ((v :: vulns).filter fun v => k ∈ keys v).length =
        (vulns.filter fun v => k ∈ keys v).length + (if k ∈ keys v then 1 else 0) := by
      rw [filter_cons]
      by_cases hk : k ∈ keys v
      · simp [hk]
      · simp [hk]
    have hcount : (if k ∈ keys v then 1 else 0) ≤ (keys v).count k := by
      by_cases hk : k ∈ keys v
      · rw [if_pos hk]
        exact count_pos_iff.mpr hk
      · rw [if_neg hk]
        exact Nat.zero_le _
    have hone : (if k ∈ keys v then 1 else 0) ≤ 1 := by
      split_ifs <;> omega
    rw [hfilter, flatMap_cons, length_append, length_replicate]
    refine ⟨by omega, ?_⟩
    rintro ⟨w, hw, htwice⟩
    rcases mem_cons.mp hw with rfl | hw
    · omega
    · have hrest := ih.2 ⟨w, hw, htwice⟩
      omega

end Buckets

/-! ## The breakdown of a score -/

section Score

theorem mem_groupMulti {vulns : List Vuln} {outcomes : Dict String Outcome} {b : String × Metric}
    (hb : b.1 ∈ capabilities) :
    b ∈ groupMulti vulns outcomes (·.discovery.requires) ↔
      (∃ v ∈ vulns, b.1 ∈ v.discovery.requires) ∧
        b.2 = metric (vulns.flatMap fun v => List.replicate (v.discovery.requires.count b.1) v) outcomes := by
  have hnone : b.1 ≠ "none" := by
    intro hnone
    rw [hnone] at hb
    exact absurd hb (by decide)
  -- the bucket of the lists that are empty is not one of a capability
  have hmem : ∀ v : Vuln, (b.1 ∈ if v.discovery.requires = [] then ["none"] else v.discovery.requires) ↔
      b.1 ∈ v.discovery.requires := by
    intro v
    split_ifs with hempty
    · simp [hempty, hnone]
    · rfl
  have hcount : ∀ v : Vuln,
      (if v.discovery.requires = [] then ["none"] else v.discovery.requires).count b.1 =
        v.discovery.requires.count b.1 := by
    intro v
    split_ifs with hempty
    · rw [hempty, count_nil, count_eq_zero]
      simpa using hnone
    · rfl
  rw [groupMulti, mem_map]
  constructor
  · rintro ⟨bucket, hbucket, rfl⟩
    obtain ⟨⟨v, hv, hk⟩, heq⟩ := (mem_buckets _ _).mp hbucket
    refine ⟨⟨v, hv, (hmem v).mp hk⟩, ?_⟩
    simp only [hcount] at heq
    rw [heq]
  · rintro ⟨⟨v, hv, hk⟩, heq⟩
    refine ⟨(b.1, vulns.flatMap fun v => List.replicate (v.discovery.requires.count b.1) v), ?_, ?_⟩
    · refine (mem_buckets _ _).mpr ⟨⟨v, hv, (hmem v).mpr hk⟩, ?_⟩
      simp only [hcount]
    · rw [← heq]

variable [Runtime]

/-- The breakdown counts every vulnerability once just if no list in scope names a capability twice. -/
theorem byRequires_countsOnce_iff (s : SchemaSetting) (stream : EventStream) :
    CountsOnce (scoreRun s.toSetting stream).inScope (scoreRun s.toSetting stream).outcomes
        (scoreRun s.toSetting stream).metrics.byRequires ↔
      ∀ v ∈ (scoreRun s.toSetting stream).inScope, v.discovery.requires.Nodup := by
  have hknown : ∀ v ∈ (scoreRun s.toSetting stream).inScope, ∀ k ∈ v.discovery.requires, k ∈ capabilities :=
    fun v hv => s.known v (mem_filter.mp hv).1
  have hbreakdown : (scoreRun s.toSetting stream).metrics.byRequires =
      groupMulti (scoreRun s.toSetting stream).inScope (scoreRun s.toSetting stream).outcomes
        (·.discovery.requires) := rfl
  rw [hbreakdown]
  generalize (scoreRun s.toSetting stream).inScope = vulns at hknown ⊢
  generalize (scoreRun s.toSetting stream).outcomes = outcomes
  constructor
  · intro h v hv
    rw [nodup_iff_count_le_one]
    intro k
    by_contra htwice
    have hk : k ∈ v.discovery.requires := count_pos_iff.mp (by omega)
    have hcap := hknown v hv k hk
    have hlonger := (length_flatMap_replicate vulns (·.discovery.requires) k).2 ⟨v, hv, by omega⟩
    have hbucket : (k, metric (vulns.flatMap fun v => List.replicate (v.discovery.requires.count k) v)
        outcomes) ∈ groupMulti vulns outcomes (·.discovery.requires) :=
      (mem_groupMulti hcap).mpr ⟨⟨v, hv, hk⟩, rfl⟩
    have hsame := (h _ hbucket hcap).1
    exact absurd hsame hlonger.ne'
  · intro h b hb hcap
    obtain ⟨-, heq⟩ := (mem_groupMulti hcap).mp hb
    have hclass := flatMap_replicate_of_nodup vulns (·.discovery.requires) (k := b.1) fun v hv =>
      nodup_iff_count_le_one.mp (h v hv) b.1
    rw [heq, hclass]
    exact ⟨rfl, fun a => ⟨rfl, rfl⟩⟩

end Score

/-! ## A capability listed twice -/

/-- The importer again, behind a form of several steps that its author listed twice. -/
def Shop.steppedVuln : Vuln :=
  { Shop.fetchVuln with discovery := { requires := ["form-submit", "multi-step-flow", "form-submit"] } }

def Shop.steppedSetting : SchemaSetting where
  catalog := { vulns := [Shop.steppedVuln, Shop.retryVuln], ids_nodup := by decide }
  apps := ["shopfront"]
  known := by decide

theorem Shop.form_submit_counted_twice :
    let _ := Runtime.ascii
    ¬ CountsOnce (scoreRun Shop.steppedSetting.toSetting []).inScope
        (scoreRun Shop.steppedSetting.toSetting []).outcomes
        (scoreRun Shop.steppedSetting.toSetting []).metrics.byRequires := by
  intro rt h
  have hbucket : ∃ b ∈ (scoreRun Shop.steppedSetting.toSetting []).metrics.byRequires,
      b.1 = "form-submit" ∧ b.2.vulns = 2 :=
    ⟨_, mem_cons_self, rfl, rfl⟩
  obtain ⟨b, hb, hname, hvulns⟩ := hbucket
  have hsame := (h b hb (by rw [hname]; decide)).1
  rw [hvulns, hname] at hsame
  exact absurd hsame (by decide)

end PtaasBench.Benchctl
