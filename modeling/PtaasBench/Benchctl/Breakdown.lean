import PtaasBench.Benchctl.Joins
import PtaasBench.Lib.Partition

/-!
# PtaasBench.Benchctl.Breakdown — the single-key groupings of a score add up

A grouping by one key puts every vulnerability in one bucket, under the name the source gives a
missing key if it has none; so the counts of its buckets add up to those over the whole scope.
-/

namespace PtaasBench.Benchctl

open Py List

/-- The name of the bucket a key stands for. -/
def bucketName (key : Vuln → Option String) (v : Vuln) : String := (key v).getD "unspecified"

/-- What the buckets of a breakdown add up to. -/
structure Partitions (overall : Metric) (breakdown : List (String × Metric)) : Prop where
  names : (breakdown.map Prod.fst).Nodup
  vulns : (breakdown.map (·.2.vulns)).sum = overall.vulns
  hit : ∀ a, (breakdown.map fun b => (b.2.axis a).hit).sum = (overall.axis a).hit
  applicable : ∀ a, (breakdown.map fun b => (b.2.axis a).applicable).sum = (overall.axis a).applicable

/-! ## One grouping -/

section Group

variable (vulns : List Vuln) (key : Vuln → Option String)

theorem pairs_singleKey (l : List Vuln) (k : String) :
    (((l.flatMap fun v => [(bucketName key v, v)]).filter (·.1 = k)).map Prod.snd) =
      Lib.withKey (bucketName key) l k := by
  rw [Lib.withKey, ← map_eq_flatMap, filter_map, map_map]
  exact map_id _

/-- The buckets of a grouping by one key are the classes of that key. -/
theorem buckets_singleKey :
    (buckets vulns fun v => [bucketName key v]) =
      (Catalog.sortedSet (vulns.map (bucketName key))).map fun k =>
        (k, Lib.withKey (bucketName key) vulns k) := by
  have hkeys : (vulns.flatMap fun v => [(bucketName key v, v)]).map Prod.fst =
      vulns.map (bucketName key) := by
    rw [← map_eq_flatMap, map_map]
    rfl
  unfold buckets
  dsimp only
  simp only [map_cons, map_nil, hkeys]
  refine map_congr_left fun k _ => ?_
  rw [pairs_singleKey]

theorem nodup_sortedSet (xs : List String) : (Catalog.sortedSet xs).Nodup :=
  (perm_insertionSort (· ≤ ·) _).nodup_iff.mpr (nodup_dedup xs)

/-- No vulnerability is lost from the buckets of a grouping, or in two of them. -/
theorem perm_buckets_singleKey :
    ((buckets vulns fun v => [bucketName key v]).flatMap Prod.snd).Perm vulns := by
  rw [buckets_singleKey, flatMap_map]
  refine Lib.perm_flatMap_withKey _ (nodup_sortedSet _) fun v hv => ?_
  exact Catalog.mem_sortedSet.mpr (mem_map_of_mem hv)

theorem sum_countP_buckets (p : Vuln → Bool) :
    ((buckets vulns fun v => [bucketName key v]).map fun b => b.2.countP p).sum =
      vulns.countP p := by
  rw [← (perm_buckets_singleKey vulns key).countP_eq, countP_flatMap]
  rfl

theorem partitions_group (outcomes : Dict String Outcome) :
    Partitions (metric vulns outcomes) (group vulns outcomes key) := by
  have hgroup : group vulns outcomes key =
      (buckets vulns fun v => [bucketName key v]).map fun b => (b.1, metric b.2 outcomes) := rfl
  refine ⟨?_, ?_, fun a => ?_, fun a => ?_⟩
  · rw [hgroup, map_map, buckets_singleKey, map_map]
    exact (map_id _).symm ▸ nodup_sortedSet _
  · rw [hgroup, map_map]
    have hall := sum_countP_buckets vulns key fun _ => true
    simp only [countP_true] at hall
    exact hall
  · rw [hgroup, map_map]
    exact sum_countP_buckets vulns key _
  · rw [hgroup, map_map]
    exact sum_countP_buckets vulns key _

end Group

/-! ## The groupings of a score -/

/-- The breakdowns of a score by one key, the OWASP editions and the chain depths included. -/
def Score.singleKeyBreakdowns (r : Score) : List (List (String × Metric)) :=
  [r.metrics.byApp, r.metrics.byFamily, r.metrics.byClass, r.metrics.bySeverity,
    r.metrics.byRender, r.metrics.byDifficulty, r.metrics.byAuth, r.metrics.byComponent,
    r.metrics.byOracleKind, r.chains.byDepth] ++
    r.metrics.byOwasp.map Prod.snd

/-- Every breakdown of a score by one key partitions what it scored. -/
theorem scoreRun_partitions [Runtime] (s : Setting) (stream : EventStream) :
    ∀ breakdown ∈ (scoreRun s stream).singleKeyBreakdowns,
      Partitions (scoreRun s stream).metrics.overall breakdown := by
  intro breakdown hb
  rcases mem_append.mp hb with hb | hb
  · simp only [mem_cons, not_mem_nil, or_false] at hb
    rcases hb with rfl | rfl | rfl | rfl | rfl | rfl | rfl | rfl | rfl | rfl <;>
      exact partitions_group _ _ _
  · simp only [scoreRun, metricsOf, map_map, mem_map] at hb
    obtain ⟨edition, -, rfl⟩ := hb
    exact partitions_group _ _ _

theorem shop_partitions :
    let _ := Runtime.ascii
    Partitions (scoreRun Shop.setting []).metrics.overall (scoreRun Shop.setting []).metrics.byFamily := by
  intro rt
  refine scoreRun_partitions Shop.setting [] _ (mem_append_left _ ?_)
  exact mem_cons_of_mem _ mem_cons_self

end PtaasBench.Benchctl
