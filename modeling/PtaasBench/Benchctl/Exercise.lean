import PtaasBench.Benchctl.Scoring

/-!
# PtaasBench.Benchctl.Exercise — what a described parameter says of the value that was sent

An agent describes a value by its first characters, its length and, mostly, its hash.  With the hash, or with a
value short enough to be in the sample whole, `_param_is_exercised` compares the value itself; else it compares the
start of the value with the whole default.
-/

namespace PtaasBench.Benchctl

open Py

/-- A digest taken to be free of collisions. -/
class HashRuntime extends Runtime where
  sha256_injective : ∀ s t : String, sha256 s = sha256 t → s = t
  sha256_ne_empty : ∀ s : String, sha256 s ≠ ""

/-- `SAMPLE_MAX` -/
def SAMPLE_MAX : ℕ := 256

section Contract

variable [Runtime]

/-- A parameter as `describe_param` writes it: the hash may be left out, and hexadecimal digits may be in
capitals. -/
structure Describes (p : Param) (value : String) : Prop where
  sample : p.sample = some (String.ofList (value.toList.take SAMPLE_MAX))
  valueLen : p.valueLen = some (value.toList.length : ℤ)
  hash : given p.valueSha256 = true → lower (p.valueSha256.getD "") = sha256Of value

/-- A parameter with the value it was made from. -/
structure Described where
  param : Param
  value : String
  describes : Describes param value

/-- The parameter has the declared name and location. -/
def Declared (v : Vuln) (p : Param) : Prop :=
  lower p.name = lower (v.entrypoint.param.getD "") ∧ paramInMatches v.entrypoint.paramIn p.location = true

/-- A value of the tool's own: not the default, and without a default not empty. -/
def OwnValue (v : Vuln) (value : String) : Prop :=
  match v.entrypoint.defaultValue with
  | none => value ≠ ""
  | some default => value ≠ default

/-- A value of the tool's own was sent in the declared parameter. -/
def OwnValueSent (v : Vuln) (sent : List Described) : Prop :=
  ∃ d ∈ sent, Declared v d.param ∧ OwnValue v d.value

/-- The default itself, without a hash and too long for the sample. -/
def CutDefault (default : String) (d : Described) : Prop :=
  given d.param.valueSha256 = false ∧ d.value = default ∧ SAMPLE_MAX < default.toList.length

/-- Another value, without a hash, whose sample is the default. -/
def CutToDefault (default : String) (d : Described) : Prop :=
  given d.param.valueSha256 = false ∧ d.value ≠ default ∧ d.value.toList.take SAMPLE_MAX = default.toList

/-- What the samples leave open is settled by another parameter of the declared name and location: the default is
not sent cut short alone, nor a value that is cut to the default. -/
structure Conclusive (v : Vuln) (default : String) (sent : List Described) : Prop where
  cutDefault : ∀ d ∈ sent, Declared v d.param → CutDefault default d →
    ∃ d' ∈ sent, Declared v d'.param ∧ d'.value ≠ default
  cutToDefault : ∀ d ∈ sent, Declared v d.param → CutToDefault default d →
    ∃ d' ∈ sent, Declared v d'.param ∧ d'.value ≠ default ∧ ¬ CutToDefault default d'

end Contract

/-! ## One parameter -/

section OneParam

variable [HashRuntime]

omit [HashRuntime] in
theorem sample_of_short {value : String} (h : value.toList.length ≤ SAMPLE_MAX) :
    String.ofList (value.toList.take SAMPLE_MAX) = value := by
  rw [List.take_of_length_le h, String.ofList_toList]

omit [HashRuntime] in
theorem length_sample (value : String) :
    ((String.ofList (value.toList.take SAMPLE_MAX)).toList.length : ℤ) = min SAMPLE_MAX value.toList.length := by
  rw [String.toList_ofList, List.length_take, Nat.cast_min]

/-- The hash of a described value, but for a long one that came without. -/
theorem hash_of_describes {p : Param} {value : String} (h : Describes p value) :
    p.hash = if given p.valueSha256 = true ∨ value.toList.length ≤ SAMPLE_MAX then some (sha256Of value)
      else none := by
  rw [Param.hash]
  by_cases hgiven : given p.valueSha256 = true
  · have hne : sha256Of value ≠ "" := HashRuntime.sha256_ne_empty value
    rw [h.hash hgiven, if_pos hne, if_pos (Or.inl hgiven)]
  · have hempty : p.valueSha256.getD "" = "" := by
      cases hsha : p.valueSha256 with
      | none => rfl
      | some sha =>
        rw [hsha] at hgiven
        simpa [given] using hgiven
    have hlower : lower (p.valueSha256.getD "") = "" := by
      rw [hempty, Runtime.lower_ascii _ (by decide)]
      rfl
    rw [hlower, if_neg (fun hne => hne rfl), h.sample, h.valueLen]
    dsimp only
    by_cases hshort : value.toList.length ≤ SAMPLE_MAX
    · rw [sample_of_short hshort, if_pos rfl, if_pos (Or.inr hshort)]
    · rw [if_neg, if_neg (not_or.mpr ⟨hgiven, hshort⟩)]
      rw [Option.some_inj, length_sample]
      omega

theorem given_sample_iff {p : Param} {value : String} (h : Describes p value) :
    given p.sample = true ↔ value ≠ "" := by
  rw [h.sample, given, decide_eq_true_eq, not_iff_not]
  constructor
  · intro hnil
    have hlength := length_sample value
    rw [hnil] at hlength
    have : value.toList.length = 0 := by
      rw [SAMPLE_MAX] at hlength
      simp at hlength
      omega
    exact String.toList_eq_nil_iff.mp (List.length_eq_zero_iff.mp this)
  · rintro rfl
    rfl

theorem exercises_of_no_default {v : Vuln} (hdefault : v.entrypoint.defaultValue = none) (d : Described) :
    paramExercises v d.param = true ↔ Declared v d.param ∧ d.value ≠ "" := by
  have hvalue : (d.param.valueLen.any (0 < ·) || d.param.hash.any (· ≠ sha256Of "") || given d.param.sample) = true ↔
      d.value ≠ "" := by
    rw [Bool.or_eq_true, given_sample_iff d.describes, or_iff_right_of_imp]
    rw [Bool.or_eq_true]
    rintro (hlen | hhash) hempty
    · rw [d.describes.valueLen, hempty] at hlen
      simp at hlen
    · rw [hash_of_describes d.describes, hempty] at hhash
      split_ifs at hhash <;> simp at hhash
  rw [paramExercises, hdefault, Declared, Bool.and_eq_true, Bool.and_eq_true, decide_eq_true_eq]
  exact and_congr_right fun _ => hvalue

theorem exercises_of_default {v : Vuln} {default : String} (hdefault : v.entrypoint.defaultValue = some default)
    (d : Described) :
    paramExercises v d.param = true ↔
      Declared v d.param ∧ ((d.value ≠ default ∧ ¬ CutToDefault default d) ∨ CutDefault default d) := by
  rw [paramExercises, hdefault, Declared, Bool.and_eq_true, Bool.and_eq_true, decide_eq_true_eq]
  refine and_congr_right fun _ => ?_
  dsimp only
  rw [hash_of_describes d.describes]
  by_cases hknown : given d.param.valueSha256 = true ∨ d.value.toList.length ≤ SAMPLE_MAX
  · -- the value itself is compared
    have hcut : ¬ CutToDefault default d := by
      rintro ⟨hgiven, hne, htake⟩
      rcases hknown with hknown | hshort
      · rw [hgiven] at hknown
        cases hknown
      · rw [List.take_of_length_le hshort] at htake
        exact hne (String.toList_injective htake)
    have hdefault : ¬ CutDefault default d := by
      rintro ⟨hgiven, hvalue, hlong⟩
      rcases hknown with hknown | hshort
      · rw [hgiven] at hknown
        cases hknown
      · rw [hvalue] at hshort
        omega
    rw [if_pos hknown]
    simp only [decide_eq_true_eq, hcut, hdefault, not_false_eq_true, and_true, or_false]
    exact not_congr ⟨fun h => HashRuntime.sha256_injective _ _ h, fun h => congrArg sha256Of h⟩
  · -- only the sample is
    rw [if_neg hknown, d.describes.sample, Option.any_some]
    rw [not_or, Bool.not_eq_true] at hknown
    obtain ⟨hgiven, hlong⟩ := hknown
    have hsample : String.ofList (d.value.toList.take SAMPLE_MAX) = default ↔
        d.value.toList.take SAMPLE_MAX = default.toList := by
      rw [← String.toList_inj, String.toList_ofList]
    rw [decide_eq_true_eq, ne_eq, hsample, CutToDefault, CutDefault]
    by_cases hvalue : d.value = default
    · have htake : d.value.toList.take SAMPLE_MAX ≠ default.toList := by
        intro htake
        have := congrArg List.length htake
        rw [List.length_take, hvalue] at this
        rw [hvalue] at hlong
        omega
      refine iff_of_true htake (Or.inr ⟨hgiven, hvalue, ?_⟩)
      rw [hvalue] at hlong
      omega
    · simp [hvalue, hgiven]

end OneParam

/-! ## The request -/

section Request

variable [HashRuntime]

omit [HashRuntime] in
theorem paramIsExercised_iff [Runtime] (v : Vuln) (ev : HttpRequestEvent) :
    (paramIsExercised v ev).1 = true ↔ ∃ p ∈ ev.params, paramExercises v p = true := by
  rw [paramIsExercised]
  cases hfind : ev.params.find? (paramExercises v) with
  | none =>
    rw [List.find?_eq_none] at hfind
    refine iff_of_false Bool.false_ne_true ?_
    rintro ⟨p, hp, h⟩
    exact hfind p hp h
  | some p => exact iff_of_true rfl ⟨p, List.mem_of_find?_eq_some hfind, List.find?_some hfind⟩

/-- For a request whose parameters are described as the agents do, the check is exact just if no sample leaves the
comparison with the default open. -/
theorem paramIsExercised_exact_iff (v : Vuln) (ev : HttpRequestEvent) (sent : List Described) :
    ((paramIsExercised v { ev with params := sent.map Described.param }).1 = true ↔ OwnValueSent v sent) ↔
      ∀ default, v.entrypoint.defaultValue = some default → Conclusive v default sent := by
  have hmap : ∀ P : Param → Prop, (∃ p ∈ sent.map Described.param, P p) ↔ ∃ d ∈ sent, P d.param := by
    intro P
    simp
  rw [paramIsExercised_iff, hmap, OwnValueSent]
  simp only [OwnValue]
  cases hdefault : v.entrypoint.defaultValue with
  | none =>
    refine iff_of_true ?_ fun default h => nomatch h
    simp only [exercises_of_no_default hdefault]
  | some default =>
    simp only [exercises_of_default hdefault, Option.some_inj, forall_eq']
    constructor
    · intro hexact
      refine ⟨fun d hd hdeclared hcut => ?_, fun d hd hdeclared hcut => ?_⟩
      · exact hexact.mp ⟨d, hd, hdeclared, Or.inr hcut⟩
      · obtain ⟨d', hd', hdeclared', hvalue | hcut'⟩ := hexact.mpr ⟨d, hd, hdeclared, hcut.2.1⟩
        · exact ⟨d', hd', hdeclared', hvalue⟩
        · -- a default of 256 characters is not longer than the sample
          have hlength := congrArg List.length hcut.2.2
          rw [List.length_take] at hlength
          have := hcut'.2.2
          omega
    · intro h
      constructor
      · rintro ⟨d, hd, hdeclared, hvalue | hcut⟩
        · exact ⟨d, hd, hdeclared, hvalue.1⟩
        · exact h.cutDefault d hd hdeclared hcut
      · rintro ⟨d, hd, hdeclared, hvalue⟩
        by_cases hcut : CutToDefault default d
        · obtain ⟨d', hd', hdeclared', hvalue'⟩ := h.cutToDefault d hd hdeclared hcut
          exact ⟨d', hd', hdeclared', Or.inl hvalue'⟩
        · exact ⟨d, hd, hdeclared, Or.inl ⟨hvalue, hcut⟩⟩

end Request

/-- A runtime for ASCII text whose digest tells any two texts apart. -/
@[reducible] def HashRuntime.ascii : HashRuntime where
  toRuntime := { Runtime.ascii with sha256 := fun s => "#" ++ s }
  sha256_injective s t h := by
    have h' : "#" ++ s = "#" ++ t := h
    have hlist := congrArg String.toList h'
    rw [String.toList_append, String.toList_append] at hlist
    exact String.toList_injective (List.append_cancel_left hlist)
  sha256_ne_empty s h := by
    have h' : "#" ++ s = "" := h
    have hlist := congrArg String.toList h'
    rw [String.toList_append] at hlist
    cases hlist

namespace LongDefault

/-- As many letters. -/
def letters (n : ℕ) : String := String.ofList (List.replicate n 'a')

theorem toList_letters (n : ℕ) : (letters n).toList = List.replicate n 'a' := String.toList_ofList

def vuln (default : String) : Vuln where
  id := "BENCH-SHOP-0001"
  app := "shopfront"
  entrypoint := { method := "GET", path := "/api/products", param := some "q", defaultValue := some default }
  oracle := { kind := "trigger" }

def request : HttpRequestEvent where
  type := "http_request"
  app := some "shopfront"
  route := "/api/products"

/-- A value described without its hash. -/
def described [Runtime] (value : String) : Described where
  param :=
    { name := "q"
      location := "query"
      valueLen := some value.toList.length
      sample := some (String.ofList (value.toList.take SAMPLE_MAX)) }
  value := value
  describes := ⟨rfl, rfl, fun h => nomatch h⟩

/-- A default of 257 characters sent as it is counts as another value, and a value of 257 characters counts as the
default of 256 it starts with. -/
theorem long_values_misread :
    let _ := HashRuntime.ascii
    ((paramIsExercised (vuln (letters 257)) { request with params := [(described (letters 257)).param] }).1 = true ∧
      ¬ OwnValueSent (vuln (letters 257)) [described (letters 257)]) ∧
    ((paramIsExercised (vuln (letters 256)) { request with params := [(described (letters 257)).param] }).1 = false ∧
      OwnValueSent (vuln (letters 256)) [described (letters 257)]) := by
  intro rt
  have hdeclared : ∀ default value, Declared (vuln default) (described value).param :=
    fun default value => ⟨rfl, if_pos rfl⟩
  have hne : letters 257 ≠ letters 256 := by
    intro h
    have hlength := congrArg List.length (congrArg String.toList h)
    rw [toList_letters, toList_letters, List.length_replicate, List.length_replicate] at hlength
    omega
  refine ⟨⟨?_, ?_⟩, ?_, ?_⟩
  · refine (paramIsExercised_iff _ _).mpr ⟨_, List.mem_singleton_self _, ?_⟩
    refine (exercises_of_default rfl _).mpr ⟨hdeclared _ _, Or.inr ⟨rfl, rfl, ?_⟩⟩
    show SAMPLE_MAX < (letters 257).toList.length
    rw [toList_letters, List.length_replicate]
    decide
  · rintro ⟨d, hd, -, hvalue⟩
    rw [List.mem_singleton.mp hd] at hvalue
    exact hvalue rfl
  · rw [Bool.eq_false_iff, ne_eq, paramIsExercised_iff]
    rintro ⟨p, hp, hexercises⟩
    obtain rfl := List.mem_singleton.mp hp
    rcases ((exercises_of_default rfl _).mp hexercises).2 with ⟨-, hcut⟩ | ⟨-, hvalue, -⟩
    · refine hcut ⟨rfl, hne, ?_⟩
      show (letters 257).toList.take SAMPLE_MAX = (letters 256).toList
      rw [toList_letters, toList_letters, List.take_replicate]
      rfl
    · exact hne hvalue
  · exact ⟨_, List.mem_singleton_self _, hdeclared _ _, hne⟩

end LongDefault

end PtaasBench.Benchctl
