import PtaasBench.BenchCollector.Schemas
import PtaasBench.Benchctl.HostForm
import PtaasBench.Benchctl.Scoring
import PtaasBench.EdgeResolver.Correlation

/-!
# PtaasBench.EdgeResolver.Hosts — the three readers of a registered host

A hint is looked for by host in the collector (`pending`), in the resolver's index (`hosts_match`) and in the scorer's
join over the event stream (`_signal_for_host`).  They share the relation and differ in how they read a name: the
resolver also drops leading dots, brackets and a port, and the scorer reads again what the schema has read.

A host that is taken as it stands is matched alike with every name that is read alike.  Any other host is split off by
such a name, and any other name by such a host: both are found behind a label of colons, which no reader shortens and
which is too long to be a part of what is compared with it.
-/

namespace PtaasBench.EdgeResolver

open Py BenchCollector Benchctl List

/-! ## The relation they share -/

/-- `hosts_match` on the characters. -/
def Related (a b : List Char) : Prop := a ≠ [] ∧ b ≠ [] ∧ (a = b ∨ '.' :: b <:+ a ∨ '.' :: a <:+ b)

theorem endsWith_dot_iff {a b : String} : endsWith a ("." ++ b) = true ↔ '.' :: b.toList <:+ a.toList := by
  rw [endsWith, isSuffixOf_iff_suffix, String.toList_append]
  rfl

theorem hostsMatch_iff {a b : String} : hostsMatch a b = true ↔ Related a.toList b.toList := by
  rw [hostsMatch, Related, ← endsWith_dot_iff, ← endsWith_dot_iff, String.toList_inj, Ne, Ne, String.toList_eq_nil_iff,
    String.toList_eq_nil_iff]
  by_cases ha : a = ""
  · simp [ha]
  · by_cases hb : b = ""
    · simp [hb]
    · simp [ha, hb, or_assoc]

theorem Related.symm {a b : List Char} (h : Related a b) : Related b a := ⟨h.2.1, h.1, h.2.2.imp Eq.symm Or.symm⟩

/-- Related names end alike. -/
theorem Related.getLast? {a b : List Char} (h : Related a b) : a.getLast? = b.getLast? := by
  have hlast : ∀ {x y : List Char}, y ≠ [] → '.' :: y <:+ x → x.getLast? = y.getLast? := by
    rintro x y hy ⟨t, rfl⟩
    obtain ⟨l, c, rfl⟩ := (eq_nil_or_concat y).resolve_left hy
    rw [concat_eq_append, ← cons_append, ← append_assoc, List.getLast?_concat, List.getLast?_concat]
  obtain ⟨ha, hb, rfl | h | h⟩ := h
  · rfl
  · exact hlast hb h
  · exact (hlast ha h).symm

/-- A name whose last character is not of a kind. -/
def Ends (p : Char → Bool) (l : List Char) : Prop := ∃ c, l.getLast? = some c ∧ p c = false

/-- A name behind a label of two colons and more. -/
def named (k : ℕ) (u : List Char) : List Char := ':' :: ':' :: List.replicate k ':' ++ '.' :: u

theorem related_named {k : ℕ} {u : List Char} (hu : u ≠ []) : Related (named k u) u :=
  ⟨cons_ne_nil _ _, hu, Or.inr (Or.inl (suffix_append _ _))⟩

theorem not_related_named {k : ℕ} {u v : List Char} (hlen : u.length < v.length) (hk : v.length ≤ k) :
    ¬ Related (named k u) v := by
  have hlong : v.length < (named k u).length := by
    simp only [named, length_append, length_cons, length_replicate]
    omega
  rintro ⟨-, -, h | ⟨s, hs⟩ | h⟩
  · exact hlong.ne' (congrArg List.length h)
  · -- the dot in front of the longer name would be one of the colons
    obtain ⟨t, ht⟩ := suffix_of_suffix_length_le (suffix_append (':' :: ':' :: List.replicate k ':') ('.' :: u))
      ⟨s, hs⟩ (by simpa using hlen.le)
    rw [← ht, named, ← append_assoc] at hs
    have hcolons := append_cancel_right hs
    cases t with
    | nil => exact hlen.ne (congrArg List.length (List.cons.inj ht).2)
    | cons c t =>
      have hdot : '.' ∈ ':' :: ':' :: List.replicate k ':' := by
        rw [← hcolons, (List.cons.inj ht).1]
        simp
      simp at hdot
  · have := h.length_le
    rw [length_cons] at this
    omega

/-- Two names of which one ends well are told apart behind a label of colons. -/
theorem exists_apart {p : Char → Bool} {a b : List Char} (hlen : a.length < b.length) (h : Ends p a ∨ Ends p b) :
    ∃ u, (u = a ∨ u = b) ∧ Ends p u ∧ ¬ (Related (named b.length u) a ↔ Related (named b.length u) b) := by
  have hne : ∀ {l}, Ends p l → l ≠ [] := by
    rintro l ⟨c, hc, -⟩ rfl
    cases hc
  by_cases ha : Ends p a
  · exact ⟨a, Or.inl rfl, ha, fun hiff => not_related_named hlen le_rfl (hiff.mp (related_named (hne ha)))⟩
  · have hb := h.resolve_left ha
    have hrelated := related_named (k := b.length) (hne hb)
    obtain ⟨c, hc, hp⟩ := hb
    refine ⟨b, Or.inr rfl, ⟨c, hc, hp⟩, fun hiff => ha ⟨c, ?_, hp⟩⟩
    rw [← (hiff.mpr hrelated).getLast?, hrelated.getLast?, hc]

/-! ## Reading a name -/

/-- Lower case changes neither the dots at the ends of a text nor a text in lower case. -/
class CaseRuntime extends Runtime where
  lower_settled : ∀ t : String, (∀ c ∈ t.toList, ∃ s, c ∈ (lower s).toList) → lower t = t
  lower_stripDots : ∀ s, lower (stripBy (· == '.') s) = stripBy (· == '.') (lower s)
  lower_rstripDot : ∀ s, lower (rstripDot s) = rstripDot (lower s)

theorem dot_toLower (c : Char) : (c.toLower == '.') = (c == '.') := by
  by_cases h : c.toNat < 128
  · have hcode : ∀ n < 128, ((Char.ofNat n).toLower == '.') = (Char.ofNat n == '.') := by decide
    simpa using hcode c.toNat h
  · rw [toLower_of_not_ascii (not_lt.mp h)]

/-- A runtime for names in ASCII. -/
@[reducible] def CaseRuntime.ascii : CaseRuntime where
  toRuntime := Runtime.ascii
  lower_settled t h := by
    have hfixed : ∀ c ∈ t.toList, c.toLower = c := by
      intro c hc
      obtain ⟨s, hs⟩ := h c hc
      obtain ⟨d, -, rfl⟩ := mem_map.mp (String.toList_ofList ▸ hs)
      exact toLower_toLower d
    exact (congrArg String.ofList (map_congr_left hfixed)).trans (by rw [map_id', String.ofList_toList])
  lower_stripDots s := by
    show mapChars Char.toLower _ = stripBy _ (mapChars Char.toLower s)
    simp only [mapChars, stripBy, String.toList_ofList, List.rdropWhile, ← map_reverse, dropWhile_map, Function.comp_def,
      dot_toLower]
  lower_rstripDot s := by
    show mapChars Char.toLower _ = rstripDot (mapChars Char.toLower s)
    simp only [mapChars, rstripDot, String.toList_ofList, List.rdropWhile, ← map_reverse, dropWhile_map, Function.comp_def,
      dot_toLower]

/-- What `normalise_host` makes of a name in lower case. -/
def resolved (name : String) : String :=
  let name := stripBy (· == '.') name
  if startsWith name "[" && name.toList.contains ']' then
    beforeChar ']' (String.ofList (name.toList.drop 1))
  else if name.toList.count ':' = 1 then beforeChar ':' name
  else name

theorem stripBy_rstripDot (s : String) : stripBy (· == '.') (rstripDot s) = stripBy (· == '.') s := by
  obtain ⟨dots, hsplit, hdots, -⟩ := exists_dots s.toList
  have hall : ∀ c ∈ dots, (c == '.') = true := fun c hc => beq_iff_eq.mpr (hdots c hc)
  rw [stripBy, stripBy, rstripDot, String.toList_ofList]
  conv_rhs => rw [hsplit]
  rw [dropWhile_append]
  split_ifs with hempty
  · rw [List.isEmpty_iff.mp hempty, dropWhile_eq_nil_iff.mpr hall]
  · rw [rdropWhile_append_of_all _ hall]

theorem resolved_infix (name : String) : (resolved name).toList <:+: name.toList := by
  have hstrip : (stripBy (· == '.') name).toList <:+: name.toList := by
    rw [stripBy, String.toList_ofList]
    exact (List.rdropWhile_prefix _ _).isInfix.trans (dropWhile_suffix _).isInfix
  refine List.IsInfix.trans ?_ hstrip
  rw [resolved]
  split_ifs
  · rw [beforeChar, String.toList_ofList, String.toList_ofList]
    exact (List.takeWhile_prefix _).isInfix.trans (drop_suffix 1 _).isInfix
  · rw [beforeChar, String.toList_ofList]
    exact (List.takeWhile_prefix _).isInfix
  · exact infix_refl _

/-- What the scorer leaves of a name in lower case. -/
def bared (l : List Char) : List Char := (trim l).rdropWhile (· == '.')

theorem bared_isInfix (l : List Char) : bared l <:+: l :=
  (List.rdropWhile_prefix _ _).isInfix.trans
    ((List.rdropWhile_prefix _ _).isInfix.trans (dropWhile_suffix _).isInfix)

theorem Ends.named {p : Char → Bool} {u : List Char} (h : Ends p u) (k : ℕ) :
    ∀ c, (named k u).getLast? = some c → p c = false := by
  obtain ⟨d, hd, hp⟩ := h
  intro c hc
  rw [(related_named (u := u) (by rintro rfl; cases hd)).getLast?, hd] at hc
  exact Option.some.inj hc ▸ hp

theorem resolved_named {k : ℕ} {u : List Char} (h : Ends (· == '.') u) :
    resolved (String.ofList (named k u)) = String.ofList (named k u) := by
  have hstrip : stripBy (· == '.') (String.ofList (named k u)) = String.ofList (named k u) := by
    rw [stripBy, String.toList_ofList]
    exact congrArg String.ofList (rdropWhile_of_last (h.named k))
  rw [resolved, hstrip]
  simp [startsWith, EdgeResolver.named]

section Names

variable [CaseRuntime]

theorem normaliseHost_eq (name : String) : normaliseHost (some name) = resolved (normHost (some name)) := by
  rw [normaliseHost, normHost, Option.getD_some, CaseRuntime.lower_stripDots, CaseRuntime.lower_rstripDot, resolved,
    stripBy_rstripDot]

/-- Text in lower case. -/
def Settled (l : List Char) : Prop := ∀ c ∈ l, ∃ s, c ∈ (lower s).toList

theorem Settled.mono {l l' : List Char} (h : Settled l) (hl : l' <:+: l) : Settled l' := fun c hc => h c (hl.subset hc)

theorem settled_normHost (name : String) : Settled (normHost (some name)).toList := fun _ hc => ⟨_, hc⟩

theorem settled_marks : Settled [':', '.'] := fun _ hc => ⟨":.", by rwa [Runtime.lower_ascii ":." (by decide)]⟩

theorem settled_named {k : ℕ} {u : List Char} (h : Settled u) : Settled (named k u ++ ['.']) := by
  intro c hc
  simp only [named, mem_append, mem_cons, mem_replicate, not_mem_nil, or_false] at hc
  have hmark : (c = ':' ∨ c = '.') → ∃ s, c ∈ (lower s).toList := fun hc => settled_marks c (by simpa using hc)
  tauto

theorem normHost_settled {l : List Char} (h : Settled l) : normHost (some (String.ofList l)) = String.ofList (bared l) := by
  rw [normHost, Option.getD_some, rstripDot, toList_strip, String.toList_ofList]
  exact CaseRuntime.lower_settled _ fun c hc => h.mono (bared_isInfix l) c (by rwa [String.toList_ofList] at hc)

theorem getLast?_normHost (name : String) : (normHost (some name)).toList.getLast? ≠ some '.' := by
  intro h
  rw [normHost, CaseRuntime.lower_rstripDot, rstripDot, String.toList_ofList] at h
  exact absurd (getLast?_rdropWhile h) (by decide)

/-- A name behind a label of colons is read as it stands by all, also with the root's dot. -/
theorem read_named {k : ℕ} {u b : List Char} (hu : Settled u) (h : Ends (· == '.') u)
    (hb : b = ['.'] ∨ b = [] ∧ Ends isSpace u) :
    normHost (some (String.ofList (named k u ++ b))) = String.ofList (named k u) ∧
      normaliseHost (some (String.ofList (named k u ++ b))) = String.ofList (named k u) := by
  have hhead : ∀ c, (named k u ++ b).head? = some c → isSpace c = false :=
    fun c hc => (Option.some.inj hc : ':' = c) ▸ by decide
  have hnorm : normHost (some (String.ofList (named k u ++ b))) = String.ofList (named k u) := by
    rcases hb with rfl | ⟨rfl, hspace⟩
    · rw [normHost_settled (settled_named hu), bared, trim_eq_self ⟨hhead, fun c hc => ?_⟩,
        rdropWhile_append_of_all _ (by simp), rdropWhile_of_last (h.named k)]
      rw [List.getLast?_concat] at hc
      exact Option.some.inj hc ▸ by decide
    · rw [append_nil] at hhead ⊢
      rw [normHost_settled ((settled_named hu).mono (prefix_append _ _).isInfix), bared,
        trim_eq_self ⟨hhead, hspace.named k⟩, rdropWhile_of_last (h.named k)]
  exact ⟨hnorm, by rw [normaliseHost_eq, hnorm, resolved_named h]⟩

end Names

/-! ## The three readers -/

section Readers

variable [Runtime]

/-- The event of an entry. -/
def hostEvent (entry : BenchCollector.Hint) : Event := .other { type := "correlation", raw := entry.record }

/-- Does the filter of `pending` keep an entry? -/
def collectorAccepts (entry : BenchCollector.Hint) (observed : String) : Bool :=
  !given (some observed) || CorrelationRegistry.hostMatches entry (lower (rstripDot (strip observed)))

/-- Is the entry, as the resolver reads it, a match for the observed name?  It raises on a host that is not text. -/
def resolverAccepts (formatFloat : ℚ → String) (defaultTtl now : ℚ) (entry : BenchCollector.Hint)
    (observed : String) : Option Bool :=
  if unreadable entry.record then none
  else some ((Hint.fromPayload formatFloat entry.record defaultTtl now).any fun hint =>
    hostsMatch (normaliseHost (some observed)) hint.host)

/-- Does the join find a signal for the observed name in the entry's event?  It raises like the resolver. -/
def scorerAccepts (entry : BenchCollector.Hint) (observed : String) : Option Bool :=
  if unreadable entry.record then none
  else some (signalForHost (some observed) (correlationIndex [hostEvent entry]).1).isSome

/-- All three accept the pair, or all three reject it. -/
def Agree (formatFloat : ℚ → String) (defaultTtl now : ℚ) (entry : BenchCollector.Hint) (observed : String) : Prop :=
  resolverAccepts formatFloat defaultTtl now entry observed = some (collectorAccepts entry observed) ∧
    scorerAccepts entry observed = some (collectorAccepts entry observed)

/-- An entry for a host that the schema has read. -/
structure Registered (entry : BenchCollector.Hint) (host : String) : Prop where
  stored : entry.record.get "destination_host" = .str host
  read : ∃ value, host = normaliseDestination value
  signal : (entry.record.get "signal").truthy = true

/-- What the resolver and the scorer take for the host of an entry: an extra `host` stands in for an empty one. -/
def spoken (entry : BenchCollector.Hint) : String :=
  ((entry.record.get "destination_host").orElse (entry.record.get "host")).asStr?.getD ""

/-- A registered host that the resolver and the scorer take as it stands. -/
structure PlainRegistered (entry : BenchCollector.Hint) (host : String) : Prop where
  readable : unreadable entry.record = false
  scorer : normHost (some (spoken entry)) = host
  resolver : normaliseHost (some (spoken entry)) = host

/-- The name ends as a plain host can end. -/
def EndsPlain (name : String) : Prop := Ends (fun c => c == '.' || isSpace c) name.toList

/-- An observed name that all read alike, or that nobody reads as a name with the end of a plain host. -/
structure PlainObserved (observed : String) : Prop where
  given : observed ≠ ""
  alike : normaliseHost (some observed) = normHost (some observed) ∨
    ¬ EndsPlain (normaliseHost (some observed)) ∧ ¬ EndsPlain (normHost (some observed))

theorem collectorAccepts_eq {entry : BenchCollector.Hint} {host observed : String}
    (hentry : entry.record.get "destination_host" = .str host) (hdot : host.toList.getLast? ≠ some '.')
    (hgiven : observed ≠ "") : collectorAccepts entry observed = hostsMatch (normHost (some observed)) host := by
  have hread : ((entry.record.get "destination_host").orElse (.str "")).pyStr = host := by
    rw [hentry, Json.orElse]
    split_ifs with h
    · rfl
    · exact (by simpa [Json.truthy] using h : host = "").symm
  have hwanted : lower (rstripDot (strip observed)) = normHost (some observed) := rfl
  rw [Bool.eq_iff_iff, hostsMatch_iff, collectorAccepts, show Py.given (some observed) = true from decide_eq_true hgiven,
    CorrelationRegistry.hostMatches, hread, hwanted]
  generalize normHost (some observed) = wanted
  simp only [Bool.not_true, Bool.false_or, Bool.and_eq_true, Bool.or_eq_true, decide_eq_true_eq, endsWith_dot_iff, Related,
    Ne, String.toList_eq_nil_iff, String.toList_inj, or_assoc]
  refine ⟨?_, And.right⟩
  rintro ⟨hhost, h⟩
  refine ⟨?_, hhost, h⟩
  -- no registered host ends in a dot, so an empty name matches none
  rintro rfl
  rcases h with h | h | ⟨t, ht⟩
  · exact hhost h.symm
  · exact absurd (suffix_nil.mp h) (cons_ne_nil _ _)
  · exact hdot (ht ▸ List.getLast?_concat)

theorem resolver_eq (formatFloat : ℚ → String) (defaultTtl now : ℚ) (entry : BenchCollector.Hint) (name : String) :
    ((Hint.fromPayload formatFloat entry.record defaultTtl now).any fun hint => hostsMatch name hint.host) =
      hostsMatch name (normaliseHost (some (spoken entry))) := by
  have hread : normaliseHost ((entry.record.get "destination_host").orElse (entry.record.get "host")).asStr? =
      normaliseHost (some (spoken entry)) := rfl
  unfold Hint.fromPayload
  rw [hread]
  by_cases hhost : normaliseHost (some (spoken entry)) = ""
  · simp [hhost, hostsMatch]
  · simp [hhost]

theorem scorer_eq {entry : BenchCollector.Hint} (hsignal : (entry.record.get "signal").truthy = true) (observed : String) :
    (signalForHost (some observed) (correlationIndex [hostEvent entry]).1).isSome =
      hostsMatch (normHost (some observed)) (normHost (some (spoken entry))) := by
  have hindex : (correlationIndex [hostEvent entry]).1 = if normHost (some (spoken entry)) = "" then Dict.empty
      else Dict.empty.setdefault (normHost (some (spoken entry))) (entry.record.get "signal").pyStr := by
    unfold correlationIndex indexEvent rawSignal
    rw [foldl_cons, foldl_nil, if_pos (show ((hostEvent entry).raw.get "signal").truthy = true from hsignal)]
    rfl
  rw [hindex, signalForHost, hostsMatch]
  generalize normHost (some (spoken entry)) = host
  generalize normHost (some observed) = key
  by_cases hkey : key = ""
  · simp [hkey]
  · by_cases hhost : host = ""
    · simp [hkey, hhost, Dict.get?, Dict.empty]
    · have hitems : (Dict.empty.setdefault host (entry.record.get "signal").pyStr).items =
          [(host, (entry.record.get "signal").pyStr)] := by
        rw [Dict.items_setdefault, if_neg (by simp [Dict.keys, Dict.empty])]
        rfl
      rw [if_neg hkey, if_neg hhost, if_neg (by simp [hkey, hhost]), Dict.get?, hitems]
      by_cases hsame : key = host
      · simp [hsame]
      · have hrelation : (decide (key = host) || endsWith key ("." ++ host) || endsWith host ("." ++ key)) =
            suffixRelated key host := by
          rw [decide_eq_false hsame, Bool.false_or, suffixRelated]
        rw [hrelation]
        cases hrelated : suffixRelated key host <;> simp [Ne.symm hsame, hrelated]

/-- The entry of a sink that registers a host, as the collector stores it. -/
def hostEntry (value : String) : BenchCollector.Hint :=
  CorrelationRegistry.stamped { ttl := 120, maxEntries := 100 } (fun _ => FloatLit.ofInt 0) 0 "c1"
    [("app", .str "shop"), ("signal", .str "shop.imports.fetch"),
      ("destination_host", .str (normaliseDestination value))] none

end Readers

section Agreement

variable [CaseRuntime] (formatFloat : ℚ → String) (defaultTtl now : ℚ) {entry : BenchCollector.Hint} {host observed : String}

theorem agree_iff (h : Registered entry host) : Agree formatFloat defaultTtl now entry observed ↔
    unreadable entry.record = false ∧ observed ≠ "" ∧
      hostsMatch (normaliseHost (some observed)) (normaliseHost (some (spoken entry))) =
        hostsMatch (normHost (some observed)) host ∧
      hostsMatch (normHost (some observed)) (normHost (some (spoken entry))) =
        hostsMatch (normHost (some observed)) host := by
  obtain ⟨value, hvalue⟩ := h.read
  rw [Agree, resolverAccepts, scorerAccepts, resolver_eq, scorer_eq h.signal]
  cases unreadable entry.record with
  | true => simp
  | false =>
    by_cases hgiven : observed = ""
    · -- a request without a host is answered with every entry, and the others match nothing
      have hnone : normHost (some "") = "" := Runtime.lower_ascii "" (by decide)
      have hall : collectorAccepts entry "" = true := rfl
      simp [hgiven, hnone, hall, hostsMatch]
    · rw [collectorAccepts_eq h.stored (hvalue ▸ getLast?_normHost value) hgiven]
      simp [hgiven]

theorem normaliseHost_infix (name : String) : (normaliseHost (some name)).toList <:+: (normHost (some name)).toList := by
  rw [normaliseHost_eq]
  exact resolved_infix _

omit [CaseRuntime] in
theorem length_lt_of_isInfix {a b : String} (h : a.toList <:+: b.toList) (hne : a ≠ b) : a.toList.length < b.toList.length :=
  h.length_le.lt_of_ne fun heq => hne (String.toList_injective (h.eq_of_length heq))

omit [CaseRuntime] in
theorem ends_of_getLast? {l : List Char} (hne : l ≠ []) (h : l.getLast? ≠ some '.') : Ends (· == '.') l :=
  ⟨l.getLast hne, List.getLast?_eq_some_getLast hne, beq_eq_false_iff_ne.mpr fun heq =>
    h (heq ▸ List.getLast?_eq_some_getLast hne)⟩

/-- Two names in lower case are told apart by an observed name that is read alike. -/
theorem exists_observed {a b : String} (hlen : a.toList.length < b.toList.length) (ha : Settled a.toList)
    (hb : Settled b.toList) (hdot : b.toList.getLast? ≠ some '.') : ∃ observed, observed ≠ "" ∧
      normaliseHost (some observed) = normHost (some observed) ∧
      hostsMatch (normHost (some observed)) a ≠ hostsMatch (normHost (some observed)) b := by
  have hne : b.toList ≠ [] := ne_nil_of_length_pos (by omega)
  obtain ⟨u, hu, hends, hapart⟩ := exists_apart hlen (Or.inr (ends_of_getLast? hne hdot))
  have hsettled : Settled u := hu.elim (fun h => h ▸ ha) fun h => h ▸ hb
  obtain ⟨hnorm, hresolved⟩ := read_named (k := b.toList.length) hsettled hends (Or.inl rfl)
  refine ⟨_, fun hempty => ?_, hresolved.trans hnorm.symm, fun heq => hapart ?_⟩
  · simpa [named] using congrArg String.toList hempty
  · rwa [hnorm, Bool.eq_iff_iff, hostsMatch_iff, hostsMatch_iff, String.toList_ofList] at heq

/-- A host behind a label of colons is registered as it stands. -/
theorem exists_registered {u : List Char} (hu : Settled u) (h : Ends (fun c => c == '.' || isSpace c) u) (k : ℕ) :
    ∃ entry, Registered entry (String.ofList (named k u)) ∧ PlainRegistered entry (String.ofList (named k u)) := by
  have hends : ∀ q : Char → Bool, (∀ c, (c == '.' || isSpace c) = false → q c = false) → Ends q u :=
    fun q hq => h.imp fun c hc => ⟨hc.1, hq c hc.2⟩
  obtain ⟨hnorm, hresolved⟩ := read_named (k := k) (b := []) hu
    (hends _ fun c hc => (Bool.or_eq_false_iff.mp hc).1) (Or.inr ⟨rfl, hends _ fun c hc => (Bool.or_eq_false_iff.mp hc).2⟩)
  rw [append_nil] at hnorm hresolved
  have hget : (hostEntry (String.ofList (named k u))).record.get "destination_host" = .str (String.ofList (named k u)) :=
    congrArg Json.str hnorm
  have hor : ∀ x, ((hostEntry (String.ofList (named k u))).record.get "destination_host").orElse x =
      .str (String.ofList (named k u)) := by
    intro x
    rw [hget, Json.orElse, if_pos (by simp [Json.truthy, named])]
  refine ⟨_, ⟨hget, ⟨_, hnorm.symm⟩, rfl⟩, ⟨?_, ?_, ?_⟩⟩
  · rw [unreadable, hor]
    exact Bool.and_false _
  · rwa [spoken, hor]
  · rwa [spoken, hor]

theorem spoken_eq (h : Registered entry host) (hhost : host ≠ "") : spoken entry = host := by
  rw [spoken, h.stored, Json.orElse, if_pos (by simpa [Json.truthy] using hhost)]
  rfl

theorem toList_normHost {name : String} (h : Settled name.toList) : (normHost (some name)).toList = bared name.toList := by
  conv_lhs => rw [← String.ofList_toList (s := name), normHost_settled h, String.toList_ofList]

/-- A host that the scorer takes as it stands ends neither in white space nor in a dot. -/
theorem endsPlain_of_normHost {name : String} (hne : name ≠ "") (h : normHost (some name) = name) : EndsPlain name := by
  have hbared := toList_normHost (h ▸ settled_normHost name : Settled name.toList)
  rw [h] at hbared
  have htrim : trim name.toList = name.toList := by
    have hinfix : trim name.toList <:+: name.toList :=
      (List.rdropWhile_prefix _ _).isInfix.trans (dropWhile_suffix _).isInfix
    refine hinfix.eq_of_length (le_antisymm hinfix.length_le ?_)
    conv_lhs => rw [hbared]
    exact (List.rdropWhile_prefix _ _).length_le
  obtain ⟨c, hc, hp⟩ := ends_of_getLast? (fun hnil => hne (String.toList_eq_nil_iff.mp hnil)) (h ▸ getLast?_normHost name)
  exact ⟨c, hc, Bool.or_eq_false_iff.mpr ⟨hp, (trim_eq_self_iff.mp htrim).2 c hc⟩⟩

/-- Plain hosts and names are matched alike. -/
theorem agree_of_plain (h : Registered entry host) (hplain : PlainRegistered entry host) (ho : PlainObserved observed) :
    Agree formatFloat defaultTtl now entry observed := by
  rw [agree_iff formatFloat defaultTtl now h, hplain.scorer, hplain.resolver]
  refine ⟨hplain.readable, ho.given, ?_, rfl⟩
  rcases ho.alike with halike | ⟨hresolver, hscorer⟩
  · rw [halike]
  · -- related names end alike
    have hreject : ∀ name, ¬ EndsPlain name → hostsMatch name host = false := by
      refine fun name hname => Bool.eq_false_iff.mpr fun hmatch => hname ?_
      have hrelated := hostsMatch_iff.mp hmatch
      have hne : host ≠ "" := fun hempty => hrelated.2.1 (hempty ▸ rfl)
      obtain ⟨c, hc, hp⟩ := endsPlain_of_normHost hne (spoken_eq h hne ▸ hplain.scorer)
      exact ⟨c, hrelated.getLast?.trans hc, hp⟩
    rw [hreject _ hresolver, hreject _ hscorer]

theorem plain_of_agree (h : Registered entry host)
    (hall : ∀ observed, PlainObserved observed → Agree formatFloat defaultTtl now entry observed) :
    PlainRegistered entry host := by
  have hagree : ∀ observed, observed ≠ "" → normaliseHost (some observed) = normHost (some observed) → _ :=
    fun observed hgiven halike => (agree_iff formatFloat defaultTtl now h).mp (hall observed ⟨hgiven, Or.inl halike⟩)
  obtain ⟨value, hvalue⟩ := h.read
  have hsettled : Settled host.toList := hvalue ▸ settled_normHost value
  have hscorer : normHost (some (spoken entry)) = host := by
    by_contra hne
    by_cases hempty : host = ""
    · have hpos : host.toList.length < (normHost (some (spoken entry))).toList.length := by
        rw [hempty] at hne ⊢
        exact length_pos_iff.mpr fun hnil => hne (String.toList_eq_nil_iff.mp hnil)
      obtain ⟨observed, hgiven, halike, hapart⟩ := exists_observed hpos hsettled (settled_normHost _) (getLast?_normHost _)
      exact hapart (hagree observed hgiven halike).2.2.2.symm
    · rw [spoken_eq h hempty] at hne
      have hinfix : (normHost (some host)).toList <:+: host.toList := toList_normHost hsettled ▸ bared_isInfix _
      obtain ⟨observed, hgiven, halike, hapart⟩ := exists_observed (length_lt_of_isInfix hinfix hne) (settled_normHost host)
        hsettled (hvalue ▸ getLast?_normHost value)
      exact hapart (spoken_eq h hempty ▸ (hagree observed hgiven halike).2.2.2)
  refine ⟨?_, hscorer, ?_⟩
  · have hcolon : Settled ":".toList := settled_marks.mono ⟨[], ['.'], rfl⟩
    obtain ⟨observed, hgiven, halike, -⟩ := exists_observed (a := "") (by decide) (fun _ hc => nomatch hc) hcolon (by decide)
    exact (hagree observed hgiven halike).1
  · by_contra hne
    have hinfix := normaliseHost_infix (spoken entry)
    obtain ⟨observed, hgiven, halike, hapart⟩ := exists_observed (length_lt_of_isInfix hinfix (hscorer ▸ hne))
      ((settled_normHost _).mono hinfix) (settled_normHost _) (getLast?_normHost _)
    obtain ⟨-, -, hresolver, hjoin⟩ := hagree observed hgiven halike
    rw [hjoin, ← hresolver, halike] at hapart
    exact hapart rfl

theorem observed_of_agree (hall : ∀ entry host, Registered entry host → PlainRegistered entry host →
    Agree formatFloat defaultTtl now entry observed) : PlainObserved observed := by
  have hagree : ∀ {u : List Char}, Settled u → Ends (fun c => c == '.' || isSpace c) u → ∀ k, observed ≠ "" ∧
      hostsMatch (normaliseHost (some observed)) (String.ofList (named k u)) =
        hostsMatch (normHost (some observed)) (String.ofList (named k u)) := by
    intro u hu hends k
    obtain ⟨entry, hregistered, hplain⟩ := exists_registered hu hends k
    have hboth := (agree_iff formatFloat defaultTtl now hregistered).mp (hall _ _ hregistered hplain)
    rw [hplain.resolver] at hboth
    exact ⟨hboth.2.1, hboth.2.2.1⟩
  refine ⟨(hagree (u := [':']) (settled_marks.mono ⟨[], ['.'], rfl⟩) ⟨':', rfl, by decide⟩ 0).1, ?_⟩
  by_contra hne
  rw [not_or, not_and_or, not_not, not_not] at hne
  have hinfix := normaliseHost_infix observed
  obtain ⟨u, hu, hends, hapart⟩ := exists_apart (length_lt_of_isInfix hinfix hne.1) hne.2
  have hsettled : Settled u :=
    hu.elim (fun h => h ▸ (settled_normHost observed).mono hinfix) fun h => h ▸ settled_normHost observed
  have hmatch := (hagree hsettled hends (normHost (some observed)).toList.length).2
  rw [Bool.eq_iff_iff, hostsMatch_iff, hostsMatch_iff, String.toList_ofList] at hmatch
  exact hapart ⟨fun h => (hmatch.mp h.symm).symm, fun h => (hmatch.mpr h.symm).symm⟩

/-- A registered host is matched alike with every name that is read alike just if it is plain, and an observed name with
every plain host just if it is read alike. -/
theorem hosts_agree :
    (∀ entry host, Registered entry host → (PlainRegistered entry host ↔
      ∀ observed, PlainObserved observed → Agree formatFloat defaultTtl now entry observed)) ∧
    ∀ observed, PlainObserved observed ↔ ∀ entry host, Registered entry host → PlainRegistered entry host →
      Agree formatFloat defaultTtl now entry observed :=
  ⟨fun _ _ h => ⟨fun hplain _ => agree_of_plain _ _ _ h hplain, plain_of_agree _ _ _ h⟩,
    fun _ => ⟨fun ho _ _ h hplain => agree_of_plain _ _ _ h hplain ho, observed_of_agree _ _ _⟩⟩

end Agreement

/-- A sink that registers the port with its host: the resolver matches the lookup of the host, the
collector and the scorer do not. -/
theorem hosts_disagree_port :
    let _ := Runtime.ascii
    let entry := hostEntry "oast.fun:8080"
    collectorAccepts entry "oast.fun" = false ∧
      resolverAccepts (fun _ => "") 120 1 entry "oast.fun" = some true ∧
        scorerAccepts entry "oast.fun" = some false := by
  decide

end PtaasBench.EdgeResolver
