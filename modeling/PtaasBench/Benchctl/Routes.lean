import Mathlib.Data.List.Infix
import PtaasBench.Py.Text

/-!
# PtaasBench.Benchctl.Routes — route template normalisation (`routes.py`)

Five route dialects are folded into one tuple of segments, and two tuples are compared segment by
segment; a greedy placeholder eats one or more segments of the other side.  `matchSegs` recurses
on fuel; `matchSegs_eq_of_le` says that the total number of segments is always enough.
-/

namespace PtaasBench.Benchctl

open Py List

def PLACEHOLDER : String := "\x7b\x7d"
def GREEDY : String := "\x7b**\x7d"
def UNMATCHED : String := "<unmatched>"

/-- `_strip_query`: cut at the first `?` outside a placeholder. -/
def stripQueryAux : ℕ → List Char → List Char
  | _, [] => []
  | depth, c :: cs =>
    if c = '\x7b' ∨ c = '<' ∨ c = '[' then c :: stripQueryAux (depth + 1) cs
    else if (c = '\x7d' ∨ c = '>' ∨ c = ']') ∧ depth ≠ 0 then c :: stripQueryAux (depth - 1) cs
    else if c = '?' ∧ depth = 0 then []
    else c :: stripQueryAux depth cs

def stripQuery (path : String) : String := String.ofList (stripQueryAux 0 path.toList)

/-- The text between an opening character (already read) and `close`, where neither brace nor
slash may stand; `none` if the regular expression of `_normalize_segment` does not match here. -/
def groupRest (opn close : Char) : List Char → Option (List Char)
  | [] => none
  | c :: cs =>
    if c = close then some cs
    else if c = opn ∨ c = '/' then none
    else groupRest opn close cs

/-- `_EMBEDDED_BRACE.sub` / `_EMBEDDED_ANGLE.sub`. -/
def subGroups (opn close : Char) : ℕ → List Char → List Char
  | 0, cs => cs
  | _, [] => []
  | fuel + 1, c :: cs =>
    if c = opn then
      match groupRest opn close cs with
      | some rest => PLACEHOLDER.toList ++ subGroups opn close fuel rest
      | none => c :: subGroups opn close fuel cs
    else c :: subGroups opn close fuel cs

def subEmbedded (opn close : Char) (seg : String) : String :=
  String.ofList (subGroups opn close seg.toList.length seg.toList)

def contains (c : Char) (s : String) : Bool := s.toList.contains c

/-- `_normalize_segment` -/
def normalizeSegment (seg : String) : String :=
  if seg = "*" then PLACEHOLDER
  else if seg = "**" then GREEDY
  else if startsWith seg "*" then GREEDY
  else if startsWith seg ":" then PLACEHOLDER
  else if startsWith seg "\x7b" && endsWith seg "\x7d" then
    if startsWith (inner seg) "*" then GREEDY
    else if endsWith (inner seg) "..." then GREEDY
    else PLACEHOLDER
  else if startsWith seg "<" && endsWith seg ">" then
    let converter := if contains ':' (inner seg) then beforeChar ':' (inner seg) else ""
    if converter = "path" then GREEDY else PLACEHOLDER
  else if startsWith seg "[" && endsWith seg "]" then
    if startsWith (stripBy (fun c => c = '[' || c = ']') seg) "..." then GREEDY else PLACEHOLDER
  else if contains '\x7b' seg || contains '<' seg then
    subEmbedded '<' '>' (subEmbedded '\x7b' '\x7d' seg)
  else seg

/-- Does a substring occur? -/
def hasInfix (s t : String) : Bool := decide (t.toList <:+: s.toList)

section

variable [Runtime]

/-- `path_from_url` -/
def pathFromUrl (url : String) : String :=
  if hasInfix url "://" then
    let p := stripQuery (urlPath url)
    if p = "" then "/" else p
  else stripQuery (beforeChar '#' url)

def routeSegments (route : String) : List String :=
  let route := strip route
  if route = UNMATCHED then [UNMATCHED]
  else ((splitChar '/' (casefold (pathFromUrl route))).filter (· ≠ "")).map normalizeSegment

def normalizeRoute (route : String) : String :=
  let segs := routeSegments route
  if segs = [] then "/"
  else if segs = [UNMATCHED] then UNMATCHED
  else segs.foldl (fun s seg => s ++ "/" ++ seg) ""

/-- `_match` -/
def matchSegs (lenient : Bool) : ℕ → List String → List String → Bool
  | 0, _, _ => false
  | _, [], [] => true
  | _, [], _ :: _ => false
  | _, _ :: _, [] => false
  | fuel + 1, x :: a, y :: b =>
    if x = GREEDY then
      (List.range (b.length + 1)).any fun k => matchSegs lenient fuel a ((y :: b).drop (k + 1))
    else if y = GREEDY then
      (List.range (a.length + 1)).any fun k => matchSegs lenient fuel b ((x :: a).drop (k + 1))
    else if x = y then matchSegs lenient fuel a b
    else if lenient && (x = PLACEHOLDER || y = PLACEHOLDER) then matchSegs lenient fuel a b
    else false

/-- `_match(a, b, lenient=...)`, with fuel for every segment. -/
def segsMatch (lenient : Bool) (a b : List String) : Bool :=
  matchSegs lenient (a.length + b.length + 1) a b

def routesEqual (a b : String) : Bool :=
  let sa := routeSegments a
  let sb := routeSegments b
  if sa = [UNMATCHED] ∨ sb = [UNMATCHED] then sa = sb else segsMatch false sa sb

def routeMatchesPath (template path : String) : Bool :=
  let st := routeSegments template
  let sp := routeSegments path
  if st = [UNMATCHED] ∨ sp = [UNMATCHED] then false else segsMatch true st sp

end

/-- Fuel beyond the number of segments changes nothing. -/
theorem matchSegs_eq_of_le (lenient : Bool) : ∀ (n m : ℕ) (a b : List String),
    a.length + b.length < n → n ≤ m → matchSegs lenient n a b = matchSegs lenient m a b
  | 0, _, _, _, h, _ => by omega
  | n + 1, 0, _, _, _, h => by omega
  | n + 1, m + 1, a, b, h, hnm => by
    have ih := fun a' b' => matchSegs_eq_of_le lenient n m a' b'
    cases a with
    | nil => cases b <;> rfl
    | cons x a =>
      cases b with
      | nil => rfl
      | cons y b =>
        simp only [length_cons] at h
        have hr : ∀ k, matchSegs lenient n a ((y :: b).drop (k + 1)) =
            matchSegs lenient m a ((y :: b).drop (k + 1)) := fun k =>
          ih _ _ (by simp only [drop_succ_cons, length_drop]; omega) (by omega)
        have hl : ∀ k, matchSegs lenient n b ((x :: a).drop (k + 1)) =
            matchSegs lenient m b ((x :: a).drop (k + 1)) := fun k =>
          ih _ _ (by simp only [drop_succ_cons, length_drop]; omega) (by omega)
        have hb : matchSegs lenient n a b = matchSegs lenient m a b :=
          ih _ _ (by omega) (by omega)
        simp only [matchSegs, hr, hl, hb]

/-! ## The canonical string of a route -/

theorem groupRest_subset {opn close : Char} : ∀ {cs rest : List Char},
    groupRest opn close cs = some rest → rest ⊆ cs
  | [], _, h => by simp [groupRest] at h
  | c :: cs, rest, h => by
    rw [groupRest] at h
    split_ifs at h
    · obtain rfl := Option.some.inj h
      exact subset_cons_self _ _
    · exact List.Subset.trans (groupRest_subset h) (subset_cons_self _ _)

theorem notMem_subGroups (opn close : Char) : ∀ (fuel : ℕ) {cs : List Char}, '/' ∉ cs →
    '/' ∉ subGroups opn close fuel cs
  | 0, _, h => h
  | _ + 1, [], _ => by simp [subGroups]
  | fuel + 1, c :: cs, h => by
    rw [mem_cons, not_or] at h
    have hkeep : '/' ∉ c :: subGroups opn close fuel cs := by
      rw [mem_cons, not_or]
      exact ⟨h.1, notMem_subGroups opn close fuel h.2⟩
    rw [subGroups]
    split_ifs
    · cases hrest : groupRest opn close cs with
      | none => exact hkeep
      | some rest =>
        rw [mem_append, not_or]
        exact ⟨by decide, notMem_subGroups opn close fuel fun hr => h.2 (groupRest_subset hrest hr)⟩
    · exact hkeep

theorem subGroups_ne_nil (opn close : Char) (fuel : ℕ) {cs : List Char} (h : cs ≠ []) :
    subGroups opn close fuel cs ≠ [] := by
  obtain ⟨c, cs, rfl⟩ := exists_cons_of_ne_nil h
  cases fuel with
  | zero => exact h
  | succ fuel =>
    rw [subGroups]
    split_ifs
    · cases groupRest opn close cs with
      | none => exact cons_ne_nil _ _
      | some rest => exact append_ne_nil_of_left_ne_nil (by decide) _
    · exact cons_ne_nil _ _

/-- A segment: some text without a slash. -/
def IsSegment (s : String) : Prop := s ≠ "" ∧ '/' ∉ s.toList

theorem isSegment_subEmbedded (opn close : Char) {seg : String} (h : IsSegment seg) :
    IsSegment (subEmbedded opn close seg) := by
  unfold subEmbedded
  constructor
  · intro hempty
    have hnil := congrArg String.toList hempty
    rw [String.toList_ofList, String.toList_empty] at hnil
    exact subGroups_ne_nil opn close _ (fun hs => h.1 (String.toList_eq_nil_iff.mp hs)) hnil
  · rw [String.toList_ofList]
    exact notMem_subGroups opn close _ h.2

theorem isSegment_normalizeSegment {seg : String} (h : IsSegment seg) :
    IsSegment (normalizeSegment seg) := by
  have hplaceholder : IsSegment PLACEHOLDER := ⟨by decide, by decide⟩
  have hgreedy : IsSegment GREEDY := ⟨by decide, by decide⟩
  have hsub := isSegment_subEmbedded '<' '>' (isSegment_subEmbedded '\x7b' '\x7d' h)
  unfold normalizeSegment
  dsimp only
  repeat' split
  all_goals with_reducible first | exact hplaceholder | exact hgreedy | exact hsub | exact h

section Canonical

variable [Runtime]

theorem isSegment_routeSegments {route : String} (h : routeSegments route ≠ [UNMATCHED]) :
    ∀ seg ∈ routeSegments route, IsSegment seg := by
  unfold routeSegments at h ⊢
  dsimp only at h ⊢
  split_ifs at h ⊢
  · exact absurd rfl h
  · intro seg hseg
    obtain ⟨piece, hpiece, rfl⟩ := mem_map.mp hseg
    rw [mem_filter, decide_eq_true_eq] at hpiece
    exact isSegment_normalizeSegment ⟨hpiece.2, notMem_of_mem_splitChar hpiece.1⟩

omit [Runtime] in
theorem toList_join (segs : List String) (s : String) :
    (segs.foldl (fun s seg => s ++ "/" ++ seg) s).toList =
      s.toList ++ (segs.map String.toList).flatMap ('/' :: ·) := by
  induction segs generalizing s with
  | nil => simp
  | cons seg segs ih =>
    rw [foldl_cons, ih, String.toList_append, String.toList_append, map_cons,
      flatMap_cons]
    simp

theorem toList_normalizeRoute {route : String} (hnil : routeSegments route ≠ [])
    (hmatched : routeSegments route ≠ [UNMATCHED]) :
    (normalizeRoute route).toList = ((routeSegments route).map String.toList).flatMap ('/' :: ·) := by
  rw [normalizeRoute, if_neg hnil, if_neg hmatched, toList_join]
  simp

/-- The canonical string shows whether there was a route, and whether it has segments. -/
theorem normalizeRoute_cases {a b : String} (h : normalizeRoute a = normalizeRoute b) :
    (routeSegments a = [UNMATCHED] → routeSegments b = [UNMATCHED]) ∧
      (routeSegments a = [] → routeSegments b = []) := by
  have hhead : ∀ {route : String}, routeSegments route ≠ [] → routeSegments route ≠ [UNMATCHED] →
      ∃ c rest, (normalizeRoute route).toList = '/' :: c :: rest := by
    intro route hnil hmatched
    obtain ⟨seg, segs, hsegs⟩ := exists_cons_of_ne_nil hnil
    have hseg := isSegment_routeSegments hmatched seg (by rw [hsegs]; exact mem_cons_self)
    obtain ⟨c, rest, hc⟩ := exists_cons_of_ne_nil fun h => hseg.1 (String.toList_eq_nil_iff.mp h)
    refine ⟨c, rest ++ (segs.map String.toList).flatMap ('/' :: ·), ?_⟩
    rw [toList_normalizeRoute hnil hmatched, hsegs, map_cons, flatMap_cons, hc]
    rfl
  have hslash : ∀ {route : String}, routeSegments route = [] → normalizeRoute route = "/" :=
    fun hnil => if_pos hnil
  have hunmatched : ∀ {route : String}, routeSegments route = [UNMATCHED] →
      normalizeRoute route = UNMATCHED := by
    intro route hroute
    rw [normalizeRoute, if_neg (by rw [hroute]; exact cons_ne_nil _ _), if_pos hroute]
  constructor
  · intro ha
    by_contra hb
    rw [hunmatched ha] at h
    by_cases hnil : routeSegments b = []
    · rw [hslash hnil] at h
      exact absurd h (by decide)
    · obtain ⟨c, rest, hc⟩ := hhead hnil hb
      rw [← h] at hc
      exact absurd hc (by simp [UNMATCHED])
  · intro ha
    by_contra hnil
    rw [hslash ha] at h
    by_cases hb : routeSegments b = [UNMATCHED]
    · rw [hunmatched hb] at h
      exact absurd h (by decide)
    · obtain ⟨c, rest, hc⟩ := hhead hnil hb
      rw [← h] at hc
      exact absurd hc (by simp)

/-- Two routes have one canonical string if and only if they have the same segments. -/
theorem normalizeRoute_inj {a b : String} :
    normalizeRoute a = normalizeRoute b ↔ routeSegments a = routeSegments b := by
  constructor
  · intro h
    obtain ⟨hmatched, hnil⟩ := normalizeRoute_cases h
    obtain ⟨hmatched', hnil'⟩ := normalizeRoute_cases h.symm
    by_cases ha : routeSegments a = [UNMATCHED]
    · rw [ha, hmatched ha]
    · by_cases ha' : routeSegments a = []
      · rw [ha', hnil ha']
      · have hlists := congrArg String.toList h
        have hb : routeSegments b ≠ [UNMATCHED] := fun hb => ha (hmatched' hb)
        rw [toList_normalizeRoute ha' ha, toList_normalizeRoute (fun hb' => ha' (hnil' hb')) hb] at hlists
        refine map_injective_iff.mpr (fun _ _ => String.toList_injective) (flatMap_sep_injective ?_ ?_ hlists)
        · intro w hw
          obtain ⟨seg, hseg, rfl⟩ := mem_map.mp hw
          exact (isSegment_routeSegments ha seg hseg).2
        · intro w hw
          obtain ⟨seg, hseg, rfl⟩ := mem_map.mp hw
          exact (isSegment_routeSegments hb seg hseg).2
  · intro h
    rw [normalizeRoute, normalizeRoute, h]

omit [Runtime] in
theorem matchSegs_self (lenient : Bool) : ∀ (fuel : ℕ) (a : List String), a.length < fuel →
    matchSegs lenient fuel a a = true
  | 0, _, h => by omega
  | _ + 1, [], _ => rfl
  | fuel + 1, x :: a, h => by
    have ih := matchSegs_self lenient fuel a (by rw [length_cons] at h; omega)
    rw [matchSegs]
    by_cases hx : x = GREEDY
    · rw [if_pos hx, any_eq_true]
      exact ⟨0, mem_range.mpr (Nat.succ_pos _), ih⟩
    · rw [if_neg hx, if_neg hx, if_pos rfl]
      exact ih

/-- Routes of the same segments are equal as templates. -/
theorem routesEqual_of_segments {a b : String} (h : routeSegments a = routeSegments b) :
    routesEqual a b = true := by
  unfold routesEqual
  dsimp only
  rw [h]
  split_ifs
  · exact decide_eq_true rfl
  · exact matchSegs_self false _ _ (by omega)

end Canonical

end PtaasBench.Benchctl
