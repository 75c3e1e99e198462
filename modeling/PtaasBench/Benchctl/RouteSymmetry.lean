import PtaasBench.Benchctl.Routes

/-!
# PtaasBench.Benchctl.RouteSymmetry — comparing two templates, and comparing them the other way round

A greedy placeholder eats segments of the other side.  Where both sides go on with one, only that of the
first argument eats, so the order of the arguments shows.
-/

namespace PtaasBench.Benchctl

open Py List

/-! ## The match, segment by segment -/

section Match

variable {lenient : Bool}

@[simp] theorem segsMatch_nil_nil : segsMatch lenient [] [] = true := rfl

@[simp] theorem segsMatch_nil_cons (y : String) (b : List String) : segsMatch lenient [] (y :: b) = false := rfl

@[simp] theorem segsMatch_cons_nil (x : String) (a : List String) : segsMatch lenient (x :: a) [] = false := rfl

/-- Some end of a list, the whole of it included, matches. -/
def MatchesEnd (lenient : Bool) (a b : List String) : Prop := ∃ t, t <:+ b ∧ segsMatch lenient a t = true

theorem any_drop_iff {fuel : ℕ} {a b : List String} {y : String} (h : a.length + b.length < fuel) :
    ((List.range (b.length + 1)).any fun k => matchSegs lenient fuel a ((y :: b).drop (k + 1))) = true ↔
      MatchesEnd lenient a b := by
  have hfuel : ∀ t, t <:+ b → matchSegs lenient fuel a t = segsMatch lenient a t := by
    intro t ht
    have hle := ht.length_le
    exact (matchSegs_eq_of_le lenient _ _ a t (Nat.lt_succ_self _) (by omega)).symm
  rw [any_eq_true]
  constructor
  · rintro ⟨k, -, hk⟩
    rw [drop_succ_cons] at hk
    exact ⟨b.drop k, drop_suffix k b, (hfuel _ (drop_suffix k b)) ▸ hk⟩
  · rintro ⟨t, ht, hmatch⟩
    refine ⟨b.length - t.length, mem_range.mpr (by omega), ?_⟩
    rw [drop_succ_cons, ← suffix_iff_eq_drop.mp ht, hfuel t ht]
    exact hmatch

theorem segsMatch_greedy_left (a : List String) (y : String) (b : List String) :
    segsMatch lenient (GREEDY :: a) (y :: b) = true ↔ MatchesEnd lenient a b := by
  rw [segsMatch, matchSegs, if_pos rfl]
  apply any_drop_iff
  simp only [length_cons]
  omega

theorem segsMatch_greedy_right {x : String} (hx : x ≠ GREEDY) (a b : List String) :
    segsMatch lenient (x :: a) (GREEDY :: b) = true ↔ MatchesEnd lenient b a := by
  rw [segsMatch, matchSegs, if_neg hx, if_pos rfl]
  apply any_drop_iff
  simp only [length_cons]
  omega

theorem segsMatch_cons_cons {x y : String} (hx : x ≠ GREEDY) (hy : y ≠ GREEDY) (a b : List String) :
    segsMatch lenient (x :: a) (y :: b) = true ↔
      (x = y ∨ lenient = true ∧ (x = PLACEHOLDER ∨ y = PLACEHOLDER)) ∧ segsMatch lenient a b = true := by
  have hfuel : matchSegs lenient ((x :: a).length + (y :: b).length) a b = segsMatch lenient a b := by
    refine (matchSegs_eq_of_le lenient _ _ a b (Nat.lt_succ_self _) ?_).symm
    simp only [length_cons]
    omega
  rw [segsMatch, matchSegs, if_neg hx, if_neg hy, hfuel]
  by_cases hxy : x = y
  · simp [hxy]
  · rw [if_neg hxy]
    by_cases hwild : (lenient && (decide (x = PLACEHOLDER) || decide (y = PLACEHOLDER))) = true
    · rw [if_pos hwild]
      simp only [Bool.and_eq_true, Bool.or_eq_true, decide_eq_true_eq] at hwild
      exact ⟨fun h => ⟨Or.inr hwild, h⟩, fun h => h.2⟩
    · rw [if_neg hwild]
      simp only [Bool.and_eq_true, Bool.or_eq_true, decide_eq_true_eq] at hwild
      constructor
      · intro h
        cases h
      · rintro ⟨h | h, -⟩
        · exact absurd h hxy
        · exact absurd h hwild

end Match

/-- Without greedy placeholders, matching is being the same. -/
theorem segsMatch_strict_iff {a b : List String} (ha : GREEDY ∉ a) (hb : GREEDY ∉ b) :
    segsMatch false a b = true ↔ a = b := by
  induction a generalizing b with
  | nil => cases b <;> simp
  | cons x a ih =>
    cases b with
    | nil => simp
    | cons y b =>
      rw [mem_cons, not_or] at ha hb
      rw [segsMatch_cons_cons (Ne.symm ha.1) (Ne.symm hb.1), ih ha.2 hb.2]
      simp

/-! ## Laying one list over an end of another -/

/-- A list without greedy placeholders that fits a pattern: each greedy one of the pattern takes a run of segments. -/
inductive Fills : List String → List String → Prop where
  | nil : Fills [] []
  | literal {x : String} {a t : List String} : x ≠ GREEDY → Fills a t → Fills (x :: a) (x :: t)
  | greedy {a s t : List String} (y : String) : s <:+ t → Fills a s → Fills (GREEDY :: a) (y :: t)

/-- What stands behind the last greedy placeholder. -/
def literalEnd : List String → List String
  | [] => []
  | x :: a => if GREEDY ∈ x :: a then literalEnd a else x :: a

/-- Can one list be laid over an end of another?  Each greedy placeholder it starts with takes a segment.  If there is a
greedy one left on the other side, it takes all but the ends, of which the shorter must end the longer; if there is none,
the list is a pattern for an end of the other. -/
def Covers : List String → List String → Prop
  | [], _ => True
  | x :: a, b =>
    if x = GREEDY then b ≠ [] ∧ Covers a b.tail
    else if GREEDY ∈ b then literalEnd (x :: a) <:+ literalEnd b ∨ literalEnd b <:+ literalEnd (x :: a)
    else ∃ t, t <:+ b ∧ Fills (x :: a) t

theorem literalEnd_of_mem {x : String} {a : List String} (h : GREEDY ∈ x :: a) : literalEnd (x :: a) = literalEnd a := by
  rw [literalEnd, if_pos h]

theorem literalEnd_of_notMem {a : List String} (h : GREEDY ∉ a) : literalEnd a = a := by
  cases a with
  | nil => rfl
  | cons x a => rw [literalEnd, if_neg h]

theorem literalEnd_append {s : List String} (h : GREEDY ∈ s) (w : List String) : literalEnd (w ++ s) = literalEnd s := by
  induction w with
  | nil => rfl
  | cons x w ih => rw [cons_append, literalEnd_of_mem (mem_cons_of_mem x (mem_append_right w h)), ih]

theorem suffix_literalEnd {s b : List String} (hs : s <:+ b) (h : GREEDY ∉ s) : s <:+ literalEnd b := by
  induction b with
  | nil => exact hs
  | cons x b ih =>
    by_cases hb : GREEDY ∈ x :: b
    · rw [literalEnd_of_mem hb]
      rcases suffix_cons_iff.mp hs with rfl | hs
      · exact absurd hb h
      · exact ih hs
    · rwa [literalEnd_of_notMem hb]

theorem greedy_literalEnd_suffix {b : List String} (h : GREEDY ∈ b) : GREEDY :: literalEnd b <:+ b := by
  induction b with
  | nil => exact absurd h not_mem_nil
  | cons x b ih =>
    rw [literalEnd_of_mem h]
    by_cases hb : GREEDY ∈ b
    · exact (ih hb).trans (suffix_cons x b)
    · obtain rfl := (mem_cons.mp h).resolve_right hb
      rw [literalEnd_of_notMem hb]

theorem notMem_literalEnd (a : List String) : GREEDY ∉ literalEnd a := by
  induction a with
  | nil => exact not_mem_nil
  | cons x a ih =>
    rw [literalEnd]
    split_ifs with h
    · exact ih
    · exact h

theorem segsMatch_iff_fills {a t : List String} (ht : GREEDY ∉ t) : segsMatch false a t = true ↔ Fills a t := by
  induction a generalizing t with
  | nil =>
    cases t with
    | nil => exact iff_of_true rfl .nil
    | cons y t => exact iff_of_false Bool.false_ne_true fun h => by cases h
  | cons x a ih =>
    cases t with
    | nil => exact iff_of_false Bool.false_ne_true fun h => by cases h
    | cons y t =>
      obtain ⟨hy, ht'⟩ := not_or.mp (mt mem_cons.mpr ht)
      have hfree : ∀ s, s <:+ t → GREEDY ∉ s := fun s hs hmem => ht' (hs.subset hmem)
      by_cases hx : x = GREEDY
      · subst hx
        rw [segsMatch_greedy_left]
        constructor
        · rintro ⟨s, hs, hmatch⟩
          exact .greedy y hs ((ih (hfree s hs)).mp hmatch)
        · intro h
          cases h with
          | literal hx _ => exact absurd rfl hx
          | greedy _ hs hfill => exact ⟨_, hs, (ih (hfree _ hs)).mpr hfill⟩
      · rw [segsMatch_cons_cons hx (Ne.symm hy), ih ht']
        constructor
        · rintro ⟨rfl | h, hfill⟩
          · exact .literal hx hfill
          · exact absurd h.1 Bool.false_ne_true
        · intro h
          cases h with
          | literal _ hfill => exact ⟨Or.inl rfl, hfill⟩
          | greedy _ _ _ => exact absurd rfl hx

/-- What matches ends alike: behind the last greedy placeholders the shorter list ends the longer, and on a side without
any greedy one it ends the side itself. -/
structure EndAlike (a t : List String) : Prop where
  ends : literalEnd a <:+ literalEnd t ∨ literalEnd t <:+ literalEnd a
  left : GREEDY ∉ t → literalEnd a <:+ t
  right : GREEDY ∉ a → literalEnd t <:+ a

theorem EndAlike.symm {a t : List String} (h : EndAlike a t) : EndAlike t a := ⟨h.ends.symm, h.right, h.left⟩

/-- A greedy placeholder in front takes all but an end. -/
theorem EndAlike.greedy {a s t : List String} (h : EndAlike a s) (hs : s <:+ t) : EndAlike (GREEDY :: a) t := by
  have hend : literalEnd (GREEDY :: a) = literalEnd a := literalEnd_of_mem mem_cons_self
  have hleft : GREEDY ∉ s → literalEnd (GREEDY :: a) <:+ literalEnd t := fun hfree =>
    hend ▸ (h.left hfree).trans (suffix_literalEnd hs hfree)
  refine ⟨?_, fun ht => ?_, fun ha => absurd mem_cons_self ha⟩
  · by_cases hmem : GREEDY ∈ s
    · obtain ⟨w, rfl⟩ := hs
      rw [hend, literalEnd_append hmem w]
      exact h.ends
    · exact Or.inl (hleft hmem)
  · have hfree : GREEDY ∉ s := fun hmem => ht (hs.subset hmem)
    exact literalEnd_of_notMem ht ▸ hleft hfree

theorem EndAlike.cons {x : String} {a t : List String} (hx : x ≠ GREEDY) (h : EndAlike a t) :
    EndAlike (x :: a) (x :: t) := by
  have hmem : ∀ l : List String, GREEDY ∈ x :: l ↔ GREEDY ∈ l := fun l => by
    rw [mem_cons, or_iff_right hx.symm]
  have hend : ∀ l : List String, GREEDY ∈ l → literalEnd (x :: l) = literalEnd l := fun l hl =>
    literalEnd_of_mem ((hmem l).mpr hl)
  have hfree : ∀ l : List String, GREEDY ∉ l → literalEnd (x :: l) = x :: l := fun l hl =>
    literalEnd_of_notMem (mt (hmem l).mp hl)
  by_cases ha : GREEDY ∈ a
  · by_cases ht : GREEDY ∈ t
    · refine ⟨?_, fun hn => absurd ((hmem t).mpr ht) hn, fun hn => absurd ((hmem a).mpr ha) hn⟩
      rw [hend a ha, hend t ht]
      exact h.ends
    · have hsuffix : literalEnd (x :: a) <:+ x :: t := (hend a ha).symm ▸ (h.left ht).trans (suffix_cons x t)
      refine ⟨Or.inl ?_, fun _ => hsuffix, fun hn => absurd ((hmem a).mpr ha) hn⟩
      rwa [hfree t ht]
  · by_cases ht : GREEDY ∈ t
    · have hsuffix : literalEnd (x :: t) <:+ x :: a := (hend t ht).symm ▸ (h.right ha).trans (suffix_cons x a)
      refine ⟨Or.inr ?_, fun hn => absurd ((hmem t).mpr ht) hn, fun _ => hsuffix⟩
      rwa [hfree a ha]
    · have hle := literalEnd_of_notMem ha ▸ h.left ht
      have hge := literalEnd_of_notMem ht ▸ h.right ha
      obtain rfl : a = t := hle.eq_of_length_le hge.length_le
      have hself : literalEnd (x :: a) <:+ x :: a := (hfree a ha).symm ▸ suffix_rfl
      exact ⟨Or.inl suffix_rfl, fun _ => hself, fun _ => hself⟩

theorem endAlike_of_segsMatch {a t : List String} (h : segsMatch false a t = true) : EndAlike a t := by
  induction hn : a.length + t.length using Nat.strong_induction_on generalizing a t with
  | _ n ih =>
    cases a with
    | nil =>
      cases t with
      | nil => exact ⟨Or.inl suffix_rfl, fun _ => suffix_rfl, fun _ => suffix_rfl⟩
      | cons y t => cases h
    | cons x a =>
      cases t with
      | nil => cases h
      | cons y t =>
        rw [length_cons, length_cons] at hn
        by_cases hx : x = GREEDY
        · subst hx
          obtain ⟨s, hs, hmatch⟩ := (segsMatch_greedy_left a y t).mp h
          have hle := hs.length_le
          exact (ih _ (by omega) hmatch rfl).greedy (hs.trans (suffix_cons y t))
        · by_cases hy : y = GREEDY
          · subst hy
            obtain ⟨s, hs, hmatch⟩ := (segsMatch_greedy_right hx a t).mp h
            have hle := hs.length_le
            exact ((ih _ (by omega) hmatch rfl).greedy (hs.trans (suffix_cons x a))).symm
          · obtain ⟨rfl | hlenient, hmatch⟩ := (segsMatch_cons_cons hx hy a t).mp h
            · exact (ih _ (by omega) hmatch rfl).cons hx
            · exact absurd hlenient.1 Bool.false_ne_true

theorem matchesEnd_self {e l : List String} (he : GREEDY ∉ e) (h : e <:+ l) : MatchesEnd false e l :=
  ⟨e, h, (segsMatch_strict_iff he he).mpr rfl⟩

/-- Two lists that end alike, with a greedy placeholder on the other side to take the rest. -/
theorem matchesEnd_of_ends {x : String} {a b : List String} (hx : x ≠ GREEDY) (hb : GREEDY ∈ b)
    (h : literalEnd (x :: a) <:+ literalEnd b ∨ literalEnd b <:+ literalEnd (x :: a)) :
    MatchesEnd false (x :: a) b := by
  have hgreedy := greedy_literalEnd_suffix hb
  have hfree := notMem_literalEnd b
  -- the last greedy placeholder of the other side takes what stands before its end
  have htake : MatchesEnd false (literalEnd b) a → MatchesEnd false (x :: a) b := fun h =>
    ⟨_, hgreedy, (segsMatch_greedy_right hx a _).mpr h⟩
  by_cases ha : GREEDY ∈ a
  · rw [literalEnd_of_mem (mem_cons_of_mem x ha)] at h
    have hend := greedy_literalEnd_suffix ha
    refine htake ?_
    rcases h with h | h
    · cases he : literalEnd b with
      | nil => exact ⟨[], nil_suffix, rfl⟩
      | cons z e =>
        rw [he] at h hfree
        rcases suffix_cons_iff.mp h with heq | h
        · exact matchesEnd_self hfree (heq ▸ (suffix_cons _ _).trans hend)
        · have hz : z ≠ GREEDY := fun hz => hfree (hz ▸ mem_cons_self)
          exact ⟨_, hend, (segsMatch_greedy_right hz e _).mpr (matchesEnd_self (notMem_literalEnd a) h)⟩
    · exact matchesEnd_self hfree (h.trans ((suffix_cons _ _).trans hend))
  · have hxa : GREEDY ∉ x :: a := fun hmem => (mem_cons.mp hmem).elim (fun he => hx he.symm) ha
    rw [literalEnd_of_notMem hxa] at h
    have hself : x :: a <:+ literalEnd b → MatchesEnd false (x :: a) b := fun h =>
      matchesEnd_self hxa (h.trans ((suffix_cons _ _).trans hgreedy))
    rcases h with h | h
    · exact hself h
    · rcases suffix_cons_iff.mp h with heq | h
      · exact hself (heq ▸ suffix_rfl)
      · exact htake (matchesEnd_self hfree h)

theorem matchesEnd_iff_covers (a b : List String) : MatchesEnd false a b ↔ Covers a b := by
  induction a generalizing b with
  | nil => exact iff_of_true ⟨[], nil_suffix, rfl⟩ trivial
  | cons x a ih =>
    rw [Covers]
    by_cases hx : x = GREEDY
    · subst hx
      rw [if_pos rfl]
      cases b with
      | nil =>
        refine iff_of_false ?_ fun h => h.1 rfl
        rintro ⟨t, ht, hmatch⟩
        rw [suffix_nil.mp ht] at hmatch
        cases hmatch
      | cons y b =>
        rw [tail_cons, ← ih b, and_iff_right (cons_ne_nil y b)]
        constructor
        · rintro ⟨t, ht, hmatch⟩
          cases t with
          | nil => cases hmatch
          | cons z t =>
            obtain ⟨s, hs, hmatch⟩ := (segsMatch_greedy_left a z t).mp hmatch
            have htail : t <:+ b := by
              rcases suffix_cons_iff.mp ht with heq | ht
              · exact (List.cons.inj heq).2 ▸ suffix_rfl
              · exact (suffix_cons z t).trans ht
            exact ⟨s, hs.trans htail, hmatch⟩
        · exact fun h => ⟨y :: b, suffix_rfl, (segsMatch_greedy_left a y b).mpr h⟩
    · rw [if_neg hx]
      by_cases hb : GREEDY ∈ b
      · rw [if_pos hb]
        refine ⟨?_, matchesEnd_of_ends hx hb⟩
        rintro ⟨t, ht, hmatch⟩
        have halike := endAlike_of_segsMatch hmatch
        by_cases hmem : GREEDY ∈ t
        · obtain ⟨w, rfl⟩ := ht
          exact literalEnd_append hmem w ▸ halike.ends
        · exact Or.inl ((halike.left hmem).trans (suffix_literalEnd ht hmem))
      · rw [if_neg hb]
        exact exists_congr fun t => and_congr_right fun ht => segsMatch_iff_fills fun hmem => hb (ht.subset hmem)

/-! ## The two orders of the arguments -/

/-- What is left of two routes behind the literals and placeholders they have in common at the front. -/
def dropCommon : List String → List String → List String × List String
  | x :: a, y :: b => if x = y ∧ x ≠ GREEDY then dropCommon a b else (x :: a, y :: b)
  | a, b => (a, b)

/-- Where both sides come to a greedy placeholder at once, what follows the one can be laid over an end of what follows
the other just if that can be laid over an end of it. -/
def Balanced (a b : List String) : Prop :=
  ∀ a' b', dropCommon a b = (GREEDY :: a', GREEDY :: b') → (Covers a' b' ↔ Covers b' a')

theorem segsMatch_comm_iff (a b : List String) :
    segsMatch false a b = segsMatch false b a ↔ Balanced a b := by
  induction a generalizing b with
  | nil =>
    cases b with
    | nil => exact ⟨fun _ a' b' h => by simp [dropCommon] at h, fun _ => rfl⟩
    | cons y b => exact ⟨fun _ a' b' h => by simp [dropCommon] at h, fun _ => rfl⟩
  | cons x a ih =>
    cases b with
    | nil => exact ⟨fun _ a' b' h => by simp [dropCommon] at h, fun _ => rfl⟩
    | cons y b =>
      by_cases hx : x = GREEDY
      · subst hx
        have hrest : dropCommon (GREEDY :: a) (y :: b) = (GREEDY :: a, y :: b) := by
          rw [dropCommon, if_neg (by simp)]
        rw [Bool.eq_iff_iff, segsMatch_greedy_left, Balanced, hrest]
        by_cases hy : y = GREEDY
        · subst hy
          rw [segsMatch_greedy_left, matchesEnd_iff_covers, matchesEnd_iff_covers]
          constructor
          · rintro h a' b' heq
            cases heq
            exact h
          · intro h
            exact h a b rfl
        · rw [segsMatch_greedy_right hy]
          refine iff_of_true Iff.rfl fun a' b' heq => ?_
          cases heq
          exact absurd rfl hy
      · by_cases hy : y = GREEDY
        · subst hy
          rw [Bool.eq_iff_iff, segsMatch_greedy_left, segsMatch_greedy_right hx]
          refine iff_of_true Iff.rfl fun a' b' heq => ?_
          rw [dropCommon, if_neg (fun h => hx h.1)] at heq
          cases heq
          exact absurd rfl hx
        · by_cases hxy : x = y
          · subst hxy
            have hstep : Balanced (x :: a) (x :: b) ↔ Balanced a b := by
              rw [Balanced, Balanced, dropCommon, if_pos ⟨rfl, hx⟩]
            rw [hstep, ← ih b, Bool.eq_iff_iff, Bool.eq_iff_iff, segsMatch_cons_cons hx hx,
              segsMatch_cons_cons hx hx]
            simp
          · rw [Bool.eq_iff_iff, segsMatch_cons_cons hx hy, segsMatch_cons_cons hy hx]
            refine iff_of_true ?_ fun a' b' heq => ?_
            · simp [hxy, Ne.symm hxy]
            · rw [dropCommon, if_neg (fun h => hxy h.1)] at heq
              cases heq
              exact absurd rfl hx

/-! ## Routes -/

theorem balanced_of_unmatched {a b : List String} (h : a = [UNMATCHED] ∨ b = [UNMATCHED]) : Balanced a b := by
  have hne : UNMATCHED ≠ GREEDY := by decide
  intro a' b' heq
  rcases h with rfl | rfl
  · cases b with
    | nil => exact absurd (Prod.mk.inj heq).2 (by simp)
    | cons y b =>
      rw [dropCommon] at heq
      split_ifs at heq
      · cases b <;> cases heq
      · exact absurd (List.cons.inj (Prod.mk.inj heq).1).1 hne
  · cases a with
    | nil => exact absurd (Prod.mk.inj heq).1 (by simp)
    | cons x a =>
      rw [dropCommon] at heq
      split_ifs at heq
      · cases a <;> cases heq
      · exact absurd (List.cons.inj (Prod.mk.inj heq).2).1 hne

/-- Comparing two templates gives the same either way just if the templates are balanced. -/
theorem routesEqual_comm_iff [Runtime] (a b : String) :
    routesEqual a b = routesEqual b a ↔ Balanced (routeSegments a) (routeSegments b) := by
  unfold routesEqual
  dsimp only
  by_cases h : routeSegments a = [UNMATCHED] ∨ routeSegments b = [UNMATCHED]
  · rw [if_pos h, if_pos h.symm]
    refine iff_of_true ?_ (balanced_of_unmatched h)
    rw [Bool.eq_iff_iff, decide_eq_true_eq, decide_eq_true_eq]
    exact eq_comm
  · rw [if_neg h, if_neg fun hba => h hba.symm]
    exact segsMatch_comm_iff _ _

/-- A catch-all over all files, and one over those of a name. -/
theorem catch_all_one_way :
    @routesEqual Runtime.ascii "/files/\x7b*path\x7d" "/files/\x7b*path\x7d/raw" ≠
      @routesEqual Runtime.ascii "/files/\x7b*path\x7d/raw" "/files/\x7b*path\x7d" := by
  decide +kernel

end PtaasBench.Benchctl
