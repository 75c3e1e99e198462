import PtaasBench.Benchctl.Inventory

/-!
# PtaasBench.Benchctl.HostForm — normalising a normalised host

`normalize_host` takes off one layer: the brackets, or the port and then the dots.  What it leaves may have a
layer of its own (`Layered`), which the second reading in `resolve_host` and `host_matches` takes off too.
-/

namespace PtaasBench.Benchctl

open Py List

/-- What lower case keeps of a text. -/
class LowerRuntime extends Runtime where
  lower_stable : ∀ s t : String, (∀ c ∈ t.toList, c ∈ (lower s).toList) → lower t = t
  lower_strip : ∀ s, strip s = s → strip (lower s) = lower s
  isDigit_visible : ∀ c, isDigit c = true → isSpace c = false

/-! ## White space at the ends -/

section Trim

theorem rdropWhile_append_of_all {p : Char → Bool} (l : List Char) {back : List Char}
    (h : ∀ c ∈ back, p c = true) : (l ++ back).rdropWhile p = l.rdropWhile p := by
  rw [List.rdropWhile, reverse_append, dropWhile_append_of_pos]
  · rfl
  · exact fun c hc => h c (mem_reverse.mp hc)

theorem rdropWhile_of_last {p : Char → Bool} {l : List Char}
    (h : ∀ c, l.getLast? = some c → p c = false) : l.rdropWhile p = l := by
  rw [rdropWhile_eq_self_iff]
  intro hl
  rw [h _ (List.getLast?_eq_some_getLast hl)]
  exact Bool.false_ne_true

theorem getLast?_rdropWhile {p : Char → Bool} {l : List Char} {c : Char}
    (h : (l.rdropWhile p).getLast? = some c) : p c = false := by
  have hne : l.rdropWhile p ≠ [] := by
    rintro hnil
    rw [hnil] at h
    cases h
  rw [List.getLast?_eq_some_getLast hne] at h
  obtain rfl := Option.some.inj h
  exact Bool.eq_false_iff.mpr (rdropWhile_last_not p l hne)

/-- `str.strip()` on the characters. -/
def trim (l : List Char) : List Char := (l.dropWhile isSpace).rdropWhile isSpace

/-- No white space at either end. -/
def Trimmed (l : List Char) : Prop :=
  (∀ c, l.head? = some c → isSpace c = false) ∧ ∀ c, l.getLast? = some c → isSpace c = false

theorem toList_strip (s : String) : (strip s).toList = trim s.toList := by
  rw [strip, stripBy, String.toList_ofList, trim]

theorem trim_append {front l back : List Char} (hfront : ∀ c ∈ front, isSpace c = true) (hl : Trimmed l)
    (hback : ∀ c ∈ back, isSpace c = true) : trim (front ++ (l ++ back)) = l := by
  rw [trim, dropWhile_append_of_pos hfront]
  cases l with
  | nil =>
    rw [nil_append, dropWhile_eq_nil_iff.mpr hback]
    rfl
  | cons c l =>
    have hc : isSpace c = false := hl.1 c rfl
    rw [cons_append, dropWhile_cons_of_neg (by rw [hc]; exact Bool.false_ne_true), ← cons_append,
      rdropWhile_append_of_all _ hback]
    exact rdropWhile_of_last hl.2

theorem trim_eq_self {l : List Char} (h : Trimmed l) : trim l = l := by
  have := @trim_append [] l [] (forall_mem_nil _) h (forall_mem_nil _)
  rwa [nil_append, append_nil] at this

theorem trim_spec (l : List Char) : ∃ front back, l = front ++ (trim l ++ back) ∧ Trimmed (trim l) ∧
    (∀ c ∈ front, isSpace c = true) ∧ ∀ c ∈ back, isSpace c = true := by
  refine ⟨l.takeWhile isSpace, (l.dropWhile isSpace).rtakeWhile isSpace, ?_, ⟨?_, ?_⟩, ?_, ?_⟩
  · rw [trim, rdropWhile_append_rtakeWhile, takeWhile_append_dropWhile]
  · intro c hc
    have hhead : (l.dropWhile isSpace).head? = some c := by
      obtain ⟨rest, hrest⟩ := List.rdropWhile_prefix isSpace (l.dropWhile isSpace)
      rw [← hrest, List.head?_append]
      rw [trim] at hc
      rw [hc]
      rfl
    have := List.head?_dropWhile_not isSpace l
    rw [hhead] at this
    exact this
  · exact fun c hc => getLast?_rdropWhile hc
  · exact fun c hc => mem_takeWhile_imp hc
  · intro c hc
    rw [List.rtakeWhile, mem_reverse] at hc
    exact mem_takeWhile_imp hc

theorem trim_eq_self_iff {l : List Char} : trim l = l ↔ Trimmed l := by
  constructor
  · intro h
    obtain ⟨_, _, _, htrimmed, _⟩ := trim_spec l
    rwa [h] at htrimmed
  · exact trim_eq_self

theorem dropWhile_append_visible (l : List Char) {c : Char} {rest : List Char} (hc : isSpace c = false) :
    (l ++ c :: rest).dropWhile isSpace = l.dropWhile isSpace ++ c :: rest := by
  rw [dropWhile_append]
  split_ifs with h
  · rw [List.isEmpty_iff.mp h, nil_append, dropWhile_cons_of_neg (by rw [hc]; exact Bool.false_ne_true)]
  · rfl

theorem trim_append_visible (l : List Char) {c : Char} {back : List Char} (hc : isSpace c = false)
    (hback : ∀ d ∈ back, isSpace d = true) : trim (l ++ c :: back) = l.dropWhile isSpace ++ [c] := by
  rw [trim, dropWhile_append_visible l hc, append_cons, rdropWhile_append_of_all _ hback]
  refine rdropWhile_of_last fun d hd => ?_
  rw [List.getLast?_append, List.getLast?_singleton] at hd
  obtain rfl := Option.some.inj hd
  exact hc

theorem head?_trim_append {front : List Char} {c : Char} {rest : List Char} (hc : isSpace c = false)
    (hfront : ∀ d ∈ front, isSpace d = true) : (trim (front ++ c :: rest)).head? = some c := by
  rw [trim, dropWhile_append_visible front hc, dropWhile_eq_nil_iff.mpr hfront, nil_append]
  obtain ⟨back, hback⟩ := List.rdropWhile_prefix isSpace (c :: rest)
  cases hkept : (c :: rest).rdropWhile isSpace with
  | nil =>
    have := rdropWhile_eq_nil_iff.mp hkept c mem_cons_self
    rw [hc] at this
    cases this
  | cons d kept =>
    rw [hkept, cons_append] at hback
    rw [List.head?_cons, (List.cons.inj hback).1]

theorem length_trim_le (l : List Char) : (trim l).length ≤ l.length := by
  obtain ⟨front, back, hl, -⟩ := trim_spec l
  have := congrArg List.length hl
  rw [length_append, length_append] at this
  omega

end Trim

/-! ## What one reading leaves -/

section Reading

variable [Runtime]

/-- The digits of a port. -/
def PortDigits (ds : List Char) : Prop := ds ≠ [] ∧ ∀ d ∈ ds, isDigit d = true

/-- One colon, and digits behind it. -/
def HasPort (v : List Char) : Prop := ∃ name ds, v = name ++ ':' :: ds ∧ ':' ∉ name ∧ PortDigits ds

theorem isDigit_mark {c : Char} (h : c = ':' ∨ c = '.' ∨ c = ']') : isDigit c = false := by
  rcases h with rfl | rfl | rfl <;> rw [Runtime.isDigit_ascii _ (by decide)] <;> decide

theorem PortDigits.notMem {ds : List Char} (h : PortDigits ds) {c : Char} (hc : c = ':' ∨ c = '.' ∨ c = ']') :
    c ∉ ds := by
  intro hmem
  have := h.2 c hmem
  rw [isDigit_mark hc] at this
  cases this

omit [Runtime] in
theorem takeWhile_ne_append {a : Char} {xs ys : List Char} (hx : a ∉ xs) (hy : ys = [] ∨ ys.head? = some a) :
    (xs ++ ys).takeWhile (· != a) = xs ∧ (xs ++ ys).dropWhile (· != a) = ys := by
  have hall : ∀ c ∈ xs, (c != a) = true := fun c hc => bne_iff_ne.mpr fun h => hx (h ▸ hc)
  rw [takeWhile_append_of_pos hall, dropWhile_append_of_pos hall]
  rcases hy with rfl | hy
  · simp
  · cases ys with
    | nil => cases hy
    | cons y ys =>
      obtain rfl := Option.some.inj hy
      simp

theorem hasPort_iff {v : String} :
    (v.toList.count ':' = 1 ∧ afterChar ':' v ≠ "" ∧ (afterChar ':' v).toList.all isDigit = true) ↔
      HasPort v.toList := by
  rw [afterChar, String.toList_ofList, all_eq_true]
  constructor
  · rintro ⟨hcount, htail, hdigits⟩
    have hmem : ':' ∈ v.toList := count_pos_iff.mp (by omega)
    obtain ⟨name, ds, hv, hname⟩ := eq_append_cons_of_mem hmem
    rw [hv, (takeWhile_ne_append hname (Or.inr rfl)).2, drop_one, tail_cons] at htail hdigits
    exact ⟨name, ds, hv, hname, fun h => htail (by rw [h]), hdigits⟩
  · rintro ⟨name, ds, hv, hname, hds⟩
    rw [hv, (takeWhile_ne_append hname (Or.inr rfl)).2, drop_one, tail_cons]
    refine ⟨?_, fun h => hds.1 (String.ofList_injective h), hds.2⟩
    rw [count_append, count_cons_self, count_eq_zero.mpr hname,
      count_eq_zero.mpr (hds.notMem (Or.inl rfl))]

instance (v : List Char) : Decidable (HasPort v) :=
  decidable_of_iff _ ((hasPort_iff (v := String.ofList v)).trans (by rw [String.toList_ofList]))

/-- `None` for the empty text. -/
def textOrNone (l : List Char) : Option String := if l = [] then none else some (String.ofList l)

/-- `normalize_host` on trimmed text in lower case. -/
def reading (v : List Char) : List Char :=
  if v.head? = some '[' then trim ((v.drop 1).takeWhile (· != ']'))
  else (if HasPort v then v.takeWhile (· != ':') else v).rdropWhile (· == '.')

theorem normalizeHost_eq_reading (s : String) :
    normalizeHost (some s) = textOrNone (reading (lower (strip s)).toList) := by
  have hnone : ∀ t : String, (if t = "" then none else some t) = textOrNone t.toList := by
    intro t
    rw [textOrNone, String.ofList_toList]
    exact if_congr (String.toList_eq_nil_iff.symm) rfl rfl
  have hnil : textOrNone (reading []) = none := by
    have hport : ¬ HasPort [] := by
      rintro ⟨name, ds, h, -⟩
      simp at h
    rw [reading, if_neg (by simp), if_neg hport]
    rfl
  rw [normalizeHost]
  dsimp only [Option.getD_some]
  by_cases hs : s = ""
  · have hlower : (lower (strip s)).toList = [] := by
      rw [hs, Runtime.lower_ascii _ (by decide)]
      rfl
    rw [hlower, hnil, hs]
    rfl
  · have hgiven : (!given (some s)) = false := by
      simp [given, hs]
    rw [hgiven, if_neg Bool.false_ne_true]
    generalize lower (strip s) = v
    by_cases hv : v = ""
    · rw [if_pos hv, hv]
      exact hnil.symm
    · rw [if_neg hv, reading]
      have hbracket : startsWith v "[" = true ↔ v.toList.head? = some '[' := by
        cases h : v.toList with
        | nil => exact absurd (String.toList_eq_nil_iff.mp h) hv
        | cons c cs =>
          have hopen : "[".toList = ['['] := rfl
          rw [startsWith, h, hopen, List.isPrefixOf_iff_prefix, cons_prefix_cons, List.head?_cons, Option.some_inj]
          exact ⟨fun h => h.1.symm, fun h => ⟨h.symm, List.nil_prefix⟩⟩
      by_cases hhead : v.toList.head? = some '['
      · rw [if_pos (hbracket.mpr hhead), if_pos hhead, hnone, toList_strip, beforeChar, String.toList_ofList,
          String.toList_ofList]
      · rw [if_neg (fun h => hhead (hbracket.mp h)), if_neg hhead, hnone, rstripDot, String.toList_ofList]
        by_cases hport : HasPort v.toList
        · rw [if_pos (hasPort_iff.mpr hport), if_pos hport, beforeChar, String.toList_ofList]
        · rw [if_neg (fun h => hport (hasPort_iff.mp h)), if_neg hport]

theorem reading_bracket {inside rest : List Char} (h : ']' ∉ inside) (hrest : rest = [] ∨ rest.head? = some ']') :
    reading ('[' :: (inside ++ rest)) = trim inside := by
  rw [reading, if_pos List.head?_cons, drop_one, tail_cons, (takeWhile_ne_append h hrest).1]

omit [Runtime] in
theorem head?_append_mark {name rest : List Char} {c : Char} (hc : c ≠ '[') :
    (name ++ c :: rest).head? = some '[' ↔ name.head? = some '[' := by
  cases name with
  | nil => simp [hc]
  | cons d name => rfl

theorem reading_port {name ds : List Char} (hhead : name.head? ≠ some '[') (hname : ':' ∉ name)
    (hds : PortDigits ds) : reading (name ++ ':' :: ds) = name.rdropWhile (· == '.') := by
  have hopen : (name ++ ':' :: ds).head? ≠ some '[' := fun h => hhead ((head?_append_mark (by decide)).mp h)
  rw [reading, if_neg hopen, if_pos ⟨name, ds, rfl, hname, hds⟩, (takeWhile_ne_append hname (Or.inr rfl)).1]

theorem reading_plain {v : List Char} (hhead : v.head? ≠ some '[') (hport : ¬ HasPort v) :
    reading v = v.rdropWhile (· == '.') := by
  rw [reading, if_neg hhead, if_neg hport]

omit [Runtime] in
theorem length_takeWhile_le (p : Char → Bool) (l : List Char) : (l.takeWhile p).length ≤ l.length :=
  (List.takeWhile_prefix p).length_le

theorem length_reading_le (v : List Char) : (reading v).length ≤ v.length := by
  rw [reading]
  split_ifs
  · have h1 := length_trim_le ((v.drop 1).takeWhile (· != ']'))
    have h2 := length_takeWhile_le (· != ']') (v.drop 1)
    rw [length_drop] at h2
    omega
  · exact (List.rdropWhile_prefix _ _).length_le.trans (length_takeWhile_le _ v)
  · exact (List.rdropWhile_prefix _ _).length_le

theorem mem_of_mem_reading {v : List Char} {c : Char} (h : c ∈ reading v) : c ∈ v := by
  rw [reading] at h
  split_ifs at h
  · obtain ⟨front, back, hl, -⟩ := trim_spec ((v.drop 1).takeWhile (· != ']'))
    have hc : c ∈ (v.drop 1).takeWhile (· != ']') := by
      rw [hl]
      exact mem_append_right _ (mem_append_left _ h)
    exact mem_of_mem_drop ((List.takeWhile_prefix _).subset hc)
  · exact (List.takeWhile_prefix _).subset ((List.rdropWhile_prefix _ _).subset h)
  · exact (List.rdropWhile_prefix _ _).subset h

/-- A host from which a reading takes nothing. -/
structure Bare (r : List Char) : Prop where
  trimmed : Trimmed r
  head : r.head? ≠ some '['
  port : ¬ HasPort r
  last : r.getLast? ≠ some '.'

theorem reading_trim_eq_self_iff {r : List Char} : reading (trim r) = r ↔ Bare r := by
  constructor
  · intro h
    have hlength := congrArg List.length h
    have hle := length_reading_le (trim r)
    have htrim := length_trim_le r
    have htrimmed : Trimmed r := by
      obtain ⟨front, back, hr, ht, -⟩ := trim_spec r
      have := congrArg List.length hr
      rw [length_append, length_append] at this
      have hfront : front = [] := length_eq_zero_iff.mp (by omega)
      have hback : back = [] := length_eq_zero_iff.mp (by omega)
      rw [hfront, hback, nil_append, append_nil] at hr
      rwa [← hr] at ht
    rw [trim_eq_self htrimmed] at h hlength
    by_cases hhead : r.head? = some '['
    · have hshort : (reading r).length < r.length := by
        cases r with
        | nil => cases hhead
        | cons c t =>
          rw [reading, if_pos hhead]
          have h1 := length_trim_le (((c :: t).drop 1).takeWhile (· != ']'))
          have h2 := length_takeWhile_le (· != ']') ((c :: t).drop 1)
          rw [length_drop, length_cons] at h2
          rw [length_cons]
          omega
      omega
    · by_cases hport : HasPort r
      · obtain ⟨name, ds, rfl, hname, hds⟩ := hport
        have hopen : name.head? ≠ some '[' := fun h => hhead ((head?_append_mark (by decide)).mpr h)
        rw [reading_port hopen hname hds] at h
        have := (List.rdropWhile_prefix (· == '.') name).length_le
        rw [h, length_append, length_cons] at this
        omega
      · rw [reading_plain hhead hport] at h
        refine ⟨htrimmed, hhead, hport, fun hlast => ?_⟩
        rw [← h] at hlast
        have := getLast?_rdropWhile hlast
        cases this
  · intro h
    rw [trim_eq_self h.trimmed, reading_plain h.head h.port]
    refine rdropWhile_of_last fun c hc => beq_eq_false_iff_ne.mpr ?_
    rintro rfl
    exact h.last hc

end Reading

/-! ## A layer under another -/

section Layers

variable [Runtime]

/-- White space only. -/
def Blank (l : List Char) : Prop := ∀ c ∈ l, isSpace c = true

/-- Dots only. -/
def Dots (l : List Char) : Prop := ∀ c ∈ l, c = '.'

/-- What may stand behind the text in brackets: the closing bracket, or nothing. -/
def Closed (l : List Char) : Prop := l = [] ∨ l.head? = some ']'

/-- A host with one decoration under another: brackets around a bracket, a dot or a port; dots behind a port;
white space before the dots, or before the dots of a port. -/
inductive Layered : List Char → Prop
  | bracketInBrackets {blank rest : List Char} : Blank blank → Layered ('[' :: (blank ++ '[' :: rest))
  | dotInBrackets {inside blank rest : List Char} : ']' ∉ inside → Blank blank → Closed rest →
      Layered ('[' :: (inside ++ '.' :: (blank ++ rest)))
  | portInBrackets {name ds blank rest : List Char} : ']' ∉ name → ':' ∉ name → PortDigits ds → Blank blank →
      Closed rest → Layered ('[' :: (name ++ ':' :: (ds ++ (blank ++ rest))))
  | dotsAfterPort {name ds dots : List Char} : name.head? ≠ some '[' → ':' ∉ name → PortDigits ds → dots ≠ [] →
      Dots dots → Layered (name ++ ':' :: (ds ++ dots))
  | blankBeforeDots {name dots : List Char} {c : Char} : name.head? ≠ some '[' → isSpace c = true → dots ≠ [] →
      Dots dots → Layered (name ++ c :: dots)
  | blankBeforePort {name dots ds : List Char} {c : Char} : name.head? ≠ some '[' → ':' ∉ name →
      isSpace c = true → Dots dots → PortDigits ds → Layered (name ++ c :: (dots ++ ':' :: ds))

omit [Runtime] in
theorem closed_dropWhile (t : List Char) : Closed (t.dropWhile (· != ']')) := by
  have hnot := List.head?_dropWhile_not (· != ']') t
  cases hhead : (t.dropWhile (· != ']')).head? with
  | none => exact Or.inl (List.head?_eq_none_iff.mp hhead)
  | some c =>
    rw [hhead] at hnot
    have hc : c = ']' := by simpa using hnot
    exact Or.inr (hc ▸ hhead)

omit [Runtime] in
theorem Blank.notMem {blank : List Char} (h : Blank blank) : ']' ∉ blank := by
  intro hmem
  have := h _ hmem
  rw [show isSpace ']' = false by decide] at this
  cases this

omit [Runtime] in
theorem rdropWhile_dots {l dots : List Char} {c : Char} (hc : c ≠ '.') (hdots : Dots dots) :
    (l ++ c :: dots).rdropWhile (· == '.') = l ++ [c] := by
  rw [append_cons, rdropWhile_append_of_all _ fun d hd => beq_iff_eq.mpr (hdots d hd)]
  refine rdropWhile_of_last fun d hd => beq_eq_false_iff_ne.mpr ?_
  rw [List.getLast?_append, List.getLast?_singleton] at hd
  obtain rfl := Option.some.inj hd
  exact hc

/-- A port ends in a digit. -/
theorem not_hasPort_of_dots {l dots : List Char} (hne : dots ≠ []) (hdots : Dots dots) : ¬ HasPort (l ++ dots) := by
  rintro ⟨name, ds, h, -, hds⟩
  have hlast := congrArg List.getLast? h
  have hds' : (name ++ ':' :: ds).getLast? = some (ds.getLast hds.1) := by
    rw [append_cons, List.getLast?_append, List.getLast?_eq_some_getLast hds.1]
    rfl
  rw [hds', List.getLast?_append, List.getLast?_eq_some_getLast hne] at hlast
  have hdot := hdots _ (getLast_mem hne)
  have hdigit := hds.2 _ (getLast_mem hds.1)
  rw [← Option.some.inj hlast, hdot, isDigit_mark (by simp)] at hdigit
  cases hdigit

end Layers

section Idempotence

variable [LowerRuntime]

theorem Layered.not_bare {v : List Char} (h : Layered v) : reading v ≠ [] ∧ ¬ Bare (reading v) := by
  cases h with
  | @bracketInBrackets blank rest hblank =>
    have hsplit : '[' :: (blank ++ '[' :: rest) = '[' :: ((blank ++ '[' :: rest.takeWhile (· != ']')) ++
        rest.dropWhile (· != ']')) := by
      rw [append_assoc, cons_append, takeWhile_append_dropWhile]
    have hinside : ']' ∉ blank ++ '[' :: rest.takeWhile (· != ']') := by
      rw [mem_append, mem_cons]
      rintro (h | h | h)
      · exact hblank.notMem h
      · cases h
      · exact absurd (mem_takeWhile_imp h) (by simp)
    have hhead := @head?_trim_append blank '[' (rest.takeWhile (· != ']')) (by decide) hblank
    rw [hsplit, reading_bracket hinside (closed_dropWhile rest)]
    refine ⟨fun hnil => ?_, fun hbare => hbare.head hhead⟩
    rw [hnil] at hhead
    cases hhead
  | @dotInBrackets inside blank rest hinside hblank hrest =>
    have hsplit : '[' :: (inside ++ '.' :: (blank ++ rest)) = '[' :: ((inside ++ '.' :: blank) ++ rest) := by
      rw [append_assoc, cons_append]
    have hmem : ']' ∉ inside ++ '.' :: blank := by
      rw [mem_append, mem_cons]
      rintro (h | h | h)
      · exact hinside h
      · cases h
      · exact hblank.notMem h
    rw [hsplit, reading_bracket hmem hrest, trim_append_visible inside (by decide) hblank]
    exact ⟨by simp, fun hbare => hbare.last (by simp)⟩
  | @portInBrackets name ds blank rest hbracket hname hds hblank hrest =>
    obtain ⟨init, d, rfl⟩ : ∃ init d, ds = init ++ [d] :=
      ⟨ds.dropLast, ds.getLast hds.1, (dropLast_append_getLast hds.1).symm⟩
    have hd : isSpace d = false := LowerRuntime.isDigit_visible d (hds.2 d (by simp))
    have hsplit : '[' :: (name ++ ':' :: ((init ++ [d]) ++ (blank ++ rest))) =
        '[' :: (((name ++ ':' :: init) ++ d :: blank) ++ rest) := by
      simp
    have hmem : ']' ∉ (name ++ ':' :: init) ++ d :: blank := by
      have hdigits := hds.notMem (Or.inr (Or.inr rfl))
      rw [mem_append, mem_singleton, not_or] at hdigits
      rw [mem_append, mem_append, mem_cons, mem_cons]
      rintro ((h | h | h) | h | h)
      · exact hbracket h
      · cases h
      · exact hdigits.1 h
      · exact hdigits.2 h
      · exact hblank.notMem h
    have hkept : ':' ∉ name.dropWhile isSpace := fun h => hname ((dropWhile_suffix isSpace).subset h)
    rw [hsplit, reading_bracket hmem hrest, trim_append_visible _ hd hblank, dropWhile_append_visible _ (by decide)]
    refine ⟨by simp, fun hbare => hbare.port ⟨name.dropWhile isSpace, init ++ [d], ?_, hkept, hds⟩⟩
    rw [append_assoc, cons_append]
  | @dotsAfterPort name ds dots hhead hname hds hne hdots =>
    have hsplit : name ++ ':' :: (ds ++ dots) = (name ++ ':' :: ds) ++ dots := by
      rw [append_assoc, cons_append]
    have hreading : reading (name ++ ':' :: (ds ++ dots)) = name ++ ':' :: ds := by
      rw [reading_plain (fun h => hhead ((head?_append_mark (by decide)).mp h))
        (hsplit ▸ not_hasPort_of_dots hne hdots), hsplit,
        rdropWhile_append_of_all _ fun c hc => beq_iff_eq.mpr (hdots c hc)]
      refine rdropWhile_of_last fun c hc => beq_eq_false_iff_ne.mpr ?_
      rintro rfl
      rw [append_cons, List.getLast?_append_of_ne_nil _ hds.1] at hc
      exact hds.notMem (by simp) (mem_of_getLast? hc)
    rw [hreading]
    exact ⟨by simp, fun hbare => hbare.port ⟨name, ds, rfl, hname, hds⟩⟩
  | @blankBeforeDots name dots c hhead hc hne hdots =>
    have hdot : c ≠ '.' := by
      rintro rfl
      exact absurd hc (by decide)
    have hopen : c ≠ '[' := by
      rintro rfl
      exact absurd hc (by decide)
    have hport : ¬ HasPort (name ++ c :: dots) := by
      rw [append_cons]
      exact not_hasPort_of_dots hne hdots
    rw [reading_plain (fun h => hhead ((head?_append_mark hopen).mp h)) hport, rdropWhile_dots hdot hdots]
    refine ⟨by simp, fun hbare => ?_⟩
    have := hbare.trimmed.2 c (by simp)
    rw [hc] at this
    cases this
  | @blankBeforePort name dots ds c hhead hname hc hdots hds =>
    have hdot : c ≠ '.' := by
      rintro rfl
      exact absurd hc (by decide)
    have hopen : c ≠ '[' := by
      rintro rfl
      exact absurd hc (by decide)
    have hcolon : ':' ∉ name ++ c :: dots := by
      rw [mem_append, mem_cons]
      rintro (h | rfl | h)
      · exact hname h
      · exact absurd hc (by decide)
      · exact absurd (hdots _ h) (by decide)
    have hsplit : name ++ c :: (dots ++ ':' :: ds) = (name ++ c :: dots) ++ ':' :: ds := by
      rw [append_assoc, cons_append]
    rw [hsplit, reading_port (fun h => hhead ((head?_append_mark hopen).mp h)) hcolon hds, rdropWhile_dots hdot hdots]
    refine ⟨by simp, fun hbare => ?_⟩
    have := hbare.trimmed.2 c (by simp)
    rw [hc] at this
    cases this

theorem bare_of_brackets {t : List Char} (h : ¬ Layered ('[' :: t)) : Bare (reading ('[' :: t)) := by
  have hinside : ']' ∉ t.takeWhile (· != ']') := fun hmem => absurd (mem_takeWhile_imp hmem) (by simp)
  have hrest := closed_dropWhile t
  have ht : t.takeWhile (· != ']') ++ t.dropWhile (· != ']') = t := takeWhile_append_dropWhile
  revert hinside hrest ht
  generalize t.takeWhile (· != ']') = inside
  generalize t.dropWhile (· != ']') = rest
  rintro hinside hrest rfl
  rw [reading_bracket hinside hrest]
  obtain ⟨front, back, hsplit, htrimmed, hfront, hback⟩ := trim_spec inside
  revert hsplit htrimmed
  generalize trim inside = r
  rintro rfl htrimmed
  have hclosed : ']' ∉ r := fun hr => hinside (mem_append_right _ (mem_append_left _ hr))
  refine ⟨htrimmed, fun hhead => h ?_, fun hport => h ?_, fun hlast => h ?_⟩
  · obtain ⟨more, rfl⟩ := List.head?_eq_some_iff.mp hhead
    rw [append_assoc, append_assoc, cons_append]
    exact .bracketInBrackets hfront
  · obtain ⟨name, ds, rfl, hname, hds⟩ := hport
    have hshape : front ++ ((name ++ ':' :: ds) ++ back) ++ rest =
        (front ++ name) ++ ':' :: (ds ++ (back ++ rest)) := by simp
    rw [hshape]
    refine .portInBrackets ?_ ?_ hds hback hrest
    · rw [mem_append, not_or]
      exact ⟨Blank.notMem hfront, fun hc => hclosed (mem_append_left _ hc)⟩
    · rw [mem_append, not_or]
      exact ⟨fun hc => absurd (hfront _ hc) (by decide), hname⟩
  · obtain ⟨more, rfl⟩ := List.getLast?_eq_some_iff.mp hlast
    have hshape : front ++ ((more ++ ['.']) ++ back) ++ rest = (front ++ more) ++ '.' :: (back ++ rest) := by simp
    rw [hshape]
    refine .dotInBrackets ?_ hback hrest
    rw [mem_append, not_or]
    exact ⟨Blank.notMem hfront, fun hc => hclosed (mem_append_left _ hc)⟩

omit [LowerRuntime] in
/-- A name with its dots taken off, at the head of a host. -/
theorem exists_dots (l : List Char) : ∃ dots, l = l.rdropWhile (· == '.') ++ dots ∧ Dots dots ∧
    (l.rdropWhile (· == '.')).getLast? ≠ some '.' := by
  refine ⟨l.rtakeWhile (· == '.'), rdropWhile_append_rtakeWhile.symm, fun c hc => ?_, fun hc => ?_⟩
  · rw [List.rtakeWhile, mem_reverse] at hc
    exact beq_iff_eq.mp (mem_takeWhile_imp (p := (· == '.')) hc)
  · exact absurd (getLast?_rdropWhile (p := (· == '.')) hc) (by decide)

omit [LowerRuntime] in
theorem head?_of_append {r rest : List Char} (hr : r ≠ []) : (r ++ rest).head? = r.head? := by
  cases r with
  | nil => exact absurd rfl hr
  | cons c r => rfl

theorem bare_of_name {v : List Char} (h : ¬ Layered v) (ht : Trimmed v) (hhead : v.head? ≠ some '[')
    (hr : reading v ≠ []) : Bare (reading v) := by
  by_cases hport : HasPort v
  · obtain ⟨name, ds, rfl, hname, hds⟩ := hport
    have hopen : name.head? ≠ some '[' := fun hh => hhead ((head?_append_mark (by decide)).mpr hh)
    rw [reading_port hopen hname hds] at hr ⊢
    obtain ⟨dots, hsplit, hdots, hlast⟩ := exists_dots name
    revert hsplit hlast hr
    generalize name.rdropWhile (· == '.') = r
    rintro hr rfl hlast
    rw [mem_append, not_or] at hname
    rw [head?_of_append hr] at hopen
    refine ⟨⟨fun c hc => ?_, fun c hc => ?_⟩, hopen, ?_, hlast⟩
    · refine ht.1 c ?_
      rw [append_assoc, head?_of_append hr]
      exact hc
    · by_contra hblank
      obtain ⟨more, rfl⟩ := List.getLast?_eq_some_iff.mp hc
      have hshape : (more ++ [c] ++ dots) ++ ':' :: ds = more ++ c :: (dots ++ ':' :: ds) := by simp
      have hcolon : ':' ∉ more := fun hm => hname.1 (mem_append_left _ hm)
      have hfirst : more.head? ≠ some '[' := by
        intro hh
        cases more with
        | nil => cases hh
        | cons d more => exact hopen hh
      rw [hshape] at h
      exact h (.blankBeforePort hfirst hcolon (Bool.not_eq_false _ ▸ hblank) hdots hds)
    · rintro ⟨name', ds', rfl, -⟩
      exact hname.1 (by simp)
  · rw [reading_plain hhead hport] at hr ⊢
    obtain ⟨dots, hsplit, hdots, hlast⟩ := exists_dots v
    revert hsplit hlast hr
    generalize v.rdropWhile (· == '.') = r
    rintro hr rfl hlast
    have hopen : r.head? ≠ some '[' := by rwa [head?_of_append hr] at hhead
    refine ⟨⟨fun c hc => ht.1 c (by rwa [head?_of_append hr]), fun c hc => ?_⟩, hopen, ?_, hlast⟩
    · by_cases hnil : dots = []
      · refine ht.2 c ?_
        rwa [hnil, append_nil]
      · by_contra hblank
        obtain ⟨more, rfl⟩ := List.getLast?_eq_some_iff.mp hc
        have hfirst : more.head? ≠ some '[' := by
          intro hh
          cases more with
          | nil => cases hh
          | cons d more => exact hopen hh
        rw [← append_cons] at h
        exact h (.blankBeforeDots hfirst (Bool.not_eq_false _ ▸ hblank) hnil hdots)
    · intro hports
      by_cases hnil : dots = []
      · rw [hnil, append_nil] at hport
        exact hport hports
      · obtain ⟨name, ds, rfl, hname, hds⟩ := hports
        have hfirst : name.head? ≠ some '[' := fun hh => hopen ((head?_append_mark (by decide)).mpr hh)
        rw [append_assoc, cons_append] at h
        exact h (.dotsAfterPort hfirst hname hds hnil hdots)

theorem layered_iff {v : List Char} (ht : Trimmed v) : ¬ Layered v ↔ reading v = [] ∨ Bare (reading v) := by
  constructor
  · intro h
    by_cases hr : reading v = []
    · exact Or.inl hr
    · right
      by_cases hhead : v.head? = some '['
      · obtain ⟨t, rfl⟩ := List.head?_eq_some_iff.mp hhead
        exact bare_of_brackets h
      · exact bare_of_name h ht hhead hr
  · intro h hlayered
    obtain ⟨hne, hbare⟩ := hlayered.not_bare
    exact h.elim hne hbare

theorem trimmed_lower_strip (s : String) : Trimmed (lower (strip s)).toList := by
  have hstrip : strip (strip s) = strip s := by
    apply String.toList_injective
    obtain ⟨_, _, _, htrimmed, _⟩ := trim_spec s.toList
    rw [toList_strip, toList_strip, trim_eq_self htrimmed]
  have h := congrArg String.toList (LowerRuntime.lower_strip _ hstrip)
  rw [toList_strip] at h
  exact trim_eq_self_iff.mp h

/-- The second reading sees what the first one left. -/
theorem normalizeHost_twice_iff (s : String) :
    normalizeHost (normalizeHost (some s)) = normalizeHost (some s) ↔
      reading (lower (strip s)).toList = [] ∨ Bare (reading (lower (strip s)).toList) := by
  rw [normalizeHost_eq_reading s]
  set v := (lower (strip s)).toList with hv
  by_cases hr : reading v = []
  · rw [textOrNone, if_pos hr]
    exact iff_of_true rfl (Or.inl hr)
  · have hlower : lower (strip (String.ofList (reading v))) = String.ofList (trim (reading v)) := by
      have hstrip : strip (String.ofList (reading v)) = String.ofList (trim (reading v)) := by
        apply String.toList_injective
        rw [toList_strip, String.toList_ofList, String.toList_ofList]
      rw [hstrip]
      refine LowerRuntime.lower_stable (strip s) _ fun c hc => ?_
      rw [String.toList_ofList] at hc
      obtain ⟨front, back, hl, -⟩ := trim_spec (reading v)
      have hmem : c ∈ reading v := by
        rw [hl]
        exact mem_append_right _ (mem_append_left _ hc)
      exact mem_of_mem_reading hmem
    rw [textOrNone, if_neg hr, normalizeHost_eq_reading, hlower, String.toList_ofList, ← reading_trim_eq_self_iff]
    constructor
    · intro h
      right
      rw [textOrNone] at h
      split_ifs at h
      exact String.ofList_injective (Option.some.inj h)
    · rintro (h | h)
      · exact absurd h hr
      · rw [h, textOrNone, if_neg hr]

/-- A host is normalised once for all just if none of its decorations hides another. -/
theorem normalizeHost_idempotent_iff (host : Option String) :
    normalizeHost (normalizeHost host) = normalizeHost host ↔
      ∀ s, host = some s → ¬ Layered (lower (strip s)).toList := by
  cases host with
  | none => exact iff_of_true rfl fun s h => nomatch h
  | some s =>
    rw [normalizeHost_twice_iff, ← layered_iff (trimmed_lower_strip s)]
    constructor
    · intro h t ht
      exact Option.some.inj ht ▸ h
    · exact fun h => h s rfl

end Idempotence

theorem isSpace_toLower (c : Char) : isSpace c.toLower = isSpace c := by
  by_cases h : c.toNat < 128
  · have hcode : ∀ n < 128, isSpace (Char.ofNat n).toLower = isSpace (Char.ofNat n) := by decide
    have := hcode c.toNat h
    rwa [Char.ofNat_toNat] at this
  · rw [toLower_of_not_ascii (not_lt.mp h)]

/-- A runtime for hosts in ASCII. -/
@[reducible] def LowerRuntime.ascii : LowerRuntime where
  toRuntime := Runtime.ascii
  lower_stable s t h := by
    show mapChars Char.toLower t = t
    have hfixed : ∀ c ∈ t.toList, c.toLower = c := by
      intro c hc
      have hmem : c ∈ (mapChars Char.toLower s).toList := h c hc
      rw [mapChars, String.toList_ofList] at hmem
      obtain ⟨d, -, rfl⟩ := mem_map.mp hmem
      exact toLower_toLower d
    rw [mapChars, map_congr_left (g := id) hfixed, map_id, String.ofList_toList]
  lower_strip s h := by
    show strip (mapChars Char.toLower s) = mapChars Char.toLower s
    have htrimmed : Trimmed s.toList := by
      rw [← trim_eq_self_iff, ← toList_strip, h]
    apply String.toList_injective
    rw [toList_strip, mapChars, String.toList_ofList]
    refine trim_eq_self ⟨fun c hc => ?_, fun c hc => ?_⟩
    · rw [List.head?_map, Option.map_eq_some_iff] at hc
      obtain ⟨d, hd, rfl⟩ := hc
      rw [isSpace_toLower]
      exact htrimmed.1 d hd
    · rw [List.getLast?_map, Option.map_eq_some_iff] at hc
      obtain ⟨d, hd, rfl⟩ := hc
      rw [isSpace_toLower]
      exact htrimmed.2 d hd
  isDigit_visible c h := isSpace_of_graphic (graphic_of_isDigit h)

/-- A port in front of the root's dot is taken off by the second reading. -/
theorem dotted_port_not_idempotent :
    let _ := Runtime.ascii
    normalizeHost (normalizeHost (some "example.com:80.")) ≠ normalizeHost (some "example.com:80.") := by
  decide

end PtaasBench.Benchctl
