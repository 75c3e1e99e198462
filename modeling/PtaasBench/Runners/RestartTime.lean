import PtaasBench.Py.JsonText

/-!
# PtaasBench.Runners.RestartTime — did a container start again (`reset.py`)

Docker prints the time of a start in RFC 3339 with up to nine digits of a second.  The fraction is cut to six
before the text is read, so times are compared to the microsecond.
-/

namespace PtaasBench.Runners

open Py List

/-! ## Times -/

def isLeap (year : ℕ) : Bool := year % 4 = 0 && (year % 100 ≠ 0 || year % 400 = 0)

def daysInMonth (year month : ℕ) : ℕ :=
  match month with
  | 2 => if isLeap year then 29 else 28
  | 4 => 30
  | 6 => 30
  | 9 => 30
  | 11 => 30
  | _ => 31

/-- `date.toordinal` -/
def toordinal (year month day : ℕ) : ℤ :=
  let before := year - 1
  before * 365 + before / 4 - before / 100 + before / 400 +
    ((List.range (month - 1)).map fun m => (daysInMonth year (m + 1) : ℤ)).sum + day

/-- A date, and a time of day to the second. -/
structure Moment where
  year : ℕ
  month : ℕ
  day : ℕ
  hour : ℕ
  minute : ℕ
  second : ℕ
deriving DecidableEq

def Moment.Valid (m : Moment) : Prop :=
  (1 ≤ m.year ∧ m.year ≤ 9999) ∧ (1 ≤ m.month ∧ m.month ≤ 12) ∧ (1 ≤ m.day ∧ m.day ≤ daysInMonth m.year m.month) ∧
    m.hour < 24 ∧ m.minute < 60 ∧ m.second < 60

instance (m : Moment) : Decidable m.Valid := inferInstanceAs (Decidable (_ ∧ _))

/-- The seconds of a moment, the clock read without its zone. -/
def Moment.seconds (m : Moment) : ℤ :=
  ((toordinal m.year m.month m.day * 24 + m.hour) * 60 + m.minute) * 60 + m.second

/-- `datetime`; the offset of its zone in minutes, none for a naive one. -/
structure DateTime where
  moment : Moment
  microsecond : ℕ
  utcoffset : Option ℤ
deriving DecidableEq

/-- The microseconds of a time, those of a naive one by its own clock. -/
def DateTime.micros (d : DateTime) : ℤ :=
  (d.moment.seconds - d.utcoffset.getD 0 * 60) * 10 ^ 6 + d.microsecond

/-- `b > a`; a naive time and one with a zone cannot be compared. -/
def laterThan (b a : DateTime) : Except String Bool :=
  if a.utcoffset.isSome = b.utcoffset.isSome then .ok (decide (a.micros < b.micros))
  else .error "can't compare offset-naive and offset-aware datetimes"

/-! ## Reading a time -/

/-- The digit of a character; the texts of Docker are ASCII. -/
def digitVal (c : Char) : ℕ := c.toNat - 48

/-- So many digits, and the text behind them. -/
def number (width : ℕ) (t : List Char) : Option (ℕ × List Char) :=
  if width ≤ t.length ∧ (t.take width).all Char.isDigit then
    some ((t.take width).foldl (fun n c => 10 * n + digitVal c) 0, t.drop width)
  else none

/-- A certain character, and the text behind it. -/
def skip (c : Char) : List Char → Option (List Char)
  | [] => none
  | d :: t => if d = c then some t else none

/-- The fraction of a second, to six digits. -/
def fraction (t : List Char) : Option (ℕ × List Char) :=
  match t with
  | '.' :: t =>
    let digits := t.takeWhile Char.isDigit
    if digits = [] then none
    else
      let micro := ((digits ++ List.replicate 6 '0').take 6).foldl (fun n c => 10 * n + digitVal c) 0
      some (micro, t.dropWhile Char.isDigit)
  | t => some (0, t)

/-- The offset of a zone, in minutes. -/
def zone (t : List Char) : Option (Option ℤ) :=
  match t with
  | [] => some none
  | sign :: t => do
    let (hours, t) ← number 2 t
    let t ← skip ':' t
    let (minutes, t) ← number 2 t
    if t ≠ [] ∨ 24 ≤ hours ∨ 60 ≤ minutes then none
    else if sign = '+' then pure (some (hours * 60 + minutes))
    else if sign = '-' then pure (some (-(hours * 60 + minutes)))
    else none

/-- `datetime.fromisoformat`, for a date and a time of day to the second; the forms without dashes or colons and
those of weeks are left out. -/
def fromisoformat (t : List Char) : Option DateTime := do
  let (year, t) ← number 4 t
  let t ← skip '-' t
  let (month, t) ← number 2 t
  let t ← skip '-' t
  let (day, t) ← number 2 t
  let t ← skip 'T' t
  let (hour, t) ← number 2 t
  let t ← skip ':' t
  let (minute, t) ← number 2 t
  let t ← skip ':' t
  let (second, t) ← number 2 t
  let (micro, t) ← fraction t
  let offset ← zone t
  let moment : Moment := ⟨year, month, day, hour, minute, second⟩
  if moment.Valid then pure ⟨moment, micro, offset⟩ else none

def zeroDay : List Char := "0001-01-01".toList

/-- `value.replace("Z", "+00:00")` -/
def withoutZulu (value : List Char) : List Char := value.flatMap fun c => if c = 'Z' then "+00:00".toList else [c]

/-- The fraction cut to six digits. -/
def cutFraction (text : List Char) : List Char :=
  if '.' ∈ text then
    let head := text.takeWhile (· ≠ '.')
    let tail := (text.dropWhile (· ≠ '.')).drop 1
    let digits := (tail.filter Char.isDigit).take 6
    let offset := if digits.length < tail.length then tail.drop digits.length else []
    let offset := offset.dropWhile Char.isDigit
    head ++ '.' :: ((if digits = [] then ['0'] else digits) ++ offset)
  else text

/-- `_parse_docker_time`, for a text that is there. -/
def parseDockerTime (value : List Char) : Option DateTime :=
  if value = [] ∨ zeroDay.isPrefixOf value = true then none else fromisoformat (cutFraction (withoutZulu value))

/-- `_restart_advanced`; an error is one that is raised. -/
def restartAdvanced (before after : Option (List Char)) : Except String Bool :=
  match after with
  | none => .ok false
  | some after =>
    match before with
    | none => .ok true
    | some before =>
      match parseDockerTime before, parseDockerTime after with
      | some dtBefore, some dtAfter => laterThan dtAfter dtBefore
      | _, _ => .ok (decide (before ≠ after))

/-! ## The format of Docker -/

/-- The digits of a number, at a width. -/
def pad : ℕ → ℕ → List Char
  | 0, _ => []
  | width + 1, n => pad width (n / 10) ++ [digitChar (digit n)]

/-- `Z`, or the sign, hours and minutes of an offset. -/
inductive Zone where
  | zulu
  | offset (negative : Bool) (hours : Fin 24) (minutes : Fin 60)

def Zone.text : Zone → List Char
  | .zulu => ['Z']
  | .offset negative hours minutes => (if negative then '-' else '+') :: (pad 2 hours ++ ':' :: pad 2 minutes)

/-- The offset in minutes. -/
def Zone.minutes : Zone → ℤ
  | .zulu => 0
  | .offset negative hours minutes => if negative then -(hours * 60 + minutes : ℤ) else hours * 60 + minutes

/-- A time in RFC 3339, with at most nine digits of a fraction. -/
structure Stamp where
  moment : Moment
  valid : moment.Valid
  frac : List (Fin 10)
  nine : frac.length ≤ 9
  zone : Zone

def Stamp.text (s : Stamp) : List Char :=
  pad 4 s.moment.year ++ '-' :: (pad 2 s.moment.month ++ '-' :: (pad 2 s.moment.day ++ 'T' ::
    (pad 2 s.moment.hour ++ ':' :: (pad 2 s.moment.minute ++ ':' :: (pad 2 s.moment.second ++
      ((if s.frac = [] then [] else '.' :: s.frac.map digitChar) ++ s.zone.text))))))

/-- The nanoseconds of the instant. -/
def Stamp.nanos (s : Stamp) : ℤ :=
  (s.moment.seconds - s.zone.minutes * 60) * 10 ^ 9 + ofDigitList s.frac * 10 ^ (9 - s.frac.length)

/-! ## Texts of digits -/

theorem isDigit_digitChar (d : Fin 10) : (digitChar d).isDigit = true := by
  revert d
  decide

theorem digitVal_digitChar (d : Fin 10) : digitVal (digitChar d) = d.val := by
  revert d
  decide

theorem pad_eq (width n : ℕ) : ∃ ds : List (Fin 10), ds.length = width ∧ pad width n = ds.map digitChar ∧
    ofDigitList ds = n % 10 ^ width := by
  induction width generalizing n with
  | zero => exact ⟨[], rfl, rfl, by rw [pow_zero, Nat.mod_one]; rfl⟩
  | succ width ih =>
    obtain ⟨ds, hlength, htext, hvalue⟩ := ih (n / 10)
    refine ⟨ds ++ [digit n], ?_, ?_, ?_⟩
    · rw [length_append, hlength, length_singleton]
    · rw [pad, htext, map_append, map_singleton]
    · rw [ofDigitList_concat, hvalue, digit_val, pow_succ, Nat.mul_comm (10 ^ width) 10, Nat.mod_mul]
      omega

theorem foldl_digitVal (ds : List (Fin 10)) :
    (ds.map digitChar).foldl (fun n c => 10 * n + digitVal c) 0 = ofDigitList ds := by
  rw [foldl_map, ofDigitList]
  simp only [digitVal_digitChar]

theorem all_isDigit (ds : List (Fin 10)) : (ds.map digitChar).all Char.isDigit = true := by
  rw [all_eq_true]
  intro c hc
  obtain ⟨d, -, rfl⟩ := mem_map.mp hc
  exact isDigit_digitChar d

theorem mem_pad {width n : ℕ} {c : Char} (h : c ∈ pad width n) : c.isDigit = true := by
  obtain ⟨ds, -, htext, -⟩ := pad_eq width n
  exact all_eq_true.mp (all_isDigit ds) c (htext ▸ h)

theorem number_pad {width n : ℕ} (h : n < 10 ^ width) (t : List Char) :
    number width (pad width n ++ t) = some (n, t) := by
  obtain ⟨ds, hlength, htext, hvalue⟩ := pad_eq width n
  have hwidth : (pad width n).length = width := by rw [htext, length_map, hlength]
  have htake : (pad width n ++ t).take width = pad width n := take_left' hwidth
  have hdrop : (pad width n ++ t).drop width = t := drop_left' hwidth
  have hfits : width ≤ (pad width n ++ t).length := by
    rw [length_append, hwidth]
    exact Nat.le_add_right _ _
  rw [number, htake, hdrop, htext, if_pos ⟨htext ▸ hfits, all_isDigit ds⟩, foldl_digitVal, hvalue, Nat.mod_eq_of_lt h]

theorem skip_cons (c : Char) (t : List Char) : skip c (c :: t) = some t := if_pos rfl

theorem takeWhile_digits (ds : List (Fin 10)) {t : List Char} (ht : ∀ c ∈ t.head?, c.isDigit = false) :
    (ds.map digitChar ++ t).takeWhile Char.isDigit = ds.map digitChar ∧
      (ds.map digitChar ++ t).dropWhile Char.isDigit = t := by
  have hall : ∀ c ∈ ds.map digitChar, c.isDigit = true := all_eq_true.mp (all_isDigit ds)
  rw [takeWhile_append_of_pos hall, dropWhile_append_of_pos hall]
  cases t with
  | nil => exact ⟨append_nil _, rfl⟩
  | cons c t =>
    have hc : c.isDigit = false := ht c rfl
    rw [takeWhile_cons_of_neg (by rw [hc]; exact Bool.false_ne_true),
      dropWhile_cons_of_neg (by rw [hc]; exact Bool.false_ne_true)]
    exact ⟨append_nil _, rfl⟩

/-! ## Zones -/

/-- The text of a zone as an offset. -/
def Zone.offsetText : Zone → List Char
  | .zulu => "+00:00".toList
  | .offset negative hours minutes => Zone.text (.offset negative hours minutes)

theorem Zone.read (z : Zone) : PtaasBench.Runners.zone z.offsetText = some (some z.minutes) := by
  cases z with
  | zulu => decide
  | offset negative hours minutes =>
    have hhours : hours.val < 10 ^ 2 := by omega
    have hminutes : minutes.val < 10 ^ 2 := by omega
    have hlast : number 2 (pad 2 minutes) = some (minutes.val, []) := by
      rw [← append_nil (pad 2 minutes), number_pad hminutes]
    cases negative <;>
      simp [Zone.offsetText, Zone.text, PtaasBench.Runners.zone, number_pad hhours, skip_cons, hlast, Zone.minutes]

theorem withoutZulu_append (s t : List Char) : withoutZulu (s ++ t) = withoutZulu s ++ withoutZulu t :=
  flatMap_append

theorem withoutZulu_cons {c : Char} (h : c ≠ 'Z') (t : List Char) : withoutZulu (c :: t) = c :: withoutZulu t := by
  rw [withoutZulu, flatMap_cons, if_neg h]
  rfl

theorem withoutZulu_digits {t : List Char} (h : ∀ c ∈ t, c.isDigit = true) : withoutZulu t = t := by
  induction t with
  | nil => rfl
  | cons c t ih =>
    have hc : c ≠ 'Z' := by
      rintro rfl
      exact absurd (h 'Z' mem_cons_self) (by decide)
    rw [withoutZulu_cons hc, ih fun d hd => h d (mem_cons_of_mem c hd)]

theorem withoutZulu_zone (z : Zone) : withoutZulu z.text = z.offsetText := by
  cases z with
  | zulu => rfl
  | offset negative hours minutes =>
    have hsign : (if negative then '-' else '+') ≠ 'Z' := by
      cases negative <;> decide
    rw [Zone.offsetText, Zone.text, withoutZulu_cons hsign, withoutZulu_append, withoutZulu_digits fun _ => mem_pad,
      withoutZulu_cons (by decide), withoutZulu_digits fun _ => mem_pad]

/-- An offset begins with its sign. -/
theorem Zone.offsetText_eq (z : Zone) : ∃ c t, z.offsetText = c :: t ∧ (c = '+' ∨ c = '-') ∧ '.' ∉ t := by
  cases z with
  | zulu => exact ⟨'+', "00:00".toList, rfl, Or.inl rfl, by decide⟩
  | offset negative hours minutes =>
    refine ⟨_, _, rfl, ?_, fun hmem => ?_⟩
    · cases negative
      · exact Or.inl rfl
      · exact Or.inr rfl
    · rcases mem_append.mp hmem with hdot | hdot
      · exact absurd (mem_pad hdot) (by decide)
      · rcases mem_cons.mp hdot with heq | hdot
        · exact absurd heq (by decide)
        · exact absurd (mem_pad hdot) (by decide)

/-! ## A time of Docker is read back -/

/-- The date and the time of day. -/
def Stamp.clock (s : Stamp) : List Char :=
  pad 4 s.moment.year ++ '-' :: (pad 2 s.moment.month ++ '-' :: (pad 2 s.moment.day ++ 'T' ::
    (pad 2 s.moment.hour ++ ':' :: (pad 2 s.moment.minute ++ ':' :: pad 2 s.moment.second))))

/-- The fraction with its point. -/
def dotted (ds : List (Fin 10)) : List Char := if ds = [] then [] else '.' :: ds.map digitChar

theorem Stamp.text_eq (s : Stamp) : s.text = s.clock ++ (dotted s.frac ++ s.zone.text) := by
  simp only [Stamp.text, Stamp.clock, dotted, append_assoc, cons_append]

theorem Stamp.mem_clock {s : Stamp} {c : Char} (h : c ∈ s.clock) : c.isDigit = true ∨ c ∈ ['-', ':', 'T'] := by
  simp only [Stamp.clock, mem_append, mem_cons] at h
  rcases h with h | rfl | h | rfl | h | rfl | h | rfl | h | rfl | h
  all_goals first
    | exact Or.inl (mem_pad h)
    | exact Or.inr (by decide)

theorem Stamp.dot_notMem_clock (s : Stamp) : '.' ∉ s.clock := by
  intro hdot
  rcases s.mem_clock hdot with h | h
  · exact absurd h (by decide)
  · exact absurd h (by decide)

theorem Stamp.withoutZulu_text (s : Stamp) :
    withoutZulu s.text = s.clock ++ (dotted s.frac ++ s.zone.offsetText) := by
  have hclock : withoutZulu s.clock = s.clock := by
    simp only [Stamp.clock, withoutZulu_append, withoutZulu_digits fun _ => mem_pad,
      withoutZulu_cons (show '-' ≠ 'Z' by decide), withoutZulu_cons (show ':' ≠ 'Z' by decide),
      withoutZulu_cons (show 'T' ≠ 'Z' by decide)]
  have hfrac : withoutZulu (dotted s.frac) = dotted s.frac := by
    unfold dotted
    split_ifs
    · rfl
    · rw [withoutZulu_cons (by decide), withoutZulu_digits (all_eq_true.mp (all_isDigit s.frac))]
  rw [s.text_eq, withoutZulu_append, withoutZulu_append, hclock, hfrac, withoutZulu_zone]

theorem cutFraction_whole {clock offset : List Char} (hclock : '.' ∉ clock) (hoffset : '.' ∉ offset) :
    cutFraction (clock ++ offset) = clock ++ offset :=
  if_neg fun h => (mem_append.mp h).elim hclock hoffset

theorem cutFraction_dotted {clock offset : List Char} {ds : List (Fin 10)} (hclock : '.' ∉ clock)
    (hsix : 6 ≤ ds.length) {c : Char} {t : List Char} (hoffset : offset = c :: t) (hc : c.isDigit = false) :
    cutFraction (clock ++ '.' :: (ds.map digitChar ++ offset)) =
      clock ++ '.' :: ((ds.take 6).map digitChar ++ offset) := by
  have hdot : '.' ∈ clock ++ '.' :: (ds.map digitChar ++ offset) :=
    mem_append_right _ mem_cons_self
  have hbefore : ∀ d ∈ clock, (decide (d ≠ '.')) = true := by
    intro d hd
    exact decide_eq_true fun heq => hclock (heq ▸ hd)
  have hhead : (clock ++ '.' :: (ds.map digitChar ++ offset)).takeWhile (fun d => decide (d ≠ '.')) = clock := by
    rw [takeWhile_append_of_pos hbefore, takeWhile_cons_of_neg (by decide), append_nil]
  have htail : (clock ++ '.' :: (ds.map digitChar ++ offset)).dropWhile (fun d => decide (d ≠ '.')) =
      '.' :: (ds.map digitChar ++ offset) := by
    rw [dropWhile_append_of_pos hbefore, dropWhile_cons_of_neg (by decide)]
  have hlength : ((ds.take 6).map digitChar).length = 6 := by
    rw [length_map, length_take]
    omega
  have hdigits : ((ds.map digitChar ++ offset).filter Char.isDigit).take 6 = (ds.take 6).map digitChar := by
    rw [filter_append, filter_eq_self.mpr (all_eq_true.mp (all_isDigit ds)),
      take_append_of_le_length (by rw [length_map]; exact hsix), map_take]
  have hlonger : 6 < (ds.map digitChar ++ offset).length := by
    rw [length_append, length_map, hoffset, length_cons]
    omega
  have hrest : ((ds.map digitChar ++ offset).drop 6).dropWhile Char.isDigit = offset := by
    rw [drop_append_of_le_length (by rw [length_map]; exact hsix), ← map_drop]
    refine (takeWhile_digits (ds.drop 6) ?_).2
    intro d hd
    rw [hoffset, List.head?_cons, Option.mem_some_iff] at hd
    exact hd ▸ hc
  have hsome : (ds.take 6).map digitChar ≠ [] := by
    intro hnil
    rw [hnil] at hlength
    exact absurd hlength (by decide)
  rw [cutFraction, if_pos hdot]
  simp only [hhead, htail, drop_one, tail_cons, hdigits, hlength, if_pos hlonger, hrest, if_neg hsome]

theorem Zone.sign_not_digit {z : Zone} {c : Char} {t : List Char} (h : z.offsetText = c :: t) :
    c.isDigit = false ∧ c ≠ '.' := by
  obtain ⟨d, u, heq, hsign, -⟩ := z.offsetText_eq
  rw [heq, List.cons.injEq] at h
  obtain ⟨rfl, -⟩ := h
  rcases hsign with rfl | rfl <;> decide

theorem Zone.dot_notMem (z : Zone) : '.' ∉ z.offsetText := by
  obtain ⟨c, t, heq, hsign, ht⟩ := z.offsetText_eq
  rw [heq]
  intro hmem
  rcases mem_cons.mp hmem with rfl | hmem
  · exact absurd hsign (by decide)
  · exact ht hmem

variable {s : Stamp}

/-- What is left of a text whose fraction is absent or has the six digits. -/
theorem Stamp.cut_text (hfrac : s.frac = [] ∨ 6 ≤ s.frac.length) :
    cutFraction (withoutZulu s.text) = s.clock ++ (dotted (s.frac.take 6) ++ s.zone.offsetText) := by
  rw [s.withoutZulu_text]
  rcases hfrac with hnone | hsix
  · rw [hnone, take_nil, dotted, if_pos rfl, nil_append]
    exact cutFraction_whole s.dot_notMem_clock s.zone.dot_notMem
  · obtain ⟨c, t, heq, -, -⟩ := s.zone.offsetText_eq
    have hsome : s.frac ≠ [] := by
      intro hnil
      rw [hnil] at hsix
      exact absurd hsix (by decide)
    have htake : s.frac.take 6 ≠ [] := fun hnil => (take_eq_nil_iff.mp hnil).elim (by decide) hsome
    rw [dotted, dotted, if_neg hsome, if_neg htake, cons_append, cons_append]
    exact cutFraction_dotted s.dot_notMem_clock hsix heq (Zone.sign_not_digit heq).1

theorem fraction_dotted {ds : List (Fin 10)} (hds : ds = [] ∨ ds.length = 6) (z : Zone) :
    fraction (dotted ds ++ z.offsetText) = some (ofDigitList ds, z.offsetText) := by
  obtain ⟨c, t, heq, hsign, -⟩ := z.offsetText_eq
  rcases hds with rfl | hsix
  · rw [dotted, if_pos rfl, nil_append, heq]
    rcases hsign with rfl | rfl <;> rfl
  · have hsome : ds ≠ [] := by
      rintro rfl
      exact absurd hsix (by decide)
    have hhead : ∀ d ∈ z.offsetText.head?, d.isDigit = false := by
      intro d hd
      rw [heq, List.head?_cons, Option.mem_some_iff] at hd
      exact hd ▸ (Zone.sign_not_digit heq).1
    obtain ⟨htake, hdrop⟩ := takeWhile_digits ds hhead
    have hmap : ds.map digitChar ≠ [] := fun hnil => hsome (map_eq_nil_iff.mp hnil)
    have hcut : (ds.map digitChar ++ List.replicate 6 '0').take 6 = ds.map digitChar :=
      take_left' (by rw [length_map, hsix])
    rw [dotted, if_neg hsome, cons_append]
    simp only [fraction, htake, hdrop, if_neg hmap, hcut, foldl_digitVal]

theorem bind_of_eq {α β : Type*} {x : Option α} {a : α} (h : x = some a) (f : α → Option β) : x.bind f = f a := by
  rw [h, Option.bind_some]

theorem fromisoformat_clock {ds : List (Fin 10)} (hds : ds = [] ∨ ds.length = 6) :
    fromisoformat (s.clock ++ (dotted ds ++ s.zone.offsetText)) =
      some ⟨s.moment, ofDigitList ds, some s.zone.minutes⟩ := by
  obtain ⟨hyear, hmonth, hday, hhour, hminute, hsecond⟩ := s.valid
  have hdays : daysInMonth s.moment.year s.moment.month ≤ 31 := by
    unfold daysInMonth
    split <;> (try split) <;> omega
  have hread : s.clock ++ (dotted ds ++ s.zone.offsetText) =
      pad 4 s.moment.year ++ '-' :: (pad 2 s.moment.month ++ '-' :: (pad 2 s.moment.day ++ 'T' ::
        (pad 2 s.moment.hour ++ ':' :: (pad 2 s.moment.minute ++ ':' :: (pad 2 s.moment.second ++
          (dotted ds ++ s.zone.offsetText)))))) := by
    simp only [Stamp.clock, append_assoc, cons_append]
  have field {n : ℕ} (h : n < 10 ^ 2) (t : List Char) : number 2 (pad 2 n ++ t) = some (n, t) := number_pad h t
  rw [hread, fromisoformat]
  refine (bind_of_eq (number_pad (by omega) _) _).trans ((bind_of_eq (skip_cons _ _) _).trans ?_)
  refine (bind_of_eq (field (by omega) _) _).trans ((bind_of_eq (skip_cons _ _) _).trans ?_)
  refine (bind_of_eq (field (by omega) _) _).trans ((bind_of_eq (skip_cons _ _) _).trans ?_)
  refine (bind_of_eq (field (by omega) _) _).trans ((bind_of_eq (skip_cons _ _) _).trans ?_)
  refine (bind_of_eq (field (by omega) _) _).trans ((bind_of_eq (skip_cons _ _) _).trans ?_)
  refine (bind_of_eq (field (by omega) _) _).trans ((bind_of_eq (fraction_dotted hds _) _).trans ?_)
  exact (bind_of_eq (Zone.read _) _).trans (if_pos s.valid)

theorem Stamp.parse (hfrac : s.frac = [] ∨ 6 ≤ s.frac.length) (hday : zeroDay.isPrefixOf s.text = false) :
    parseDockerTime s.text = some ⟨s.moment, ofDigitList (s.frac.take 6), some s.zone.minutes⟩ := by
  have hsome : ¬(s.text = [] ∨ zeroDay.isPrefixOf s.text = true) := by
    rintro (hnil | hzero)
    · have hlength : (pad 4 s.moment.year).length = 4 := by
        obtain ⟨ds, hlength, htext, -⟩ := pad_eq 4 s.moment.year
        rw [htext, length_map, hlength]
      have hyear : pad 4 s.moment.year = [] := (append_eq_nil_iff.mp hnil).1
      rw [hyear] at hlength
      exact absurd hlength (by decide)
    · rw [hday] at hzero
      exact Bool.false_ne_true hzero
  rw [parseDockerTime, if_neg hsome, s.cut_text hfrac, fromisoformat_clock]
  rcases hfrac with hnone | hsix
  · exact Or.inl (by rw [hnone, take_nil])
  · exact Or.inr (by rw [length_take]; omega)

/-! ## Restarts -/

/-- What the six digits leave out of a fraction is less than a microsecond. -/
theorem micros_of_fraction {ds : List (Fin 10)} (hds : ds = [] ∨ 6 ≤ ds.length) (hnine : ds.length ≤ 9) :
    ofDigitList ds * 10 ^ (9 - ds.length) / 1000 = ofDigitList (ds.take 6) := by
  rcases hds with rfl | hsix
  · decide
  · have hsplit := ofDigitList_append (ds.take 6) (ds.drop 6)
    rw [take_append_drop, length_drop] at hsplit
    have hsmall := ofDigitList_lt (ds.drop 6)
    rw [length_drop] at hsmall
    have hpow : 10 ^ (ds.length - 6) * 10 ^ (9 - ds.length) = 1000 := by
      rw [← pow_add, show ds.length - 6 + (9 - ds.length) = 3 by omega]
      norm_num
    have hrest : ofDigitList (ds.drop 6) * 10 ^ (9 - ds.length) < 1000 :=
      hpow ▸ Nat.mul_lt_mul_of_pos_right hsmall (by positivity)
    have hvalue : ofDigitList ds * 10 ^ (9 - ds.length) =
        1000 * ofDigitList (ds.take 6) + ofDigitList (ds.drop 6) * 10 ^ (9 - ds.length) := by
      rw [hsplit, Nat.add_mul, Nat.mul_assoc, hpow, Nat.mul_comm]
    rw [hvalue, Nat.mul_add_div (by decide), Nat.div_eq_of_lt hrest, Nat.add_zero]

theorem Stamp.micros_eq (hfrac : s.frac = [] ∨ 6 ≤ s.frac.length) :
    (⟨s.moment, ofDigitList (s.frac.take 6), some s.zone.minutes⟩ : DateTime).micros = s.nanos / 1000 := by
  have hcut := micros_of_fraction hfrac s.nine
  rw [DateTime.micros, Stamp.nanos, Option.getD_some]
  dsimp only
  generalize s.moment.seconds - s.zone.minutes * 60 = seconds
  have hnat : ((ofDigitList s.frac * 10 ^ (9 - s.frac.length) : ℕ) : ℤ) / 1000 = ofDigitList (s.frac.take 6) := by
    rw [← hcut]
    rfl
  push_cast at hnat
  omega

/-- One start counts as later than another when it is later to the microsecond. -/
theorem advanced_to_the_microsecond {before after : Stamp} (hbefore : before.frac = [] ∨ 6 ≤ before.frac.length)
    (hafter : after.frac = [] ∨ 6 ≤ after.frac.length) :
    restartAdvanced (some before.text) (some after.text) =
      .ok (if zeroDay.isPrefixOf before.text || zeroDay.isPrefixOf after.text then decide (before.text ≠ after.text)
        else decide (before.nanos / 1000 < after.nanos / 1000)) := by
  rw [restartAdvanced]
  by_cases hzero : zeroDay.isPrefixOf before.text = true
  · have hnone : parseDockerTime before.text = none := if_pos (Or.inr hzero)
    rw [hnone, hzero, Bool.true_or, if_pos rfl]
  · by_cases hzero' : zeroDay.isPrefixOf after.text = true
    · have hnone : parseDockerTime after.text = none := if_pos (Or.inr hzero')
      rw [hnone, hzero', Bool.or_true, if_pos rfl]
      rcases parseDockerTime before.text with _ | d <;> rfl
    · have hno := Bool.eq_false_iff.mpr hzero
      have hno' := Bool.eq_false_iff.mpr hzero'
      rw [before.parse hbefore hno, after.parse hafter hno', hno, hno', Bool.or_false, if_neg Bool.false_ne_true]
      dsimp only
      rw [laterThan, before.micros_eq hbefore, after.micros_eq hafter]
      exact if_pos rfl

/-- The first second of 2024, with a fraction. -/
def newYear (frac : List (Fin 10)) (hnine : frac.length ≤ 9) : Stamp where
  moment := ⟨2024, 1, 1, 0, 0, 0⟩
  valid := by decide
  frac := frac
  nine := hnine
  zone := .zulu

theorem advanced_on_new_year :
    restartAdvanced (some (newYear [] (by decide)).text) (some (newYear [0, 0, 0, 0, 0, 1] (by decide)).text) =
      .ok true :=
  (advanced_to_the_microsecond (Or.inl rfl) (Or.inr (le_refl 6))).trans (by decide)

theorem later_in_the_microsecond :
    (newYear [0, 0, 0, 0, 0, 0, 1, 0, 0] (by decide)).nanos < (newYear [0, 0, 0, 0, 0, 0, 2, 0, 0] (by decide)).nanos ∧
      restartAdvanced (some (newYear [0, 0, 0, 0, 0, 0, 1, 0, 0] (by decide)).text)
        (some (newYear [0, 0, 0, 0, 0, 0, 2, 0, 0] (by decide)).text) = .ok false := by
  decide

end PtaasBench.Runners
