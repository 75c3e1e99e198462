import Mathlib.Data.List.Basic
import Mathlib.Data.List.TakeWhile
import PtaasBench.Lib.Bytes

/-!
# PtaasBench.Legacy.MailQueue — queueing a message for the depot mailer (`bt_queue_message`)
-/

namespace PtaasBench.Legacy.MailQueue

open Lib List

def crlf : Bytes := [13, 10]

/-! ## The code -/

/-- The lines of what is left, where the byte before was a carriage return, or was not. -/
def linesFrom : Bool → Bytes → List Bytes
  | _, [] => [[]]
  | afterCr, b :: rest =>
    if b = 13 then [] :: linesFrom true rest
    else if b = 10 then (if afterCr then linesFrom false rest else [] :: linesFrom false rest)
    else
      match linesFrom false rest with
      | [] => [[b]]
      | line :: lines => (b :: line) :: lines

/-- `preg_split('/\r\n|\r|\n/', …)` -/
def linesOf (t : Bytes) : List Bytes := linesFrom false t

/-- `[A-Za-z0-9!#$%&'*+.^_|~-]` and the backquote. -/
def isToken (b : UInt8) : Bool :=
  (65 ≤ b && b ≤ 90) || (97 ≤ b && b ≤ 122) || (48 ≤ b && b ≤ 57) ||
    [33, 35, 36, 37, 38, 39, 42, 43, 46, 94, 95, 96, 124, 126, 45].contains b

def isBlank (b : UInt8) : Bool := b == 32 || b == 9

/-- `\s` -/
def isSpace (b : UInt8) : Bool := b == 32 || (9 ≤ b && b ≤ 13)

/-- A name of a field, and a colon. -/
def isField (line : Bytes) : Bool := !(line.takeWhile isToken).isEmpty && (line.dropWhile isToken).head? == some 58

/-- `preg_match('/^…+:[ \t]*\S/', $line)`: a field with something in it. -/
def showsField (line : Bytes) : Bool :=
  isField line && (((line.dropWhile isToken).drop 1).dropWhile isBlank).head?.any fun b => !isSpace b

structure Header where
  name : Bytes
  value : Bytes

/-- `$name . ': ' . $value` -/
def Header.text (h : Header) : Bytes := h.name ++ [58, 32] ++ h.value

def block (headers : List Header) : Bytes := crlf.intercalate (headers.map Header.text)

/-- What the counter is told. -/
structure Signal where
  payload : Bytes
  observed : ℕ
  intended : ℕ

def signalOf (field : Bytes) (headers : List Header) : Option Signal :=
  let intended := headers.length
  let observed := (linesOf (block headers)).countP showsField
  if intended < observed then
    some ⟨field ++ [61] ++ ([32, 124, 32].intercalate (headers.map Header.value)).take 400, observed, intended⟩
  else none

def messageOf (to' body : Bytes) (headers : List Header) : Bytes :=
  [84, 111, 58, 32] ++ to' ++ crlf ++ block headers ++ crlf ++ crlf ++ body ++ crlf

/-- `bt_queue_message`: the signal, if there is one, and the message that is queued. -/
def queueMessage (field to' body : Bytes) (headers : List Header) : Option Signal × Bytes :=
  (signalOf field headers, messageOf to' body headers)

/-! ## The header section -/

/-- The lines of a message up to the first empty one. -/
def headerSection (message : Bytes) : List Bytes := (linesOf message).takeWhile fun line => !line.isEmpty

/-- The texts the page writes a line for: the recipient, and each header. -/
def entries (to' : Bytes) (headers : List Header) : List Bytes :=
  ([84, 111, 58, 32] ++ to') :: headers.map Header.text

/-- The lines of a text, the first of them marked: it is the line that the page set. -/
def marked (text : Bytes) : List (Bytes × Bool) :=
  ((linesOf text).take 1).map (·, true) ++ ((linesOf text).drop 1).map (·, false)

/-- The header section of the queued message, with the lines that the page set marked. -/
def markedSection (to' : Bytes) (headers : List Header) : List (Bytes × Bool) :=
  ((entries to' headers).flatMap marked).takeWhile fun line => !line.1.isEmpty

/-- The header section has a field line that the page did not set. -/
def Injected (to' : Bytes) (headers : List Header) : Prop :=
  ∃ line ∈ markedSection to' headers, line.2 = false ∧ isField line.1 = true

/-! ## Lines -/

theorem linesFrom_ne_nil (afterCr : Bool) (t : Bytes) : linesFrom afterCr t ≠ [] := by
  induction t generalizing afterCr with
  | nil => exact cons_ne_nil _ _
  | cons b rest ih =>
    rw [linesFrom]
    split_ifs
    · exact cons_ne_nil _ _
    · exact ih false
    · exact cons_ne_nil _ _
    · split
      · exact cons_ne_nil _ _
      · exact cons_ne_nil _ _

/-- A text ends where a line break of two bytes stands behind it. -/
theorem linesFrom_append (afterCr : Bool) (a b : Bytes) :
    linesFrom afterCr (a ++ (crlf ++ b)) = linesFrom afterCr a ++ linesOf b := by
  induction a generalizing afterCr with
  | nil => rfl
  | cons c a ih =>
    rw [cons_append, linesFrom, linesFrom]
    split_ifs
    · rw [ih]
      rfl
    · exact ih false
    · rw [ih]
      rfl
    · rw [ih]
      cases h : linesFrom false a with
      | nil => exact absurd h (linesFrom_ne_nil false a)
      | cons line lines => rfl

theorem linesOf_append (a b : Bytes) : linesOf (a ++ (crlf ++ b)) = linesOf a ++ linesOf b := linesFrom_append false a b

theorem linesOf_intercalate {texts : List Bytes} (h : texts ≠ []) :
    linesOf (crlf.intercalate texts) = texts.flatMap linesOf := by
  induction texts with
  | nil => exact absurd rfl h
  | cons text texts ih =>
    cases texts with
    | nil => rw [intercalate_singleton, flatMap_singleton]
    | cons next texts =>
      rw [intercalate_cons_cons, append_assoc, linesOf_append, ih (cons_ne_nil _ _)]
      rfl

theorem map_fst_marked (text : Bytes) : (marked text).map Prod.fst = linesOf text := by
  rw [marked, map_append, map_map, map_map]
  exact (congrArg₂ _ (map_id _) (map_id _)).trans (take_append_drop 1 _)

theorem takeWhile_stop {α : Type*} {p : α → Bool} (front : List α) {a : α} (ha : p a = false) (behind : List α) :
    (front ++ a :: behind).takeWhile p = front.takeWhile p := by
  induction front with
  | nil => exact takeWhile_cons_of_neg (by simp [ha])
  | cons b front ih => rw [cons_append, takeWhile_cons, takeWhile_cons, ih]

/-- What is marked is the header section of the message. -/
theorem map_fst_markedSection (to' body : Bytes) (headers : List Header) :
    (markedSection to' headers).map Prod.fst = headerSection (messageOf to' body headers) := by
  have hmarked : ((entries to' headers).flatMap marked).map Prod.fst = (entries to' headers).flatMap linesOf := by
    rw [map_flatMap]
    exact flatMap_congr fun text _ => map_fst_marked text
  have hsection : (markedSection to' headers).map Prod.fst =
      ((entries to' headers).flatMap linesOf).takeWhile fun line => !line.isEmpty := by
    rw [← hmarked, takeWhile_map]
    rfl
  have hmessage : messageOf to' body headers =
      ([84, 111, 58, 32] ++ to') ++ (crlf ++ (block headers ++ (crlf ++ ([] ++ (crlf ++ (body ++ crlf)))))) := by
    simp [messageOf]
  rw [hsection, headerSection, hmessage, linesOf_append, linesOf_append, linesOf_append, entries, flatMap_cons]
  by_cases hnone : headers = []
  · rw [hnone, map_nil, flatMap_nil, append_nil]
    exact (takeWhile_stop (p := fun line : Bytes => !line.isEmpty) _ rfl _).symm
  · rw [block, linesOf_intercalate (by simpa using hnone), ← append_assoc]
    exact (takeWhile_stop _ rfl _).symm

/-! ## What is counted -/

/-- Headers whose own line shows no field. -/
def blanks (headers : List Header) : ℕ :=
  headers.countP fun h => !((linesOf h.text).take 1).any showsField

/-- The lines behind the own line of a header that show a field, wherever they end up. -/
def strays (headers : List Header) : ℕ :=
  (headers.flatMap fun h => (linesOf h.text).drop 1).countP showsField

/-- The lines of one header: its own line and the others. -/
theorem countP_lines (t : Bytes) :
    (linesOf t).countP showsField =
      (if ((linesOf t).take 1).any showsField then 1 else 0) + ((linesOf t).drop 1).countP showsField := by
  rcases linesOf t with _ | ⟨own, rest⟩
  · rfl
  · simp [countP_cons, Nat.add_comm]

theorem observed_eq (headers : List Header) :
    (linesOf (block headers)).countP showsField + blanks headers = headers.length + strays headers := by
  have hlines : (linesOf (block headers)).countP showsField =
      (headers.flatMap fun h => linesOf h.text).countP showsField := by
    by_cases hnone : headers = []
    · rw [hnone]
      rfl
    · rw [block, linesOf_intercalate (by simpa using hnone), flatMap_map]
  rw [hlines, blanks, strays]
  clear hlines
  induction headers with
  | nil => rfl
  | cons h headers ih =>
    rw [flatMap_cons, countP_append, countP_lines, countP_cons, flatMap_cons, countP_append,
      length_cons]
    cases ((linesOf h.text).take 1).any showsField with
    | true =>
      rw [if_pos rfl, if_neg (by decide)]
      omega
    | false =>
      rw [if_neg Bool.false_ne_true, Bool.not_false, if_pos rfl]
      omega

/-- The code compares the two. -/
theorem raised_iff (field to' body : Bytes) (headers : List Header) :
    (queueMessage field to' body headers).1.isSome = true ↔ blanks headers < strays headers := by
  have hobserved := observed_eq headers
  rw [queueMessage, signalOf]
  dsimp only
  split_ifs with hmore
  · exact iff_of_true rfl (by omega)
  · exact iff_of_false Bool.noConfusion (by omega)

/-! ## Where the counter sees what is injected -/

/-- An injected field that is outweighed, or is not among the lines that are counted: a line of the recipient, or a
field without a value. -/
def Missed (to' : Bytes) (headers : List Header) : Prop := Injected to' headers ∧ strays headers ≤ blanks headers

/-- Lines that are counted though all of them stand behind an empty line. -/
def FalseAlarm (to' : Bytes) (headers : List Header) : Prop := blanks headers < strays headers ∧ ¬Injected to' headers

/-- The marked lines are the header section of the message that is queued, and the counter sees what is injected into it
but for the two kinds of headers above. -/
theorem injected_noticed_iff (field to' body : Bytes) (headers : List Header) :
    (markedSection to' headers).map Prod.fst = headerSection (queueMessage field to' body headers).2 ∧
      (((queueMessage field to' body headers).1.isSome = true ↔ Injected to' headers) ↔
        ¬Missed to' headers ∧ ¬FalseAlarm to' headers) := by
  refine ⟨map_fst_markedSection to' body headers, ?_⟩
  rw [raised_iff, Missed, FalseAlarm]
  constructor
  · intro h
    exact ⟨fun ⟨hin, hle⟩ => Nat.not_lt.mpr hle (h.mpr hin), fun ⟨hlt, hout⟩ => hout (h.mp hlt)⟩
  · rintro ⟨hmissed, hfalse⟩
    exact ⟨fun hlt => Classical.byContradiction fun hout => hfalse ⟨hlt, hout⟩,
      fun hin => Nat.lt_of_not_le fun hle => hmissed ⟨hin, hle⟩⟩

/-- `Reply-To: a`, a line break and `Bcc: b` in its value, beside a header without a value. -/
def outweighed : List Header :=
  [⟨[82, 101, 112, 108, 121, 45, 84, 111], [97, 13, 10, 66, 99, 99, 58, 32, 98]⟩, ⟨[70, 114, 111, 109], []⟩]

theorem outweighed_unnoticed :
    ¬((queueMessage [101] [120] [] outweighed).1.isSome = true ↔ Injected [120] outweighed) := by
  intro h
  have hinjected : Injected [120] outweighed := ⟨([66, 99, 99, 58, 32, 98], false), by decide, rfl, rfl⟩
  exact absurd (h.mpr hinjected) (by decide)

end PtaasBench.Legacy.MailQueue
