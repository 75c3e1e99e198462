import PtaasBench.Lib.Fields
import PtaasBench.Lib.Machine
import PtaasBench.Py.Utf8

/-!
# PtaasBench.Infra.Follower — following the log across writes, truncation and replacement (`httplog.py`)

The files of the path by identity, the reader's handle on one of them, and what it has yielded.  A poll is
one pass over `lines`, with the file opened at its end the first time, as the thread does.
-/

namespace PtaasBench.Infra

open Py Lib

/-! ## The reader -/

structure Handle where
  identity : ℕ
  /-- In bytes. -/
  position : ℕ

/-- The files that were ever at the path, by number; what is written to one is text. -/
structure World where
  files : ℕ → List Char
  current : ℕ := 0
  handle : Option Handle := none
  yielded : List (List Char × ℕ) := []

inductive Op where
  /-- The server writes a line, or a part of one. -/
  | append (text : List Char)
  /-- The file is cut down in place. -/
  | truncate (keep : ℕ)
  /-- Another file takes the place of the file. -/
  | replace (text : List Char)
  | poll

/-- `readline()` with universal newlines: the text, and how many bytes it was read from. -/
def readline (bs : Bytes) : List Char × ℕ :=
  let body := bs.takeWhile fun b => b ≠ 0x0A && b ≠ 0x0D
  match bs.drop body.length with
  | [] => (utf8Decode body, body.length)
  | 0x0D :: 0x0A :: _ => (utf8Decode body ++ ['\n'], body.length + 2)
  | _ :: _ => (utf8Decode body ++ ['\n'], body.length + 1)

/-- The loop of `lines`, over the bytes from a position on: what it yields, and where it leaves the
handle.  A chunk takes a byte at least, so a turn for each byte and one past them are enough. -/
def readLines : ℕ → Bytes → ℕ → List (List Char × ℕ) × ℕ
  | 0, _, position => ([], position)
  | turns + 1, bs, position =>
    let (chunk, size) := readline bs
    if chunk = [] then ([], position)
    else if chunk.getLast? ≠ some '\n' then
      -- a partial line: `seek(tell() - len(chunk))`
      ([], position + size - chunk.length)
    else
      let rest := readLines turns (bs.drop size) (position + size)
      ((chunk, position + size) :: rest.1, rest.2)

namespace World

def content (w : World) : Bytes := utf8Encode (w.files w.current)

/-- The handle, or what `_open` makes at the end of the file. -/
def opened (w : World) : Handle :=
  w.handle.getD { identity := w.current, position := w.content.length }

/-- The handle after `stat`: on the file that is at the path now, and at its start if it has shrunk. -/
def noticed (w : World) : Handle :=
  if w.current ≠ w.opened.identity then { identity := w.current, position := 0 }
  else if w.content.length < w.opened.position then { w.opened with position := 0 }
  else w.opened

def lines (w : World) : World :=
  let bs := utf8Encode (w.files w.noticed.identity)
  let result := readLines (bs.length + 1) (bs.drop w.noticed.position) w.noticed.position
  { w with
    handle := some { w.noticed with position := result.2 }
    yielded := w.yielded ++ result.1 }

def step (w : World) : Op → World
  | .append text => { w with files := Function.update w.files w.current (w.files w.current ++ text) }
  | .truncate keep => { w with files := Function.update w.files w.current ((w.files w.current).take keep) }
  | .replace text =>
    { w with files := Function.update w.files (w.current + 1) text, current := w.current + 1 }
  | .poll => w.lines

end World

/-! ## What is owed -/

/-- The lines of a text that are complete. -/
def completeLines (text : List Char) : List (List Char) := (text.splitOn '\n').dropLast.map (· ++ ['\n'])

/-- The line that is still being written. -/
def unfinished (text : List Char) : List Char := (text.splitOn '\n').getLastD []

/-- Every complete line once, in order: of the files that were replaced, then of the file itself from the
character on that has been read to. -/
structure Owed where
  opened : Bool := false
  replaced : List (List Char) := []
  text : List Char
  done : ℕ := 0
  yielded : List (List Char) := []

namespace Owed

def unread (o : Owed) : List Char := o.text.drop o.done

def step (o : Owed) : Op → Owed
  | .append text => { o with text := o.text ++ text }
  | .truncate keep => { o with text := o.text.take keep, done := min o.done keep }
  | .replace text =>
    { o with
      replaced := if o.opened then o.replaced ++ completeLines o.unread else []
      text := text
      done := 0 }
  | .poll =>
    if o.opened then
      { o with
        replaced := []
        done := o.text.length - (unfinished o.unread).length
        yielded := o.yielded ++ o.replaced ++ completeLines o.unread }
    else { o with opened := true, done := o.text.length }

end Owed

/-- The reader and the account of what is owed, side by side. -/
def bothStep (s : World × Owed) (op : Op) : World × Owed := (s.1.step op, s.2.step op)

def begin (text : List Char) : World × Owed := ({ files := fun _ => text }, { text := text })

/-- A step the reader copes with. -/
def Steady (s : World × Owed) : Op → Prop
  -- no carriage return is written
  | .append text => '\r' ∉ text
  -- the file is emptied, or nothing that was read is cut off
  | .truncate keep => keep = 0 ∨ s.2.done ≤ keep
  -- nothing that was read to the end of a line is left behind unread
  | .replace text => '\r' ∉ text ∧ (s.2.opened = true → completeLines s.2.unread = [])
  | .poll =>
    if s.2.opened then
      -- a line that is being written is ASCII, and an emptied file has not grown to where it was read to
      (unfinished s.2.unread).all (·.toNat < 0x80) ∧
        ∀ h ∈ s.1.handle, h.identity = s.1.current →
          h.position = (utf8Encode (s.2.text.take s.2.done)).length ∨ s.1.content.length < h.position
    else
      -- the file is first opened between two lines
      unfinished s.2.text = []

instance (s : World × Owed) : ∀ op, Decidable (Steady s op)
  | .append text => inferInstanceAs (Decidable ('\r' ∉ text))
  | .truncate keep => inferInstanceAs (Decidable (keep = 0 ∨ s.2.done ≤ keep))
  | .replace text =>
    inferInstanceAs (Decidable ('\r' ∉ text ∧ (s.2.opened = true → completeLines s.2.unread = [])))
  | .poll => inferInstanceAs (Decidable (if s.2.opened then _ else _))

/-! ## Lines of a text and of its bytes -/

section Lines

theorem completeLines_of_notMem {text : List Char} (h : '\n' ∉ text) : completeLines text = [] := by
  rw [completeLines, List.splitOn_eq_singleton h]
  rfl

theorem unfinished_of_notMem {text : List Char} (h : '\n' ∉ text) : unfinished text = text := by
  rw [unfinished, List.splitOn_eq_singleton h]
  rfl

variable {line : List Char} (h : '\n' ∉ line) (rest : List Char)
include h

theorem completeLines_line :
    completeLines (line ++ '\n' :: rest) = (line ++ ['\n']) :: completeLines rest := by
  rw [completeLines, List.splitOn_append_cons_self_of_not_mem h,
    List.dropLast_cons_of_ne_nil (List.splitOn_ne_nil _ _)]
  rfl

theorem unfinished_line : unfinished (line ++ '\n' :: rest) = unfinished rest := by
  obtain ⟨first, others, hsplit⟩ := List.exists_cons_of_ne_nil (List.splitOn_ne_nil '\n' rest)
  rw [unfinished, List.splitOn_append_cons_self_of_not_mem h, unfinished, hsplit]
  rfl

end Lines

/-- A text is one unfinished line, or a line and a text behind it. -/
theorem line_cases (text : List Char) :
    '\n' ∉ text ∨ ∃ line rest, '\n' ∉ line ∧ text = line ++ '\n' :: rest := by
  by_cases h : '\n' ∈ text
  · obtain ⟨line, rest, htext, hline⟩ := List.eq_append_cons_of_mem h
    exact Or.inr ⟨line, rest, hline, htext⟩
  · exact Or.inl h

theorem notBreak_of_mem_utf8Encode {line : List Char} (hbreak : '\n' ∉ line) (hreturn : '\r' ∉ line) :
    ∀ b ∈ utf8Encode line, (b ≠ 0x0A && b ≠ 0x0D) = true := by
  intro b hb
  have hchar : ∀ d : Char, d ∉ line → b.toNat = d.toNat → d.toNat < 0x80 → False := by
    intro d hd hbd hlow
    rcases mem_utf8Encode hb with ⟨c, hc, hbc⟩ | hhigh
    · have hcd : c = d := Char.toNat_inj.mp (hbc.symm.trans hbd)
      exact hd (hcd ▸ hc)
    · omega
  rw [Bool.and_eq_true, decide_eq_true_eq, decide_eq_true_eq]
  refine ⟨?_, ?_⟩
  · rintro rfl
    exact hchar '\n' hbreak rfl (by decide)
  · rintro rfl
    exact hchar '\r' hreturn rfl (by decide)

theorem readline_unfinished {line : List Char} (hbreak : '\n' ∉ line) (hreturn : '\r' ∉ line) :
    readline (utf8Encode line) = (line, (utf8Encode line).length) := by
  have hbody : (utf8Encode line).takeWhile (fun b => b ≠ 0x0A && b ≠ 0x0D) = utf8Encode line :=
    List.takeWhile_eq_self_iff.mpr (notBreak_of_mem_utf8Encode hbreak hreturn)
  rw [readline, hbody, List.drop_length]
  dsimp only
  rw [utf8Decode_encode]

theorem readline_line {line : List Char} (hbreak : '\n' ∉ line) (hreturn : '\r' ∉ line) (rest : Bytes) :
    readline (utf8Encode line ++ 0x0A :: rest) = (line ++ ['\n'], (utf8Encode line).length + 1) := by
  have hbody : (utf8Encode line ++ 0x0A :: rest).takeWhile (fun b => b ≠ 0x0A && b ≠ 0x0D) =
      utf8Encode line := by
    rw [List.takeWhile_append_of_pos (notBreak_of_mem_utf8Encode hbreak hreturn),
      List.takeWhile_cons_of_neg (by decide), List.append_nil]
  rw [readline, hbody, List.drop_left]
  show (utf8Decode (utf8Encode line) ++ ['\n'], _) = _
  rw [utf8Decode_encode]

theorem utf8Encode_line (line rest : List Char) :
    utf8Encode (line ++ '\n' :: rest) = utf8Encode line ++ 0x0A :: utf8Encode rest := by
  rw [utf8Encode_append, utf8Encode_cons]
  rfl

/-- A turn on a line that is not complete: the loop ends, a step back for each character. -/
theorem readLines_unfinished {text : List Char} (hbreak : '\n' ∉ text) (hreturn : '\r' ∉ text)
    (turns position : ℕ) :
    readLines (turns + 1) (utf8Encode text) position =
      ([], position + (utf8Encode text).length - text.length) := by
  rw [readLines, readline_unfinished hbreak hreturn]
  dsimp only
  by_cases hnil : text = []
  · subst hnil
    rfl
  · have hlast : text.getLast? ≠ some '\n' := fun hlast => hbreak (List.mem_of_getLast? hlast)
    rw [if_neg hnil, if_pos hlast]

/-- A turn on a complete line: it is yielded, and the loop goes on behind it. -/
theorem readLines_line {line : List Char} (hline : '\n' ∉ line) (hreturn : '\r' ∉ line) (rest : List Char)
    (turns position : ℕ) :
    readLines (turns + 1) (utf8Encode (line ++ '\n' :: rest)) position =
      ((line ++ ['\n'], position + ((utf8Encode line).length + 1)) ::
        (readLines turns (utf8Encode rest) (position + ((utf8Encode line).length + 1))).1,
        (readLines turns (utf8Encode rest) (position + ((utf8Encode line).length + 1))).2) := by
  have hdrop : (utf8Encode line ++ 0x0A :: utf8Encode rest).drop ((utf8Encode line).length + 1) =
      utf8Encode rest := by
    rw [← List.drop_drop, List.drop_left]
    rfl
  rw [readLines, utf8Encode_line, readline_line hline hreturn]
  dsimp only
  rw [if_neg (by simp), if_neg (by simp), hdrop]

/-- Without carriage returns, the loop yields the complete lines, and steps back from the end by the
characters of the line that is not complete. -/
theorem readLines_utf8Encode {text : List Char} (hreturn : '\r' ∉ text) {turns : ℕ} (hturns : text.length < turns)
    (position : ℕ) :
    (readLines turns (utf8Encode text) position).1.map Prod.fst = completeLines text ∧
      (readLines turns (utf8Encode text) position).2 =
        position + (utf8Encode text).length - (unfinished text).length := by
  induction turns generalizing text position with
  | zero => exact absurd hturns (Nat.not_lt_zero _)
  | succ turns ih =>
    rcases line_cases text with hbreak | ⟨line, rest, hline, rfl⟩
    · rw [readLines_unfinished hbreak hreturn, completeLines_of_notMem hbreak, unfinished_of_notMem hbreak]
      exact ⟨rfl, rfl⟩
    · have hparts : '\r' ∉ line ∧ '\r' ∉ rest := by
        constructor
        · exact fun hmem => hreturn (List.mem_append_left _ hmem)
        · exact fun hmem => hreturn (List.mem_append_right _ (List.mem_cons_of_mem _ hmem))
      have hshort : rest.length < turns := by
        rw [List.length_append, List.length_cons] at hturns
        omega
      obtain ⟨hlines, hend⟩ := ih hparts.2 hshort (position + ((utf8Encode line).length + 1))
      rw [readLines_line hline hparts.1, completeLines_line hline, unfinished_line hline, utf8Encode_line]
      refine ⟨?_, ?_⟩
      · rw [List.map_cons, hlines]
      · rw [hend, List.length_append, List.length_cons]
        congr 1
        omega

/-! ## One pass over a file -/

theorem exists_complete (text : List Char) : ∃ front, text = front ++ unfinished text := by
  induction hlength : text.length using Nat.strong_induction_on generalizing text with
  | _ n ih =>
    rcases line_cases text with hbreak | ⟨line, rest, hline, rfl⟩
    · exact ⟨[], (unfinished_of_notMem hbreak).symm⟩
    · have hshort : rest.length < n := by
        rw [← hlength, List.length_append, List.length_cons]
        omega
      obtain ⟨front, hfront⟩ := ih rest.length hshort rest rfl
      refine ⟨line ++ '\n' :: front, ?_⟩
      rw [unfinished_line hline, List.append_assoc, List.cons_append, ← hfront]

/-- The size of the characters before one. -/
def sizeTo (text : List Char) (n : ℕ) : ℕ := (utf8Encode (text.take n)).length

theorem utf8Encode_split (text : List Char) (n : ℕ) :
    utf8Encode text = utf8Encode (text.take n) ++ utf8Encode (text.drop n) := by
  rw [← utf8Encode_append, List.take_append_drop]

theorem drop_sizeTo (text : List Char) (n : ℕ) :
    (utf8Encode text).drop (sizeTo text n) = utf8Encode (text.drop n) := by
  rw [utf8Encode_split text n, sizeTo, List.drop_left]

theorem sizeTo_le (text : List Char) (n : ℕ) : sizeTo text n ≤ (utf8Encode text).length := by
  rw [utf8Encode_split text n, sizeTo, List.length_append]
  omega

theorem sizeTo_zero (text : List Char) : sizeTo text 0 = 0 := rfl

theorem sizeTo_length (text : List Char) : sizeTo text text.length = (utf8Encode text).length := by
  rw [sizeTo, List.take_length]

theorem sizeTo_append {text more : List Char} {n : ℕ} (h : n ≤ text.length) :
    sizeTo (text ++ more) n = sizeTo text n := by
  rw [sizeTo, List.take_append_of_le_length h, sizeTo]

theorem sizeTo_take {text : List Char} {n keep : ℕ} (h : n ≤ keep) : sizeTo (text.take keep) n = sizeTo text n := by
  rw [sizeTo, List.take_take, Nat.min_eq_left h, sizeTo]

/-- The place up to which a pass reads a text. -/
theorem exists_read (text : List Char) (done : ℕ) : ∃ front,
    text.drop done = front ++ unfinished (text.drop done) ∧
      text.take (text.length - (unfinished (text.drop done)).length) = text.take done ++ front ∧
      text.drop (text.length - (unfinished (text.drop done)).length) = unfinished (text.drop done) := by
  obtain ⟨front, hfront⟩ := exists_complete (text.drop done)
  have htext : text = (text.take done ++ front) ++ unfinished (text.drop done) := by
    rw [List.append_assoc, ← hfront, List.take_append_drop]
  have hlength : text.length - (unfinished (text.drop done)).length = (text.take done ++ front).length := by
    have hparts := congrArg List.length htext
    rw [List.length_append] at hparts
    omega
  have htake : ((text.take done ++ front) ++ unfinished (text.drop done)).take (text.take done ++ front).length =
      text.take done ++ front := List.take_left
  have hdrop : ((text.take done ++ front) ++ unfinished (text.drop done)).drop (text.take done ++ front).length =
      unfinished (text.drop done) := List.drop_left
  rw [← htext] at htake hdrop
  rw [hlength]
  exact ⟨front, hfront, htake, hdrop⟩

/-- A pass that starts where the file was read to yields the complete lines from there on, and leaves the
handle behind them if the rest is ASCII. -/
theorem readLines_from {text : List Char} {done : ℕ} (hdone : done ≤ text.length) (hreturn : '\r' ∉ text.drop done) :
    (readLines ((utf8Encode text).length + 1) ((utf8Encode text).drop (sizeTo text done))
        (sizeTo text done)).1.map Prod.fst = completeLines (text.drop done) ∧
      ((∀ c ∈ unfinished (text.drop done), c.toNat < 0x80) →
        (readLines ((utf8Encode text).length + 1) ((utf8Encode text).drop (sizeTo text done)) (sizeTo text done)).2 =
          sizeTo text (text.length - (unfinished (text.drop done)).length)) := by
  have hturns : (text.drop done).length < (utf8Encode text).length + 1 := by
    have hsize := length_le_utf8Encode text
    rw [List.length_drop]
    omega
  obtain ⟨hlines, hend⟩ := readLines_utf8Encode hreturn hturns (sizeTo text done)
  rw [drop_sizeTo]
  refine ⟨hlines, fun hascii => ?_⟩
  obtain ⟨front, hfront, htake, -⟩ := exists_read text done
  have hsize : (utf8Encode (text.drop done)).length =
      (utf8Encode front).length + (unfinished (text.drop done)).length := by
    rw [← length_utf8Encode_ascii hascii, ← List.length_append, ← utf8Encode_append, ← hfront]
  rw [hend, hsize, sizeTo, sizeTo, htake, utf8Encode_append, List.length_append]
  omega

/-! ## The reader keeps up with what is owed -/

structure Follows (s : World × Owed) : Prop where
  text : s.1.files s.1.current = s.2.text
  opened : s.2.opened = s.1.handle.isSome
  yielded : s.1.yielded.map Prod.fst = s.2.yielded
  replaced : s.2.replaced = []
  done_le : s.2.done ≤ s.2.text.length
  plain : s.2.opened = true → '\r' ∉ s.2.unread
  /-- The handle is not on a file of the future. -/
  identity_le : ∀ h ∈ s.1.handle, h.identity ≤ s.1.current
  /-- Nothing of another file has been read. -/
  elsewhere : ∀ h ∈ s.1.handle, h.identity ≠ s.1.current → s.2.done = 0
  /-- The handle is where the file was read to, unless the file was emptied. -/
  position : ∀ h ∈ s.1.handle, h.identity = s.1.current → h.position = sizeTo s.2.text s.2.done ∨ s.2.done = 0

theorem follows_begin (text : List Char) : Follows (begin text) where
  text := rfl
  opened := rfl
  yielded := rfl
  replaced := rfl
  done_le := Nat.zero_le _
  plain h := by cases h
  identity_le _ h := by cases h
  elsewhere _ h := by cases h
  position _ h := by cases h

variable {s : World × Owed}

theorem Follows.append {text : List Char} (h : Follows s) (hsteady : '\r' ∉ text) :
    Follows (bothStep s (.append text)) where
  text := by
    show Function.update s.1.files s.1.current _ s.1.current = _
    rw [Function.update_self, h.text]
    rfl
  opened := h.opened
  yielded := h.yielded
  replaced := h.replaced
  done_le := by
    show s.2.done ≤ (s.2.text ++ text).length
    have hdone := h.done_le
    rw [List.length_append]
    omega
  plain hopened := by
    show '\r' ∉ (s.2.text ++ text).drop s.2.done
    rw [List.drop_append_of_le_length h.done_le]
    intro hmem
    rcases List.mem_append.mp hmem with hmem | hmem
    · exact h.plain hopened hmem
    · exact hsteady hmem
  identity_le := h.identity_le
  elsewhere := h.elsewhere
  position handle hhandle hsame := by
    rcases h.position handle hhandle hsame with hpos | hzero
    · left
      show handle.position = sizeTo (s.2.text ++ text) s.2.done
      rw [sizeTo_append h.done_le, hpos]
    · exact Or.inr hzero

theorem Follows.truncate {keep : ℕ} (h : Follows s) (hsteady : keep = 0 ∨ s.2.done ≤ keep) :
    Follows (bothStep s (.truncate keep)) where
  text := by
    show Function.update s.1.files s.1.current _ s.1.current = _
    rw [Function.update_self, h.text]
    rfl
  opened := h.opened
  yielded := h.yielded
  replaced := h.replaced
  done_le := by
    show min s.2.done keep ≤ (s.2.text.take keep).length
    have hdone := h.done_le
    rw [List.length_take]
    omega
  plain hopened := by
    show '\r' ∉ (s.2.text.take keep).drop (min s.2.done keep)
    intro hmem
    refine h.plain hopened ?_
    rcases hsteady with rfl | hkeep
    · rw [List.take_zero, List.drop_nil] at hmem
      cases hmem
    · rw [Nat.min_eq_left hkeep, List.drop_take] at hmem
      exact List.mem_of_mem_take hmem
  identity_le := h.identity_le
  elsewhere handle hhandle hother := by
    show min s.2.done keep = 0
    rw [h.elsewhere handle hhandle hother, Nat.zero_min]
  position handle hhandle hsame := by
    show handle.position = sizeTo (s.2.text.take keep) (min s.2.done keep) ∨ min s.2.done keep = 0
    rcases hsteady with rfl | hkeep
    · exact Or.inr (Nat.min_zero _)
    · rw [Nat.min_eq_left hkeep, sizeTo_take hkeep]
      exact h.position handle hhandle hsame

theorem Follows.replace {text : List Char} (h : Follows s)
    (hsteady : '\r' ∉ text ∧ (s.2.opened = true → completeLines s.2.unread = [])) :
    Follows (bothStep s (.replace text)) where
  text := by
    show Function.update s.1.files (s.1.current + 1) text (s.1.current + 1) = text
    rw [Function.update_self]
  opened := h.opened
  yielded := h.yielded
  replaced := by
    show (if s.2.opened then s.2.replaced ++ completeLines s.2.unread else []) = []
    by_cases hopened : s.2.opened = true
    · rw [if_pos hopened, h.replaced, hsteady.2 hopened]
      rfl
    · rw [if_neg hopened]
  done_le := Nat.zero_le _
  plain _ := hsteady.1
  identity_le handle hhandle := (h.identity_le handle hhandle).trans (Nat.le_succ _)
  elsewhere _ _ _ := rfl
  position handle hhandle hsame := by
    have hle := h.identity_le handle hhandle
    have hnext : handle.identity = s.1.current + 1 := hsame
    omega

/-- What a poll finds: the file at the path, at the character it was read to. -/
theorem Follows.noticed_eq (h : Follows s) (hsteady : Steady s .poll) :
    s.1.noticed =
      { identity := s.1.current
        position := sizeTo s.2.text (if s.2.opened then s.2.done else s.2.text.length) } := by
  have hcontent : s.1.content = utf8Encode s.2.text := by rw [World.content, h.text]
  unfold Steady at hsteady
  cases hhandle : s.1.handle with
  | none =>
    have hclosed : s.2.opened = false := by rw [h.opened, hhandle]; rfl
    have hopen : s.1.opened = { identity := s.1.current, position := s.1.content.length } := by
      rw [World.opened, hhandle]
      rfl
    rw [World.noticed, hopen, hclosed, if_neg Bool.false_ne_true, sizeTo_length, if_neg (fun hne => hne rfl),
      if_neg (lt_irrefl _), hcontent]
  | some handle =>
    have hopened : s.2.opened = true := by rw [h.opened, hhandle]; rfl
    have hopen : s.1.opened = handle := by rw [World.opened, hhandle]; rfl
    rw [if_pos hopened] at hsteady
    rw [World.noticed, hopen, if_pos hopened]
    by_cases hsame : handle.identity = s.1.current
    · rw [if_neg (fun hne => hne hsame.symm)]
      rcases hsteady.2 handle hhandle hsame with hpos | hshrunk
      · have hle := sizeTo_le s.2.text s.2.done
        have hkept : ¬ s.1.content.length < handle.position := by
          rw [hcontent, hpos]
          exact not_lt.mpr hle
        rw [if_neg hkept, ← hsame, show sizeTo s.2.text s.2.done = handle.position from hpos.symm]
      · rw [if_pos hshrunk]
        rcases h.position handle hhandle hsame with hpos | hzero
        · have hle := sizeTo_le s.2.text s.2.done
          rw [hcontent, hpos] at hshrunk
          omega
        · dsimp only
          rw [hzero, sizeTo_zero, hsame]
    · rw [if_pos (Ne.symm hsame), h.elsewhere handle hhandle hsame, sizeTo_zero]

/-- A handle where the file was read to. -/
theorem follows_of_read {w : World} {o : Owed} (htext : w.files w.current = o.text) (hopened : o.opened = true)
    (hyielded : w.yielded.map Prod.fst = o.yielded) (hreplaced : o.replaced = [])
    (hdone : o.done ≤ o.text.length) (hplain : '\r' ∉ o.unread)
    (hhandle : w.handle = some { identity := w.current, position := sizeTo o.text o.done }) : Follows (w, o) where
  text := htext
  opened := by rw [hopened, hhandle]; rfl
  yielded := hyielded
  replaced := hreplaced
  done_le := hdone
  plain _ := hplain
  identity_le handle hmem := by
    rw [hhandle] at hmem
    obtain rfl := Option.some.inj hmem
    exact Nat.le_refl _
  elsewhere handle hmem hother := by
    rw [hhandle] at hmem
    obtain rfl := Option.some.inj hmem
    exact absurd rfl hother
  position handle hmem _ := by
    rw [hhandle] at hmem
    obtain rfl := Option.some.inj hmem
    exact Or.inl rfl

theorem mem_of_mem_unfinished {text : List Char} {c : Char} (h : c ∈ unfinished text) : c ∈ text := by
  obtain ⟨front, hfront⟩ := exists_complete text
  rw [hfront]
  exact List.mem_append_right _ h

/-- What a pass yields and where it leaves the handle, from where the file is noticed. -/
theorem Follows.lines_eq (h : Follows s) (hsteady : Steady s .poll) {start : ℕ}
    (hstart : start = if s.2.opened then s.2.done else s.2.text.length) (hle : start ≤ s.2.text.length)
    (hplain : '\r' ∉ s.2.text.drop start) (hascii : ∀ c ∈ unfinished (s.2.text.drop start), c.toNat < 0x80) :
    s.1.lines.yielded.map Prod.fst = s.2.yielded ++ completeLines (s.2.text.drop start) ∧
      s.1.lines.handle = some
        { identity := s.1.current
          position := sizeTo s.2.text (s.2.text.length - (unfinished (s.2.text.drop start)).length) } := by
  have hnoticed := h.noticed_eq hsteady
  rw [← hstart] at hnoticed
  obtain ⟨hlines, hend⟩ := readLines_from hle hplain
  rw [World.lines, hnoticed]
  dsimp only
  rw [h.text, List.map_append, hlines, h.yielded, hend hascii]
  exact ⟨rfl, rfl⟩

theorem Follows.poll (h : Follows s) (hsteady : Steady s .poll) : Follows (bothStep s .poll) := by
  have hkept := hsteady
  unfold Steady at hkept
  by_cases hopened : s.2.opened = true
  · rw [if_pos hopened] at hkept
    have hascii : ∀ c ∈ unfinished s.2.unread, c.toNat < 0x80 := fun c hc =>
      of_decide_eq_true (List.all_eq_true.mp hkept.1 c hc)
    obtain ⟨hyielded, hhandle⟩ := h.lines_eq hsteady (if_pos hopened).symm h.done_le (h.plain hopened) hascii
    have hpoll : s.2.step .poll =
        { s.2 with
          replaced := []
          done := s.2.text.length - (unfinished s.2.unread).length
          yielded := s.2.yielded ++ s.2.replaced ++ completeLines s.2.unread } := if_pos hopened
    rw [bothStep, hpoll]
    refine follows_of_read h.text hopened ?_ rfl (Nat.sub_le _ _) ?_ hhandle
    · show s.1.lines.yielded.map Prod.fst = s.2.yielded ++ s.2.replaced ++ completeLines s.2.unread
      rw [hyielded, h.replaced, List.append_nil]
      rfl
    · show '\r' ∉ s.2.text.drop (s.2.text.length - (unfinished s.2.unread).length)
      obtain ⟨front, -, -, hdrop⟩ := exists_read s.2.text s.2.done
      rw [Owed.unread, hdrop]
      exact fun hmem => h.plain hopened (mem_of_mem_unfinished hmem)
  · -- the file is opened at its end, and nothing is behind that
    have hrest : s.2.text.drop s.2.text.length = [] := List.drop_length
    obtain ⟨hyielded, hhandle⟩ := h.lines_eq hsteady (if_neg hopened).symm (Nat.le_refl _)
      (by rw [hrest]; exact List.not_mem_nil) (by rw [hrest]; intro c hc; cases hc)
    rw [hrest] at hyielded hhandle
    have hpoll : s.2.step .poll = { s.2 with opened := true, done := s.2.text.length } := if_neg hopened
    rw [bothStep, hpoll]
    refine follows_of_read h.text rfl ?_ h.replaced (Nat.le_refl _) ?_ hhandle
    · show s.1.lines.yielded.map Prod.fst = s.2.yielded
      rw [hyielded]
      exact List.append_nil _
    · show '\r' ∉ s.2.text.drop s.2.text.length
      rw [hrest]
      exact List.not_mem_nil

theorem Follows.step {op : Op} (h : Follows s) (hsteady : Steady s op) : Follows (bothStep s op) := by
  cases op with
  | append text => exact h.append hsteady
  | truncate keep => exact h.truncate hsteady
  | replace text => exact h.replace hsteady
  | poll => exact h.poll hsteady

/-- In every run whose steps the reader copes with, what it has yielded is every line that was owed, once
and in order. -/
theorem yielded_exactly_once (text : List Char) (ops : List Op) (hsteady : Along bothStep Steady (begin text) ops) :
    (run bothStep (begin text) ops).1.yielded.map Prod.fst = (run bothStep (begin text) ops).2.yielded :=
  (run_along bothStep (fun _ _ => Follows.step) (follows_begin text) hsteady).yielded

/-! ## A line that is not ASCII, polled while it is written -/

def lateLine : List Op := [.poll, .append ['é'], .poll, .append ['x', '\n'], .poll]

/-- The reader steps back one byte for a character of two, and the line loses its start. -/
theorem lateLine_loses_start :
    (run bothStep (begin []) lateLine).1.yielded.map Prod.fst = [[replacement, 'x', '\n']] ∧
      (run bothStep (begin []) lateLine).2.yielded = [['é', 'x', '\n']] :=
  ⟨by rfl, by rfl⟩

/-- A line in two parts, behind one that was there before. -/
def earlyLine : List Op := [.poll, .append ['a'], .poll, .append ['x', '\n'], .poll]

theorem earlyLine_exactly_once :
    (run bothStep (begin ['o', '\n']) earlyLine).1.yielded.map Prod.fst = [['a', 'x', '\n']] := by
  have hsteady : Along bothStep Steady (begin ['o', '\n']) earlyLine := by
    decide
  rw [yielded_exactly_once _ _ hsteady]
  rfl

end PtaasBench.Infra
