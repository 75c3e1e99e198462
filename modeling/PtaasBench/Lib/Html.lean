import Mathlib.Data.List.Basic
import Mathlib.Data.List.Flatten
import Mathlib.Tactic.SplitIfs

/-!
# PtaasBench.Lib.Html — pages of markup and escaped text

A page is read as a browser's tokenizer does: tags, and the characters between them with their references resolved.
Tables are read off the tags.
-/

namespace PtaasBench.Lib.Html

open List

abbrev Text := List Char

/-! ## Writing -/

def escapeChar (c : Char) : Text :=
  if c = '&' then "&amp;".toList
  else if c = '<' then "&lt;".toList
  else if c = '>' then "&gt;".toList
  else if c = '"' then "&quot;".toList
  else if c = '\'' then "&#x27;".toList
  else [c]

/-- `html.escape` -/
def escape (t : Text) : Text := t.flatMap escapeChar

/-! ## Tokens -/

inductive Token where
  | char (c : Char)
  | tag (t : Text)
deriving DecidableEq

inductive State where
  | text
  /-- In a tag, behind so many of its characters. -/
  | tag (read : Text)
  /-- In a character reference. -/
  | ref (read : Text)
deriving DecidableEq

/-- The character that a reference names. -/
def named (t : Text) : Option Char :=
  if t = "amp".toList then some '&'
  else if t = "lt".toList then some '<'
  else if t = "gt".toList then some '>'
  else if t = "quot".toList then some '"'
  else if t = "#x27".toList then some '\''
  else none

def resolve (t : Text) : List Token :=
  match named t with
  | some c => [.char c]
  | none => ('&' :: t ++ [';']).map .char

def next (s : State) (c : Char) : State × List Token :=
  match s with
  | .text => if c = '<' then (.tag [], []) else if c = '&' then (.ref [], []) else (.text, [.char c])
  | .tag read => if c = '>' then (.text, [.tag read]) else (.tag (read ++ [c]), [])
  | .ref read => if c = ';' then (.text, resolve read) else (.ref (read ++ [c]), [])

def scan (s : State) : Text → State × List Token
  | [] => (s, [])
  | c :: t => ((scan (next s c).1 t).1, (next s c).2 ++ (scan (next s c).1 t).2)

def tokens (t : Text) : List Token := (scan .text t).2

def Token.tag? : Token → Option Text
  | .tag t => some t
  | .char _ => none

/-- The tags of a page. -/
def elements (t : Text) : List Text := (tokens t).filterMap Token.tag?

theorem scan_append (s : State) (t u : Text) :
    scan s (t ++ u) = ((scan (scan s t).1 u).1, (scan s t).2 ++ (scan (scan s t).1 u).2) := by
  induction t generalizing s with
  | nil => rfl
  | cons c t ih =>
    rw [cons_append, scan, scan, ih]
    dsimp only
    rw [append_assoc]

theorem scan_escapeChar (c : Char) : scan .text (escapeChar c) = (.text, [.char c]) := by
  unfold escapeChar
  split_ifs with hamp hlt hgt hquot hapos
  · rw [hamp]
    decide
  · rw [hlt]
    decide
  · rw [hgt]
    decide
  · rw [hquot]
    decide
  · rw [hapos]
    decide
  · rw [scan, next, if_neg hlt, if_neg hamp]
    rfl

/-- Escaped text is read as what it was. -/
theorem scan_escape (t : Text) : scan .text (escape t) = (.text, t.map .char) := by
  induction t with
  | nil => rfl
  | cons c t ih => rw [escape, flatMap_cons, scan_append, scan_escapeChar, ← escape, ih, map_cons,
      singleton_append]

/-- A tag goes on up to its end. -/
theorem scan_tag (read : Text) {t : Text} (h : '>' ∉ t) : scan (.tag read) t = (.tag (read ++ t), []) := by
  induction t generalizing read with
  | nil => rw [append_nil]; rfl
  | cons c t ih =>
    rw [mem_cons, not_or] at h
    rw [scan, next, if_neg (Ne.symm h.1)]
    dsimp only
    rw [ih _ h.2, append_assoc]
    rfl

/-- Nothing stands between two characters that no tag or reference begins with. -/
theorem scan_plain {t : Text} (h : ∀ c ∈ t, c ≠ '<' ∧ c ≠ '&') : scan .text t = (.text, t.map .char) := by
  induction t with
  | nil => rfl
  | cons c t ih =>
    obtain ⟨hlt, hamp⟩ := h c mem_cons_self
    rw [scan, next, if_neg hlt, if_neg hamp]
    dsimp only
    rw [ih fun d hd => h d (mem_cons_of_mem c hd)]
    rfl

/-! ## Chunks -/

/-- A page is put together from tags, raw text that none begins in, and texts that are escaped. -/
inductive Chunk where
  | tag (t : Text) (closed : t.contains '>' = false)
  | raw (t : Text) (inert : (t.all fun c => c != '<' && c != '&') = true)
  | text (t : Text)

def Chunk.write : Chunk → Text
  | .tag t _ => '<' :: t ++ ['>']
  | .raw t _ => t
  | .text t => escape t

def Chunk.tokens : Chunk → List Token
  | .tag t _ => [.tag t]
  | .raw t _ => t.map .char
  | .text t => t.map .char

def Chunk.elements : Chunk → List Text
  | .tag t _ => [t]
  | _ => []

def write (chunks : List Chunk) : Text := chunks.flatMap Chunk.write

theorem scan_chunk (chunk : Chunk) : scan .text chunk.write = (.text, chunk.tokens) := by
  cases chunk with
  | tag t closed =>
    have hfirst : scan .text ('<' :: t ++ ['>']) = scan (.tag []) (t ++ ['>']) := rfl
    have hclosed : '>' ∉ t := fun h => Bool.false_ne_true (closed.symm.trans (contains_iff_mem.mpr h))
    rw [Chunk.write, hfirst, scan_append, scan_tag [] hclosed]
    rfl
  | raw t inert =>
    refine scan_plain fun c hc => ?_
    have hinert := all_eq_true.mp inert c hc
    rwa [Bool.and_eq_true, bne_iff_ne, bne_iff_ne] at hinert
  | text t => exact scan_escape t

theorem scan_write (chunks : List Chunk) : scan .text (write chunks) = (.text, chunks.flatMap Chunk.tokens) := by
  induction chunks with
  | nil => rfl
  | cons chunk chunks ih => rw [write, flatMap_cons, scan_append, scan_chunk, ← write, ih, flatMap_cons]

/-- The tokens of a page are those of its chunks. -/
theorem tokens_write (chunks : List Chunk) : tokens (write chunks) = chunks.flatMap Chunk.tokens := by
  rw [tokens, scan_write]

theorem filterMap_chars (t : Text) : (t.map Token.char).filterMap Token.tag? = [] := by
  rw [filterMap_map]
  exact filterMap_eq_nil_iff.mpr fun c _ => rfl

/-- The tags of a page are those that were put into it. -/
theorem elements_write (chunks : List Chunk) : elements (write chunks) = chunks.flatMap Chunk.elements := by
  rw [elements, tokens_write, filterMap_flatMap]
  refine flatMap_congr fun chunk _ => ?_
  cases chunk with
  | tag t closed => rfl
  | raw t inert => exact filterMap_chars t
  | text t => exact filterMap_chars t

/-! ## Tables -/

/-- What has been read: tables, the rows of the table at hand, the cells of the row at hand, the cell that is open. -/
@[ext] structure Reading where
  tables : List (List (List Text))
  rows : List (List Text)
  cells : List Text
  cell : Option Text

def nameOf (tag : Text) : Text := tag.takeWhile fun c => c != ' '

def Reading.tag (r : Reading) (name : Text) : Reading :=
  if name = "/table".toList then { r with tables := r.tables ++ [r.rows], rows := [] }
  else if name = "/tr".toList then { r with rows := r.rows ++ [r.cells], cells := [] }
  else if name = "/th".toList ∨ name = "/td".toList then { r with cells := r.cells ++ [r.cell.getD []], cell := none }
  else if name = "th".toList ∨ name = "td".toList then { r with cell := some [] }
  else r

def Reading.step (r : Reading) : Token → Reading
  | .char c => { r with cell := r.cell.map fun t => t ++ [c] }
  | .tag tag => r.tag (nameOf tag)

/-- The tables of a page. -/
def read (t : Text) : List (List (List Text)) := ((tokens t).foldl Reading.step ⟨[], [], [], none⟩).tables

def Reading.after (r : Reading) (chunks : List Chunk) : Reading := (chunks.flatMap Chunk.tokens).foldl Reading.step r

section Reading

variable (r : Reading)

theorem Reading.after_append (chunks more : List Chunk) : r.after (chunks ++ more) = (r.after chunks).after more := by
  rw [after, flatMap_append, foldl_append, after, after]

theorem Reading.after_cons (chunk : Chunk) (chunks : List Chunk) :
    r.after (chunk :: chunks) = (chunk.tokens.foldl step r).after chunks := by
  rw [after, flatMap_cons, foldl_append, after]

theorem Reading.foldl_chars (t : Text) :
    (t.map Token.char).foldl step r = { r with cell := r.cell.map fun before => before ++ t } := by
  induction t generalizing r with
  | nil =>
    ext1
    · rfl
    · rfl
    · rfl
    · show r.cell = r.cell.map fun before => before ++ []
      simp only [append_nil, Option.map_id']
  | cons c t ih =>
    rw [map_cons, foldl_cons, ih, step]
    dsimp only
    rw [Option.map_map]
    congr 2
    funext before
    rw [Function.comp_apply, append_assoc, singleton_append]

end Reading

/-- Chunks that add these tables to a page, and leave no row or cell open. -/
def Reads (chunks : List Chunk) (tables : List (List (List Text))) : Prop :=
  ∀ done, (⟨done, [], [], none⟩ : Reading).after chunks = ⟨done ++ tables, [], [], none⟩

/-- Chunks that add a cell to a row. -/
def ReadsCell (chunks : List Chunk) (t : Text) : Prop :=
  ∀ tables rows cells, (⟨tables, rows, cells, none⟩ : Reading).after chunks = ⟨tables, rows, cells ++ [t], none⟩

theorem Reads.nil : Reads [] [] := by
  intro done
  rw [append_nil]
  rfl

theorem Reads.append {chunks more : List Chunk} {tables others : List (List (List Text))} (h : Reads chunks tables)
    (h' : Reads more others) : Reads (chunks ++ more) (tables ++ others) := by
  intro done
  rw [Reading.after_append, h done, h' _, append_assoc]

theorem Reads.ite {p : Prop} [Decidable p] {chunks more : List Chunk} {tables : List (List (List Text))}
    (h : p → Reads chunks tables) (h' : ¬p → Reads more tables) : Reads (if p then chunks else more) tables := by
  split_ifs with hp
  · exact h hp
  · exact h' hp

theorem Reads.flatMap {α : Type*} {l : List α} {chunks : α → List Chunk} {tables : α → List (List (List Text))}
    (h : ∀ a ∈ l, Reads (chunks a) (tables a)) : Reads (l.flatMap chunks) (l.flatMap tables) := by
  induction l with
  | nil => exact Reads.nil
  | cons a l ih => exact (h a mem_cons_self).append (ih fun b hb => h b (mem_cons_of_mem a hb))

/-- A tag that is not one of a table's. -/
def isInert (t : Text) : Bool :=
  ["/table".toList, "/tr".toList, "/th".toList, "/td".toList, "th".toList, "td".toList].all fun name => nameOf t != name

theorem Reading.tag_of_inert {t : Text} (h : isInert t = true) (r : Reading) : r.tag (nameOf t) = r := by
  have hname : ∀ name ∈ ["/table".toList, "/tr".toList, "/th".toList, "/td".toList, "th".toList, "td".toList],
      nameOf t ≠ name := by
    intro name hname
    exact bne_iff_ne.mp (all_eq_true.mp h name hname)
  simp only [forall_mem_cons] at hname
  obtain ⟨htable, htr, hth, htd, hopen, hopen', -⟩ := hname
  rw [Reading.tag, if_neg htable, if_neg htr, if_neg (not_or.mpr ⟨hth, htd⟩), if_neg (not_or.mpr ⟨hopen, hopen'⟩)]

/-- A chunk without a tag of a table. -/
def Chunk.isInert : Chunk → Bool
  | .tag t _ => Html.isInert t
  | _ => true

theorem Reads.of_isInert {chunks : List Chunk} (h : chunks.all Chunk.isInert = true) : Reads chunks [] := by
  intro done
  rw [append_nil]
  induction chunks with
  | nil => rfl
  | cons chunk chunks ih =>
    rw [all_cons, Bool.and_eq_true] at h
    rw [Reading.after_cons]
    have hchunk : chunk.tokens.foldl Reading.step ⟨done, [], [], none⟩ = ⟨done, [], [], none⟩ := by
      cases chunk with
      | tag t closed =>
        rw [Chunk.tokens, foldl_cons, Reading.step, Reading.tag_of_inert h.1]
        rfl
      | raw t inert => rw [Chunk.tokens, Reading.foldl_chars]; rfl
      | text t => rw [Chunk.tokens, Reading.foldl_chars]; rfl
    rw [hchunk]
    exact ih h.2

/-- What stands before the text opens a cell, what stands behind it closes the cell. -/
theorem ReadsCell.of_between {before behind : List Chunk} {t : Text}
    (hopen : ∀ tables rows cells, (⟨tables, rows, cells, none⟩ : Reading).after before = ⟨tables, rows, cells, some []⟩)
    (hclose : ∀ tables rows cells,
      (⟨tables, rows, cells, some t⟩ : Reading).after behind = ⟨tables, rows, cells ++ [t], none⟩) :
    ReadsCell (before ++ .text t :: behind) t := by
  intro tables rows cells
  rw [Reading.after_append, hopen, Reading.after_cons, Chunk.tokens, Reading.foldl_chars]
  exact hclose tables rows cells

/-- The cells of a row. -/
theorem after_cells {α : Type*} {l : List α} {chunks : α → List Chunk} {texts : α → Text}
    (h : ∀ a ∈ l, ReadsCell (chunks a) (texts a)) (tables : List (List (List Text))) (rows : List (List Text))
    (cells : List Text) :
    (⟨tables, rows, cells, none⟩ : Reading).after (l.flatMap chunks) = ⟨tables, rows, cells ++ l.map texts, none⟩ := by
  induction l generalizing cells with
  | nil =>
    rw [map_nil, append_nil]
    rfl
  | cons a l ih =>
    rw [flatMap_cons, Reading.after_append, h a mem_cons_self, ih fun b hb => h b (mem_cons_of_mem a hb),
      append_assoc, map_cons, singleton_append]

/-- The tables of a page are those that its chunks add. -/
theorem Reads.read {chunks : List Chunk} {tables : List (List (List Text))} (h : Reads chunks tables) :
    Html.read (write chunks) = tables := by
  rw [Html.read, tokens_write]
  exact congrArg Reading.tables (h [])

end PtaasBench.Lib.Html
