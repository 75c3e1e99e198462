import Mathlib.Algebra.Order.BigOperators.Group.List
import Mathlib.Algebra.Order.Ring.Nat
import Mathlib.Data.List.Chain
import Mathlib.Data.List.Flatten
import Mathlib.Data.List.Infix
import Mathlib.Data.List.TakeDrop
import PtaasBench.Py.Text

/-!
# PtaasBench.Lib.Markdown — the tables of a Markdown text

A table is a run of lines that begin with a bar: a line of headings, a line of dashes, a line for each row.  A line
ends at a line feed or a carriage return.
-/

namespace PtaasBench.Lib.Markdown

open List

open Py (forall_of_mem_splitOnP subset_of_mem_splitOnP)

abbrev Text := List Char

/-! ## Writing -/

/-- `sep.join(parts)` -/
def join (sep : Text) (parts : List Text) : Text := sep.intercalate parts

def writeRow (cells : List Text) : Text := ['|', ' '] ++ join [' ', '|', ' '] cells ++ [' ', '|']

def writeDashes (cells : List Text) : Text := ['|'] ++ join ['|'] (cells.map fun _ => ['-', '-', '-']) ++ ['|']

/-- A table of a line of headings and rows. -/
def writeTable (header : List Text) (rows : List (List Text)) : Text :=
  join ['\n'] (writeRow header :: writeDashes header :: rows.map writeRow)

/-! ## Reading -/

def isBreak (c : Char) : Bool := c == '\n' || c == '\r'

def linesOf (t : Text) : List Text := t.splitOnP isBreak

/-- The cells between the bars, each without the blank on either side. -/
def cellsOf (line : Text) : List Text :=
  ((line.splitOn '|').drop 1).dropLast.map fun cell => (cell.drop 1).dropLast

def isBar (line : Text) : Bool := line.head? == some '|'

/-- The runs of lines that begin with a bar. -/
def runsOf (lines : List Text) : List (List Text) :=
  (lines.splitOnP fun line => !isBar line).filter fun run => run ≠ []

/-- The rows of a table, its headings first. -/
def rowsOf (run : List Text) : List (List Text) := (run.take 1 ++ run.drop 2).map cellsOf

/-- The tables of a text. -/
def read (t : Text) : List (List (List Text)) := (runsOf (linesOf t)).map rowsOf

/-- A text that can stand in a cell: it has no bar and no end of a line. -/
def plain (t : Text) : Bool := t.all fun c => c != '|' && !isBreak c

/-- A text that has no line that begins with a bar. -/
def Quiet (t : Text) : Prop := ∀ line ∈ linesOf t, isBar line = false

/-! ## Lines -/

theorem linesOf_append_break {c : Char} (hc : isBreak c = true) (s t : Text) :
    linesOf (s ++ c :: t) = linesOf s ++ linesOf t :=
  splitOnP_append_cons s t hc

theorem linesOf_eq_singleton {t : Text} (h : ∀ c ∈ t, isBreak c = false) : linesOf t = [t] :=
  splitOnP_eq_singleton h

theorem join_cons_cons (sep s t : Text) (parts : List Text) :
    join sep (s :: t :: parts) = s ++ sep ++ join sep (t :: parts) := by
  rw [join, intercalate_cons_cons, join, append_assoc]

theorem join_singleton (sep s : Text) : join sep [s] = s := intercalate_singleton

/-- The lines of parts that stand on lines of their own. -/
theorem linesOf_join {parts : List Text} (h : parts ≠ []) : linesOf (join ['\n'] parts) = parts.flatMap linesOf := by
  induction parts with
  | nil => exact absurd rfl h
  | cons s parts ih =>
    cases parts with
    | nil => rw [join_singleton, flatMap_singleton]
    | cons t parts =>
      rw [join_cons_cons, append_assoc, singleton_append, linesOf_append_break rfl,
        ih (cons_ne_nil t parts)]
      rfl

/-- No line has an end of a line in it. -/
theorem not_break_of_mem {t line : Text} (h : line ∈ linesOf t) : ∀ c ∈ line, isBreak c = false :=
  forall_of_mem_splitOnP h

/-- The first line begins as its text does. -/
theorem exists_linesOf (t : Text) : ∃ first more, linesOf t = first :: more ∧ isBar first = isBar t := by
  cases t with
  | nil => exact ⟨[], [], rfl, rfl⟩
  | cons c t =>
    obtain ⟨first, more, hsplit⟩ := exists_cons_of_ne_nil (splitOnP_ne_nil isBreak t)
    rw [linesOf, splitOnP_cons_eq_if_modifyHead, hsplit]
    split_ifs with hc
    · refine ⟨[], first :: more, rfl, ?_⟩
      have hbar : c ≠ '|' := fun heq => absurd (heq ▸ hc) (by decide)
      exact (beq_eq_false_iff_ne.mpr fun heq => hbar (Option.some.inj heq)).symm
    · exact ⟨c :: first, more, rfl, rfl⟩

/-- No line but the first begins with a bar. -/
def Unbarred (t : Text) : Prop := t.IsChain fun a b => isBreak a = true → b ≠ '|'

theorem isBar_eq_false_iff {t : Text} : isBar t = false ↔ ∀ b ∈ t.head?, b ≠ '|' := by
  rw [isBar, beq_eq_false_iff_ne]
  constructor
  · rintro h b hb rfl
    exact h hb
  · intro h heq
    exact h '|' heq rfl

theorem unbarred_cons {c : Char} {t : Text} :
    Unbarred (c :: t) ↔ (isBreak c = true → isBar t = false) ∧ Unbarred t := by
  rw [Unbarred, isChain_cons, isBar_eq_false_iff, Unbarred]
  exact and_congr_left fun _ => ⟨fun h hc b hb => h b hb hc, fun h b hb hc => h hc b hb⟩

theorem unbarred_iff_tail {t : Text} : Unbarred t ↔ ∀ line ∈ (linesOf t).tail, isBar line = false := by
  induction t with
  | nil => exact ⟨fun _ line hline => absurd hline not_mem_nil, fun _ => List.IsChain.nil⟩
  | cons c t ih =>
    obtain ⟨first, more, hlines, hfirst⟩ := exists_linesOf t
    rw [hlines, tail_cons] at ih
    rw [unbarred_cons, ih, linesOf, splitOnP_cons_eq_if_modifyHead, ← linesOf, hlines, ← hfirst]
    split_ifs with hc
    · rw [tail_cons, forall_mem_cons, hc]
      exact and_congr_left fun _ => ⟨fun h => h rfl, fun h _ => h⟩
    · exact ⟨fun h => h.2, fun h => ⟨fun hbreak => absurd hbreak hc, h⟩⟩

theorem quiet_iff {t : Text} : Quiet t ↔ isBar t = false ∧ Unbarred t := by
  obtain ⟨first, more, hlines, hfirst⟩ := exists_linesOf t
  rw [Quiet, unbarred_iff_tail, hlines, forall_mem_cons, hfirst, tail_cons]

theorem unbarred_of_unbroken {t : Text} (h : ∀ c ∈ t, isBreak c = false) : Unbarred t := by
  rw [unbarred_iff_tail, linesOf_eq_singleton h]
  exact fun line hline => absurd hline not_mem_nil

/-- A text on one line stands before another. -/
theorem unbarred_unbroken_append {s : Text} (h : ∀ c ∈ s, isBreak c = false) (t : Text) :
    Unbarred (s ++ t) ↔ Unbarred t := by
  induction s with
  | nil => rfl
  | cons c s ih =>
    rw [cons_append, unbarred_cons, ih fun d hd => h d (mem_cons_of_mem c hd), h c mem_cons_self]
    exact ⟨fun h => h.2, fun h => ⟨fun hbreak => absurd hbreak Bool.false_ne_true, h⟩⟩

/-- A text that begins without a bar stands behind another. -/
theorem unbarred_append {t : Text} (h : isBar t = false) (s : Text) :
    Unbarred (s ++ t) ↔ Unbarred s ∧ Unbarred t := by
  rw [Unbarred, isChain_append, ← Unbarred, ← Unbarred]
  rw [isBar_eq_false_iff] at h
  exact ⟨fun hall => ⟨hall.1, hall.2.1⟩, fun hall => ⟨hall.1, hall.2, fun _ _ b hb _ => h b hb⟩⟩

theorem isBar_append {s : Text} (h : s ≠ []) (t : Text) : isBar (s ++ t) = isBar s := by
  rw [isBar, isBar, List.head?_append_of_ne_nil s h]

/-- Texts between separators on one line. -/
theorem unbarred_join {sep : Text} (hne : sep ≠ []) (hbar : isBar sep = false) (h : ∀ c ∈ sep, isBreak c = false)
    (parts : List Text) : Unbarred (join sep parts) ↔ ∀ t ∈ parts, Unbarred t := by
  induction parts with
  | nil => exact ⟨fun _ t ht => absurd ht not_mem_nil, fun _ => List.IsChain.nil⟩
  | cons s parts ih =>
    cases parts with
    | nil => rw [join_singleton, forall_mem_singleton]
    | cons t parts =>
      have hsep : isBar (sep ++ join sep (t :: parts)) = false := (isBar_append hne _).trans hbar
      rw [join_cons_cons, append_assoc, unbarred_append hsep, unbarred_unbroken_append h, ih,
        forall_mem_cons (a := s)]

/-! ## Rows -/

theorem plain_iff {t : Text} : plain t = true ↔ '|' ∉ t ∧ ∀ c ∈ t, isBreak c = false := by
  rw [plain, all_eq_true]
  constructor
  · intro h
    refine ⟨fun hbar => ?_, fun c hc => ?_⟩
    · exact absurd (h '|' hbar) (by decide)
    · have hplain := h c hc
      rw [Bool.and_eq_true, Bool.not_eq_true'] at hplain
      exact hplain.2
  · rintro ⟨hbar, hbreak⟩ c hc
    rw [Bool.and_eq_true, Bool.not_eq_true', bne_iff_ne]
    exact ⟨fun heq => hbar (heq ▸ hc), hbreak c hc⟩

/-- A row with a bar behind each cell. -/
theorem writeRow_eq {cells : List Text} (h : cells ≠ []) :
    writeRow cells = '|' :: cells.flatMap fun cell => ' ' :: cell ++ [' ', '|'] := by
  rw [writeRow]
  induction cells with
  | nil => exact absurd rfl h
  | cons c cells ih =>
    cases cells with
    | nil =>
      rw [join_singleton, flatMap_singleton]
      rfl
    | cons d cells =>
      have htail := ih (cons_ne_nil d cells)
      rw [cons_append, cons_append, cons_inj_right] at htail
      rw [join_cons_cons, flatMap_cons, ← htail]
      simp only [cons_append, nil_append, append_assoc]

theorem splitOn_cells {cells : List Text} (h : ∀ cell ∈ cells, '|' ∉ cell) :
    (cells.flatMap fun cell => ' ' :: cell ++ [' ', '|']).splitOn '|' =
      cells.map (fun cell => ' ' :: cell ++ [' ']) ++ [[]] := by
  induction cells with
  | nil => rfl
  | cons c cells ih =>
    have hc : '|' ∉ ' ' :: c ++ [' '] := by
      have hbar := h c mem_cons_self
      rw [mem_append, mem_cons, not_or, not_or]
      exact ⟨⟨by decide, hbar⟩, by decide⟩
    have hsplit : ' ' :: c ++ [' ', '|'] ++ (cells.flatMap fun cell => ' ' :: cell ++ [' ', '|']) =
        (' ' :: c ++ [' ']) ++ '|' :: cells.flatMap fun cell => ' ' :: cell ++ [' ', '|'] := by
      simp only [cons_append, nil_append, append_assoc]
    rw [flatMap_cons, hsplit, splitOn_append_cons_self_of_not_mem hc,
      ih fun cell hcell => h cell (mem_cons_of_mem c hcell)]
    rfl

/-- The cells of a row are read back. -/
theorem cellsOf_writeRow {cells : List Text} (hne : cells ≠ []) (h : ∀ cell ∈ cells, '|' ∉ cell) :
    cellsOf (writeRow cells) = cells := by
  have hfirst := splitOn_append_cons_self_of_not_mem (not_mem_nil : '|' ∉ ([] : Text))
    (cells.flatMap fun cell => ' ' :: cell ++ [' ', '|'])
  rw [nil_append] at hfirst
  rw [cellsOf, writeRow_eq hne, hfirst, splitOn_cells h, drop_one, tail_cons, dropLast_concat,
    map_map]
  refine (map_congr_left fun cell _ => ?_).trans (map_id cells)
  rw [Function.comp_apply, cons_append, drop_one, tail_cons, dropLast_concat, id]

/-- A cell that is read is plain. -/
theorem plain_of_mem_cellsOf {line cell : Text} (hline : ∀ c ∈ line, isBreak c = false) (h : cell ∈ cellsOf line) :
    plain cell = true := by
  obtain ⟨piece, hpiece, rfl⟩ := mem_map.mp h
  have hmem := mem_of_mem_drop (mem_of_mem_dropLast hpiece)
  have hsub : (piece.drop 1).dropLast ⊆ piece := fun c hc => mem_of_mem_drop (mem_of_mem_dropLast hc)
  rw [splitOn_eq_splitOnP] at hmem
  rw [plain_iff]
  refine ⟨fun hbar => ?_, fun c hc => hline c (subset_of_mem_splitOnP hmem (hsub hc))⟩
  exact absurd (forall_of_mem_splitOnP hmem '|' (hsub hbar)) (by decide)

/-! ## Runs -/

theorem runsOf_cons {line : Text} (h : isBar line = false) (lines : List Text) :
    runsOf (line :: lines) = runsOf lines := by
  have hsep : (!isBar line) = true := by rw [h]; rfl
  have hsplit := splitOnP_append_cons (p := fun line => !isBar line) [] lines hsep
  rw [nil_append, splitOnP_nil, singleton_append] at hsplit
  rw [runsOf, hsplit, filter_cons_of_neg (by decide), runsOf]

/-- A line without a bar ends a run. -/
theorem runsOf_append {line : Text} (h : isBar line = false) (above below : List Text) :
    runsOf (above ++ line :: below) = runsOf above ++ runsOf below := by
  have hsep : (!isBar line) = true := by rw [h]; rfl
  rw [runsOf, splitOnP_append_cons (p := fun line => !isBar line) above below hsep, filter_append, runsOf,
    runsOf]

theorem runsOf_bars {run : List Text} (hne : run ≠ []) (h : ∀ line ∈ run, isBar line = true) : runsOf run = [run] := by
  have hall : ∀ line ∈ run, (!isBar line) = false := by
    intro line hline
    rw [h line hline]
    rfl
  rw [runsOf, splitOnP_eq_singleton hall, filter_cons_of_pos (p := fun run : List Text => decide (run ≠ []))
    (decide_eq_true hne), filter_nil]

/-- There is no run just where no line begins with a bar. -/
theorem runsOf_eq_nil_iff {lines : List Text} : runsOf lines = [] ↔ ∀ line ∈ lines, isBar line = false := by
  constructor
  · intro h line hline
    by_contra hbar
    rw [Bool.not_eq_false] at hbar
    have hjoin : ∀ run ∈ lines.splitOnP fun line => !isBar line, run = [] := by
      intro run hrun
      by_contra hne
      have hmem : run ∈ runsOf lines := mem_filter.mpr ⟨hrun, decide_eq_true hne⟩
      rw [h] at hmem
      cases hmem
    induction lines with
    | nil => cases hline
    | cons first lines ih =>
      rw [splitOnP_cons_eq_if_modifyHead] at hjoin
      cases hfirst : isBar first with
      | true =>
        rw [hfirst] at hjoin
        obtain ⟨run, rest, hsplit⟩ := exists_cons_of_ne_nil (splitOnP_ne_nil (fun line => !isBar line) lines)
        have hhead := hjoin (first :: run) (by rw [hsplit]; exact mem_cons_self)
        cases hhead
      | false =>
        rw [runsOf_cons hfirst] at h
        rw [hfirst] at hjoin
        rcases mem_cons.mp hline with rfl | hline
        · rw [hfirst] at hbar
          cases hbar
        · exact ih h hline fun run hrun => hjoin run (mem_cons_of_mem [] hrun)
  · intro h
    induction lines with
    | nil => rfl
    | cons line lines ih =>
      rw [runsOf_cons (h line mem_cons_self)]
      exact ih fun other hother => h other (mem_cons_of_mem line hother)

/-! ## Tables -/

theorem mem_join {sep : Text} {parts : List Text} {c : Char} (h : c ∈ join sep parts) :
    c ∈ sep ∨ ∃ t ∈ parts, c ∈ t := by
  induction parts with
  | nil => cases h
  | cons s parts ih =>
    cases parts with
    | nil =>
      rw [join_singleton] at h
      exact Or.inr ⟨s, mem_cons_self, h⟩
    | cons t parts =>
      rw [join_cons_cons, mem_append, mem_append] at h
      rcases h with (h | h) | h
      · exact Or.inr ⟨s, mem_cons_self, h⟩
      · exact Or.inl h
      · rcases ih h with h | ⟨u, hu, hc⟩
        · exact Or.inl h
        · exact Or.inr ⟨u, mem_cons_of_mem s hu, hc⟩

theorem plain_append {s t : Text} : plain (s ++ t) = true ↔ plain s = true ∧ plain t = true := by
  rw [plain, all_append, Bool.and_eq_true, plain, plain]

theorem plain_join {sep : Text} (hsep : plain sep = true) {parts : List Text} :
    plain (join sep parts) = true ↔ ∀ t ∈ parts, plain t = true := by
  induction parts with
  | nil => exact ⟨fun _ t ht => absurd ht not_mem_nil, fun _ => rfl⟩
  | cons s parts ih =>
    cases parts with
    | nil => rw [join_singleton, forall_mem_singleton]
    | cons t parts =>
      rw [join_cons_cons, plain_append, plain_append, ih, forall_mem_cons (a := s)]
      exact ⟨fun h => ⟨h.1.1, h.2⟩, fun h => ⟨⟨h.1, hsep⟩, h.2⟩⟩

theorem not_break_of_all {t : Text} (h : (t.all fun c => !isBreak c) = true) : ∀ c ∈ t, isBreak c = false := by
  intro c hc
  rw [← Bool.not_eq_true']
  exact all_eq_true.mp h c hc

theorem not_break_writeRow {cells : List Text} (h : ∀ cell ∈ cells, plain cell = true) :
    ∀ c ∈ writeRow cells, isBreak c = false := by
  intro c hc
  rw [writeRow, mem_append, mem_append] at hc
  rcases hc with (hc | hc) | hc
  · exact not_break_of_all rfl c hc
  · rcases mem_join hc with hc | ⟨cell, hcell, hc⟩
    · exact not_break_of_all rfl c hc
    · exact (plain_iff.mp (h cell hcell)).2 c hc
  · exact not_break_of_all rfl c hc

theorem not_break_writeDashes (cells : List Text) : ∀ c ∈ writeDashes cells, isBreak c = false := by
  intro c hc
  rw [writeDashes, mem_append, mem_append] at hc
  rcases hc with (hc | hc) | hc
  · exact not_break_of_all rfl c hc
  · rcases mem_join hc with hc | ⟨dashes, hdashes, hc⟩
    · exact not_break_of_all rfl c hc
    · obtain ⟨-, -, rfl⟩ := mem_map.mp hdashes
      exact not_break_of_all rfl c hc
  · exact not_break_of_all rfl c hc

section Tables

variable {header : List Text} {rows : List (List Text)}

/-- Every cell of a table is plain. -/
def PlainTable (header : List Text) (rows : List (List Text)) : Prop :=
  ∀ row ∈ header :: rows, ∀ cell ∈ row, plain cell = true

theorem linesOf_writeTable (h : PlainTable header rows) :
    linesOf (writeTable header rows) = writeRow header :: writeDashes header :: rows.map writeRow := by
  rw [writeTable, linesOf_join (cons_ne_nil _ _), flatMap_cons, flatMap_cons,
    linesOf_eq_singleton (not_break_writeRow (h header mem_cons_self)),
    linesOf_eq_singleton (not_break_writeDashes header), flatMap_map]
  have hrows : rows.flatMap (fun row => linesOf (writeRow row)) = rows.map writeRow := by
    rw [← flatMap_singleton' (rows.map writeRow), flatMap_map]
    refine flatMap_congr fun row hrow => ?_
    exact linesOf_eq_singleton (not_break_writeRow (h row (mem_cons_of_mem header hrow)))
  rw [hrows]
  rfl

/-- A table whose cells are plain is read back. -/
theorem tables_of_plain (hwidth : ∀ row ∈ header :: rows, row ≠ []) (h : PlainTable header rows) :
    (runsOf (linesOf (writeTable header rows))).map rowsOf = [header :: rows] := by
  have hbars : ∀ line ∈ writeRow header :: writeDashes header :: rows.map writeRow, isBar line = true := by
    intro line hline
    rcases mem_cons.mp hline with rfl | hline
    · rfl
    · rcases mem_cons.mp hline with rfl | hline
      · rfl
      · obtain ⟨row, -, rfl⟩ := mem_map.mp hline
        rfl
  have hback : ∀ row ∈ header :: rows, cellsOf (writeRow row) = row := fun row hrow =>
    cellsOf_writeRow (hwidth row hrow) fun cell hcell => (plain_iff.mp (h row hrow cell hcell)).1
  have hrows : rows.map (cellsOf ∘ writeRow) = rows :=
    (map_congr_left fun row hrow => hback row (mem_cons_of_mem header hrow)).trans (map_id rows)
  rw [linesOf_writeTable h, runsOf_bars (cons_ne_nil _ _) hbars, map_singleton, rowsOf]
  show [cellsOf (writeRow header) :: (rows.map writeRow).map cellsOf] = _
  rw [hback header mem_cons_self, map_map, hrows]

end Tables

/-! ## Documents -/

inductive Part where
  | text (t : Text)
  /-- A blank line, and a table below it. -/
  | table (header : List Text) (rows : List (List Text))

def Part.write : Part → Text
  | .text t => t
  | .table header rows => '\n' :: writeTable header rows

def Part.tables : Part → List (List (List Text))
  | .text _ => []
  | .table header rows => [header :: rows]

/-- Parts that stand on lines of their own. -/
def write (parts : List Part) : Text := join ['\n'] (parts.map Part.write)

/-- A text starts without a bar, and no row of a table is empty. -/
def Part.Formed : Part → Prop
  | .text t => isBar t = false
  | .table header rows => ∀ row ∈ header :: rows, row ≠ []

/-- The text has no table of its own, the cells of the table are plain. -/
def Part.Clean : Part → Prop
  | .text t => Quiet t
  | .table header rows => PlainTable header rows

theorem join_concat {sep : Text} {parts : List Text} (h : parts ≠ []) (t : Text) :
    join sep (parts ++ [t]) = join sep parts ++ sep ++ t := by
  induction parts with
  | nil => exact absurd rfl h
  | cons s parts ih =>
    cases parts with
    | nil => rw [cons_append, nil_append, join_cons_cons, join_singleton, join_singleton]
    | cons u parts =>
      rw [cons_append, cons_append, join_cons_cons, ← cons_append, ih (cons_ne_nil u parts),
        join_cons_cons, append_assoc, append_assoc, append_assoc, append_assoc, append_assoc]

theorem exists_join_concat {sep : Text} {parts : List Text} {c : Char} (hne : parts ≠ [])
    (h : ∀ t ∈ parts, ∃ before, t = before ++ [c]) : ∃ before, join sep parts = before ++ [c] := by
  induction parts with
  | nil => exact absurd rfl hne
  | cons s parts ih =>
    cases parts with
    | nil =>
      rw [join_singleton]
      exact h s mem_cons_self
    | cons t parts =>
      obtain ⟨before, hbefore⟩ := ih (cons_ne_nil t parts) fun u hu => h u (mem_cons_of_mem s hu)
      exact ⟨s ++ sep ++ before, by rw [join_cons_cons, hbefore, append_assoc (s ++ sep)]⟩

/-- A table ends with a bar. -/
theorem exists_writeTable_concat (header : List Text) (rows : List (List Text)) :
    ∃ before, writeTable header rows = before ++ ['|'] := by
  have hrow : ∀ cells : List Text, ∃ before, writeRow cells = before ++ ['|'] := fun cells =>
    ⟨['|', ' '] ++ join [' ', '|', ' '] cells ++ [' '], by
      rw [writeRow, append_assoc _ [' '] ['|'], singleton_append]⟩
  refine exists_join_concat (cons_ne_nil _ _) fun line hline => ?_
  rcases mem_cons.mp hline with rfl | hline
  · exact hrow header
  · rcases mem_cons.mp hline with rfl | hline
    · exact ⟨_, rfl⟩
    · obtain ⟨cells, -, rfl⟩ := mem_map.mp hline
      exact hrow cells

/-- A document ends with its last part. -/
theorem exists_write_concat (parts : List Part) (p : Part) : ∃ before, write (parts ++ [p]) = before ++ p.write := by
  cases parts with
  | nil => exact ⟨[], join_singleton _ _⟩
  | cons q parts =>
    refine ⟨write (q :: parts) ++ ['\n'], ?_⟩
    rw [write, map_append, map_singleton, join_concat (by simp), write]

theorem Part.linesOf_write {p : Part} (h : p.Formed) :
    ∃ first more, linesOf p.write = first :: more ∧ isBar first = false := by
  obtain ⟨first, more, hlines, hfirst⟩ := exists_linesOf p.write
  refine ⟨first, more, hlines, hfirst.trans ?_⟩
  cases p with
  | text t => exact h
  | table header rows => rfl

/-- A step over the part at the head. -/
theorem runsOf_parts (parts : List Part) (h : ∀ p ∈ parts, p.Formed) :
    runsOf (parts.flatMap fun p => linesOf p.write) = parts.flatMap fun p => runsOf (linesOf p.write) := by
  induction parts with
  | nil => rfl
  | cons p parts ih =>
    have htail := ih fun q hq => h q (mem_cons_of_mem p hq)
    rw [flatMap_cons, flatMap_cons, ← htail]
    cases parts with
    | nil =>
      rw [flatMap_nil, append_nil]
      exact (append_nil _).symm
    | cons q parts =>
      obtain ⟨first, more, hlines, hfirst⟩ := q.linesOf_write (h q (mem_cons_of_mem p mem_cons_self))
      rw [flatMap_cons, hlines, cons_append, runsOf_append hfirst, runsOf_cons hfirst]

/-- The tables of a document are those of its parts. -/
theorem read_write {parts : List Part} (h : ∀ p ∈ parts, p.Formed) :
    read (write parts) = parts.flatMap fun p => read p.write := by
  cases parts with
  | nil => rfl
  | cons p parts =>
    have hlines : linesOf (write (p :: parts)) = (p :: parts).flatMap fun p => linesOf p.write := by
      rw [write, linesOf_join (by simp), flatMap_map]
    rw [read, hlines, runsOf_parts _ h, map_flatMap]
    rfl

theorem read_table {header : List Text} {rows : List (List Text)} :
    read (Part.table header rows).write = (runsOf (linesOf (writeTable header rows))).map rowsOf := by
  have hblank := linesOf_append_break (c := '\n') rfl [] (writeTable header rows)
  rw [nil_append] at hblank
  rw [read, Part.write, hblank]
  exact congrArg (List.map rowsOf) (runsOf_cons rfl _)

theorem Part.read_clean {p : Part} (hformed : p.Formed) (h : p.Clean) : read p.write = p.tables := by
  cases p with
  | text t =>
    have hruns : runsOf (linesOf t) = [] := runsOf_eq_nil_iff.mpr h
    rw [read, write, hruns]
    rfl
  | table header rows => exact read_table.trans (tables_of_plain hformed h)

/-- The cells that are read anywhere are plain. -/
theorem plain_of_mem_read {t : Text} {table : List (List Text)} (h : table ∈ read t) :
    ∀ row ∈ table, ∀ cell ∈ row, plain cell = true := by
  obtain ⟨run, hrun, rfl⟩ := mem_map.mp h
  intro row hrow cell hcell
  obtain ⟨line, hline, rfl⟩ := mem_map.mp hrow
  refine plain_of_mem_cellsOf ?_ hcell
  have hmem : line ∈ run := by
    rcases mem_append.mp hline with hline | hline
    · exact mem_of_mem_take hline
    · exact mem_of_mem_drop hline
  exact not_break_of_mem (subset_of_mem_splitOnP (mem_of_mem_filter hrun) hmem)

/-- Lists of the same length, part for part. -/
theorem length_eq_of_flatMap {α β : Type*} {f g : α → List β} {l : List α} (hle : ∀ a ∈ l, (g a).length ≤ (f a).length)
    (h : l.flatMap f = l.flatMap g) : ∀ a ∈ l, (f a).length = (g a).length := by
  have hlength := congrArg List.length h
  clear h
  induction l with
  | nil => exact fun a ha => absurd ha not_mem_nil
  | cons b l ih =>
    have hrest : (l.flatMap g).length ≤ (l.flatMap f).length := by
      rw [length_flatMap, length_flatMap]
      exact sum_le_sum fun a ha => hle a (mem_cons_of_mem b ha)
    have hhead := hle b mem_cons_self
    rw [flatMap_cons, flatMap_cons, length_append, length_append] at hlength
    intro a ha
    rcases mem_cons.mp ha with rfl | ha
    · omega
    · exact ih (fun c hc => hle c (mem_cons_of_mem b hc)) (by omega) a ha

/-- A document is read back just if its texts have no tables of their own and its cells are plain. -/
theorem read_write_iff {parts : List Part} (h : ∀ p ∈ parts, p.Formed) :
    read (write parts) = parts.flatMap Part.tables ↔ ∀ p ∈ parts, p.Clean := by
  rw [read_write h]
  constructor
  · intro heq
    have hplain : ∀ header rows, Part.table header rows ∈ parts → PlainTable header rows := by
      intro header rows hmem
      have htable : header :: rows ∈ parts.flatMap Part.tables :=
        mem_flatMap.mpr ⟨_, hmem, mem_singleton_self _⟩
      rw [← heq] at htable
      obtain ⟨p, -, hread⟩ := mem_flatMap.mp htable
      exact plain_of_mem_read hread
    have hle : ∀ p ∈ parts, p.tables.length ≤ (read p.write).length := by
      intro p hp
      cases p with
      | text t => exact Nat.zero_le _
      | table header rows => exact (congrArg List.length (Part.read_clean (h _ hp) (hplain header rows hp))).ge
    intro p hp
    cases p with
    | text t =>
      have hnone := length_eq_of_flatMap hle heq _ hp
      have hruns : runsOf (linesOf t) = [] := map_eq_nil_iff.mp (length_eq_zero_iff.mp hnone)
      exact runsOf_eq_nil_iff.mp hruns
    | table header rows => exact hplain header rows hp
  · intro hclean
    exact flatMap_congr fun p hp => p.read_clean (h p hp) (hclean p hp)

end PtaasBench.Lib.Markdown
