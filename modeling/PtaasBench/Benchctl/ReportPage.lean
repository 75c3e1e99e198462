import PtaasBench.Benchctl.Report

/-!
# PtaasBench.Benchctl.ReportPage — the tables that are read off the HTML report
-/

namespace PtaasBench.Benchctl.Report

open Lib List
open Lib.Html (Chunk Reads ReadsCell Reading)

-- In the proofs `tag` and `raw` get `closed rfl` and `inert rfl`: their default is a tactic block, which would leave an
-- auxiliary lemma in each of them.
section Page

variable (style : StyleSheet) (width : Text → Option ℕ)

theorem readsCell_headingCell (h : Text) : ReadsCell (headingCell h) h :=
  @ReadsCell.of_between [_] _ _ (fun _ _ _ => rfl) fun _ _ _ => rfl

theorem readsCell_toolCell (t : Text) : ReadsCell (toolCell t) t :=
  @ReadsCell.of_between [_] _ _ (fun _ _ _ => rfl) fun _ _ _ => rfl

theorem readsCell_htmlCell (t : Text) : ReadsCell (htmlCell width t) t := by
  by_cases hdash : t = dash
  · rw [htmlCell, if_pos hdash, hdash]
    exact fun _ _ _ => rfl
  · rw [htmlCell, if_neg hdash]
    cases barWidth width t with
    | none => exact @ReadsCell.of_between [_] _ _ (fun _ _ _ => rfl) fun _ _ _ => rfl
    | some n =>
      exact @ReadsCell.of_between [_, _, _, _, _] _ _ (fun _ _ _ => rfl) fun _ _ _ => rfl

theorem after_htmlRow {row : List Text} (tables : List (List (List Text))) (rows : List (List Text)) :
    (⟨tables, rows, [], none⟩ : Reading).after (htmlRow width row) = ⟨tables, rows ++ [row], [], none⟩ := by
  have hopen : (⟨tables, rows, [], none⟩ : Reading).after [tag "tr" (closed rfl)] = ⟨tables, rows, [], none⟩ := rfl
  have hclose : ∀ cells, (⟨tables, rows, cells, none⟩ : Reading).after [tag "/tr" (closed rfl)] =
      ⟨tables, rows ++ [cells], [], none⟩ := fun _ => rfl
  rw [htmlRow, Reading.after_append, Reading.after_append, Reading.after_append, hopen,
    @Html.after_cells _ _ _ id fun t _ => readsCell_toolCell t,
    @Html.after_cells _ _ _ id fun t _ => readsCell_htmlCell width t, hclose, map_id, map_id,
    nil_append, take_append_drop]

theorem after_htmlRows (rows : List (List Text)) (tables : List (List (List Text))) (before : List (List Text)) :
    (⟨tables, before, [], none⟩ : Reading).after (rows.flatMap (htmlRow width)) =
      ⟨tables, before ++ rows, [], none⟩ := by
  induction rows generalizing before with
  | nil => rw [append_nil]; rfl
  | cons row rows ih =>
    rw [flatMap_cons, Reading.after_append, after_htmlRow, ih, append_assoc, singleton_append]

/-- A table of the page is read back. -/
theorem reads_htmlTable (t : Table) : Reads (htmlTable width t) [t.grid] := by
  intro done
  have hopen : (⟨done, [], [], none⟩ : Reading).after [tag "div class=\"wrap\"" (closed rfl),
      tag "table" (closed rfl), tag "thead" (closed rfl), tag "tr" (closed rfl)] = ⟨done, [], [], none⟩ := rfl
  have hbody : ∀ cells, (⟨done, [], cells, none⟩ : Reading).after [tag "/tr" (closed rfl),
      tag "/thead" (closed rfl), tag "tbody" (closed rfl)] = ⟨done, [cells], [], none⟩ := fun _ => rfl
  have hclose : ∀ rows, (⟨done, rows, [], none⟩ : Reading).after [tag "/tbody" (closed rfl),
      tag "/table" (closed rfl), tag "/div" (closed rfl)] = ⟨done ++ [rows], [], [], none⟩ := fun _ => rfl
  rw [htmlTable, Reading.after_append, Reading.after_append, Reading.after_append, Reading.after_append, hopen,
    @Html.after_cells _ _ _ id fun t _ => readsCell_headingCell t, hbody, after_htmlRows, hclose, map_id]
  rfl

theorem reads_htmlSection (s : Section) : Reads (htmlSection width s) [s.table.grid] := by
  have hhead : Reads [tag "h2" (closed rfl), .text s.head, tag "/h2" (closed rfl)] [] := Reads.of_isInert rfl
  have hlegend : Reads (htmlLegend s.legend) [] := Reads.ite (fun _ => Reads.nil) fun _ => Reads.of_isInert rfl
  exact (hhead.append hlegend).append (reads_htmlTable width s.table)

theorem reads_htmlCondition (doc : Doc) : Reads (htmlCondition doc) [] := by
  have hopen : Reads [if passiveModes.contains (scanModeLabel doc) then tag "div class=\"note passive\"" (closed rfl)
      else tag "div class=\"note\"" (closed rfl), tag "strong" (closed rfl), .text (toolName doc),
      raw " — " (inert rfl), .text (scanModeLabel doc), raw " run" (inert rfl), tag "/strong" (closed rfl),
      tag "ul" (closed rfl)] [] := by
    by_cases hpassive : passiveModes.contains (scanModeLabel doc)
    · rw [if_pos hpassive]
      exact Reads.of_isInert rfl
    · rw [if_neg hpassive]
      exact Reads.of_isInert rfl
  have hlines : Reads ((conditionLines doc).flatMap fun line =>
      [tag "li" (closed rfl), .text line, tag "/li" (closed rfl)]) ((conditionLines doc).flatMap fun _ => []) :=
    Reads.flatMap fun _ _ => Reads.of_isInert rfl
  rw [flatMap_eq_nil_iff.mpr fun _ _ => rfl] at hlines
  exact (hopen.append hlines).append (Reads.of_isInert rfl)

/-- Chunks that are left out where their tables are. -/
theorem reads_unless {p : Prop} [Decidable p] {chunks : List Chunk} {tables : List Table}
    (h : ¬p → Reads chunks (tables.map Table.grid)) :
    Reads (if p then [] else chunks) ((if p then [] else tables).map Table.grid) := by
  split_ifs with hp
  · exact Reads.nil
  · exact h hp

theorem reads_lists (entry : Doc × Findings) :
    Reads (htmlOutside width entry ++ htmlFalsePositives width entry) ((listTables entry).map Table.grid) := by
  rw [listTables, map_append]
  refine Reads.append (reads_unless fun _ => ?_) (reads_unless fun _ => ?_)
  · exact Reads.append (Reads.of_isInert rfl) (reads_htmlTable width (outsideTable entry.2))
  · exact Reads.append (Reads.of_isInert rfl) (reads_htmlTable width (falsePositiveTable entry.2))

theorem reads_htmlPrecision (docs : List Doc) :
    Reads (htmlPrecision width docs) ((if judged docs = [] then [] else
      precisionTable " (—)".toList docs :: (judged docs).flatMap listTables).map Table.grid) := by
  refine reads_unless fun _ => ?_
  rw [map_cons, map_flatMap]
  exact (Reads.append (Reads.of_isInert rfl) (reads_htmlTable width _)).append
    (Reads.flatMap fun entry _ => reads_lists width entry)

theorem reads_htmlWarnings (docs : List Doc) : Reads (htmlWarnings docs) [] := by
  have hwarnings : Reads ((warned docs).flatMap htmlWarning) ((warned docs).flatMap fun _ => []) :=
    Reads.flatMap fun _ _ => Reads.of_isInert rfl
  rw [flatMap_eq_nil_iff.mpr fun _ _ => rfl] at hwarnings
  exact Reads.ite (fun _ => Reads.nil) fun _ =>
    (Reads.append (Reads.of_isInert rfl) hwarnings).append (Reads.of_isInert rfl)

/-- The tables of the page are read back. -/
theorem reads_htmlPage (docs : List Doc) : Reads (htmlPage style width docs) ((htmlTables docs).map Table.grid) := by
  have hconditions : Reads (docs.flatMap htmlCondition) (docs.flatMap fun _ => []) :=
    Reads.flatMap fun doc _ => reads_htmlCondition doc
  have hsections : Reads ((sections docs).flatMap (htmlSection width))
      ((sections docs).flatMap fun s => [s.table.grid]) :=
    Reads.flatMap fun s _ => reads_htmlSection width s
  rw [flatMap_eq_nil_iff.mpr fun _ _ => rfl] at hconditions
  rw [← map_eq_flatMap] at hsections
  have hopen : Reads (htmlHead style ++ htmlIntroduction docs) [] := Reads.of_isInert rfl
  have hpage := ((((hopen.append hconditions).append hsections).append (reads_htmlPrecision width docs)).append
    (reads_htmlWarnings docs)).append (@Reads.of_isInert htmlFooter rfl)
  rw [append_nil, append_nil, nil_append, nil_append] at hpage
  rw [htmlTables, map_append, map_map]
  exact hpage

end Page

end PtaasBench.Benchctl.Report
