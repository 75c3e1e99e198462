import Mathlib.Data.List.Basic
import Mathlib.Data.List.DropRight
import PtaasBench.Lib.Splitting

/-!
# PtaasBench.Lib.Fields — texts joined by a separator they may hold themselves

Joined fields fall apart into the pieces of each.
-/

namespace PtaasBench.Lib

open List

variable {α : Type} [DecidableEq α] {sep : α}

/-- `sep.join(fields)` -/
def joined (sep : α) (fields : List (List α)) : List α := [sep].intercalate fields

/-- The pieces of fields, one field after the other. -/
def pieces (sep : α) (fields : List (List α)) : List (List α) := fields.flatMap (·.splitOn sep)

omit [DecidableEq α] in
@[simp] theorem joined_singleton (field : List α) : joined sep [field] = field := by
  rw [joined, intercalate_singleton]

omit [DecidableEq α] in
theorem joined_cons_cons (field next : List α) (rest : List (List α)) :
    joined sep (field :: next :: rest) = field ++ sep :: joined sep (next :: rest) := by
  rw [joined, intercalate_cons_cons]
  simp [joined]

theorem pieces_append (as bs : List (List α)) : pieces sep (as ++ bs) = pieces sep as ++ pieces sep bs :=
  flatMap_append

theorem pieces_cons (field : List α) (rest : List (List α)) :
    pieces sep (field :: rest) = field.splitOn sep ++ pieces sep rest := flatMap_cons

theorem splitOn_joined {fields : List (List α)} (h : fields ≠ []) :
    (joined sep fields).splitOn sep = pieces sep fields := by
  induction fields with
  | nil => exact absurd rfl h
  | cons field rest ih =>
    rcases rest with _ | ⟨next, rest⟩
    · rw [joined_singleton, pieces_cons]
      exact (append_nil _).symm
    · rw [joined_cons_cons, splitOn_append_cons_self, ih (by simp), ← pieces_cons]

theorem joined_splitOn (text : List α) : joined sep (text.splitOn sep) = text := intercalate_splitOn sep

omit [DecidableEq α] in
/-- What stands before the first separator, and what behind it. -/
theorem append_sep_inj {x x' z z' : List α} (h : sep ∉ x) (h' : sep ∉ x') :
    x ++ sep :: z = x' ++ sep :: z' ↔ x = x' ∧ z = z' := by
  constructor
  · intro heq
    rcases append_eq_append_iff.mp heq with ⟨as, rfl, htail⟩ | ⟨as, rfl, htail⟩
    · cases as with
      | nil => exact ⟨(append_nil x).symm, (List.cons.inj htail).2⟩
      | cons a as =>
        obtain ⟨rfl, -⟩ := List.cons.inj htail
        exact absurd (mem_append_right x mem_cons_self) h'
    · cases as with
      | nil => exact ⟨append_nil x', (List.cons.inj htail).2.symm⟩
      | cons a as =>
        obtain ⟨rfl, -⟩ := List.cons.inj htail
        exact absurd (mem_append_right x' mem_cons_self) h
  · rintro ⟨rfl, rfl⟩
    rfl

/-- A text without the separator is one piece. -/
theorem pieces_of_notMem {fields : List (List α)} (h : ∀ field ∈ fields, sep ∉ field) :
    pieces sep fields = fields := by
  induction fields with
  | nil => rfl
  | cons field rest ih =>
    rw [pieces_cons, splitOn_eq_singleton (h field mem_cons_self),
      ih fun f hf => h f (mem_cons_of_mem _ hf)]
    rfl

/-- What is in a text is a separator, or in a piece. -/
theorem mem_piece_or_eq {text : List α} {c : α} (h : c ∈ text) : c = sep ∨ ∃ piece ∈ text.splitOn sep, c ∈ piece := by
  induction text with
  | nil => cases h
  | cons x text ih =>
    obtain ⟨first, others, hsplit⟩ := exists_cons_of_ne_nil (splitOn_ne_nil sep text)
    rw [splitOn_cons_eq_if_modifyHead]
    by_cases hx : x = sep
    · subst hx
      rw [if_pos (beq_self_eq_true x)]
      rcases mem_cons.mp h with rfl | h
      · exact Or.inl rfl
      · exact (ih h).imp_right fun ⟨piece, hpiece, hc⟩ => ⟨piece, mem_cons_of_mem _ hpiece, hc⟩
    · rw [if_neg (by simpa using hx), hsplit, modifyHead_cons]
      rw [hsplit] at ih
      rcases mem_cons.mp h with rfl | h
      · exact Or.inr ⟨_, mem_cons_self, mem_cons_self⟩
      · rcases ih h with hsep | ⟨piece, hpiece, hc⟩
        · exact Or.inl hsep
        · rcases mem_cons.mp hpiece with rfl | hpiece
          · exact Or.inr ⟨_, mem_cons_self, mem_cons_of_mem _ hc⟩
          · exact Or.inr ⟨piece, mem_cons_of_mem _ hpiece, hc⟩

theorem length_splitOn (text : List α) : (text.splitOn sep).length = text.count sep + 1 := by
  induction text with
  | nil => rfl
  | cons c text ih =>
    rw [splitOn_cons_eq_if_modifyHead]
    by_cases hc : c = sep
    · subst hc
      rw [if_pos (beq_self_eq_true c), length_cons, ih, count_cons_self]
    · rw [if_neg (by simpa using hc), length_modifyHead, ih, count_cons_of_ne hc]

omit [DecidableEq α] in
/-- Fields joined after the first few are joined again to the same text. -/
theorem joined_take_joined_drop {fields : List (List α)} {n : ℕ} (h : n < fields.length) :
    joined sep (fields.take n ++ [joined sep (fields.drop n)]) = joined sep fields := by
  induction n generalizing fields with
  | zero => rw [take_zero, nil_append, drop_zero, joined_singleton]
  | succ n ih =>
    rcases fields with _ | ⟨field, _ | ⟨next, rest⟩⟩
    · exact absurd h (Nat.not_lt_zero _)
    · exact absurd h (by simp)
    · have hrest := ih (show n < (next :: rest).length by simpa using h)
      obtain ⟨first, others, hne⟩ : ∃ first others,
          (next :: rest).take n ++ [joined sep ((next :: rest).drop n)] = first :: others :=
        exists_cons_of_ne_nil (by simp)
      rw [take_succ_cons, drop_succ_cons, cons_append, hne, joined_cons_cons, ← hne, hrest,
        joined_cons_cons]

/-- What has no separator goes on the last piece. -/
theorem splitOn_append_of_notMem {more : List α} (h : sep ∉ more) (text : List α) :
    ∃ front last, text.splitOn sep = front ++ [last] ∧ (text ++ more).splitOn sep = front ++ [last ++ more] := by
  induction text with
  | nil => exact ⟨[], [], by rw [splitOn_nil]; rfl, splitOn_eq_singleton h⟩
  | cons c text ih =>
    obtain ⟨front, last, hsplit, hmore⟩ := ih
    rw [cons_append, splitOn_cons_eq_if_modifyHead, splitOn_cons_eq_if_modifyHead, hsplit, hmore]
    split_ifs
    · exact ⟨[] :: front, last, rfl, rfl⟩
    · cases front with
      | nil => exact ⟨[], c :: last, rfl, rfl⟩
      | cons first front => exact ⟨(c :: first) :: front, last, rfl, rfl⟩

/-! ## Within a joined text -/

omit [DecidableEq α] in
theorem mem_joined {fields : List (List α)} {c : α} (h : c ∈ joined sep fields) :
    c = sep ∨ ∃ field ∈ fields, c ∈ field := by
  induction fields with
  | nil => cases h
  | cons field rest ih =>
    rcases rest with _ | ⟨next, rest⟩
    · rw [joined_singleton] at h
      exact Or.inr ⟨field, mem_singleton_self field, h⟩
    · rw [joined_cons_cons] at h
      rcases mem_append.mp h with h | h
      · exact Or.inr ⟨field, mem_cons_self, h⟩
      · rcases mem_cons.mp h with rfl | h
        · exact Or.inl rfl
        · exact (ih h).imp_right fun ⟨other, hother, hc⟩ => ⟨other, mem_cons_of_mem _ hother, hc⟩

omit [DecidableEq α] in
theorem joined_map {β : Type} (f : α → β) (sep : α) (fields : List (List α)) :
    (joined sep fields).map f = joined (f sep) (fields.map (List.map f)) := by
  induction fields with
  | nil => rfl
  | cons field rest ih =>
    rcases rest with _ | ⟨next, rest⟩
    · rw [joined_singleton, map_cons, map_nil, joined_singleton]
    · rw [joined_cons_cons, map_append, map_cons, ih]
      exact (joined_cons_cons _ _ _).symm

/-- What has no separator stands within one field. -/
theorem length_le_of_infix_joined {fields : List (List α)} {part : List α} {n : ℕ}
    (hn : ∀ field ∈ fields, field.length ≤ n) (hsep : sep ∉ part) (h : part <:+: joined sep fields) :
    part.length ≤ n := by
  by_cases hnil : part = []
  · rw [hnil]
    exact Nat.zero_le n
  · induction fields with
    | nil => exact absurd (infix_nil.mp h) hnil
    | cons field rest ih =>
      obtain ⟨hfield, hrest⟩ := forall_mem_cons.mp hn
      rcases rest with _ | ⟨next, rest⟩
      · rw [joined_singleton] at h
        exact h.length_le.trans hfield
      · rw [joined_cons_cons] at h
        by_cases hin : part <:+: field
        · exact hin.length_le.trans hfield
        · refine ih hrest (Classical.byContradiction fun hout => ?_)
          exact not_infix_around hnil hsep hin hout h

theorem infix_of_mem_splitOn {text piece : List α} (h : piece ∈ text.splitOn sep) :
    piece <:+: text := by
  have hjoined : ∀ fields : List (List α), piece ∈ fields → piece <:+: joined sep fields := by
    intro fields hmem
    induction fields with
    | nil => cases hmem
    | cons field rest ih =>
      rcases rest with _ | ⟨next, rest⟩
      · rw [mem_singleton.mp hmem, joined_singleton]
      · rw [joined_cons_cons]
        rcases mem_cons.mp hmem with rfl | hmem
        · exact (prefix_append _ _).isInfix
        · exact (ih hmem).trans ((suffix_cons sep _).trans (suffix_append field _)).isInfix
  rw [← @joined_splitOn _ _ sep text]
  exact hjoined _ h

omit [DecidableEq α] in
/-- Nothing is stripped off fields that are not empty and hold nothing to strip. -/
theorem dropWhile_joined {fields : List (List α)} {p : α → Bool} (h : fields ≠ [])
    (hfields : ∀ field ∈ fields, field ≠ [] ∧ ∀ c ∈ field, p c = false) :
    (joined sep fields).dropWhile p = joined sep fields := by
  rcases fields with _ | ⟨field, rest⟩
  · exact absurd rfl h
  · obtain ⟨hne, hkeep⟩ := hfields field mem_cons_self
    obtain ⟨c, cs, rfl⟩ := exists_cons_of_ne_nil hne
    have hc := Bool.eq_false_iff.mp (hkeep c mem_cons_self)
    rcases rest with _ | ⟨next, rest⟩
    · rw [joined_singleton, dropWhile_cons_of_neg hc]
    · rw [joined_cons_cons, cons_append, dropWhile_cons_of_neg hc]

omit [DecidableEq α] in
theorem rdropWhile_joined {fields : List (List α)} {p : α → Bool} (h : fields ≠ [])
    (hfields : ∀ field ∈ fields, field ≠ [] ∧ ∀ c ∈ field, p c = false) :
    (joined sep fields).rdropWhile p = joined sep fields := by
  rw [rdropWhile_eq_self_iff]
  intro hl
  suffices hlast : ∃ field ∈ fields, (joined sep fields).getLast hl ∈ field by
    obtain ⟨field, hmem, hin⟩ := hlast
    exact Bool.eq_false_iff.mp ((hfields field hmem).2 _ hin)
  induction fields with
  | nil => exact absurd rfl h
  | cons field rest ih =>
    rcases rest with _ | ⟨next, rest⟩
    · refine ⟨field, mem_cons_self, ?_⟩
      simp only [joined_singleton]
      exact getLast_mem _
    · have hne : joined sep (next :: rest) ≠ [] := by
        obtain ⟨c, cs, hnext⟩ := exists_cons_of_ne_nil (hfields next (by simp)).1
        rcases rest with _ | ⟨other, rest⟩
        · rw [joined_singleton, hnext]
          exact cons_ne_nil c cs
        · rw [joined_cons_cons, hnext]
          exact cons_ne_nil c _
      obtain ⟨last, hmem, hin⟩ := ih (cons_ne_nil _ _) (fun f hf => hfields f (mem_cons_of_mem _ hf)) hne
      refine ⟨last, mem_cons_of_mem _ hmem, ?_⟩
      have hsame : (joined sep (field :: next :: rest)).getLast hl = (joined sep (next :: rest)).getLast hne := by
        simp only [joined_cons_cons]
        rw [getLast_append_of_right_ne_nil _ _ (cons_ne_nil sep _), getLast_cons hne]
      rwa [hsame]

/-! ## A joined text cut short -/

omit [DecidableEq α] in
/-- What the first `n` items of a joined text show of its fields. -/
def fieldsWithin : ℕ → List (List α) → List (List α)
  | _, [] => []
  | n, [field] => [field.take n]
  | n, field :: next :: rest =>
    if n ≤ field.length then [field.take n] else field :: fieldsWithin (n - field.length - 1) (next :: rest)

theorem splitOn_take_joined {fields : List (List α)} (h : fields ≠ []) (n : ℕ) :
    ((joined sep fields).take n).splitOn sep = pieces sep (fieldsWithin n fields) := by
  induction fields generalizing n with
  | nil => exact absurd rfl h
  | cons field rest ih =>
    rcases rest with _ | ⟨next, rest⟩
    · rw [joined_singleton, fieldsWithin, pieces_cons]
      exact (append_nil _).symm
    · rw [joined_cons_cons, take_append, fieldsWithin]
      by_cases hn : n ≤ field.length
      · rw [if_pos hn, Nat.sub_eq_zero_of_le hn, take_zero, append_nil, pieces_cons]
        exact (append_nil _).symm
      · obtain ⟨m, hm⟩ : ∃ m, n - field.length = m + 1 := ⟨n - field.length - 1, by omega⟩
        rw [if_neg hn, hm, take_succ_cons, take_of_length_le (by omega), splitOn_append_cons_self,
          ih (by simp), pieces_cons, Nat.add_sub_cancel]

omit [DecidableEq α] in
theorem fieldsWithin_of_le {fields : List (List α)} {n : ℕ} (h : (joined sep fields).length ≤ n) :
    fieldsWithin n fields = fields := by
  induction fields generalizing n with
  | nil => rfl
  | cons field rest ih =>
    rcases rest with _ | ⟨next, rest⟩
    · rw [joined_singleton] at h
      rw [fieldsWithin, take_of_length_le h]
    · rw [joined_cons_cons, length_append, length_cons] at h
      rw [fieldsWithin, if_neg (by omega), ih (by omega)]

end PtaasBench.Lib
