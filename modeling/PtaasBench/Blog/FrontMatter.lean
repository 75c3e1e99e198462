import PtaasBench.Lib.Splitting
import PtaasBench.Py.Text

/-!
# PtaasBench.Blog.FrontMatter — the front matter of an imported article (`split`)
-/

namespace PtaasBench.Blog.FrontMatter

open Lib
open Py (forall_of_mem_splitOnP)

abbrev Text := List Char

def dashes : Text := ['-', '-', '-']

def lstrip (chars t : Text) : Text := t.dropWhile chars.contains

/-- `split(document)`: the front matter and the body. -/
def split (document : Text) : Text × Text :=
  let text := lstrip [Char.ofNat 0xFEFF] document
  if dashes.isPrefixOf text = false then ([], text)
  else
    match splitAtMost ('\n' :: dashes) 2 text with
    | head :: body :: rest =>
      -- both branches of the source, which do the same
      (head.drop 3, if rest = [] then lstrip ['\n'] body else lstrip ['\n'] body)
    | _ => ([], text)

/-! ## Documents -/

/-- The lines of a front matter. -/
structure Front where
  lines : List Text
  unbroken : ∀ l ∈ lines, '\n' ∉ l
  undashed : ∀ l ∈ lines, ¬dashes <+: l

def Front.text (front : Front) : Text := ['\n'].intercalate front.lines

/-- A dashes line, the front matter, a dashes line and the body. -/
def document (front : Front) (body : Text) : Text :=
  dashes ++ '\n' :: front.lines.flatMap (· ++ ['\n']) ++ dashes ++ '\n' :: body

/-- Nothing is lost: both parts come back, up to leading newlines. -/
def Lossless (front : Front) (body : Text) : Prop :=
  lstrip ['\n'] (split (document front body)).1 = lstrip ['\n'] front.text ∧
    lstrip ['\n'] (split (document front body)).2 = lstrip ['\n'] body

/-! ## What is cut -/

theorem newline_notMem_dashes : '\n' ∉ dashes := by decide

theorem lstrip_idem (chars t : Text) : lstrip chars (lstrip chars t) = lstrip chars t := by
  rw [lstrip, lstrip, List.dropWhile_eq_self_iff]
  exact List.dropWhile_get_zero_not (chars.contains ·) t

theorem lstrip_newline (t : Text) : lstrip ['\n'] ('\n' :: t) = lstrip ['\n'] t := List.dropWhile_cons_of_pos rfl

/-- The line feeds seen from the lines behind them. -/
theorem document_eq (front : Front) (body : Text) :
    document front body = dashes ++ (led '\n' front.lines ++ ('\n' :: dashes ++ '\n' :: body)) := by
  have hshift : ∀ lines : List Text, '\n' :: lines.flatMap (· ++ ['\n']) = led '\n' lines ++ ['\n'] := by
    intro lines
    induction lines with
    | nil => rfl
    | cons line lines ih => rw [List.flatMap_cons, led_cons, List.append_assoc, List.singleton_append, ih]; simp
  rw [document, hshift]
  simp

theorem cut_document (front : Front) (body : Text) :
    cut ('\n' :: dashes) (document front body) = some (dashes ++ led '\n' front.lines, '\n' :: body) := by
  rw [document_eq, cut_over newline_notMem_dashes,
    cut_led newline_notMem_dashes fun l hl => ⟨front.unbroken l hl, front.undashed l hl⟩]
  rfl

theorem cut_body_eq_none_iff (body : Text) :
    cut ('\n' :: dashes) ('\n' :: body) = none ↔ ∀ line ∈ body.splitOn '\n', ¬dashes <+: line := by
  rw [← led_splitOn '\n' body, cut_led_eq_none_iff newline_notMem_dashes]
  intro line hline hbreak
  rw [List.splitOn_eq_splitOnP] at hline
  have hfalse := forall_of_mem_splitOnP hline _ hbreak
  rw [beq_self_eq_true] at hfalse
  exact Bool.noConfusion hfalse

theorem lstrip_led (front : Front) : lstrip ['\n'] (led '\n' front.lines) = lstrip ['\n'] front.text := by
  rw [Front.text]
  by_cases hne : front.lines = []
  · rw [hne]
    rfl
  · rw [led_eq_intercalate '\n' hne, lstrip_newline]

/-- The body is what stands before the next line that starts with dashes. -/
theorem split_document (front : Front) (body : Text) :
    split (document front body) = (led '\n' front.lines,
      lstrip ['\n'] (((cut ('\n' :: dashes) ('\n' :: body)).map Prod.fst).getD ('\n' :: body))) := by
  have hbom : lstrip [Char.ofNat 0xFEFF] (document front body) = document front body := rfl
  have hdashed : dashes.isPrefixOf (document front body) = true := rfl
  unfold split
  rw [hbom]
  dsimp only
  rw [hdashed, if_neg (by decide), splitAtMost_of_cut (cut_document front body)]
  cases hcut : cut ('\n' :: dashes) ('\n' :: body) with
  | none => rw [splitAtMost_of_absent hcut]; rfl
  | some p => rw [splitAtMost_of_cut hcut]; rfl

theorem count_dash_lstrip (t : Text) : (lstrip ['\n'] t).count '-' = t.count '-' := by
  have hnone : (t.takeWhile ['\n'].contains).count '-' = 0 :=
    List.count_eq_zero.mpr fun h => absurd (List.mem_takeWhile_imp h) (by decide)
  conv_rhs =>
    rw [← List.takeWhile_append_dropWhile (p := ['\n'].contains) (l := t), List.count_append, hnone, Nat.zero_add]
  rfl

/-- A document is split into what it was put together from just if no line of the body starts with the dashes. -/
theorem split_lossless_iff (front : Front) (body : Text) :
    Lossless front body ↔ ∀ line ∈ body.splitOn '\n', ¬dashes <+: line := by
  rw [Lossless, split_document, lstrip_led, lstrip_idem, ← cut_body_eq_none_iff, and_iff_right rfl]
  cases hcut : cut ('\n' :: dashes) ('\n' :: body) with
  | none => exact iff_of_true (lstrip_newline body) rfl
  | some p =>
    refine iff_of_false (fun h => ?_) (Option.some_ne_none p)
    -- the dashes of the line itself are gone
    have hcount := congrArg (List.count '-') (h.trans (lstrip_newline body).symm)
    rw [count_dash_lstrip, count_dash_lstrip, cut_append hcut] at hcount
    simp [dashes] at hcount

def sampleFront : Front where
  lines := ["title: x".toList]
  unbroken := by decide
  undashed := by decide

/-- A body with a rule in it loses what is under the rule. -/
theorem rule_cuts_body : ¬Lossless sampleFront "above\n---\nbelow".toList ∧
    (split (document sampleFront "above\n---\nbelow".toList)).2 = "above".toList := by
  refine ⟨fun h => absurd h.2 ?_, ?_⟩ <;> decide

end PtaasBench.Blog.FrontMatter
