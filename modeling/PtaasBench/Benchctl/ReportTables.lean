import PtaasBench.Benchctl.ReportCells
import PtaasBench.Benchctl.ReportPage

/-!
# PtaasBench.Benchctl.ReportTables — what is read off both reports
-/

namespace PtaasBench.Benchctl.Report

open Lib List
open Lib.Markdown (Part Quiet Unbarred isBar isBreak join plain plain_iff quiet_iff unbarred_append
  unbarred_join unbarred_of_unbroken unbarred_unbroken_append)

/-! ## Texts on one line -/

def Unbroken (t : Text) : Prop := ∀ c ∈ t, isBreak c = false

theorem unbroken_of_plain {t : Text} (h : plain t = true) : Unbroken t := (plain_iff.mp h).2

theorem unbroken_lit {t : Text} (h : (t.all fun c => !isBreak c) = true) : Unbroken (String.ofList t).toList := by
  rw [String.toList_ofList]
  exact Markdown.not_break_of_all h

theorem Unbroken.append {s t : Text} (hs : Unbroken s) (ht : Unbroken t) : Unbroken (s ++ t) :=
  forall_mem_append.mpr ⟨hs, ht⟩

theorem unbroken_digits (n : ℕ) : Unbroken (digits n) := unbroken_of_plain (plain_digits n)

theorem mem_groups {t : Text} {c : Char} (h : c ∈ groups t) : c = ',' ∨ c ∈ t := by
  fun_induction groups t with
  | case1 a b d e t ih =>
    rcases mem_cons.mp h with rfl | h
    · exact Or.inr mem_cons_self
    · rcases mem_cons.mp h with rfl | h
      · exact Or.inr (mem_cons_of_mem _ mem_cons_self)
      · rcases mem_cons.mp h with rfl | h
        · exact Or.inr (mem_cons_of_mem _ (mem_cons_of_mem _ mem_cons_self))
        · rcases mem_cons.mp h with rfl | h
          · exact Or.inl rfl
          · exact (ih h).imp_right fun h => mem_cons_of_mem _ (mem_cons_of_mem _ (mem_cons_of_mem _ h))
  | case2 t _ => exact Or.inr h

theorem unbroken_grouped (n : ℕ) : Unbroken (grouped n) := by
  intro c hc
  rcases mem_groups (mem_reverse.mp hc) with rfl | hc
  · rfl
  · exact unbroken_digits n c (mem_reverse.mp hc)

/-- A text between two that stand on one line. -/
theorem unbarred_between {before behind : Text} (hbefore : Unbroken before) (hbar : isBar behind = false)
    (hbehind : Unbroken behind) (t : Text) : Unbarred (before ++ t ++ behind) ↔ Unbarred t := by
  rw [unbarred_append hbar, unbarred_unbroken_append hbefore]
  exact and_iff_left (unbarred_of_unbroken hbehind)

theorem quiet_behind {before : Text} (hbar : isBar before = false) (hne : before ≠ []) (hbefore : Unbroken before)
    (t : Text) : Quiet (before ++ t) ↔ Unbarred t := by
  rw [quiet_iff, Markdown.isBar_append hne, and_iff_right hbar, unbarred_unbroken_append hbefore]

/-! ## Lines about the runs -/

section Runs

variable {doc : Doc} (hname : plain (toolName doc) = true) (hmode : plain (scanModeLabel doc) = true)

theorem unbarred_optional {before t : Text} (h : Unbroken before) :
    Unbarred (if t = [] then [] else before ++ t) ↔ Unbarred t := by
  split_ifs with hnone
  · rw [hnone]
  · exact unbarred_unbroken_append h t

theorem unbroken_passiveNote : Unbroken passiveNote :=
  ((unbroken_lit rfl).append (unbroken_lit rfl)).append (unbroken_lit rfl)

theorem unbroken_unrecordedNote : Unbroken unrecordedNote :=
  ((unbroken_lit rfl).append (unbroken_lit rfl)).append (unbroken_lit rfl)

include hmode in
theorem unbarred_verdict : Unbarred (verdict doc) ↔
    ∀ t ∈ (if isPassive doc = true ∨ doc.run.scanMode.active = some true then [doc.run.scanMode.reason] else []),
      Unbarred t := by
  unfold verdict
  dsimp only
  by_cases hpassive : isPassive doc = true
  · have hopen : Unbroken ("PASSIVE RUN (".toList ++ scanModeLabel doc ++ ")".toList) :=
      ((unbroken_lit rfl).append (unbroken_of_plain hmode)).append (unbroken_lit rfl)
    rw [if_pos hpassive, if_pos (Or.inl hpassive), forall_mem_singleton,
      unbarred_between hopen rfl unbroken_passiveNote, unbarred_optional (unbroken_lit rfl)]
  · rw [if_neg hpassive]
    by_cases hactive : doc.run.scanMode.active = some true
    · rw [if_pos hactive, if_pos (Or.inr hactive), forall_mem_singleton,
        unbarred_between (unbroken_lit rfl) rfl (unbroken_lit rfl)]
      split_ifs with hnone
      · rw [hnone]
      · exact unbarred_between (unbroken_lit rfl) rfl (unbroken_lit rfl) _
    · rw [if_neg hactive, if_neg (not_or.mpr ⟨hpassive, hactive⟩)]
      exact ⟨fun _ t ht => absurd ht not_mem_nil, fun _ => unbarred_of_unbroken unbroken_unrecordedNote⟩

theorem unbarred_requestLine {requests : Requests} :
    Unbarred (requestLine requests) ↔ Unbarred requests.countedBy := by
  unfold requestLine
  rw [unbarred_unbroken_append ((unbroken_grouped _).append (unbroken_lit rfl)), unbarred_optional (unbroken_lit rfl)]

/-- The texts about a run before its numbers. -/
def conditionTexts (doc : Doc) : List Text :=
  (if isPassive doc = true ∨ doc.run.scanMode.active = some true then [doc.run.scanMode.reason] else []) ++
    doc.run.caveats ++ (if doc.run.requests.total = 0 then [] else [doc.run.requests.countedBy])

include hname hmode in
theorem clean_conditionParts :
    (∀ p ∈ conditionParts doc, p.Clean) ↔ ∀ t ∈ conditionTexts doc, Unbarred t := by
  have hline : ∀ line : Text, (Part.text (">  · ".toList ++ line)).Clean ↔ Unbarred line := fun line =>
    quiet_behind rfl (by decide) (unbroken_lit rfl) line
  have hhead :
      (Part.text ("> **".toList ++ toolName doc ++ " — ".toList ++ scanModeLabel doc ++ " run**".toList)).Clean := by
    refine quiet_iff.mpr ⟨rfl, unbarred_of_unbroken ?_⟩
    exact ((((unbroken_lit rfl).append (unbroken_of_plain hname)).append (unbroken_lit rfl)).append
      (unbroken_of_plain hmode)).append (unbroken_lit rfl)
  have hrequests :
      (∀ line ∈ (if doc.run.requests.total = 0 then [] else [requestLine doc.run.requests]), Unbarred line) ↔
      ∀ t ∈ (if doc.run.requests.total = 0 then [] else [doc.run.requests.countedBy]), Unbarred t := by
    split_ifs
    · rfl
    · rw [forall_mem_singleton, forall_mem_singleton, unbarred_requestLine]
  have hblank : (Part.text []).Clean := quiet_iff.mpr ⟨rfl, List.IsChain.nil⟩
  unfold conditionParts conditionLines
  rw [forall_mem_append, forall_mem_cons, forall_mem_map, forall_mem_singleton]
  simp only [hline, hhead, hblank, true_and, and_true]
  rw [forall_mem_append, forall_mem_cons, unbarred_verdict hmode, hrequests, conditionTexts,
    forall_mem_append, forall_mem_append]

end Runs

/-! ## Titles -/

theorem clean_sectionParts (s : Section) :
    (∀ p ∈ sectionParts s, p.Clean) ↔ (Unbarred s.head ∧ Unbarred s.legend) ∧ s.table.Plain := by
  have hhead : (Part.text ("## ".toList ++ s.head)).Clean ↔ Unbarred s.head :=
    quiet_behind rfl (by decide) (unbroken_lit rfl) s.head
  have hlegend : (∀ p ∈ (if s.legend = [] then [] else
      [Part.text ("<sub>".toList ++ s.legend ++ "</sub>".toList)]), p.Clean) ↔
      Unbarred s.legend := by
    split_ifs with hnone
    · rw [hnone]
      exact ⟨fun _ => List.IsChain.nil, fun _ p hp => absurd hp not_mem_nil⟩
    · rw [forall_mem_singleton, Part.Clean, quiet_iff, unbarred_between (unbroken_lit rfl) rfl (unbroken_lit rfl)]
      exact and_iff_right rfl
  have htable : (Part.table s.table.header s.table.rows).Clean ↔ s.table.Plain := Iff.rfl
  have hblank : (Part.text []).Clean := quiet_iff.mpr ⟨rfl, List.IsChain.nil⟩
  unfold sectionParts
  rw [forall_mem_append, forall_mem_cons, forall_mem_cons, forall_mem_singleton, hhead, hlegend,
    htable, and_iff_left hblank]

/-- The halves of a fixed title. -/
theorem unbarred_title {title : Text} {t : Table} (h : Unbroken title) :
    Unbarred (⟨title, t⟩ : Section).head ∧ Unbarred (⟨title, t⟩ : Section).legend := by
  refine ⟨unbarred_of_unbroken fun c hc => h c (takeWhile_subset _ hc), unbarred_of_unbroken fun c hc => ?_⟩
  exact h c (dropWhile_subset _ (mem_of_mem_drop hc))

theorem unbarred_notedTitle {head note : Text} {t : Table} (hhead : Unbroken head) (hnote : Unbroken note) :
    Unbarred (⟨head ++ '\n' :: note, t⟩ : Section).head ∧ Unbarred (⟨head ++ '\n' :: note, t⟩ : Section).legend := by
  have hline : ∀ c ∈ head, (c != '\n') = true := by
    intro c hc
    rw [bne_iff_ne]
    rintro rfl
    exact absurd (hhead _ hc) (by decide)
  rw [Section.head, Section.legend, takeWhile_append_of_pos hline, dropWhile_append_of_pos hline]
  have hempty : List.takeWhile (fun c => c != '\n') ('\n' :: note) = [] := rfl
  have hrest : (List.dropWhile (fun c => c != '\n') ('\n' :: note)).drop 1 = note := rfl
  rw [hempty, append_nil, hrest]
  exact ⟨unbarred_of_unbroken hhead, unbarred_of_unbroken hnote⟩

theorem unbroken_crawlNote (docs : List Doc) : Unbroken (crawlNote docs) := by
  refine (((unbroken_lit rfl).append (unbroken_lit rfl)).append (unbroken_lit rfl)).append ?_
  split_ifs
  · exact ((unbroken_lit rfl).append (unbroken_digits _)).append (unbroken_lit rfl)
  · exact fun c hc => absurd hc not_mem_nil

/-- The texts of the titles of the OWASP tables, before and behind the first line feed. -/
def titleTexts (docs : List Doc) : List Text :=
  (editions docs).flatMap fun edition => [(owaspSection docs edition).head, (owaspSection docs edition).legend]

theorem unbarred_titles {docs : List Doc} :
    (∀ s ∈ sections docs, Unbarred s.head ∧ Unbarred s.legend) ↔ ∀ t ∈ titleTexts docs, Unbarred t := by
  have htitles : (∀ t ∈ titleTexts docs, Unbarred t) ↔
      ∀ s ∈ (editions docs).map (owaspSection docs), Unbarred s.head ∧ Unbarred s.legend := by
    rw [titleTexts, forall_mem_flatMap, forall_mem_map]
    refine forall₂_congr fun edition _ => ?_
    rw [forall_mem_cons, forall_mem_singleton]
  have hcrawl : ∀ s ∈ (if hasCrawl docs = true then [⟨crawlTitle docs, crawlTable docs⟩] else []),
      Unbarred (Section.head s) ∧ Unbarred s.legend :=
    forall_mem_ite.mpr fun _ => forall_mem_singleton.mpr
      (unbarred_notedTitle (unbroken_lit rfl) (unbroken_crawlNote docs))
  have hweak : ∀ s ∈ (if hasWeak docs = true then [⟨weakTitle, weakTable docs⟩] else []),
      Unbarred (Section.head s) ∧ Unbarred s.legend :=
    forall_mem_ite.mpr fun _ => forall_mem_singleton.mpr
      (unbarred_notedTitle (unbroken_lit rfl) ((unbroken_lit rfl).append (unbroken_lit rfl)))
  have hprovenance : ∀ s ∈ (if hasProvenance docs = true then [⟨provenanceTitle, provenanceTable docs⟩] else []),
      Unbarred (Section.head s) ∧ Unbarred s.legend :=
    forall_mem_ite.mpr fun _ => forall_mem_singleton.mpr
      (unbarred_notedTitle (unbroken_lit rfl)
        (((unbroken_lit rfl).append (unbroken_lit rfl)).append (unbroken_lit rfl)))
  have hfixed : ∀ {title : String} {t : Table}, Unbroken title.toList →
      Unbarred (⟨title.toList, t⟩ : Section).head ∧ Unbarred (⟨title.toList, t⟩ : Section).legend := unbarred_title
  rw [htitles]
  unfold sections
  rw [forall_mem_append, forall_mem_append, forall_mem_append, forall_mem_append,
    forall_mem_append, forall_mem_append]
  constructor
  · exact fun h => h.1.1.1.1.1.2
  · intro h
    refine ⟨⟨⟨⟨⟨⟨forall_mem_singleton.mpr (hfixed (unbroken_lit rfl)), h⟩, ?_⟩, hcrawl⟩, hweak⟩, ?_⟩, hprovenance⟩
    · rw [forall_mem_cons, forall_mem_singleton]
      exact ⟨hfixed (unbroken_lit rfl), hfixed (unbroken_lit rfl)⟩
    · rw [forall_mem_cons, forall_mem_cons, forall_mem_cons, forall_mem_singleton]
      exact ⟨hfixed (unbroken_lit rfl), hfixed (unbroken_lit rfl), hfixed (unbroken_lit rfl), hfixed (unbroken_lit rfl)⟩

/-! ## Other texts -/

theorem unbarred_digestLine {docs : List Doc} :
    Unbarred (digestLine docs) ↔ ∀ doc ∈ docs, Unbarred (doc.catalogDigest.getD []) := by
  have hnote : Unbroken (cellNote docs) :=
    (((unbroken_lit rfl).append (unbroken_digits _)).append (unbroken_lit rfl)).append (unbroken_lit rfl)
  unfold digestLine
  rw [unbarred_between (unbroken_lit rfl) rfl hnote, unbarred_join (by decide) rfl (unbroken_lit rfl)]
  refine Iff.trans (forall_congr' fun t => imp_congr_left mem_sorted) ?_
  rw [forall_mem_map]
  refine forall₂_congr fun doc _ => ?_
  unfold orElse
  split_ifs with hnone
  · rw [hnone]
    exact ⟨fun _ => List.IsChain.nil, fun _ => unbarred_of_unbroken (unbroken_lit rfl)⟩
  · rfl

theorem unbarred_cweText {cwe : Text} {v : CweCount} :
    Unbarred (cweText cwe v) ↔ ∀ t ∈ [cwe, v.reason], Unbarred t := by
  have hassoc : ∀ a b c d e f g : Text, a ++ b ++ c ++ d ++ e ++ f ++ g = (a ++ b) ++ ((c ++ d ++ e) ++ f ++ g) := by
    intro a b c d e f g
    simp only [append_assoc]
  unfold cweText
  rw [hassoc, unbarred_append rfl, unbarred_unbroken_append (unbroken_lit rfl),
    unbarred_between (((unbroken_lit rfl).append (unbroken_digits _)).append (unbroken_lit rfl)) rfl (unbroken_lit rfl),
    forall_mem_cons, forall_mem_singleton]

theorem forall_mem_judged {docs : List Doc} {p : Doc × Findings → Prop} :
    (∀ entry ∈ judged docs, p entry) ↔ ∀ doc ∈ docs, ∀ f ∈ doc.findings, p (doc, f) := by
  constructor
  · intro h doc hdoc f hf
    refine h (doc, f) (mem_filterMap.mpr ⟨doc, hdoc, ?_⟩)
    rw [Option.mem_def.mp hf, Option.map_some]
  · intro h entry hentry
    obtain ⟨doc, hdoc, hmap⟩ := mem_filterMap.mp hentry
    obtain ⟨f, hf, rfl⟩ := Option.map_eq_some_iff.mp hmap
    exact h doc hdoc f hf

/-- The texts about the findings outside the corpus. -/
def corpusTexts (doc : Doc) : List Text :=
  doc.findings.toList.flatMap fun f => f.outOfCatalogByCwe.items.flatMap fun item => [item.1, item.2.reason]

theorem clean_blank : (Part.text []).Clean := quiet_iff.mpr ⟨rfl, List.IsChain.nil⟩

theorem clean_lit {title : Text} (hbar : isBar title = false) (h : Unbroken title) : (Part.text title).Clean :=
  quiet_iff.mpr ⟨hbar, unbarred_of_unbroken h⟩

theorem clean_outsideParts {entry : Doc × Findings} (hname : plain (toolName entry.1) = true) :
    (∀ p ∈ outsideParts entry, p.Clean) ↔
      ∀ t ∈ entry.2.outOfCatalogByCwe.items.flatMap fun item => [item.1, item.2.reason], Unbarred t := by
  unfold outsideParts
  split_ifs with hnone
  · rw [hnone]
    exact ⟨fun _ t ht => absurd ht not_mem_nil, fun _ p hp => absurd hp not_mem_nil⟩
  · have hopen : Unbroken ("<sub>".toList ++ toolName entry.1 ++ " — outside the corpus: ".toList) :=
      ((unbroken_lit rfl).append (unbroken_of_plain hname)).append (unbroken_lit rfl)
    rw [forall_mem_cons, forall_mem_singleton, and_iff_left clean_blank, Part.Clean, quiet_iff,
      unbarred_between hopen rfl (unbroken_lit rfl), unbarred_join (by decide) rfl (unbroken_lit rfl),
      forall_mem_map, forall_mem_flatMap]
    exact (and_iff_right rfl).trans (forall₂_congr fun item _ => unbarred_cweText)

theorem unbroken_precisionNote : Unbroken precisionNote :=
  (((((((unbroken_lit rfl).append (unbroken_lit rfl)).append (unbroken_lit rfl)).append (unbroken_lit rfl)).append
    (unbroken_lit rfl)).append (unbroken_lit rfl)).append (unbroken_lit rfl)).append (unbroken_lit rfl)

section Named

variable {docs : List Doc} (hnames : ∀ doc ∈ docs, plain (toolName doc) = true)
  (hmodes : ∀ doc ∈ docs, plain (scanModeLabel doc) = true)

include hnames in
theorem clean_precisionParts : (∀ p ∈ precisionParts docs, p.Clean) ↔
    (∀ t ∈ (if judged docs = [] then [] else [precisionTable [] docs]), t.Plain) ∧
      ∀ doc ∈ docs, ∀ t ∈ corpusTexts doc, Unbarred t := by
  have houtside : (∀ p ∈ (judged docs).flatMap outsideParts, p.Clean) ↔
      ∀ doc ∈ docs, ∀ t ∈ corpusTexts doc, Unbarred t := by
    rw [forall_mem_flatMap, forall_mem_judged]
    refine forall₂_congr fun doc hdoc => ?_
    rw [corpusTexts, forall_mem_flatMap]
    refine forall_congr' fun f => imp_congr Option.mem_toList.symm (clean_outsideParts (hnames doc hdoc))
  unfold precisionParts
  split_ifs with hnone
  · rw [hnone] at houtside
    exact ⟨fun h => ⟨fun t ht => absurd ht not_mem_nil, houtside.mp h⟩, fun h p hp => absurd hp not_mem_nil⟩
  · have htable : (Part.table (precisionTable [] docs).header (precisionTable [] docs).rows).Clean ↔
        (precisionTable [] docs).Plain := Iff.rfl
    rw [forall_mem_append, houtside, forall_mem_cons, forall_mem_cons, forall_mem_cons,
      forall_mem_singleton, forall_mem_singleton, htable, and_iff_left clean_blank,
      and_iff_right (clean_lit rfl unbroken_precisionNote), and_iff_right (clean_lit rfl (unbroken_lit rfl))]

theorem clean_warningParts : (∀ p ∈ warningParts docs, p.Clean) ↔
    ∀ t ∈ (if warned docs = [] then [] else [warningTable docs]), t.Plain := by
  unfold warningParts
  split_ifs with hnone
  · exact ⟨fun _ t ht => absurd ht not_mem_nil, fun _ p hp => absurd hp not_mem_nil⟩
  · have htable : (Part.table (warningTable docs).header (warningTable docs).rows).Clean ↔ (warningTable docs).Plain :=
      Iff.rfl
    rw [forall_mem_cons, forall_mem_cons, forall_mem_singleton, forall_mem_singleton, htable,
      and_iff_left clean_blank, and_iff_right (clean_lit rfl (unbroken_lit rfl))]

/-- The texts of a document that stand on the lines between the tables. -/
def lineTexts (doc : Doc) : List Text := doc.catalogDigest.getD [] :: conditionTexts doc ++ corpusTexts doc

include hnames hmodes in
theorem clean_markdownParts_of_names : (∀ p ∈ markdownParts docs, p.Clean) ↔
    (∀ t ∈ markdownTables docs, t.Plain) ∧ (∀ doc ∈ docs, ∀ t ∈ lineTexts doc, Unbarred t) ∧
      ∀ t ∈ titleTexts docs, Unbarred t := by
  have hopen :
      (∀ p ∈ [Part.text "# ptaas-bench results".toList, .text [], .text (digestLine docs), .text []], p.Clean) ↔
      ∀ doc ∈ docs, Unbarred (doc.catalogDigest.getD []) := by
    have hdigest : (Part.text (digestLine docs)).Clean ↔ ∀ doc ∈ docs, Unbarred (doc.catalogDigest.getD []) := by
      rw [← unbarred_digestLine, Part.Clean, quiet_iff]
      exact and_iff_right rfl
    rw [forall_mem_cons, forall_mem_cons, forall_mem_cons, forall_mem_singleton,
      and_iff_right (clean_lit rfl (unbroken_lit rfl)), and_iff_right clean_blank, and_iff_left clean_blank, hdigest]
  have hconditions : (∀ p ∈ docs.flatMap conditionParts, p.Clean) ↔
      ∀ doc ∈ docs, ∀ t ∈ conditionTexts doc, Unbarred t := by
    rw [forall_mem_flatMap]
    exact forall₂_congr fun doc hdoc => clean_conditionParts (hnames doc hdoc) (hmodes doc hdoc)
  have hsections : (∀ p ∈ (sections docs).flatMap sectionParts, p.Clean) ↔
      (∀ t ∈ titleTexts docs, Unbarred t) ∧ ∀ s ∈ sections docs, s.table.Plain := by
    rw [forall_mem_flatMap, ← unbarred_titles, ← forall₂_and]
    exact forall₂_congr fun s _ => clean_sectionParts s
  have hlines : (∀ doc ∈ docs, ∀ t ∈ lineTexts doc, Unbarred t) ↔
      (∀ doc ∈ docs, Unbarred (doc.catalogDigest.getD [])) ∧ (∀ doc ∈ docs, ∀ t ∈ conditionTexts doc, Unbarred t) ∧
        ∀ doc ∈ docs, ∀ t ∈ corpusTexts doc, Unbarred t := by
    rw [← forall₂_and, ← forall₂_and]
    refine forall₂_congr fun doc _ => ?_
    rw [lineTexts, forall_mem_append, forall_mem_cons, and_assoc]
  unfold markdownParts
  rw [forall_mem_append, forall_mem_append, forall_mem_append, forall_mem_append, hopen,
    hconditions, hsections, clean_precisionParts hnames, clean_warningParts, hlines, markdownTables,
    forall_mem_append, forall_mem_append, forall_mem_map]
  constructor
  · rintro ⟨⟨⟨⟨hdigests, hlines⟩, htitles, hsections⟩, hprecision, hcorpus⟩, hwarnings⟩
    exact ⟨⟨⟨hsections, hprecision⟩, hwarnings⟩, ⟨hdigests, hlines, hcorpus⟩, htitles⟩
  · rintro ⟨⟨⟨hsections, hprecision⟩, hwarnings⟩, ⟨hdigests, hlines, hcorpus⟩, htitles⟩
    exact ⟨⟨⟨⟨hdigests, hlines⟩, htitles, hsections⟩, hprecision, hcorpus⟩, hwarnings⟩

end Named

/-- The parts are clean just if the texts of the documents in the tables are plain and no line of the others begins
with a bar. -/
theorem clean_markdownParts {docs : List Doc} : (∀ p ∈ markdownParts docs, p.Clean) ↔
    (∀ doc ∈ docs, ∀ t ∈ cellTexts docs doc, plain t = true) ∧ (∀ doc ∈ docs, ∀ t ∈ lineTexts doc, Unbarred t) ∧
      ∀ t ∈ titleTexts docs, Unbarred t := by
  have hnamed : (summaryTable docs).Plain →
      ((∀ p ∈ markdownParts docs, p.Clean) ↔ (∀ t ∈ markdownTables docs, t.Plain) ∧
        (∀ doc ∈ docs, ∀ t ∈ lineTexts doc, Unbarred t) ∧ ∀ t ∈ titleTexts docs, Unbarred t) := by
    intro hsummary
    rw [plain_summaryTable] at hsummary
    refine clean_markdownParts_of_names (fun doc hdoc => ?_) fun doc hdoc => ?_
    · exact plain_toolName_iff.mpr fun t ht => hsummary doc hdoc t (mem_append_left _ ht)
    · exact (plain_scanModeLabel doc).mpr (hsummary doc hdoc _ (mem_append_right _ mem_cons_self))
  have hfirst : summaryTable docs ∈ markdownTables docs := mem_cons_self
  rw [← plain_markdownTables]
  constructor
  · intro h
    have hsummary : (Part.table (summaryTable docs).header (summaryTable docs).rows).Clean := by
      refine h _ (mem_append_left _ (mem_append_left _ (mem_append_right _ ?_)))
      exact mem_flatMap.mpr ⟨⟨"Overall".toList, summaryTable docs⟩, mem_cons_self,
        mem_append_right _ mem_cons_self⟩
    exact (hnamed hsummary).mp h
  · exact fun h => (hnamed (h.1 _ hfirst)).mpr h

/-! ## The Markdown report -/

theorem Table.formed (t : Table) : (Part.table t.header t.rows).Formed := by
  intro row hrow
  rcases mem_cons.mp hrow with rfl | hrow
  · exact t.named
  · rintro rfl
    exact t.named (length_eq_zero_iff.mp (t.width [] hrow).symm)

theorem formed_conditionParts (doc : Doc) : ∀ p ∈ conditionParts doc, p.Formed := by
  rw [conditionParts, forall_mem_append, forall_mem_cons, forall_mem_map, forall_mem_singleton]
  exact ⟨⟨rfl, fun _ _ => rfl⟩, rfl⟩

theorem formed_sectionParts (s : Section) : ∀ p ∈ sectionParts s, p.Formed := by
  rw [sectionParts, forall_mem_append, forall_mem_cons, forall_mem_cons, forall_mem_singleton]
  refine ⟨⟨rfl, ?_⟩, s.table.formed, rfl⟩
  split_ifs
  · exact fun p hp => absurd hp not_mem_nil
  · exact forall_mem_singleton.mpr rfl

theorem formed_precisionParts (docs : List Doc) : ∀ p ∈ precisionParts docs, p.Formed := by
  unfold precisionParts
  split_ifs
  · exact fun p hp => absurd hp not_mem_nil
  · rw [forall_mem_append, forall_mem_cons, forall_mem_cons, forall_mem_cons,
      forall_mem_singleton, forall_mem_flatMap]
    refine ⟨⟨rfl, rfl, (precisionTable [] docs).formed, rfl⟩, fun entry _ => ?_⟩
    unfold outsideParts
    split_ifs
    · exact fun p hp => absurd hp not_mem_nil
    · rw [forall_mem_cons, forall_mem_singleton]
      exact ⟨rfl, rfl⟩

theorem formed_markdownParts (docs : List Doc) : ∀ p ∈ markdownParts docs, p.Formed := by
  rw [markdownParts, forall_mem_append, forall_mem_append, forall_mem_append, forall_mem_append,
    forall_mem_flatMap, forall_mem_flatMap]
  refine ⟨⟨⟨⟨?_, fun doc _ => formed_conditionParts doc⟩, fun s _ => formed_sectionParts s⟩,
    formed_precisionParts docs⟩, ?_⟩
  · rw [forall_mem_cons, forall_mem_cons, forall_mem_cons, forall_mem_singleton]
    exact ⟨rfl, rfl, rfl, rfl⟩
  · unfold warningParts
    split_ifs
    · exact fun p hp => absurd hp not_mem_nil
    · rw [forall_mem_cons, forall_mem_cons, forall_mem_singleton]
      exact ⟨rfl, (warningTable docs).formed, rfl⟩

theorem tables_conditionParts (doc : Doc) : (conditionParts doc).flatMap Part.tables = [] := by
  have hlines : ((conditionLines doc).map fun line => Part.text (">  · ".toList ++ line)).flatMap Part.tables = [] := by
    rw [flatMap_map]
    exact flatMap_eq_nil_iff.mpr fun _ _ => rfl
  rw [conditionParts, flatMap_append, flatMap_cons, hlines]
  rfl

theorem tables_sectionParts (s : Section) : (sectionParts s).flatMap Part.tables = [s.table.grid] := by
  unfold sectionParts
  split_ifs
  · rfl
  · rfl

theorem tables_precisionParts (docs : List Doc) : (precisionParts docs).flatMap Part.tables =
    (if judged docs = [] then [] else [precisionTable [] docs]).map Table.grid := by
  unfold precisionParts
  split_ifs
  · rfl
  · have houtside : ∀ entry, (outsideParts entry).flatMap Part.tables = [] := by
      intro entry
      unfold outsideParts
      split_ifs
      · rfl
      · rfl
    rw [flatMap_append, flatMap_assoc, flatMap_eq_nil_iff.mpr fun entry _ => houtside entry,
      append_nil]
    rfl

theorem tables_markdownParts (docs : List Doc) :
    (markdownParts docs).flatMap Part.tables = (markdownTables docs).map Table.grid := by
  have hwarnings : (warningParts docs).flatMap Part.tables =
      (if warned docs = [] then [] else [warningTable docs]).map Table.grid := by
    unfold warningParts
    split_ifs
    · rfl
    · rfl
  have hsections : ((sections docs).flatMap sectionParts).flatMap Part.tables =
      (sections docs).map fun s => s.table.grid := by
    rw [flatMap_assoc, map_eq_flatMap]
    exact flatMap_congr fun s _ => tables_sectionParts s
  rw [markdownParts, markdownTables, flatMap_append, flatMap_append, flatMap_append, flatMap_append,
    hsections, hwarnings, tables_precisionParts, flatMap_assoc,
    flatMap_eq_nil_iff.mpr fun doc _ => tables_conditionParts doc, append_nil, map_append,
    map_append, map_map]
  rfl

/-! ## The end of the report -/

/-- Parts that end with a blank line, below a text that ends with a visible character. -/
def Settled (parts : List Part) : Prop :=
  ∃ front last t c, parts = front ++ [last, .text []] ∧ last.write = t ++ [c] ∧ PtaasBench.Py.isSpace c = false

theorem Settled.append {parts : List Part} (h : Settled parts) (before : List Part) : Settled (before ++ parts) := by
  obtain ⟨front, last, t, c, rfl, hlast, hc⟩ := h
  exact ⟨before ++ front, last, t, c, (append_assoc _ _ _).symm, hlast, hc⟩

/-- Nothing is stripped but the line feed that is put back. -/
theorem Settled.rstrip {parts : List Part} (h : Settled parts) :
    rstrip (Markdown.write parts) ++ ['\n'] = Markdown.write parts := by
  obtain ⟨front, last, t, c, rfl, hlast, hc⟩ := h
  obtain ⟨before, hwrite⟩ := Markdown.exists_write_concat front last
  have hblank : Markdown.write (front ++ [last, .text []]) = before ++ t ++ [c] ++ ['\n'] := by
    have hsplit : front ++ [last, Part.text []] = (front ++ [last]) ++ [.text []] := by rw [append_assoc]; rfl
    rw [hsplit, Markdown.write, map_append, map_singleton, Markdown.join_concat (by simp), ← Markdown.write,
      hwrite, hlast, Part.write, append_nil, ← append_assoc before]
  rw [hblank, Report.rstrip, rdropWhile_concat_pos _ _ _ (by decide), rdropWhile_concat_neg]
  rw [hc]
  exact Bool.false_ne_true

theorem Settled.of_table (t : Table) : Settled [.table t.header t.rows, .text []] := by
  obtain ⟨before, hwrite⟩ := Markdown.exists_writeTable_concat t.header t.rows
  exact ⟨[], _, '\n' :: before, '|', rfl, congrArg (List.cons '\n') hwrite, rfl⟩

theorem settled_sectionParts (s : Section) : Settled (sectionParts s) := (Settled.of_table s.table).append _

/-- A list that ends so, behind one that does. -/
theorem Settled.append_flatMap {α : Type*} {parts : List Part} (h : Settled parts) {l : List α} {f : α → List Part}
    (hf : ∀ a ∈ l, f a = [] ∨ Settled (f a)) : Settled (parts ++ l.flatMap f) := by
  induction l generalizing parts with
  | nil => rwa [flatMap_nil, append_nil]
  | cons a l ih =>
    rw [flatMap_cons, ← append_assoc]
    refine ih ?_ fun b hb => hf b (mem_cons_of_mem a hb)
    rcases hf a mem_cons_self with hnone | ha
    · rwa [hnone, append_nil]
    · exact ha.append parts

theorem settled_outsideParts (entry : Doc × Findings) : outsideParts entry = [] ∨ Settled (outsideParts entry) := by
  unfold outsideParts
  split_ifs
  · exact Or.inl rfl
  · have hend : ∀ t : Text, t ++ "</sub>".toList = t ++ "</sub".toList ++ ['>'] := by
      intro t
      rw [append_assoc]
      rfl
    exact Or.inr ⟨[], _, _, '>', rfl, hend _, rfl⟩

theorem settled_markdownParts (docs : List Doc) : Settled (markdownParts docs) := by
  have hsections : Settled ((sections docs).flatMap sectionParts) := by
    have hfirst := settled_sectionParts ⟨"Overall".toList, summaryTable docs⟩
    exact hfirst.append_flatMap fun s _ => Or.inr (settled_sectionParts s)
  have hprecision : precisionParts docs = [] ∨ Settled (precisionParts docs) := by
    unfold precisionParts
    split_ifs
    · exact Or.inl rfl
    · have htable := (Settled.of_table (precisionTable [] docs)).append
        [.text "## Precision".toList, .text precisionNote]
      exact Or.inr (htable.append_flatMap fun entry _ => settled_outsideParts entry)
  have hwarnings : warningParts docs = [] ∨ Settled (warningParts docs) := by
    unfold warningParts
    split_ifs
    · exact Or.inl rfl
    · exact Or.inr ((Settled.of_table (warningTable docs)).append [_])
  have hmain := hsections.append
    ([Part.text "# ptaas-bench results".toList, .text [], .text (digestLine docs), .text []] ++
      docs.flatMap conditionParts)
  have hbehind : ∀ {parts more : List Part}, Settled parts → more = [] ∨ Settled more → Settled (parts ++ more) := by
    rintro parts more hparts (rfl | hmore)
    · rwa [append_nil]
    · exact hmore.append parts
  exact hbehind (hbehind hmain hprecision) hwarnings

/-! ## What is published -/

section Published

variable (style : StyleSheet) (width : Text → Option ℕ) (docs : List Doc)

theorem markdownReport_eq : markdownReport docs = Markdown.write (markdownParts docs) :=
  (settled_markdownParts docs).rstrip

/-- The tables of both reports have a cell for each heading in each row and are read back as they were put in, and
the page has the tags that were put in. -/
structure Published : Prop where
  rectangular : ∀ t ∈ markdownTables docs ++ htmlTables docs, ∀ row ∈ t.rows, row.length = t.header.length
  markdown : Markdown.read (markdownReport docs) = (markdownTables docs).map Table.grid
  html : Html.read (htmlReport style width docs) = (htmlTables docs).map Table.grid
  elements : Html.elements (htmlReport style width docs) = (htmlPage style width docs).flatMap Html.Chunk.elements

/-- The texts in the tables are plain, and no text on the lines between them brings a line that begins with a bar. -/
structure Harmless : Prop where
  cells : ∀ doc ∈ docs, ∀ t ∈ cellTexts docs doc, plain t = true
  lines : ∀ doc ∈ docs, ∀ t ∈ lineTexts doc, Unbarred t
  titles : ∀ t ∈ titleTexts docs, Unbarred t

theorem markdown_read_iff :
    Markdown.read (markdownReport docs) = (markdownTables docs).map Table.grid ↔ Harmless docs := by
  rw [markdownReport_eq, ← tables_markdownParts, Markdown.read_write_iff (formed_markdownParts docs),
    clean_markdownParts]
  exact ⟨fun h => ⟨h.1, h.2.1, h.2.2⟩, fun h => ⟨h.cells, h.lines, h.titles⟩⟩

theorem page_read : Html.read (htmlReport style width docs) = (htmlTables docs).map Table.grid :=
  (reads_htmlPage style width docs).read

/-- The reports are read back just for harmless texts: only the page escapes what it puts in. -/
theorem published_iff : Published style width docs ↔ Harmless docs := by
  constructor
  · exact fun h => (markdown_read_iff docs).mp h.markdown
  · intro h
    exact ⟨fun t _ => t.width, (markdown_read_iff docs).mpr h, page_read style width docs, Html.elements_write _⟩

end Published

/-- A tool whose name has a bar. -/
def barredDoc : Doc := { run := { tool := "acme | scanner".toList } }

theorem barred_split : ¬Published ⟨[], rfl⟩ (fun _ => none) [barredDoc] := by
  intro h
  have hplain := ((markdown_read_iff _).mp h.markdown).cells barredDoc mem_cons_self "acme | scanner".toList
    mem_cons_self
  exact absurd hplain (by decide)

end PtaasBench.Benchctl.Report
