import Mathlib.Data.List.DropRight
import PtaasBench.Corp.DocumentStore
import PtaasBench.Lib.Bytes

/-!
# PtaasBench.Legacy.Folders — files streamed or included from a folder (`bt_stream_document`, `bt_include_from`)
-/

namespace PtaasBench.Legacy.Folders

open Lib Lib.Files

/-! ## The code -/

/-- A worker of the web server: what it sees of the disk, how many links it follows and where it stands. -/
structure Worker where
  tree : Disk UInt8
  links : ℕ
  cwd : List Bytes
  cwd_dir : tree.node cwd = some .dir

/-- `realpath` -/
def Worker.realpath (w : Worker) (path : Bytes) : Option (List Bytes) := w.tree.resolve .stops w.links w.cwd path

/-- What `fopen` and `include` open: the path is expanded before, and a missing segment is taken back by a `..`. -/
def Worker.opened (w : Worker) (path : Bytes) : Option (List Bytes × Node UInt8) :=
  (w.tree.resolve .passes w.links w.cwd path).bind fun p => (w.tree.node p).map (p, ·)

def ascii (s : String) : Bytes := s.toList.map fun c => UInt8.ofNat c.toNat

/-- `rtrim($baseDir, '/')` -/
def baseOf (baseDir : Bytes) : Bytes := baseDir.rdropWhile (· == 47)

/-- `$base . '/' . $name` -/
def fullOf (baseDir name : Bytes) : Bytes := baseOf baseDir ++ 47 :: name

structure Signal where
  counter : String
  payload : Bytes
  detail : Bytes

/-- A file that was opened, what the visitor got of it, and what was counted. -/
structure Served where
  file : List Bytes
  output : Bytes
  signal : Option Signal

def payloadOf (field name : Bytes) : Bytes := field ++ [61] ++ name.take 300

/-- `str_starts_with($real, $base . DIRECTORY_SEPARATOR)` -/
def startsUnder (base : Bytes) (real : List Bytes) : Bool := (base ++ [47]).isPrefixOf (pathText real)

/-- What is read from a stream of a node. -/
def contentOf : Node UInt8 → Bytes
  | .file content => content
  | _ => []

def streamDocument (w : Worker) (counter : String) (field baseDir name : Bytes) : Option Served :=
  let base := baseOf baseDir
  let full := fullOf baseDir name
  if 0 ∈ full then none
  else
    match w.opened full with
    | none => none
    | some (file, node) =>
      let real := w.realpath full
      let written := contentOf node
      some {
        file := file
        output := written
        signal :=
          if written ≠ [] ∧ !real.any (startsUnder base) then some {
            counter := counter
            payload := payloadOf field name
            detail := ascii "served " ++ ascii (toString written.length) ++ ascii " byte(s) from " ++
              (real.map pathText).getD [] ++ ascii ", outside " ++ base }
          else none }

/-- `run` is what the page's PHP makes of a fragment. -/
def includeFrom (w : Worker) (run : Bytes → Bytes) (counter : String) (field baseDir name : Bytes) : Option Served :=
  let base := baseOf baseDir
  let full := fullOf baseDir name
  if 0 ∈ full then none
  else
    match w.opened full with
    | some (file, .file content) =>
      let rendered := run content
      if rendered = [] then none
      else some {
        file := file
        output := rendered
        signal :=
          match w.realpath full with
          | none => none
          | some real =>
            if startsUnder base real then none
            else some {
              counter := counter
              payload := payloadOf field name
              detail := ascii "fragment resolved to " ++ pathText real ++ ascii ", outside " ++ base ++
                ascii ", and " ++ ascii (toString rendered.length) ++ ascii " byte(s) reached the response" } }
    | _ => none

/-! ## Where the counters and the files agree -/

/-- The file lies in the directory that the folder leads to. -/
def Inside (w : Worker) (baseDir : Bytes) (file : List Bytes) : Prop :=
  w.tree.Inside w.links w.cwd (baseOf baseDir ++ [47]) file

/-- The folder's text is not the text of its directory. -/
def Misspelt (w : Worker) (baseDir : Bytes) : Prop :=
  ∀ dir, w.realpath (baseOf baseDir ++ [47]) = some dir → baseOf baseDir ≠ led 47 dir

section

variable {w : Worker} {counter : String} {field baseDir name : Bytes} {s : Served} {p : List Bytes} {content : Bytes}

/-- What `realpath` finds is what was opened. -/
theorem opened_of_realpath {node : Node UInt8} {path : Bytes} (h : w.opened path = some (p, node)) :
    w.tree.node p = some node ∧ ∀ q, w.realpath path = some q → q = p := by
  obtain ⟨q, hq, hmap⟩ := Option.bind_eq_some_iff.mp h
  obtain ⟨n, hn, heq⟩ := Option.map_eq_some_iff.mp hmap
  obtain ⟨rfl, rfl⟩ := Prod.mk.inj heq
  refine ⟨hn, fun r hr => Option.some.inj ?_⟩
  rw [← Disk.resolve_of_stops hr]
  exact hq

/-- A file starts under the text of a folder if it lies in it and the text is that of its directory. -/
theorem startsUnder_iff (hfile : w.tree.node p = some (.file content)) :
    startsUnder (baseOf baseDir) p = true ↔ Inside w baseDir p ∧ ¬Misspelt w baseDir := by
  have hne : p ≠ [] := by
    rintro rfl
    rw [w.tree.root] at hfile
    cases hfile
  have hsome : (w.tree.node p).isSome = true := by rw [hfile]; rfl
  rw [startsUnder, pathText, if_neg hne, List.isPrefixOf_iff_prefix]
  constructor
  · intro h
    obtain ⟨q, r, rfl, hr, hbase⟩ := prefix_led (fun c hc => (w.tree.proper_of_mem hsome c hc).2.2.2) h
    have hdir : w.tree.node q = some .dir := w.tree.dir_above hr hsome
    have hreal : w.realpath (baseOf baseDir ++ [47]) = some q := by
      rw [hbase]
      exact Disk.resolve_dir hdir
    refine ⟨⟨q, hreal, List.prefix_append q r, fun heq => ?_⟩, fun hmiss => hmiss q hreal hbase⟩
    rw [← heq, hdir] at hfile
    cases hfile
  · rintro ⟨⟨dir, hreal, ⟨r, rfl⟩, hproper⟩, hspelt⟩
    have hr : r ≠ [] := by
      rintro rfl
      exact hproper (List.append_nil dir).symm
    have hbase : baseOf baseDir = led 47 dir := by
      refine Classical.byContradiction fun hne => hspelt fun other hother => ?_
      obtain rfl := Option.some.inj (hreal.symm.trans hother)
      exact hne
    rw [hbase]
    exact led_prefix dir hr

/-- A served file lies in the folder, but the path runs over a missing segment, or the folder is misspelt. -/
def StreamFalseAlarm (w : Worker) (baseDir name : Bytes) (file : List Bytes) : Prop :=
  Inside w baseDir file ∧ (w.realpath (fullOf baseDir name) = none ∨ Misspelt w baseDir)

/-- An included file lies elsewhere, and the path runs over a missing segment. -/
def IncludeMissed (w : Worker) (baseDir name : Bytes) (file : List Bytes) : Prop :=
  ¬Inside w baseDir file ∧ w.realpath (fullOf baseDir name) = none

/-- An included file lies in the folder, and the folder is misspelt. -/
def IncludeFalseAlarm (w : Worker) (baseDir name : Bytes) (file : List Bytes) : Prop :=
  Inside w baseDir file ∧ w.realpath (fullOf baseDir name) ≠ none ∧ Misspelt w baseDir

theorem stream_raised_iff (h : streamDocument w counter field baseDir name = some s) (hbytes : s.output ≠ []) :
    s.signal.isSome = true ↔
      w.realpath (fullOf baseDir name) = none ∨ ¬(Inside w baseDir s.file ∧ ¬Misspelt w baseDir) := by
  unfold streamDocument at h
  dsimp only at h
  split_ifs at h
  cases hopen : w.opened (fullOf baseDir name) with
  | none =>
    rw [hopen] at h
    exact nomatch h
  | some found =>
    obtain ⟨file, node⟩ := found
    rw [hopen] at h
    obtain rfl := Option.some.inj h
    obtain ⟨hnode, hreal⟩ := opened_of_realpath hopen
    cases node with
    | dir => exact absurd rfl hbytes
    | link target => exact absurd rfl hbytes
    | file content =>
      dsimp only at hbytes ⊢
      rw [← startsUnder_iff hnode]
      cases hq : w.realpath (fullOf baseDir name) with
      | none =>
        rw [if_pos ⟨hbytes, rfl⟩]
        exact iff_of_true rfl (Or.inl rfl)
      | some q =>
        obtain rfl := hreal q hq
        cases hunder : startsUnder (baseOf baseDir) q with
        | true =>
          rw [if_neg fun hout => by simp [hunder] at hout]
          exact iff_of_false Bool.noConfusion (by simp)
        | false =>
          rw [if_pos ⟨hbytes, by simp [hunder]⟩]
          exact iff_of_true rfl (Or.inr Bool.noConfusion)

theorem include_raised_iff {run : Bytes → Bytes} (h : includeFrom w run counter field baseDir name = some s) :
    s.signal.isSome = true ↔
      w.realpath (fullOf baseDir name) ≠ none ∧ ¬(Inside w baseDir s.file ∧ ¬Misspelt w baseDir) := by
  unfold includeFrom at h
  dsimp only at h
  split_ifs at h
  cases hopen : w.opened (fullOf baseDir name) with
  | none =>
    rw [hopen] at h
    exact nomatch h
  | some found =>
    obtain ⟨file, node⟩ := found
    rw [hopen] at h
    cases node with
    | dir => exact nomatch h
    | link target => exact nomatch h
    | file content =>
      dsimp only at h
      split_ifs at h
      obtain rfl := Option.some.inj h
      obtain ⟨hnode, hreal⟩ := opened_of_realpath hopen
      dsimp only
      rw [← startsUnder_iff hnode]
      cases hq : w.realpath (fullOf baseDir name) with
      | none => exact iff_of_false Bool.noConfusion fun hsome => hsome.1 rfl
      | some q =>
        obtain rfl := hreal q hq
        cases hunder : startsUnder (baseOf baseDir) q with
        | true =>
          dsimp only
          rw [hunder, if_pos rfl]
          exact iff_of_false Bool.noConfusion fun hout => hout.2 rfl
        | false =>
          dsimp only
          rw [hunder, if_neg Bool.false_ne_true]
          exact iff_of_true rfl ⟨nofun, Bool.noConfusion⟩

theorem stream_agrees_iff (h : streamDocument w counter field baseDir name = some s) (hbytes : s.output ≠ []) :
    (s.signal.isSome = true ↔ ¬Inside w baseDir s.file) ↔ ¬StreamFalseAlarm w baseDir name s.file := by
  rw [stream_raised_iff h hbytes, StreamFalseAlarm]
  by_cases hin : Inside w baseDir s.file
  · constructor
    · rintro hagree ⟨-, hfalse⟩
      refine hagree.mp ?_ hin
      rcases hfalse with hnone | hmiss
      · exact Or.inl hnone
      · exact Or.inr fun hunder => hunder.2 hmiss
    · intro hnot
      refine iff_of_false ?_ fun hout => hout hin
      rintro (hnone | hout)
      · exact hnot ⟨hin, Or.inl hnone⟩
      · exact hnot ⟨hin, Or.inr (Classical.byContradiction fun hspelt => hout ⟨hin, hspelt⟩)⟩
  · exact iff_of_true (iff_of_true (Or.inr fun hunder => hin hunder.1) hin) fun hfalse => hin hfalse.1

theorem include_agrees_iff {run : Bytes → Bytes} (h : includeFrom w run counter field baseDir name = some s) :
    (s.signal.isSome = true ↔ ¬Inside w baseDir s.file) ↔
      ¬IncludeMissed w baseDir name s.file ∧ ¬IncludeFalseAlarm w baseDir name s.file := by
  rw [include_raised_iff h, IncludeMissed, IncludeFalseAlarm]
  by_cases hin : Inside w baseDir s.file
  · refine ⟨fun hagree => ⟨fun hmissed => hmissed.1 hin, fun hfalse => ?_⟩, fun hnot => ?_⟩
    · exact hagree.mp ⟨hfalse.2.1, fun hunder => hunder.2 hfalse.2.2⟩ hin
    · refine iff_of_false ?_ fun hout => hout hin
      rintro ⟨hreal, hout⟩
      exact hnot.2 ⟨hin, hreal, Classical.byContradiction fun hspelt => hout ⟨hin, hspelt⟩⟩
  · refine ⟨fun hagree => ⟨fun hmissed => (hagree.mpr hin).1 hmissed.2, fun hfalse => hin hfalse.1⟩, fun hnot => ?_⟩
    exact iff_of_true ⟨fun hnone => hnot.1 ⟨hin, hnone⟩, fun hunder => hin hunder.1⟩ hin

end

/-! ## The four counters -/

open Corp.DocumentStore (withSeparator Missed FalseAlarm save_agrees_iff)

/-- Each counter goes by the file that was written, served or included, but for the kinds of trees and names above. -/
theorem escape_counters_iff (links : ℕ) (t : Disk Char) (store : Corp.DocumentStore.Store) (w : Worker) :
    (∀ (name : List Char) (content : Bytes) (s : Corp.DocumentStore.Saved),
      Corp.DocumentStore.saveUploadAsync links t store name content = some s →
        ((s.signal.isSome = true ↔ ¬s.tree.Inside links [] (withSeparator store.uploadRoot) s.file) ↔
          ∀ dir, s.tree.resolve .stops links [] (withSeparator store.uploadRoot) = some dir →
            ¬Missed links t store.uploadRoot name dir ∧ ¬FalseAlarm links t store.uploadRoot name dir)) ∧
    (∀ (name body : List Char) (s : Corp.DocumentStore.Saved),
      Corp.DocumentStore.saveTemplateAsync links t store name body = some s →
        ((s.signal.isSome = true ↔ ¬s.tree.Inside links [] (withSeparator store.templateRoot) s.file) ↔
          ∀ dir, s.tree.resolve .stops links [] (withSeparator store.templateRoot) = some dir →
            ¬Missed links t store.templateRoot name dir ∧ ¬FalseAlarm links t store.templateRoot name dir)) ∧
    (∀ (counter : String) (field baseDir name : Bytes) (s : Served),
      streamDocument w counter field baseDir name = some s → s.output ≠ [] →
        ((s.signal.isSome = true ↔ ¬Inside w baseDir s.file) ↔ ¬StreamFalseAlarm w baseDir name s.file)) ∧
    ∀ (run : Bytes → Bytes) (counter : String) (field baseDir name : Bytes) (s : Served),
      includeFrom w run counter field baseDir name = some s →
        ((s.signal.isSome = true ↔ ¬Inside w baseDir s.file) ↔
          ¬IncludeMissed w baseDir name s.file ∧ ¬IncludeFalseAlarm w baseDir name s.file) :=
  ⟨fun _ _ _ h => save_agrees_iff store.uploadRoot_full h, fun _ _ _ h => save_agrees_iff store.templateRoot_full h,
    fun _ _ _ _ _ h hbytes => stream_agrees_iff h hbytes, fun _ _ _ _ _ _ h => include_agrees_iff h⟩

/-- A store `/s` with a link `/s/l` that leads to `/o`. -/
def linkedStore : Disk Char :=
  (((default : Disk Char).put [] ['s'] .dir rfl (by decide) (by decide)).put [['s']] ['l'] (.link ['/', 'o']) rfl
    (by decide) (by decide)).put [] ['o'] .dir rfl (by decide) (by decide)

/-- A folder `/e` with a file `f` in it, a link `/d` to it, and a file `/p` beside it. -/
def linkedFolder : Disk UInt8 :=
  ((((default : Disk UInt8).put [] [101] .dir rfl (by decide) (by decide)).put [[101]] [102] (.file [65]) rfl
    (by decide) (by decide)).put [] [100] (.link [47, 101]) rfl (by decide) (by decide)).put [] [112] (.file [65]) rfl
      (by decide) (by decide)

def worker : Worker := ⟨linkedFolder, 40, [], rfl⟩

def store : Corp.DocumentStore.Store := Corp.DocumentStore.Store.new [] ['/', 's'] ['/', 's']

theorem samples_saved :
    (∃ s, Corp.DocumentStore.saveUploadAsync 40 linkedStore store ['x'] [65] = some s ∧
      ((s.signal.isSome = true ↔ ¬s.tree.Inside 40 [] (withSeparator store.uploadRoot) s.file) ↔
        ∀ dir, s.tree.resolve .stops 40 [] (withSeparator store.uploadRoot) = some dir →
          ¬Missed 40 linkedStore store.uploadRoot ['x'] dir ∧ ¬FalseAlarm 40 linkedStore store.uploadRoot ['x'] dir)) ∧
    ∃ s, streamDocument worker "c" [] [47, 101] [102] = some s ∧
      ((s.signal.isSome = true ↔ ¬Inside worker [47, 101] s.file) ↔ ¬StreamFalseAlarm worker [47, 101] [102] s.file) :=
  ⟨⟨_, rfl, (escape_counters_iff 40 linkedStore store worker).1 ['x'] [65] _ rfl⟩,
    ⟨_, rfl, (escape_counters_iff 40 linkedStore store worker).2.2.1 "c" [] [47, 101] [102] _ rfl (by decide)⟩⟩

/-- An upload through the link, a document from the linked folder, and a fragment behind a missing directory. -/
theorem escapes_miscounted :
    (∃ s, Corp.DocumentStore.saveUploadAsync 40 linkedStore store ['l', '/', 'x'] [65] = some s ∧
      ¬(s.signal.isSome = true ↔ ¬s.tree.Inside 40 [] (withSeparator store.uploadRoot) s.file)) ∧
    (∃ s, streamDocument worker "c" [] [47, 100] [102] = some s ∧ s.output ≠ [] ∧
      ¬(s.signal.isSome = true ↔ ¬Inside worker [47, 100] s.file)) ∧
    ∃ s, includeFrom worker id "c" [] [47, 101] [120, 47, 46, 46, 47, 46, 46, 47, 112] = some s ∧
      ¬(s.signal.isSome = true ↔ ¬Inside worker [47, 101] s.file) := by
  refine ⟨⟨_, rfl, fun h => ?_⟩, ⟨_, rfl, by decide, fun h => ?_⟩, ⟨_, rfl, fun h => ?_⟩⟩
  · refine absurd (h.mpr ?_) (by decide)
    rintro ⟨dir, hdir, hin, -⟩
    obtain rfl : dir = [['s']] := Option.some.inj (hdir.symm.trans rfl)
    exact absurd hin (by decide)
  · refine h.mp (by decide) ⟨[[101]], rfl, by decide, by decide⟩
  · refine absurd (h.mpr ?_) (by decide)
    rintro ⟨dir, hdir, hin, -⟩
    obtain rfl : dir = [[101]] := Option.some.inj (hdir.symm.trans rfl)
    exact absurd hin (by decide)

end PtaasBench.Legacy.Folders
