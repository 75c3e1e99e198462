import PtaasBench.Benchctl.Events
import PtaasBench.Py.JsonText

/-!
# PtaasBench.Benchctl.Load — reading an events export (`events.py`, `load_events`)

The file may hold one JSON document or one event a line; which of the two is decided by trying.
-/

namespace PtaasBench.Benchctl

open Py List

/-! ## Text files -/

/-- What `str.splitlines` takes for the end of a line. -/
def isLineBreak (c : Char) : Bool :=
  c.toNat ∈ [10, 11, 12, 13, 28, 29, 30, 0x85, 0x2028, 0x2029]

/-- `str.splitlines`, the line so far first. -/
def splitlinesFrom (line : List Char) : List Char → List (List Char)
  | [] => if line = [] then [] else [line]
  | '\r' :: '\n' :: cs => line :: splitlinesFrom [] cs
  | c :: cs => if isLineBreak c then line :: splitlinesFrom [] cs else splitlinesFrom (line ++ [c]) cs

/-- `str.splitlines` -/
def splitlines (s : String) : List String := (splitlinesFrom [] s.toList).map String.ofList

/-- What reading in text mode makes of the ends of lines. -/
def universalNewlines : List Char → List Char
  | '\r' :: '\n' :: cs => '\n' :: universalNewlines cs
  | '\r' :: cs => '\n' :: universalNewlines cs
  | c :: cs => c :: universalNewlines cs
  | [] => []

/-- `Path.read_text` -/
def readText (file : String) : String := String.ofList (universalNewlines file.toList)

/-! ## The loader -/

/-- `[json.loads(line) for line in text.splitlines() if line.strip()]` -/
def loadLines (text : String) : Option (List Json) :=
  ((splitlines text).filter fun line => strip line ≠ "").mapM loads

/-- The document of a text: as a whole, or line by line with an envelope on the first line. -/
def readDocument (text : String) : Option Json :=
  match loads text with
  | some data => some data
  | none =>
    match loadLines text with
    | none => none
    | some [] => none
    | some (first :: rest) =>
      match first with
      | .obj fs => if Obj.contains fs "events" then some first else some (.arr (first :: rest))
      | _ => some (.arr (first :: rest))

/-- Iterating over a value: `none` where Python raises. -/
def elementsOf : Json → Option (List Json)
  | .arr xs => some xs
  | .obj fs => some (fs.map fun f => .str f.1)
  | .str s => some (s.toList.map fun c => .str (String.ofList [c]))
  | _ => none

/-- The metadata of an envelope. -/
def envelopeMeta (data : Obj) : Obj :=
  let run := ((data.get "run").asObj?).getD []
  ["run_id", "tool", "tool_version", "profile", "targets"].foldl
    (fun info key => if data.contains key ∧ !Obj.contains info key then info.set key (data.get key)
      else info) run

/-- `load_events`; `none` where it raises. -/
def loadEvents [Runtime] (file : String) : Option (EventStream × Obj) :=
  match readDocument (readText file) with
  | some (.arr items) => some (eventsFromIterable items, [])
  | some (.obj data) =>
    (elementsOf ((Obj.get data "events").orElse (.arr []))).map fun items =>
      (eventsFromIterable items, envelopeMeta data)
  | _ => none

/-! ## Files of one value a line -/

/-- The values of a list, one a line. -/
def jsonLines (xs : List Json) : List Char := xs.flatMap fun x => encode x ++ ['\n']

theorem jsonLines_cons (x : Json) (xs : List Json) :
    jsonLines (x :: xs) = encode x ++ '\n' :: jsonLines xs := by
  rw [jsonLines, flatMap_cons, append_assoc]
  rfl

theorem isLineBreak_of_printable {c : Char} (h : 32 ≤ c.toNat ∧ c.toNat ≤ 126) :
    isLineBreak c = false := by
  unfold isLineBreak
  rw [decide_eq_false_iff_not]
  simp only [mem_cons, not_mem_nil, or_false]
  omega

theorem ne_of_isLineBreak_false {c b : Char} (hb : isLineBreak b = true)
    (hc : isLineBreak c = false) : c ≠ b := by
  rintro rfl
  rw [hb] at hc
  exact absurd hc (by decide)

theorem splitlinesFrom_line {cs : List Char} (h : Printable cs) (rest line : List Char) :
    splitlinesFrom line (cs ++ '\n' :: rest) = (line ++ cs) :: splitlinesFrom [] rest := by
  induction cs generalizing line with
  | nil =>
    rw [nil_append, append_nil, splitlinesFrom, if_pos (by decide)]
    exact fun _ h => absurd h (by decide)
  | cons c cs ih =>
    have hc := isLineBreak_of_printable (h c mem_cons_self)
    have htail := ih (fun a ha => h a (mem_cons_of_mem c ha)) (line ++ [c])
    rw [cons_append, splitlinesFrom, if_neg (by simp [hc]), htail, append_assoc]
    · rfl
    · exact fun _ hr => absurd hr (ne_of_isLineBreak_false (by decide) hc)

theorem splitlinesFrom_jsonLines (xs : List Json) :
    splitlinesFrom [] (jsonLines xs) = xs.map encode := by
  induction xs with
  | nil => rfl
  | cons x xs ih =>
    rw [jsonLines_cons, splitlinesFrom_line (printable_encode x), ih]
    rfl

theorem universalNewlines_append {cs : List Char} (h : ∀ c ∈ cs, c ≠ '\r') (rest : List Char) :
    universalNewlines (cs ++ rest) = cs ++ universalNewlines rest := by
  induction cs with
  | nil => rfl
  | cons c cs ih =>
    have hc : c ≠ '\r' := h c mem_cons_self
    rw [cons_append, universalNewlines, ih fun a ha => h a (mem_cons_of_mem c ha)]
    · rfl
    · exact fun _ he _ => hc he
    · exact hc

theorem universalNewlines_jsonLines (xs : List Json) :
    universalNewlines (jsonLines xs) = jsonLines xs := by
  have h : ∀ c ∈ jsonLines xs, c ≠ '\r' := by
    intro c hc
    obtain ⟨x, _, hc⟩ := mem_flatMap.mp hc
    rcases mem_append.mp hc with hc | hc
    · exact ne_of_isLineBreak_false (by decide) (isLineBreak_of_printable (printable_encode x c hc))
    · rw [mem_singleton.mp hc]
      decide
  have := universalNewlines_append h []
  rwa [append_nil, universalNewlines, append_nil] at this

/-- The text of a value is not blank. -/
theorem strip_encode_ne (x : Json) : strip (String.ofList (encode x)) ≠ "" := by
  obtain ⟨c, t, h, hc⟩ := encode_head x []
  rw [append_nil] at h
  have hprint := printable_encode x c (h ▸ mem_cons_self)
  have hspace : isSpace c = false := by
    have hblank : c.toNat ≠ 32 := by
      intro h32
      have hjson := hc.1
      unfold isJsonSpace at hjson
      rw [Char.toNat_inj.mp (show c.toNat = ' '.toNat from h32)] at hjson
      exact absurd hjson (by decide)
    unfold isSpace
    rw [decide_eq_false_iff_not]
    simp only [mem_cons, not_mem_nil, or_false]
    omega
  refine ofList_ne_empty ?_
  rw [String.toList_ofList, h, dropWhile_cons_of_neg (by simp [hspace]), Ne,
    rdropWhile_eq_nil_iff]
  intro hall
  have := hall c mem_cons_self
  rw [hspace] at this
  exact absurd this (by decide)

theorem loads_encode_nil {x : Json} (hx : x.Distinct) :
    loads (String.ofList (encode x)) = some x := by
  have hblank : skipWs [] = [] := rfl
  have := loads_encode hx (r := []) fun c hc => absurd hc (by simp)
  rwa [append_nil, if_pos hblank] at this

theorem mapM_loads {xs : List Json} (hxs : ∀ x ∈ xs, x.Distinct) :
    (xs.map fun x => String.ofList (encode x)).mapM loads = some xs := by
  induction xs with
  | nil => rfl
  | cons x xs ih =>
    have htail := ih fun y hy => hxs y (mem_cons_of_mem x hy)
    rw [map_cons, mapM_cons, loads_encode_nil (hxs x mem_cons_self), htail]
    rfl

theorem loadLines_jsonLines {xs : List Json} (hxs : ∀ x ∈ xs, x.Distinct) :
    loadLines (String.ofList (jsonLines xs)) = some xs := by
  have hlines : splitlines (String.ofList (jsonLines xs)) =
      xs.map fun x => String.ofList (encode x) := by
    rw [splitlines, String.toList_ofList, splitlinesFrom_jsonLines, map_map]
    rfl
  have hfilter : (xs.map fun x => String.ofList (encode x)).filter (fun line => strip line ≠ "") =
      xs.map fun x => String.ofList (encode x) := by
    rw [filter_eq_self]
    intro line hline
    obtain ⟨x, _, rfl⟩ := mem_map.mp hline
    exact decide_eq_true (strip_encode_ne x)
  rw [loadLines, hlines, hfilter, mapM_loads hxs]

/-- What the loader takes a file of JSON lines for. -/
def documentOf : List Json → Option Json
  | [] => none
  | [x] => some x
  | .obj fs :: y :: ys =>
    if Obj.contains fs "events" then some (.obj fs) else some (.arr (.obj fs :: y :: ys))
  | xs => some (.arr xs)

theorem readDocument_jsonLines {xs : List Json} (hxs : ∀ x ∈ xs, x.Distinct) :
    readDocument (String.ofList (jsonLines xs)) = documentOf xs := by
  have hlines := loadLines_jsonLines hxs
  cases xs with
  | nil => rfl
  | cons x xs =>
    have hend : NumberEnd ('\n' :: jsonLines xs) := numberEnd_cons _ (by decide)
    have hwhole := loads_encode (hxs x mem_cons_self) hend
    rw [← jsonLines_cons] at hwhole
    cases xs with
    | nil =>
      have hblank : skipWs ('\n' :: jsonLines []) = [] := rfl
      rw [if_pos hblank] at hwhole
      rw [readDocument, hwhole]
      rfl
    | cons y ys =>
      -- a second value after the first is an error, so the lines are read one by one
      have hrest : skipWs ('\n' :: jsonLines (y :: ys)) ≠ [] := by
        obtain ⟨c, t, h, hc⟩ := encode_head y ('\n' :: jsonLines ys)
        have hskip : skipWs ('\n' :: jsonLines (y :: ys)) = skipWs (jsonLines (y :: ys)) := rfl
        rw [hskip, jsonLines_cons, h, skipWs_cons hc.1]
        exact cons_ne_nil c t
      rw [if_neg hrest] at hwhole
      rw [readDocument, hwhole, hlines]
      cases x <;> rfl

/-! ## Files of one event a line -/

/-- A dictionary is not an element of its own field. -/
theorem obj_notMem_elementsOf {o : Obj} {k : String} {items : List Json}
    (h : elementsOf ((o.get k).orElse (.arr [])) = some items) : .obj o ∉ items := by
  intro hmem
  unfold Json.orElse at h
  split_ifs at h with htruthy
  · cases hv : o.get k with
    | arr xs =>
      rw [hv] at h
      have hitems : xs = items := Option.some.inj h
      rw [← hitems] at hmem
      have hfield : (k, .arr xs) ∈ o := by
        have hget : o.get? k = some (.arr xs) := by
          cases ho : o.get? k with
          | none =>
            rw [Obj.get, ho] at hv
            exact absurd hv (by simp)
          | some x =>
            rw [Obj.get, ho] at hv
            exact congrArg some hv
        exact Obj.mem_of_get? hget
      have h1 : sizeOf (Json.obj o) < sizeOf xs := sizeOf_lt_of_mem hmem
      have h2 := sizeOf_lt_of_mem hfield
      simp only [Json.obj.sizeOf_spec, Prod.mk.sizeOf_spec, Json.arr.sizeOf_spec] at h1 h2
      omega
    | obj fs =>
      rw [hv] at h
      rw [← Option.some.inj h] at hmem
      obtain ⟨f, _, hf⟩ := mem_map.mp hmem
      exact absurd hf (by simp)
    | str t =>
      rw [hv] at h
      rw [← Option.some.inj h] at hmem
      obtain ⟨c, _, hc⟩ := mem_map.mp hmem
      exact absurd hc (by simp)
    | _ =>
      rw [hv] at h
      exact absurd h (by simp [elementsOf])
  · rw [← Option.some.inj h] at hmem
    exact absurd hmem not_mem_nil

section Loaded

variable [Runtime]

/-- A document that is one event never yields that event. -/
theorem elementsOf_ne_events (o : Obj) (os : List Obj) :
    ((elementsOf ((o.get "events").orElse (.arr []))).map fun items =>
      (eventsFromIterable items, envelopeMeta o)).map Prod.fst ≠
      some ((o :: os).map eventFromDict) := by
  intro h
  cases hitems : elementsOf ((o.get "events").orElse (.arr [])) with
  | none =>
    rw [hitems] at h
    exact absurd h (by simp)
  | some items =>
    rw [hitems] at h
    have hevents : eventsFromIterable items = (o :: os).map eventFromDict := Option.some.inj h
    have hraw := congrArg (List.map Event.raw) hevents
    have hid : Event.raw ∘ eventFromDict = id := funext raw_eventFromDict
    rw [eventsFromIterable, map_map, map_map, hid, map_id, map_id] at hraw
    have hmem : o ∈ items.filterMap Json.asObj? := hraw ▸ mem_cons_self
    obtain ⟨x, hx, hxo⟩ := mem_filterMap.mp hmem
    have hobj : x = .obj o := by
      cases x <;> simp_all [Json.asObj?]
    exact obj_notMem_elementsOf hitems (hobj ▸ hx)

theorem eventsFromIterable_obj (os : List Obj) :
    eventsFromIterable (os.map Json.obj) = os.map eventFromDict := by
  rw [eventsFromIterable, filterMap_map]
  congr 1
  exact filterMap_some

/-- A file of one event is taken for an envelope. -/
theorem loadEvents_one {o : Obj} (ho : o.Distinct) (henvelope : o.contains "events" = false) :
    (loadEvents (String.ofList (jsonLines [.obj o]))).map Prod.fst = some [] := by
  have hget : o.get "events" = .null := by
    rw [Obj.contains, Option.isSome_eq_false_iff, Option.isNone_iff_eq_none] at henvelope
    rw [Obj.get, henvelope]
    rfl
  have hdistinct : ∀ x ∈ [Json.obj o], x.Distinct := by
    intro x hx
    rw [mem_singleton.mp hx]
    exact ho
  rw [loadEvents, readText, String.toList_ofList, universalNewlines_jsonLines,
    readDocument_jsonLines hdistinct]
  show ((elementsOf ((o.get "events").orElse (.arr []))).map _).map Prod.fst = some []
  rw [hget]
  rfl

/-- The loader reads a file of one event a line back, unless the file has fewer than two lines or
its first line looks like an envelope. -/
theorem loadEvents_jsonLines_iff {os : List Obj} (hos : ∀ o ∈ os, o.Distinct) :
    (loadEvents (String.ofList (jsonLines (os.map Json.obj)))).map Prod.fst =
        some (os.map eventFromDict) ↔
      2 ≤ os.length ∧ ∀ o ∈ os.head?, o.contains "events" = false := by
  have hdistinct : ∀ x ∈ os.map Json.obj, x.Distinct := by
    intro x hx
    obtain ⟨o, ho, rfl⟩ := mem_map.mp hx
    exact hos o ho
  rw [loadEvents, readText, String.toList_ofList, universalNewlines_jsonLines,
    readDocument_jsonLines hdistinct]
  match os with
  | [] => exact ⟨fun h => absurd h (by simp [documentOf]), fun h => absurd h.1 (by simp)⟩
  | [o] =>
    exact ⟨fun h => absurd h (elementsOf_ne_events o []), fun h => absurd h.1 (by simp)⟩
  | o :: o' :: os =>
    have hdoc : documentOf ((o :: o' :: os).map Json.obj) =
        if o.contains "events" then some (.obj o)
        else some (.arr ((o :: o' :: os).map Json.obj)) := rfl
    rw [hdoc]
    cases henvelope : o.contains "events" with
    | true =>
      refine ⟨fun h => absurd h (elementsOf_ne_events o (o' :: os)), fun h => ?_⟩
      exact absurd (h.2 o rfl) (by simp [henvelope])
    | false =>
      refine ⟨fun _ => ⟨by simp, fun a ha => ?_⟩, fun _ => ?_⟩
      · rw [← Option.some.inj ha]
        exact henvelope
      · exact congrArg some (eventsFromIterable_obj (o :: o' :: os))

end Loaded

end PtaasBench.Benchctl
