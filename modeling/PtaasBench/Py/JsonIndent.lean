import PtaasBench.Py.JsonLayout

/-!
# PtaasBench.Py.JsonIndent — `json.dumps(x, indent=2, sort_keys=True)`

The indented text of a value is one of its layouts, so that the reader gets the value back.
-/

namespace PtaasBench.Py

/-- `"\n" + indent * level` -/
def newline (level : ℕ) : List Char := '\n' :: List.replicate (2 * level) ' '

mutual

def encodeIndented : ℕ → Json → List Char
  | _, .arr [] => ['[', ']']
  | level, .arr (x :: xs) => '[' :: (newline (level + 1) ++ (encodeItemsIndented level (x :: xs) ++ [']']))
  | _, .obj [] => ['{', '}']
  | level, .obj (f :: fs) => '{' :: (newline (level + 1) ++ (encodeFieldsIndented level (f :: fs) ++ ['}']))
  | _, x => encode x

def encodeItemsIndented : ℕ → List Json → List Char
  | _, [] => []
  | level, [x] => encodeIndented (level + 1) x ++ newline level
  | level, x :: y :: xs =>
    encodeIndented (level + 1) x ++ ',' :: (newline (level + 1) ++ encodeItemsIndented level (y :: xs))

def encodeFieldsIndented : ℕ → List (String × Json) → List Char
  | _, [] => []
  | level, [(k, v)] => encodeString k ++ ':' :: ' ' :: (encodeIndented (level + 1) v ++ newline level)
  | level, (k, v) :: f :: fs =>
    encodeString k ++ ':' :: ' ' :: (encodeIndented (level + 1) v ++
      ',' :: (newline (level + 1) ++ encodeFieldsIndented level (f :: fs)))

end

/-- `json.dumps(x, indent=2, sort_keys=True)` -/
def dumpsIndented (x : Json) : List Char := encodeIndented 0 (sortKeys x)

/-! ## The layout -/

theorem newline_spaces (level : ℕ) : ∀ c ∈ newline level, isJsonSpace c = true := by
  intro c hc
  rcases List.mem_cons.mp hc with rfl | hc
  · rfl
  · rw [List.eq_of_mem_replicate hc]
    rfl

theorem nil_spaces : ∀ c ∈ ([] : List Char), isJsonSpace c = true := List.forall_mem_nil _

theorem blank_spaces : ∀ c ∈ [' '], isJsonSpace c = true := List.forall_mem_singleton.mpr rfl

def Gap.none : Gap := ⟨[], nil_spaces⟩

def Gap.blank : Gap := ⟨[' '], blank_spaces⟩

def Gap.line (level : ℕ) : Gap := ⟨newline level, newline_spaces level⟩

mutual

/-- The layout of the indented text; not a number and the infinities have none. -/
def laidOut : ℕ → Json → Layout String
  | _, .null => .scalar .null
  | _, .bool b => .scalar (.bool b)
  | _, .int n => .scalar (.int n)
  | _, .float f => .scalar (.float f)
  | _, .nan => .scalar .null
  | _, .infinity _ => .scalar .null
  | _, .str s => .str s
  | _, .arr [] => .noItems Gap.none
  | level, .arr (x :: xs) => .arr (Gap.line (level + 1)) (laidOutItems level (x :: xs))
  | _, .obj [] => .noFields Gap.none
  | level, .obj (f :: fs) => .obj (Gap.line (level + 1)) (laidOutFields level (f :: fs))

def laidOutItems : ℕ → List Json → LayoutItems String
  | _, [] => .last (.scalar .null) Gap.none
  | level, [x] => .last (laidOut (level + 1) x) (Gap.line level)
  | level, x :: y :: xs =>
    .more (laidOut (level + 1) x) Gap.none (Gap.line (level + 1)) (laidOutItems level (y :: xs))

def laidOutFields : ℕ → List (String × Json) → LayoutFields String
  | _, [] => .last "" Gap.none Gap.none (.scalar .null) Gap.none
  | level, [(k, v)] => .last k Gap.none Gap.blank (laidOut (level + 1) v) (Gap.line level)
  | level, (k, v) :: f :: fs =>
    .more k Gap.none Gap.blank (laidOut (level + 1) v) Gap.none (Gap.line (level + 1)) (laidOutFields level (f :: fs))

end

mutual

/-- A value whose numbers JSON knows. -/
def Json.Finite : Json → Prop
  | .nan | .infinity _ => False
  | .arr xs => FiniteItems xs
  | .obj fs => FiniteFields fs
  | _ => True

def FiniteItems : List Json → Prop
  | [] => True
  | x :: xs => x.Finite ∧ FiniteItems xs

def FiniteFields : List (String × Json) → Prop
  | [] => True
  | (_, v) :: fs => v.Finite ∧ FiniteFields fs

end

mutual

theorem text_laidOut : ∀ (level : ℕ) (x : Json), x.Finite →
    (laidOut level x).text encodeString = encodeIndented level x
  | _, .null, _ => rfl
  | _, .bool _, _ => rfl
  | _, .int _, _ => rfl
  | _, .float _, _ => rfl
  | _, .str _, _ => rfl
  | _, .arr [], _ => rfl
  | level, .arr (x :: xs), h => by
    rw [laidOut, encodeIndented, Layout.text, text_laidOutItems level (x :: xs) (List.cons_ne_nil x xs) h]
    rfl
  | _, .obj [], _ => rfl
  | level, .obj (f :: fs), h => by
    rw [laidOut, encodeIndented, Layout.text, text_laidOutFields level (f :: fs) (List.cons_ne_nil f fs) h]
    rfl

theorem text_laidOutItems : ∀ (level : ℕ) (xs : List Json), xs ≠ [] → FiniteItems xs →
    (laidOutItems level xs).text encodeString = encodeItemsIndented level xs
  | _, [], hne, _ => absurd rfl hne
  | level, [x], _, h => by
    rw [laidOutItems, encodeItemsIndented, LayoutItems.text, text_laidOut (level + 1) x h.1]
    rfl
  | level, x :: y :: xs, _, h => by
    rw [laidOutItems, encodeItemsIndented, LayoutItems.text, text_laidOut (level + 1) x h.1,
      text_laidOutItems level (y :: xs) (List.cons_ne_nil y xs) h.2]
    rfl

theorem text_laidOutFields : ∀ (level : ℕ) (fs : List (String × Json)), fs ≠ [] → FiniteFields fs →
    (laidOutFields level fs).text encodeString = encodeFieldsIndented level fs
  | _, [], hne, _ => absurd rfl hne
  | level, [(k, v)], _, h => by
    rw [laidOutFields, encodeFieldsIndented, LayoutFields.text, text_laidOut (level + 1) v h.1]
    rfl
  | level, (k, v) :: f :: fs, _, h => by
    rw [laidOutFields, encodeFieldsIndented, LayoutFields.text, text_laidOut (level + 1) v h.1,
      text_laidOutFields level (f :: fs) (List.cons_ne_nil f fs) h.2]
    rfl

end

mutual

theorem value_laidOut : ∀ (level : ℕ) (x : Json), x.Finite → x.Distinct → (laidOut level x).value id = x
  | _, .null, _, _ => rfl
  | _, .bool _, _, _ => rfl
  | _, .int _, _, _ => rfl
  | _, .float _, _, _ => rfl
  | _, .str _, _, _ => rfl
  | _, .arr [], _, _ => rfl
  | level, .arr (x :: xs), h, hd => by
    rw [laidOut, Layout.value, values_laidOutItems level (x :: xs) (List.cons_ne_nil x xs) h hd]
  | _, .obj [], _, _ => rfl
  | level, .obj (f :: fs), h, hd => by
    rw [laidOut, Layout.value, values_laidOutFields level (f :: fs) (List.cons_ne_nil f fs) h hd.2,
      dictOf_eq_self hd.1]

theorem values_laidOutItems : ∀ (level : ℕ) (xs : List Json), xs ≠ [] → FiniteItems xs → DistinctItems xs →
    (laidOutItems level xs).values id = xs
  | _, [], hne, _, _ => absurd rfl hne
  | level, [x], _, h, hd => by
    rw [laidOutItems, LayoutItems.values, value_laidOut (level + 1) x h.1 hd.1]
  | level, x :: y :: xs, _, h, hd => by
    rw [laidOutItems, LayoutItems.values, value_laidOut (level + 1) x h.1 hd.1,
      values_laidOutItems level (y :: xs) (List.cons_ne_nil y xs) h.2 hd.2]

theorem values_laidOutFields : ∀ (level : ℕ) (fs : List (String × Json)), fs ≠ [] → FiniteFields fs →
    DistinctFields fs → (laidOutFields level fs).values id = fs
  | _, [], hne, _, _ => absurd rfl hne
  | level, [(k, v)], _, h, hd => by
    rw [laidOutFields, LayoutFields.values, value_laidOut (level + 1) v h.1 hd.1]
    rfl
  | level, (k, v) :: f :: fs, _, h, hd => by
    rw [laidOutFields, LayoutFields.values, value_laidOut (level + 1) v h.1 hd.1,
      values_laidOutFields level (f :: fs) (List.cons_ne_nil f fs) h.2 hd.2]
    rfl

end

/-! ## Reading it back -/

theorem finiteItems_iff {xs : List Json} : FiniteItems xs ↔ ∀ x ∈ xs, x.Finite := by
  induction xs with
  | nil => exact iff_of_true trivial (List.forall_mem_nil _)
  | cons x xs ih => rw [FiniteItems, ih, List.forall_mem_cons]

theorem finiteFields_iff {fs : List (String × Json)} : FiniteFields fs ↔ ∀ f ∈ fs, f.2.Finite := by
  induction fs with
  | nil => exact iff_of_true trivial (List.forall_mem_nil _)
  | cons f fs ih => rw [FiniteFields, ih, List.forall_mem_cons]

mutual

theorem finite_sortKeys : ∀ x : Json, x.Finite → (sortKeys x).Finite
  | .null, _ => trivial
  | .bool _, _ => trivial
  | .int _, _ => trivial
  | .float _, _ => trivial
  | .str _, _ => trivial
  | .arr xs, h => finite_sortItems xs h
  | .obj fs, h => by
    have hperm := List.perm_insertionSort (fun a b : String × Json => a.1 ≤ b.1) (sortFields fs)
    refine finiteFields_iff.mpr fun f hf => ?_
    exact finiteFields_iff.mp (finite_sortFields fs h) f (hperm.mem_iff.mp hf)

theorem finite_sortItems : ∀ xs : List Json, FiniteItems xs → FiniteItems (sortItems xs)
  | [], _ => trivial
  | x :: xs, h => ⟨finite_sortKeys x h.1, finite_sortItems xs h.2⟩

theorem finite_sortFields : ∀ fs : List (String × Json), FiniteFields fs → FiniteFields (sortFields fs)
  | [], _ => trivial
  | (_, v) :: fs, h => ⟨finite_sortKeys v h.1, finite_sortFields fs h.2⟩

end

/-- **Reading undoes indented writing**, with the newline that ends the file. -/
theorem loads_dumpsIndented {x : Json} (hx : x.Finite) (hd : x.Distinct) :
    loads (String.ofList (dumpsIndented x ++ ['\n'])) = some (sortKeys x) := by
  have hfinite := finite_sortKeys x hx
  have hwrite : ∀ s : String, encodeString s = encodeString (id s) := fun _ => rfl
  have htext : (laidOut 0 (sortKeys x)).text encodeString = dumpsIndented x := text_laidOut 0 _ hfinite
  have hend : NumberEnd ['\n'] := fun c hc => Option.some.inj hc ▸ by decide
  have hlength : ((laidOut 0 (sortKeys x)).text encodeString).length ≤ (dumpsIndented x ++ ['\n']).length + 1 := by
    rw [htext, List.length_append]
    omega
  have hscan := scanValue_text hwrite (laidOut 0 (sortKeys x)) _ ['\n'] hlength hend
  obtain ⟨c, t, h, hc⟩ := (laidOut 0 (sortKeys x)).text_head hwrite ['\n']
  rw [htext] at hscan h
  rw [value_laidOut 0 _ hfinite (distinct_sortKeys x hd)] at hscan
  rw [loads, String.toList_ofList]
  rw [h] at hscan ⊢
  rw [skipWs_cons hc.1, hscan, Option.bind_some]
  rfl

end PtaasBench.Py
