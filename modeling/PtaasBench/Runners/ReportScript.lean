import PtaasBench.Py.JsonLayout

/-!
# PtaasBench.Runners.ReportScript — the report of skipfish (`runners/_lib/normalise.py`)

The report is a set of JavaScript assignments.  `parse_js_assignments` searches the text for their heads and makes
JSON of what is behind each.  A script is what JavaScript reads in the same text.
-/

namespace PtaasBench.Runners.ReportScript

open Py List

/-! ## The parser -/

def isNameStart (c : Char) : Bool := c.isAlpha || c = '_'

def isNameChar (c : Char) : Bool := c.isAlphanum || c = '_'

/-- `\s+` -/
def spaces (cs : List Char) : Option (List Char) :=
  match cs with
  | c :: _ => if isSpace c then some (cs.dropWhile isSpace) else none
  | [] => none

/-- `([A-Za-z_][A-Za-z0-9_]*)` -/
def nameAt (cs : List Char) : Option (List Char × List Char) :=
  match cs with
  | c :: _ => if isNameStart c then some (cs.takeWhile isNameChar, cs.dropWhile isNameChar) else none
  | [] => none

/-- `\s*=\s*` -/
def equalsAt (cs : List Char) : Option (List Char) :=
  match cs.dropWhile isSpace with
  | '=' :: cs => some (cs.dropWhile isSpace)
  | _ => none

/-- `_JS_ASSIGN_RE` at one place: the name, and the text behind the match. -/
def assignAt : List Char → Option (String × List Char)
  | 'v' :: 'a' :: 'r' :: cs =>
    (spaces cs).bind fun cs => (nameAt cs).bind fun found =>
      (equalsAt found.2).map fun cs => (String.ofList found.1, cs)
  | _ => none

/-- `_read_js_string` behind the opening quote: the characters, and the text behind the closing one. -/
def readJsString (quote : Char) : List Char → List Char × List Char
  | [] => ([], [])
  | [ch] => if ch = quote then ([], []) else ([ch], [])
  | ch :: next :: cs =>
    if ch = '\\' then
      let rest := readJsString quote cs
      ((if next ∈ ['\'', '"', '\\'] then [next] else ['\\', next]) ++ rest.1, rest.2)
    else if ch = quote then ([], next :: cs)
    else
      let rest := readJsString quote (next :: cs)
      (ch :: rest.1, rest.2)

/-- The loop of `_read_js_literal` at a depth: the JSON text, and what is behind the literal. -/
def readJsLoop : ℕ → ℕ → List Char → Option (List Char × List Char)
  | 0, _, cs => some ([], cs)
  | _ + 1, _, [] => some ([], [])
  | fuel + 1, depth, ch :: cs =>
    if ch = '\'' ∨ ch = '"' then
      let s := readJsString ch cs
      (readJsLoop fuel depth s.2).map fun rest => (encodeString (String.ofList s.1) ++ rest.1, rest.2)
    else if ch = '[' ∨ ch = '{' then
      (readJsLoop fuel (depth + 1) cs).map fun rest => (ch :: rest.1, rest.2)
    else if ch = ']' ∨ ch = '}' then
      if depth = 0 then none
      else if depth - 1 = 0 then some ([ch], cs)
      else (readJsLoop fuel (depth - 1) cs).map fun rest => (ch :: rest.1, rest.2)
    else if ch = ';' ∧ depth = 0 then some ([], ch :: cs)
    else (readJsLoop fuel depth cs).map fun rest => (ch :: rest.1, rest.2)

/-- A piece of a string literal. -/
inductive Token where
  | raw (c : Char)
  | escape (c : Char)
  | code (letter : Char) (digits : List Char)  -- `\x41`, `\u0041`

/-- The number that hexadecimal digits make. -/
def hexNumber (digits : List Char) : ℕ := digits.foldl (fun n c => 16 * n + (hexOf? c).getD 0) 0

namespace Token

/-- What may stand in a literal with these quotes; octal escapes are left out. -/
def Fits (quote : Char) : Token → Prop
  | raw c => c ≠ quote ∧ c ≠ '\\' ∧ c ≠ '\n' ∧ c ≠ '\r'
  | escape c => c ≠ 'x' ∧ c ≠ 'u' ∧ c.isDigit = false
  | code letter digits =>
    (letter = 'x' ∧ digits.length = 2 ∨ letter = 'u' ∧ digits.length = 4) ∧
      (∀ d ∈ digits, (hexOf? d).isSome) ∧ (hexNumber digits).isValidChar

def source : Token → List Char
  | raw c => [c]
  | escape c => ['\\', c]
  | code letter digits => '\\' :: letter :: digits

/-- The characters it stands for. -/
def value : Token → List Char
  | raw c => [c]
  | escape c =>
    if c = 'n' then ['\n'] else if c = 't' then ['\t'] else if c = 'r' then ['\r']
    else if c = 'b' then [Char.ofNat 8] else if c = 'v' then [Char.ofNat 11] else if c = 'f' then [Char.ofNat 12]
    -- a line that goes on
    else if c.toNat ∈ [10, 13, 0x2028, 0x2029] then []
    else [c]
  | code _ digits => [Char.ofNat (hexNumber digits)]

/-- What the parser makes of it. -/
def read : Token → List Char
  | raw c => [c]
  | escape c => if c ∈ ['\'', '"', '\\'] then [c] else ['\\', c]
  | code letter digits => '\\' :: letter :: digits

/-- An escape that the parser knows, or none. -/
def Plain : Token → Prop
  | raw _ => True
  | escape c => c ∈ ['\'', '"', '\\']
  | code _ _ => False

end Token

/-- A string literal. -/
structure Quoted where
  quote : Char
  tokens : List Token
  quoted : quote = '\'' ∨ quote = '"'
  fits : ∀ t ∈ tokens, t.Fits quote

namespace Quoted

def body (q : Quoted) : List Char := q.tokens.flatMap Token.source

def source (q : Quoted) : List Char := q.quote :: (q.body ++ [q.quote])

def value (q : Quoted) : String := String.ofList (q.tokens.flatMap Token.value)

def read (q : Quoted) : String := String.ofList (q.tokens.flatMap Token.read)

def Plain (q : Quoted) : Prop := ∀ t ∈ q.tokens, t.Plain

/-- No head of an assignment stands inside. -/
def Headless (q : Quoted) : Prop := ∀ cs, cs <:+ q.body → assignAt cs = none

end Quoted

/-- `var name = literal;` -/
structure Assignment where
  name : String
  literal : Layout Quoted
  behind : Gap
  named : (∃ c, name.toList.head? = some c ∧ isNameStart c = true) ∧ ∀ c ∈ name.toList, isNameChar c = true

def Assignment.text (a : Assignment) : List Char :=
  'v' :: 'a' :: 'r' :: ' ' :: (a.name.toList ++ ' ' :: '=' :: ' ' ::
    (a.literal.text Quoted.source ++ ';' :: a.behind.1))

section Strings

variable {quote : Char}

theorem readJsString_raw {c : Char} (hq : c ≠ quote) (hb : c ≠ '\\') (cs : List Char) :
    readJsString quote (c :: cs) = (c :: (readJsString quote cs).1, (readJsString quote cs).2) := by
  cases cs with
  | nil => exact if_neg hq
  | cons d cs => rw [readJsString, if_neg hb, if_neg hq]

theorem readJsString_raws {ds : List Char} (h : ∀ d ∈ ds, d ≠ quote ∧ d ≠ '\\') (cs : List Char) :
    readJsString quote (ds ++ cs) = (ds ++ (readJsString quote cs).1, (readJsString quote cs).2) := by
  induction ds with
  | nil => rfl
  | cons d ds ih =>
    obtain ⟨hd, hds⟩ := forall_mem_cons.mp h
    rw [cons_append, readJsString_raw hd.1 hd.2, ih hds]
    rfl

theorem readJsString_escape (c : Char) (cs : List Char) :
    readJsString quote ('\\' :: c :: cs) =
      ((if c ∈ ['\'', '"', '\\'] then [c] else ['\\', c]) ++ (readJsString quote cs).1, (readJsString quote cs).2) := by
  rw [readJsString, if_pos rfl]

theorem readJsString_close (hq : quote ≠ '\\') (cs : List Char) : readJsString quote (quote :: cs) = ([], cs) := by
  cases cs with
  | nil => exact if_pos rfl
  | cons c cs => rw [readJsString, if_neg hq, if_pos rfl]

theorem readJsString_tokens (hq : quote = '\'' ∨ quote = '"') {ts : List Token} (h : ∀ t ∈ ts, t.Fits quote)
    (cs : List Char) :
    readJsString quote (ts.flatMap Token.source ++ quote :: cs) = (ts.flatMap Token.read, cs) := by
  induction ts with
  | nil => exact readJsString_close (by rcases hq with rfl | rfl <;> decide) cs
  | cons t ts ih =>
    obtain ⟨ht, hts⟩ := forall_mem_cons.mp h
    rw [flatMap_cons, flatMap_cons, append_assoc]
    cases t with
    | raw c =>
      rw [Token.source, singleton_append, readJsString_raw ht.1 ht.2.1, ih hts]
      rfl
    | escape c =>
      rw [Token.source, cons_append, singleton_append, readJsString_escape, ih hts]
      rfl
    | code letter digits =>
      obtain ⟨hletter, hdigits, -⟩ := ht
      have hraw : ∀ d ∈ digits, d ≠ quote ∧ d ≠ '\\' := by
        intro d hd
        have hhex := hdigits d hd
        constructor
        · rintro rfl
          rcases hq with rfl | rfl
          · exact absurd hhex (by decide)
          · exact absurd hhex (by decide)
        · rintro rfl
          exact absurd hhex (by decide)
      have hkeep : letter ∉ ['\'', '"', '\\'] := by rcases hletter with ⟨rfl, -⟩ | ⟨rfl, -⟩ <;> decide
      rw [Token.source, cons_append, cons_append, readJsString_escape, if_neg hkeep,
        readJsString_raws hraw, ih hts]
      rfl

end Strings

/-! ## A literal -/

theorem forall_of_all {p : Char → Prop} [DecidablePred p] {cs : List Char} (h : (cs.all fun c => p c) = true) :
    ∀ c ∈ cs, p c := fun c hc => of_decide_eq_true (all_eq_true.mp h c hc)

/-- The characters of a scalar. -/
def scalarChars : List Char := "0123456789+-.eEaflnrstu".toList

theorem scalarChars_spec : ∀ c ∈ scalarChars, isSpace c = false ∧ c ≠ 'v' ∧ c ≠ ';' ∧
    c ∉ ['\'', '"', '[', '{', ']', '}'] := forall_of_all (by decide)

theorem mem_scalarChars_digits (ds : List (Fin 10)) : ∀ c ∈ ds.map digitChar, c ∈ scalarChars := by
  have hdigit : ∀ d : Fin 10, digitChar d ∈ scalarChars := by decide
  intro c hc
  obtain ⟨d, -, rfl⟩ := mem_map.mp hc
  exact hdigit d

theorem mem_scalarChars_sign (neg : Bool) : ∀ c ∈ (if neg then ['-'] else []), c ∈ scalarChars := by
  cases neg
  · exact forall_mem_nil _
  · exact forall_of_all (by decide)

theorem mem_scalarChars_exponent (x : Exponent) : ∀ c ∈ x.text, c ∈ scalarChars := by
  rw [Exponent.text, forall_mem_cons, forall_mem_append]
  refine ⟨by cases x.upper <;> decide, ?_, mem_scalarChars_digits _⟩
  rcases x.sign with _ | _ | _
  · exact forall_mem_nil _
  · exact forall_of_all (by decide)
  · exact forall_of_all (by decide)

theorem mem_scalarChars (x : Scalar) : ∀ c ∈ x.text, c ∈ scalarChars := by
  cases x with
  | null => exact forall_of_all (by decide)
  | bool b => cases b <;> exact forall_of_all (by decide)
  | int n =>
    have htext : (Scalar.int n).text =
        (if decide (n < 0) then ['-'] else []) ++ (natDigits n.natAbs).map digitChar := by
      simp [Scalar.text, Scalar.value, encode, intText]
    rw [htext]
    exact forall_mem_append.mpr ⟨mem_scalarChars_sign _, mem_scalarChars_digits _⟩
  | float f =>
    show ∀ c ∈ f.text, c ∈ scalarChars
    rw [FloatLit.text, forall_mem_append, forall_mem_append, forall_mem_append]
    refine ⟨⟨⟨mem_scalarChars_sign f.neg, mem_scalarChars_digits _⟩, ?_⟩, ?_⟩
    · split_ifs
      · exact forall_mem_nil _
      · exact forall_mem_cons.mpr ⟨by decide, mem_scalarChars_digits _⟩
    · cases f.exp with
      | none => exact forall_mem_nil _
      | some x => exact mem_scalarChars_exponent x

/-- At a depth, this text becomes that text, and the loop goes on behind it. -/
def Reads (depth : ℕ) (s out : List Char) : Prop :=
  ∀ fuel rest, (s ++ rest).length ≤ fuel → ∃ fuel', rest.length ≤ fuel' ∧
    readJsLoop fuel depth (s ++ rest) =
      (readJsLoop fuel' depth rest).map fun found => (out ++ found.1, found.2)

/-- A character that is copied. -/
def Copied (depth : ℕ) (c : Char) : Prop :=
  c ∉ ['\'', '"', '[', '{', ']', '}'] ∧ ¬ (c = ';' ∧ depth = 0)

section Loop

variable {depth : ℕ}

theorem Reads.nil : Reads depth [] [] := by
  intro fuel rest h
  refine ⟨fuel, h, ?_⟩
  rw [nil_append]
  cases readJsLoop fuel depth rest <;> rfl

theorem Reads.append {s t out out' : List Char} (hs : Reads depth s out) (ht : Reads depth t out') :
    Reads depth (s ++ t) (out ++ out') := by
  intro fuel rest h
  rw [append_assoc] at h ⊢
  obtain ⟨fuel', hfuel, hread⟩ := hs fuel (t ++ rest) h
  obtain ⟨fuel'', hfuel', hread'⟩ := ht fuel' rest hfuel
  refine ⟨fuel'', hfuel', ?_⟩
  rw [hread, hread', Option.map_map]
  simp only [Function.comp_def, append_assoc]

theorem Reads.char {c : Char} (h : Copied depth c) : Reads depth [c] [c] := by
  intro fuel rest hfuel
  obtain ⟨fuel, rfl⟩ : ∃ n, fuel = n + 1 := ⟨fuel - 1, by simp at hfuel; omega⟩
  obtain ⟨hspecial, hend⟩ := h
  simp only [mem_cons, not_mem_nil, or_false, not_or] at hspecial
  obtain ⟨h1, h2, h3, h4, h5, h6⟩ := hspecial
  refine ⟨fuel, by simp at hfuel; omega, ?_⟩
  rw [singleton_append, readJsLoop, if_neg (not_or.mpr ⟨h1, h2⟩), if_neg (not_or.mpr ⟨h3, h4⟩),
    if_neg (not_or.mpr ⟨h5, h6⟩), if_neg hend]
  rfl

theorem Reads.chars {s : List Char} (h : ∀ c ∈ s, Copied depth c) : Reads depth s s := by
  induction s with
  | nil => exact Reads.nil
  | cons c s ih =>
    obtain ⟨hc, hs⟩ := forall_mem_cons.mp h
    exact (Reads.char hc).append (ih hs)

theorem Reads.string (q : Quoted) : Reads depth q.source (encodeString q.read) := by
  intro fuel rest hfuel
  obtain ⟨fuel, rfl⟩ : ∃ n, fuel = n + 1 := ⟨fuel - 1, by simp [Quoted.source] at hfuel; omega⟩
  have hstring := readJsString_tokens q.quoted q.fits rest
  refine ⟨fuel, by simp [Quoted.source] at hfuel; omega, ?_⟩
  rw [Quoted.source, cons_append, append_assoc, singleton_append, readJsLoop, if_pos q.quoted,
    Quoted.body, hstring]
  rfl

theorem readJsLoop_open {left : Char} (h : left = '[' ∨ left = '{') (fuel : ℕ) (cs : List Char) :
    readJsLoop (fuel + 1) depth (left :: cs) =
      (readJsLoop fuel (depth + 1) cs).map fun rest => (left :: rest.1, rest.2) := by
  have hquote : ¬ (left = '\'' ∨ left = '"') := by rcases h with rfl | rfl <;> decide
  rw [readJsLoop, if_neg hquote, if_pos h]

/-- A closing bracket that is not the last. -/
theorem readJsLoop_close {right : Char} (h : right = ']' ∨ right = '}') (fuel : ℕ) (cs : List Char) :
    readJsLoop (fuel + 1) (depth + 2) (right :: cs) =
      (readJsLoop fuel (depth + 1) cs).map fun rest => (right :: rest.1, rest.2) := by
  have hquote : ¬ (right = '\'' ∨ right = '"') := by rcases h with rfl | rfl <;> decide
  have hopen : ¬ (right = '[' ∨ right = '{') := by rcases h with rfl | rfl <;> decide
  rw [readJsLoop, if_neg hquote, if_neg hopen, if_pos h, if_neg (by omega), if_neg (by omega)]
  rfl

theorem Reads.brackets {s out : List Char} {left right : Char} (h : Reads (depth + 2) s out)
    (hleft : left = '[' ∨ left = '{') (hright : right = ']' ∨ right = '}') :
    Reads (depth + 1) (left :: (s ++ [right])) (left :: (out ++ [right])) := by
  intro fuel rest hfuel
  obtain ⟨fuel, rfl⟩ : ∃ n, fuel = n + 1 := ⟨fuel - 1, by simp at hfuel; omega⟩
  obtain ⟨fuel', hfuel', hread⟩ := h fuel (right :: rest) (by simp at hfuel ⊢; omega)
  obtain ⟨fuel', rfl⟩ : ∃ n, fuel' = n + 1 := ⟨fuel' - 1, by simp at hfuel'; omega⟩
  refine ⟨fuel', by simp at hfuel'; omega, ?_⟩
  rw [cons_append, append_assoc, singleton_append, readJsLoop_open hleft, hread, readJsLoop_close hright]
  cases readJsLoop fuel' (depth + 1) rest with
  | none => rfl
  | some found =>
    simp only [Option.map_some, cons_append, append_assoc, nil_append]

theorem copied_gap (g : Gap) : ∀ c ∈ g.1, Copied depth c := by
  intro c hc
  have hmem : c ∈ [' ', '\t', '\n', '\r'] := of_decide_eq_true (g.2 c hc)
  simp only [mem_cons, not_mem_nil, or_false] at hmem
  rcases hmem with rfl | rfl | rfl | rfl <;> exact ⟨by decide, fun h => absurd h.1 (by decide)⟩

theorem copied_scalar (x : Scalar) : ∀ c ∈ x.text, Copied depth c := by
  intro c hc
  obtain ⟨-, -, hend, hspecial⟩ := scalarChars_spec c (mem_scalarChars x c hc)
  exact ⟨hspecial, fun h => hend h.1⟩

mutual

/-- Inside of brackets a literal becomes JSON. -/
theorem reads_text : ∀ (x : Layout Quoted) (depth : ℕ),
    Reads (depth + 1) (x.text Quoted.source) (x.text fun q => encodeString q.read)
  | .scalar x, depth => Reads.chars (copied_scalar x)
  | .str q, depth => Reads.string q
  | .noItems g, depth => Reads.brackets (Reads.chars (copied_gap g)) (Or.inl rfl) (Or.inl rfl)
  | .arr g items, depth => by
    have hinner := (Reads.chars (copied_gap g)).append (reads_items items (depth + 1))
    have hread := Reads.brackets hinner (Or.inl rfl) (Or.inl rfl)
    rwa [append_assoc, append_assoc] at hread
  | .noFields g, depth => Reads.brackets (Reads.chars (copied_gap g)) (Or.inr rfl) (Or.inr rfl)
  | .obj g fields, depth => by
    have hinner := (Reads.chars (copied_gap g)).append (reads_fields fields (depth + 1))
    have hread := Reads.brackets hinner (Or.inr rfl) (Or.inr rfl)
    rwa [append_assoc, append_assoc] at hread

theorem reads_items : ∀ (xs : LayoutItems Quoted) (depth : ℕ),
    Reads (depth + 1) (xs.text Quoted.source) (xs.text fun q => encodeString q.read)
  | .last x g, depth => (reads_text x depth).append (Reads.chars (copied_gap g))
  | .more x g next rest, depth => (reads_text x depth).append ((Reads.chars (copied_gap g)).append
      ((Reads.char ⟨by decide, fun h => absurd h.1 (by decide)⟩).append
        ((Reads.chars (copied_gap next)).append (reads_items rest depth))))

theorem reads_fields : ∀ (fs : LayoutFields Quoted) (depth : ℕ),
    Reads (depth + 1) (fs.text Quoted.source) (fs.text fun q => encodeString q.read)
  | .last k colon lead x g, depth => (Reads.string k).append ((Reads.chars (copied_gap colon)).append
      ((Reads.char ⟨by decide, fun h => absurd h.1 (by decide)⟩).append ((Reads.chars (copied_gap lead)).append
        ((reads_text x depth).append (Reads.chars (copied_gap g))))))
  | .more k colon lead x g next rest, depth => (Reads.string k).append ((Reads.chars (copied_gap colon)).append
      ((Reads.char ⟨by decide, fun h => absurd h.1 (by decide)⟩).append ((Reads.chars (copied_gap lead)).append
        ((reads_text x depth).append ((Reads.chars (copied_gap g)).append
          ((Reads.char ⟨by decide, fun h => absurd h.1 (by decide)⟩).append
            ((Reads.chars (copied_gap next)).append (reads_fields rest depth))))))))

end

end Loop

/-- Nothing to strip at either end. -/
def Solid (cs : List Char) : Prop :=
  (∃ c t, cs = c :: t ∧ isSpace c = false) ∧ ∃ t c, cs = t ++ [c] ∧ isSpace c = false ∧ c ≠ ';'

theorem Solid.strip {cs : List Char} (h : Solid cs) : strip (String.ofList cs) = String.ofList cs := by
  obtain ⟨⟨c, t, hfront, hc⟩, ⟨t', d, hback, hd, -⟩⟩ := h
  rw [PtaasBench.Py.strip, stripBy, String.toList_ofList]
  have hdrop : cs.dropWhile isSpace = cs := by
    rw [hfront, dropWhile_cons_of_neg (Bool.eq_false_iff.mp hc)]
  rw [hdrop, hback, rdropWhile_concat_neg _ _ _ (Bool.eq_false_iff.mp hd)]

theorem Solid.literal {cs : List Char} (h : Solid cs) :
    PtaasBench.Py.strip (String.ofList ((PtaasBench.Py.strip (String.ofList cs)).toList.rdropWhile (· == ';'))) =
      String.ofList cs := by
  have hsemicolon : cs.rdropWhile (· == ';') = cs := by
    obtain ⟨-, ⟨t, d, hback, -, hd⟩⟩ := h
    rw [hback, rdropWhile_concat_neg _ _ _ (by simpa using hd)]
  rw [h.strip, String.toList_ofList, hsemicolon, h.strip]

/-- A character that ends the search for a head. -/
def Stops (c : Char) : Prop := isSpace c = false ∧ isNameChar c = false ∧ c ≠ '='

theorem dropWhile_stop {p : Char → Bool} {c : Char} (h : p c = false) (cs rest : List Char) :
    (cs ++ c :: rest).dropWhile p = cs.dropWhile p ++ c :: rest := by
  rw [dropWhile_append]
  split_ifs with hempty
  · rw [List.isEmpty_iff.mp hempty, dropWhile_cons_of_neg (Bool.eq_false_iff.mp h)]
    rfl
  · rfl

section Stopped

variable {c : Char} (hc : Stops c)
include hc

theorem equalsAt_append {cs : List Char} (h : equalsAt cs = none) (rest : List Char) :
    equalsAt (cs ++ c :: rest) = none := by
  unfold equalsAt at h ⊢
  rw [dropWhile_stop hc.1]
  cases hdrop : cs.dropWhile isSpace with
  | nil =>
    rw [nil_append]
    split
    · rename_i heq
      exact absurd (List.cons.inj heq).1 hc.2.2
    · rfl
  | cons d ds =>
    rw [hdrop] at h
    rw [cons_append]
    split
    · rename_i heq
      obtain ⟨rfl, -⟩ := List.cons.inj heq
      cases h
    · rfl

theorem nameAt_append {cs : List Char}
    (h : ((nameAt cs).bind fun found => (equalsAt found.2).map fun cs => (String.ofList found.1, cs)) = none)
    (rest : List Char) :
    ((nameAt (cs ++ c :: rest)).bind fun found => (equalsAt found.2).map fun cs => (String.ofList found.1, cs)) =
      none := by
  cases cs with
  | nil =>
    have hchar : ((c.isAlpha || c.isDigit) || decide (c = '_')) = false := hc.2.1
    simp only [Bool.or_eq_false_iff] at hchar
    have hstart : isNameStart c = false := by rw [isNameStart, hchar.1.1, hchar.2, Bool.or_false]
    rw [nil_append, nameAt, hstart]
    rfl
  | cons d ds =>
    cases hd : isNameStart d with
    | false =>
      rw [cons_append, nameAt, hd]
      rfl
    | true =>
      rw [nameAt, hd] at h
      rw [cons_append, nameAt, hd, ← cons_append, dropWhile_stop hc.2.1]
      exact Option.map_eq_none_iff.mpr (equalsAt_append hc (Option.map_eq_none_iff.mp h) rest)

/-- A text without a head has none in front of such a character either. -/
theorem assignAt_append {cs : List Char} (h : assignAt cs = none) (rest : List Char) :
    assignAt (cs ++ c :: rest) = none := by
  have hletter : ∀ d, isNameChar d = true → c ≠ d := by
    rintro d hd rfl
    exact Bool.eq_false_iff.mp hc.2.1 hd
  rw [assignAt.eq_def]
  split
  · rename_i tail heq
    rcases cs with _ | ⟨v, _ | ⟨a, _ | ⟨r, ds⟩⟩⟩
    · exact absurd (List.cons.inj heq).1 (hletter 'v' (by decide))
    · exact absurd (List.cons.inj (List.cons.inj heq).2).1 (hletter 'a' (by decide))
    · exact absurd (List.cons.inj (List.cons.inj (List.cons.inj heq).2).2).1 (hletter 'r' (by decide))
    · simp only [cons_append, List.cons.injEq] at heq
      obtain ⟨rfl, rfl, rfl, rfl⟩ := heq
      cases ds with
      | nil =>
        rw [nil_append, spaces, hc.1]
        rfl
      | cons d ds =>
        cases hd : isSpace d with
        | false =>
          rw [cons_append, spaces, hd]
          rfl
        | true =>
          rw [assignAt, spaces, hd] at h
          rw [cons_append, spaces, hd, ← cons_append, dropWhile_stop hc.1]
          exact nameAt_append hc h rest
  · rfl

end Stopped

/-- No head of an assignment begins in a text, whatever is behind it. -/
def Quiet (s : List Char) : Prop := ∀ a b rest, s = a ++ b → b ≠ [] → assignAt (b ++ rest) = none

theorem Quiet.append {s t : List Char} (hs : Quiet s) (ht : Quiet t) : Quiet (s ++ t) := by
  intro a b rest h hb
  rcases append_eq_append_iff.mp h with ⟨as, rfl, rfl⟩ | ⟨bs, rfl, rfl⟩
  · exact ht as b rest rfl hb
  · by_cases hbs : bs = []
    · rw [hbs, nil_append] at hb ⊢
      exact ht [] t rest rfl hb
    · rw [append_assoc]
      exact hs a bs (t ++ rest) rfl hbs

theorem assignAt_of_ne {c : Char} (h : c ≠ 'v') (cs : List Char) : assignAt (c :: cs) = none := by
  unfold assignAt
  split
  · rename_i heq
    exact absurd (List.cons.inj heq).1 h
  · rfl

theorem Quiet.chars {s : List Char} (h : ∀ c ∈ s, c ≠ 'v') : Quiet s := by
  intro a b rest hs hb
  obtain ⟨c, t, rfl⟩ := exists_cons_of_ne_nil hb
  exact assignAt_of_ne (h c (hs ▸ mem_append_right a mem_cons_self)) _

theorem Quiet.char {c : Char} (h : c ≠ 'v') : Quiet [c] := Quiet.chars (forall_mem_singleton.mpr h)

theorem quiet_gap (g : Gap) : Quiet g.1 := by
  refine Quiet.chars fun c hc => ?_
  rintro rfl
  exact absurd (g.2 'v' hc) (by decide)

theorem quiet_scalar (x : Scalar) : Quiet x.text :=
  Quiet.chars fun c hc => (scalarChars_spec c (mem_scalarChars x c hc)).2.1

theorem Quiet.string {q : Quoted} (h : q.Headless) : Quiet q.source := by
  have hstops : Stops q.quote := by rcases q.quoted with hq | hq <;> rw [hq] <;> exact ⟨by decide, by decide, by decide⟩
  have hquote : q.quote ≠ 'v' := by rcases q.quoted with hq | hq <;> rw [hq] <;> decide
  have hbody : ∀ a b rest, q.body ++ [q.quote] = a ++ b → b ≠ [] → assignAt (b ++ rest) = none := by
    intro a b rest hs hb
    rcases append_eq_append_iff.mp hs with ⟨as, rfl, has⟩ | ⟨bs, hbs, rfl⟩
    · rcases append_eq_singleton_iff.mp has.symm with ⟨-, rfl⟩ | ⟨-, rfl⟩
      · exact assignAt_of_ne hquote rest
      · exact absurd rfl hb
    · rw [append_assoc]
      exact assignAt_append hstops (h bs ⟨a, hbs.symm⟩) rest
  exact (Quiet.char hquote).append hbody

mutual

theorem quiet_text : ∀ x : Layout Quoted, x.All Quoted.Headless → Quiet (x.text Quoted.source)
  | .scalar x, _ => quiet_scalar x
  | .str _, h => Quiet.string h
  | .noItems g, _ => (Quiet.char (by decide)).append
      ((quiet_gap g).append (Quiet.char (by decide)))
  | .arr g items, h => (Quiet.char (by decide)).append
      ((quiet_gap g).append ((quiet_items items h).append (Quiet.char (by decide))))
  | .noFields g, _ => (Quiet.char (by decide)).append
      ((quiet_gap g).append (Quiet.char (by decide)))
  | .obj g fields, h => (Quiet.char (by decide)).append
      ((quiet_gap g).append ((quiet_fields fields h).append (Quiet.char (by decide))))

theorem quiet_items : ∀ xs : LayoutItems Quoted, xs.All Quoted.Headless → Quiet (xs.text Quoted.source)
  | .last x g, h => (quiet_text x h).append (quiet_gap g)
  | .more x g next rest, h => (quiet_text x h.1).append ((quiet_gap g).append ((Quiet.char (by decide)).append
      ((quiet_gap next).append (quiet_items rest h.2))))

theorem quiet_fields : ∀ fs : LayoutFields Quoted, fs.All Quoted.Headless → Quiet (fs.text Quoted.source)
  | .last k colon lead x g, h => (Quiet.string h.1).append ((quiet_gap colon).append ((Quiet.char (by decide)).append
      ((quiet_gap lead).append ((quiet_text x h.2).append (quiet_gap g)))))
  | .more k colon lead x g next rest, h =>
    (Quiet.string h.1).append ((quiet_gap colon).append ((Quiet.char (by decide)).append
      ((quiet_gap lead).append ((quiet_text x h.2.1).append ((quiet_gap g).append ((Quiet.char (by decide)).append
        ((quiet_gap next).append (quiet_fields rest h.2.2))))))))

end

end PtaasBench.Runners.ReportScript
