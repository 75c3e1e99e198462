import Mathlib.Data.List.Induction
import Mathlib.Data.List.Sort
import Mathlib.Data.Nat.Digits.Lemmas
import Mathlib.Tactic.Ring
import PtaasBench.Py.Json

/-!
# PtaasBench.Py.JsonText — `json.dumps` and `json.loads`

`dumps` writes with sorted keys and ASCII escapes; `loads` is the scanner of the standard library,
which is more liberal (white space, any escape, repeated keys, `NaN`).  `loads_dumps` says that
reading undoes writing, up to the order of the keys.  A lone surrogate, which a Lean character
cannot hold, is refused.
-/

namespace PtaasBench.Py

open List

/-! ## Writing -/

def hexDigit (n : ℕ) : Char := if n < 10 then Char.ofNat (48 + n) else Char.ofNat (87 + n)

/-- The escape of one UTF-16 code unit. -/
def unitEscape (n : ℕ) : List Char :=
  ['\\', 'u', hexDigit (n / 4096 % 16), hexDigit (n / 256 % 16), hexDigit (n / 16 % 16),
    hexDigit (n % 16)]

/-- The UTF-16 code units of a character. -/
def units (c : Char) : List ℕ :=
  if c.toNat < 0x10000 then [c.toNat]
  else [0xd800 + (c.toNat - 0x10000) / 1024, 0xdc00 + (c.toNat - 0x10000) % 1024]

/-- The letters of the short escapes, with what they stand for. -/
def shortEscapes : List (Char × ℕ) :=
  [('"', 34), ('\\', 92), ('n', 10), ('r', 13), ('t', 9), ('f', 12), ('b', 8)]

/-- `ensure_ascii`: printable ASCII stands for itself. -/
def escapeChar (c : Char) : List Char :=
  match shortEscapes.find? (·.2 = c.toNat) with
  | some e => ['\\', e.1]
  | none => if 32 ≤ c.toNat ∧ c.toNat ≤ 126 then [c] else (units c).flatMap unitEscape

def encodeString (s : String) : List Char := '"' :: (s.toList.flatMap escapeChar ++ ['"'])

mutual

/-- `json.dumps` of a value, keys in the order they have. -/
def encode : Json → List Char
  | .null => "null".toList
  | .bool b => if b then "true".toList else "false".toList
  | .int n => intText n
  | .float f => f.text
  | .nan => "NaN".toList
  | .infinity neg => if neg then "-Infinity".toList else "Infinity".toList
  | .str s => encodeString s
  | .arr xs => '[' :: (encodeItems xs ++ [']'])
  | .obj fs => '{' :: (encodeFields fs ++ ['}'])

def encodeItems : List Json → List Char
  | [] => []
  | [x] => encode x
  | x :: y :: xs => encode x ++ ',' :: ' ' :: encodeItems (y :: xs)

def encodeFields : List (String × Json) → List Char
  | [] => []
  | [(k, v)] => encodeString k ++ ':' :: ' ' :: encode v
  | (k, v) :: f :: fs =>
    encodeString k ++ ':' :: ' ' :: (encode v ++ ',' :: ' ' :: encodeFields (f :: fs))

end

mutual

/-- `json.dumps` of a value with other separators: this stands behind every comma and every colon. -/
def encodeWith (gap : List Char) : Json → List Char
  | .null => "null".toList
  | .bool b => if b then "true".toList else "false".toList
  | .int n => intText n
  | .float f => f.text
  | .nan => "NaN".toList
  | .infinity neg => if neg then "-Infinity".toList else "Infinity".toList
  | .str s => encodeString s
  | .arr xs => '[' :: (encodeItemsWith gap xs ++ [']'])
  | .obj fs => '{' :: (encodeFieldsWith gap fs ++ ['}'])

def encodeItemsWith (gap : List Char) : List Json → List Char
  | [] => []
  | [x] => encodeWith gap x
  | x :: y :: xs => encodeWith gap x ++ ',' :: (gap ++ encodeItemsWith gap (y :: xs))

def encodeFieldsWith (gap : List Char) : List (String × Json) → List Char
  | [] => []
  | [(k, v)] => encodeString k ++ ':' :: (gap ++ encodeWith gap v)
  | (k, v) :: f :: fs =>
    encodeString k ++ ':' :: (gap ++ (encodeWith gap v ++ ',' :: (gap ++ encodeFieldsWith gap (f :: fs))))

end

mutual

theorem encode_eq : ∀ x : Json, encode x = encodeWith [' '] x
  | .null => rfl
  | .bool _ => rfl
  | .int _ => rfl
  | .float _ => rfl
  | .nan => rfl
  | .infinity _ => rfl
  | .str _ => rfl
  | .arr xs => by rw [encode, encodeWith, encodeItems_eq xs]
  | .obj fs => by rw [encode, encodeWith, encodeFields_eq fs]

theorem encodeItems_eq : ∀ xs : List Json, encodeItems xs = encodeItemsWith [' '] xs
  | [] => rfl
  | [x] => by rw [encodeItems, encodeItemsWith, encode_eq x]
  | x :: y :: xs => by
    rw [encodeItems, encodeItemsWith, encode_eq x, encodeItems_eq (y :: xs)]
    rfl

theorem encodeFields_eq : ∀ fs : List (String × Json), encodeFields fs = encodeFieldsWith [' '] fs
  | [] => rfl
  | [(k, v)] => by
    rw [encodeFields, encodeFieldsWith, encode_eq v]
    rfl
  | (k, v) :: f :: fs => by
    rw [encodeFields, encodeFieldsWith, encode_eq v, encodeFields_eq (f :: fs)]
    rfl

end

mutual

/-- The value with the keys of every object in order. -/
def sortKeys : Json → Json
  | .arr xs => .arr (sortItems xs)
  | .obj fs => .obj ((sortFields fs).insertionSort fun a b => a.1 ≤ b.1)
  | x => x

def sortItems : List Json → List Json
  | [] => []
  | x :: xs => sortKeys x :: sortItems xs

def sortFields : List (String × Json) → List (String × Json)
  | [] => []
  | (k, v) :: fs => (k, sortKeys v) :: sortFields fs

end

/-- `json.dumps(x, sort_keys=True)` -/
def dumps (x : Json) : String := String.ofList (encode (sortKeys x))

/-! ## Reading -/

def isJsonSpace (c : Char) : Bool := c ∈ [' ', '\t', '\n', '\r']

def skipWs (cs : List Char) : List Char := cs.dropWhile isJsonSpace

def digitOf? (c : Char) : Option (Fin 10) :=
  if h : 48 ≤ c.toNat ∧ c.toNat < 58 then some ⟨c.toNat - 48, by omega⟩ else none

def spanDigits : List Char → List (Fin 10) × List Char
  | [] => ([], [])
  | c :: cs =>
    match digitOf? c with
    | none => ([], c :: cs)
    | some d => (d :: (spanDigits cs).1, (spanDigits cs).2)

/-- `0|[1-9]\d*` -/
def scanWhole (cs : List Char) : Option (ℕ × List Char) :=
  match spanDigits cs with
  | ([], _) => none
  | (d :: ds, rest) => if d.val = 0 then some (0, cs.tail) else some (ofDigitList (d :: ds), rest)

/-- `(\.\d+)?` -/
def scanFrac (cs : List Char) : List (Fin 10) × List Char :=
  match cs with
  | '.' :: cs' => if (spanDigits cs').1 = [] then ([], cs) else spanDigits cs'
  | _ => ([], cs)

def scanSign : List Char → Option Bool × List Char
  | '-' :: cs => (some true, cs)
  | '+' :: cs => (some false, cs)
  | cs => (none, cs)

/-- `([eE][-+]?\d+)?` -/
def scanExp (cs : List Char) : Option Exponent × List Char :=
  match cs with
  | [] => (none, cs)
  | c :: cs' =>
    if c = 'e' ∨ c = 'E' then
      match spanDigits (scanSign cs').2 with
      | ([], _) => (none, cs)
      | (d :: ds, rest) =>
        (some { upper := c = 'E', sign := (scanSign cs').1, first := d, rest := ds }, rest)
    else (none, cs)

def scanMinus : List Char → Bool × List Char
  | '-' :: cs => (true, cs)
  | cs => (false, cs)

/-- `match_number` -/
def scanNumber (cs : List Char) : Option (Json × List Char) :=
  match scanWhole (scanMinus cs).2 with
  | none => none
  | some (whole, cs') =>
    let frac := scanFrac cs'
    let exp := scanExp frac.2
    let neg := (scanMinus cs).1
    if h : frac.1 ≠ [] ∨ exp.1 ≠ none then
      some (.float { neg := neg, whole := whole, frac := frac.1, exp := exp.1, isFloat := h }, exp.2)
    else some (.int (if neg then -whole else whole), exp.2)

/-- The names of the values that are no numbers. -/
def constants : List (List Char × Json) :=
  [("null".toList, .null), ("true".toList, .bool true), ("false".toList, .bool false),
    ("NaN".toList, .nan), ("Infinity".toList, .infinity false),
    ("-Infinity".toList, .infinity true)]

def scanConstant (cs : List Char) : Option (Json × List Char) :=
  constants.findSome? fun e => if e.1.isPrefixOf cs then some (e.2, cs.drop e.1.length) else none

def hexOf? (c : Char) : Option ℕ :=
  if 48 ≤ c.toNat ∧ c.toNat < 58 then some (c.toNat - 48)
  else if 97 ≤ c.toNat ∧ c.toNat < 103 then some (c.toNat - 87)
  else if 65 ≤ c.toNat ∧ c.toNat < 71 then some (c.toNat - 55)
  else none

def hex4? (a b c d : Char) : Option ℕ :=
  (hexOf? a).bind fun w => (hexOf? b).bind fun x => (hexOf? c).bind fun y => (hexOf? d).map fun z =>
    4096 * w + 256 * x + 16 * y + z

def shortUnit? (c : Char) : Option ℕ :=
  if c = '/' then some 47 else (shortEscapes.find? (·.1 = c)).map Prod.snd

/-- `scanstring` after the opening quote: the code units, and what follows the closing quote. -/
def scanUnits : List Char → Option (List ℕ × List Char)
  | [] => none
  | '"' :: cs => some ([], cs)
  | '\\' :: 'u' :: a :: b :: c :: d :: cs =>
    (hex4? a b c d).bind fun u => (scanUnits cs).map fun p => (u :: p.1, p.2)
  | '\\' :: e :: cs => (shortUnit? e).bind fun u => (scanUnits cs).map fun p => (u :: p.1, p.2)
  | c :: cs =>
    if c = '\\' ∨ c.toNat < 32 then none else (scanUnits cs).map fun p => (c.toNat :: p.1, p.2)

def charOf? (u : ℕ) : Option Char := if u.isValidChar then some (Char.ofNat u) else none

/-- Surrogate pairs are joined. -/
def joinUnits : List ℕ → Option (List Char)
  | [] => some []
  | [u] => (charOf? u).map fun c => [c]
  | u :: v :: us =>
    if (0xd800 ≤ u ∧ u < 0xdc00) ∧ (0xdc00 ≤ v ∧ v < 0xe000) then
      (joinUnits us).map (Char.ofNat (0x10000 + (u - 0xd800) * 1024 + (v - 0xdc00)) :: ·)
    else (charOf? u).bind fun c => (joinUnits (v :: us)).map (c :: ·)

def scanString (cs : List Char) : Option (String × List Char) :=
  (scanUnits cs).bind fun p => (joinUnits p.1).map fun s => (String.ofList s, p.2)

/-- The dictionary a list of pairs makes: the last value of a key counts. -/
def dictOf (ps : List (String × Json)) : Obj := ps.foldl (fun o p => o.set p.1 p.2) []

mutual

/-- `scan_once` -/
def scanValue : ℕ → List Char → Option (Json × List Char)
  | 0, _ => none
  | n + 1, cs =>
    match cs with
    | '"' :: cs => (scanString cs).map fun p => (.str p.1, p.2)
    | '{' :: cs =>
      match skipWs cs with
      | '}' :: rest => some (.obj [], rest)
      | cs => (scanMembers n cs).map fun p => (.obj (dictOf p.1), p.2)
    | '[' :: cs =>
      match skipWs cs with
      | ']' :: rest => some (.arr [], rest)
      | cs => (scanElements n cs).map fun p => (.arr p.1, p.2)
    | cs => (scanNumber cs).or (scanConstant cs)

def scanElements : ℕ → List Char → Option (List Json × List Char)
  | 0, _ => none
  | n + 1, cs =>
    (scanValue n cs).bind fun p =>
      match skipWs p.2 with
      | ']' :: rest => some ([p.1], rest)
      | ',' :: rest => (scanElements n (skipWs rest)).map fun q => (p.1 :: q.1, q.2)
      | _ => none

def scanMembers : ℕ → List Char → Option (List (String × Json) × List Char)
  | 0, _ => none
  | n + 1, cs =>
    match cs with
    | '"' :: cs =>
      (scanString cs).bind fun k =>
        match skipWs k.2 with
        | ':' :: rest =>
          (scanValue n (skipWs rest)).bind fun p =>
            match skipWs p.2 with
            | '}' :: rest => some ([(k.1, p.1)], rest)
            | ',' :: rest => (scanMembers n (skipWs rest)).map fun q => ((k.1, p.1) :: q.1, q.2)
            | _ => none
        | _ => none
    | _ => none

end

/-- `json.loads`; `none` when it raises `JSONDecodeError`. -/
def loads (s : String) : Option Json :=
  (scanValue (s.toList.length + 1) (skipWs s.toList)).bind fun p =>
    if skipWs p.2 = [] then some p.1 else none

/-! ## Strings -/

theorem hexOf?_hexDigit : ∀ n < 16, hexOf? (hexDigit n) = some n := by decide

theorem hex4?_unitEscape {n : ℕ} (hn : n < 0x10000) :
    hex4? (hexDigit (n / 4096 % 16)) (hexDigit (n / 256 % 16)) (hexDigit (n / 16 % 16))
      (hexDigit (n % 16)) = some n := by
  rw [hex4?, hexOf?_hexDigit _ (by omega), hexOf?_hexDigit _ (by omega),
    hexOf?_hexDigit _ (by omega), hexOf?_hexDigit _ (by omega)]
  simp only [Option.bind_some, Option.map_some, Option.some.injEq]
  omega

theorem scanUnits_unitEscape {n : ℕ} (hn : n < 0x10000) (cs : List Char) :
    scanUnits (unitEscape n ++ cs) = (scanUnits cs).map fun p => (n :: p.1, p.2) := by
  simp only [unitEscape, cons_append, nil_append, scanUnits]
  rw [hex4?_unitEscape hn, Option.bind_some]

theorem toNat_lt (c : Char) : c.toNat < 0x110000 := by
  rcases c.valid with h | ⟨-, h⟩
  · exact Nat.lt_trans h (by decide)
  · exact h

theorem units_lt (c : Char) : ∀ u ∈ units c, u < 0x10000 := by
  have hc := toNat_lt c
  intro u hu
  unfold units at hu
  split_ifs at hu with h
  · rw [mem_singleton] at hu
    omega
  · simp only [mem_cons, not_mem_nil, or_false] at hu
    omega

theorem scanUnits_unitEscapes {us : List ℕ} (hus : ∀ u ∈ us, u < 0x10000) (cs : List Char) :
    scanUnits (us.flatMap unitEscape ++ cs) = (scanUnits cs).map fun p => (us ++ p.1, p.2) := by
  induction us with
  | nil => simp
  | cons u us ih =>
    rw [flatMap_cons, append_assoc, scanUnits_unitEscape (hus u (by simp)),
      ih fun v hv => hus v (mem_cons_of_mem u hv), Option.map_map]
    rfl

theorem scanUnits_plain {c : Char} (hq : c ≠ '"') (hb : c ≠ '\\') (h32 : 32 ≤ c.toNat)
    (cs : List Char) :
    scanUnits (c :: cs) = (scanUnits cs).map fun p => (c.toNat :: p.1, p.2) := by
  rw [scanUnits]
  · rw [if_neg (by rw [not_or]; exact ⟨hb, by omega⟩)]
  · exact fun h => hq h
  · exact fun a b d e f h => absurd h hb
  · exact fun e f h => absurd h hb

theorem scanUnits_escapeChar (c : Char) (cs : List Char) :
    scanUnits (escapeChar c ++ cs) = (scanUnits cs).map fun p => (units c ++ p.1, p.2) := by
  unfold escapeChar
  cases hf : shortEscapes.find? (·.2 = c.toNat) with
  | some e =>
    have he : e.2 = c.toNat := by simpa using List.find?_some hf
    have hu : units c = [e.2] := by
      have hmem := mem_of_find?_eq_some hf
      have hlt : ∀ e ∈ shortEscapes, e.2 < 0x10000 := by decide
      rw [units, if_pos (he ▸ hlt e hmem), he]
    have hmem := mem_of_find?_eq_some hf
    rw [hu]
    clear hf he hu
    simp only [shortEscapes, mem_cons, not_mem_nil, or_false] at hmem
    rcases hmem with rfl | rfl | rfl | rfl | rfl | rfl | rfl <;> rfl
  | none =>
    have hne : c.toNat ≠ 34 ∧ c.toNat ≠ 92 := by
      rw [List.find?_eq_none] at hf
      refine ⟨fun h => hf ('"', 34) (by decide) ?_, fun h => hf ('\\', 92) (by decide) ?_⟩ <;>
        simp [h]
    by_cases hp : 32 ≤ c.toNat ∧ c.toNat ≤ 126
    · have hu : units c = [c.toNat] := by
        rw [units, if_pos (by omega)]
      simp only [if_pos hp, cons_append, nil_append]
      rw [hu, scanUnits_plain _ _ hp.1]
      · rfl
      · rintro rfl; exact hne.1 rfl
      · rintro rfl; exact hne.2 rfl
    · simp only [if_neg hp]
      exact scanUnits_unitEscapes (units_lt c) cs

theorem scanUnits_escaped (s r : List Char) :
    scanUnits (s.flatMap escapeChar ++ '"' :: r) = some (s.flatMap units, r) := by
  induction s with
  | nil => rfl
  | cons c s ih =>
    rw [flatMap_cons, append_assoc, scanUnits_escapeChar, ih]
    rfl

theorem charOf?_toNat (c : Char) : charOf? c.toNat = some c := by
  have hv : c.toNat.isValidChar := c.valid
  rw [charOf?, if_pos hv, Char.ofNat_toNat]

theorem joinUnits_bmp {c : Char} (us : List ℕ) :
    joinUnits (c.toNat :: us) = (joinUnits us).map (c :: ·) := by
  have hc : ¬ (0xd800 ≤ c.toNat ∧ c.toNat < 0xdc00) := by
    rcases c.valid with h | ⟨h, -⟩
    · have : c.toNat < 0xd800 := h
      omega
    · have : 0xdfff < c.toNat := h
      omega
  cases us with
  | nil =>
    show (charOf? c.toNat).map _ = _
    rw [charOf?_toNat]; rfl
  | cons v us =>
    rw [joinUnits, if_neg fun h => hc h.1, charOf?_toNat, Option.bind_some]

theorem joinUnits_units (c : Char) (us : List ℕ) :
    joinUnits (units c ++ us) = (joinUnits us).map (c :: ·) := by
  unfold units
  split_ifs with h
  · exact joinUnits_bmp us
  · have hc := toNat_lt c
    have hsum : 0x10000 + (0xd800 + (c.toNat - 0x10000) / 1024 - 0xd800) * 1024 +
        (0xdc00 + (c.toNat - 0x10000) % 1024 - 0xdc00) = c.toNat := by omega
    rw [cons_append, singleton_append, joinUnits, if_pos (by omega), hsum,
      Char.ofNat_toNat]

theorem joinUnits_flatMap (s : List Char) : joinUnits (s.flatMap units) = some s := by
  induction s with
  | nil => rfl
  | cons c s ih => rw [flatMap_cons, joinUnits_units, ih]; rfl

/-- Reading a string undoes writing it. -/
theorem scanString_encodeString (s : String) (r : List Char) :
    scanString (s.toList.flatMap escapeChar ++ '"' :: r) = some (s, r) := by
  rw [scanString, scanUnits_escaped, Option.bind_some, joinUnits_flatMap, Option.map_some,
    String.ofList_toList]

/-! ## Numbers -/

/-- What may follow a number: nothing that would still belong to it. -/
def NumberEnd (r : List Char) : Prop :=
  ∀ c ∈ r.head?, digitOf? c = none ∧ c ≠ '.' ∧ c ≠ 'e' ∧ c ≠ 'E'

theorem digitOf?_digitChar (d : Fin 10) : digitOf? (digitChar d) = some d := by
  revert d; decide

theorem spanDigits_digits (ds : List (Fin 10)) {r : List Char}
    (hr : ∀ c ∈ r.head?, digitOf? c = none) : spanDigits (ds.map digitChar ++ r) = (ds, r) := by
  induction ds with
  | nil =>
    cases r with
    | nil => rfl
    | cons c r =>
      have hc := hr c rfl
      simp only [map_nil, nil_append, spanDigits, hc]
  | cons d ds ih =>
    simp only [map_cons, cons_append, spanDigits, digitOf?_digitChar, ih]

theorem ofDigitList_concat (ds : List (Fin 10)) (d : Fin 10) : ofDigitList (ds ++ [d]) = 10 * ofDigitList ds + d.val := by
  rw [ofDigitList, foldl_append]
  rfl

theorem ofDigitList_append (ds es : List (Fin 10)) :
    ofDigitList (ds ++ es) = ofDigitList ds * 10 ^ es.length + ofDigitList es := by
  induction es using List.reverseRecOn with
  | nil => rw [append_nil, length_nil, pow_zero, Nat.mul_one]; rfl
  | append_singleton es d ih =>
    rw [← append_assoc, ofDigitList_concat, ofDigitList_concat, ih, length_append, length_singleton,
      pow_succ]
    ring

theorem ofDigitList_lt (ds : List (Fin 10)) : ofDigitList ds < 10 ^ ds.length := by
  induction ds using List.reverseRecOn with
  | nil => decide
  | append_singleton ds d ih =>
    rw [ofDigitList_concat, length_append, length_singleton, pow_succ]
    omega

theorem ofDigitList_natDigits (n : ℕ) : ofDigitList (natDigits n) = n := by
  unfold natDigits
  split_ifs with h
  · rw [h]; rfl
  · rw [ofDigitList, foldl_reverse]
    have hfold : ∀ l : List ℕ, (∀ d ∈ l, d < 10) →
        (l.map (Fin.ofNat 10)).foldr (fun (d : Fin 10) n => 10 * n + d.val) 0 = Nat.ofDigits 10 l := by
      intro l hl
      induction l with
      | nil => rfl
      | cons d l ih =>
        have hd : (Fin.ofNat 10 d).val = d := Nat.mod_eq_of_lt (hl d (by simp))
        rw [map_cons, foldr_cons, ih fun e he => hl e (mem_cons_of_mem d he), hd,
          Nat.ofDigits_cons, Nat.add_comm]
    rw [hfold _ fun d hd => Nat.digits_lt_base (by decide) hd, Nat.ofDigits_digits]

/-- Only zero starts with the digit zero. -/
theorem natDigits_eq_cons (n : ℕ) :
    (n = 0 ∧ natDigits n = [0]) ∨ ∃ d ds, d ≠ 0 ∧ natDigits n = d :: ds := by
  unfold natDigits
  split_ifs with h
  · exact Or.inl ⟨h, rfl⟩
  · refine Or.inr ?_
    have hne : Nat.digits 10 n ≠ [] := Nat.digits_ne_nil_iff_ne_zero.mpr h
    have hlast := Nat.getLast_digit_ne_zero 10 h
    have hlt : (Nat.digits 10 n).getLast hne < 10 :=
      Nat.digits_lt_base (by decide) (getLast_mem hne)
    refine ⟨Fin.ofNat 10 ((Nat.digits 10 n).getLast hne),
      (((Nat.digits 10 n).dropLast).map (Fin.ofNat 10)).reverse, ?_, ?_⟩
    · intro h0
      have := congrArg Fin.val h0
      rw [Fin.val_ofNat, Nat.mod_eq_of_lt hlt] at this
      exact hlast this
    · conv_lhs => rw [← dropLast_append_getLast hne]
      rw [map_append, reverse_append]
      rfl

theorem scanWhole_natDigits (n : ℕ) {r : List Char} (hr : ∀ c ∈ r.head?, digitOf? c = none) :
    scanWhole ((natDigits n).map digitChar ++ r) = some (n, r) := by
  have hn := ofDigitList_natDigits n
  rw [scanWhole, spanDigits_digits _ hr]
  rcases natDigits_eq_cons n with ⟨h0, hd⟩ | ⟨d, ds, hd0, hd⟩
  · rw [hd, h0]; rfl
  · rw [hd] at hn ⊢
    simp only [if_neg fun h : d.val = 0 => hd0 (Fin.ext h), hn]

theorem scanMinus_natDigits (n : ℕ) (r : List Char) :
    scanMinus ((natDigits n).map digitChar ++ r) = (false, (natDigits n).map digitChar ++ r) := by
  have hne : ∀ d : Fin 10, digitChar d ≠ '-' := by decide
  cases h : natDigits n with
  | nil => exact absurd h (natDigits_ne_nil n)
  | cons d ds =>
    rw [map_cons, cons_append, scanMinus]
    exact fun cs h => hne d (List.cons.inj h).1

theorem scanMinus_sign (neg : Bool) (n : ℕ) (r : List Char) :
    scanMinus ((if neg then ['-'] else []) ++ ((natDigits n).map digitChar ++ r)) =
      (neg, (natDigits n).map digitChar ++ r) := by
  cases neg with
  | true => rfl
  | false => exact scanMinus_natDigits n r

theorem scanFrac_none {r : List Char} (hr : NumberEnd r) : scanFrac r = ([], r) := by
  unfold scanFrac
  split
  · exact absurd rfl (hr '.' rfl).2.1
  · rfl

theorem scanExp_none {r : List Char} (hr : NumberEnd r) : scanExp r = (none, r) := by
  unfold scanExp
  split
  · rfl
  · rename_i c cs
    have hc := (hr c rfl).2.2
    rw [if_neg (by rw [not_or]; exact hc)]

theorem scanExp_text (x : Exponent) {r : List Char} (hr : NumberEnd r) :
    scanExp (x.text ++ r) = (some x, r) := by
  have hdig : ∀ c ∈ r.head?, digitOf? c = none := fun c hc => (hr c hc).1
  obtain ⟨upper, sign, first, rest⟩ := x
  have hspan := spanDigits_digits (first :: rest) hdig
  have hne : ∀ d : Fin 10, digitChar d ≠ '-' ∧ digitChar d ≠ '+' := by decide
  have hsign : scanSign (signText sign ++ ((first :: rest).map digitChar ++ r)) =
      (sign, (first :: rest).map digitChar ++ r) := by
    rcases sign with _ | _ | _
    · rw [signText, nil_append, map_cons, cons_append, scanSign]
      · exact fun cs h => (hne first).1 (List.cons.inj h).1
      · exact fun cs h => (hne first).2 (List.cons.inj h).1
    · rfl
    · rfl
  rw [Exponent.text, cons_append, append_assoc]
  unfold scanExp
  simp only [hsign, hspan]
  cases upper <;> rfl

/-- What follows the whole part of a float. -/
theorem scanFrac_text (frac : List (Fin 10)) (exp : Option Exponent) {r : List Char}
    (hr : NumberEnd r) :
    scanFrac ((if frac = [] then [] else '.' :: frac.map digitChar) ++
      (exp.elim [] Exponent.text ++ r)) =
      (frac, exp.elim [] Exponent.text ++ r) := by
  have hexp : ∀ c ∈ (exp.elim [] Exponent.text ++ r).head?,
      digitOf? c = none ∧ c ≠ '.' := by
    cases exp with
    | none => exact fun c hc => ⟨(hr c hc).1, (hr c hc).2.1⟩
    | some x =>
      intro c hc
      obtain ⟨upper, sign, first, rest⟩ := x
      have hc' : (if upper then 'E' else 'e') = c := Option.some.inj hc
      subst hc'
      cases upper <;> decide
  split_ifs with hf
  · rw [nil_append, hf]
    unfold scanFrac
    split
    · rename_i cs hcs
      rw [hcs] at hexp
      exact absurd rfl (hexp '.' rfl).2
    · rfl
  · rw [cons_append]
    have hspan := spanDigits_digits frac fun c hc => (hexp c hc).1
    simp only [scanFrac, hspan, if_neg hf]

theorem scanNumber_intText (n : ℤ) {r : List Char} (hr : NumberEnd r) :
    scanNumber (intText n ++ r) = some (.int n, r) := by
  have hdig : ∀ c ∈ r.head?, digitOf? c = none := fun c hc => (hr c hc).1
  have hminus : scanMinus (intText n ++ r) =
      (decide (n < 0), (natDigits n.natAbs).map digitChar ++ r) := by
    have := scanMinus_sign (decide (n < 0)) n.natAbs r
    rw [intText, append_assoc]
    simpa using this
  have hsign : (if decide (n < 0) = true then -(n.natAbs : ℤ) else n.natAbs) = n := by
    by_cases h : n < 0
    · rw [if_pos (decide_eq_true h)]
      omega
    · rw [if_neg (by simpa using h)]
      omega
  unfold scanNumber
  rw [hminus]
  simp only [scanWhole_natDigits _ hdig, scanFrac_none hr, scanExp_none hr]
  rw [dif_neg (by simp), hsign]

theorem scanNumber_text (f : FloatLit) {r : List Char} (hr : NumberEnd r) :
    scanNumber (f.text ++ r) = some (.float f, r) := by
  obtain ⟨neg, whole, frac, exp, isFloat⟩ := f
  have hfrac := scanFrac_text frac exp hr
  have hexp : scanExp (exp.elim [] Exponent.text ++ r) = (exp, r) := by
    cases exp with
    | none => exact scanExp_none hr
    | some x => exact scanExp_text x hr
  have hend : ∀ c ∈ ((if frac = [] then [] else '.' :: frac.map digitChar) ++
      (exp.elim [] Exponent.text ++ r)).head?, digitOf? c = none := by
    split_ifs with hf
    · cases exp with
      | none => exact fun c hc => (hr c hc).1
      | some x =>
        intro c hc
        have hc' : (if x.upper then 'E' else 'e') = c := Option.some.inj hc
        subst hc'
        cases x.upper <;> decide
    · intro c hc
      have hc' : '.' = c := Option.some.inj hc
      subst hc'
      decide
  rw [FloatLit.text, append_assoc, append_assoc, append_assoc]
  unfold scanNumber
  rw [scanMinus_sign]
  simp only [scanWhole_natDigits _ hend, hfrac, hexp]
  rw [dif_pos isFloat]

/-! ## Values -/

theorem map_fst_sortFields (fs : List (String × Json)) :
    (sortFields fs).map Prod.fst = fs.map Prod.fst := by
  induction fs with
  | nil => rfl
  | cons e fs ih =>
    obtain ⟨k, v⟩ := e
    rw [sortFields, map_cons, map_cons, ih]

mutual

theorem distinct_sortKeys : ∀ x : Json, x.Distinct → (sortKeys x).Distinct
  | .null, _ => trivial
  | .bool _, _ => trivial
  | .int _, _ => trivial
  | .float _, _ => trivial
  | .nan, _ => trivial
  | .infinity _, _ => trivial
  | .str _, _ => trivial
  | .arr xs, h => distinct_sortItems xs h
  | .obj fs, h => by
    have hperm := perm_insertionSort (fun a b : String × Json => a.1 ≤ b.1) (sortFields fs)
    refine ⟨?_, distinctFields_iff.mpr fun e he => ?_⟩
    · rw [(hperm.map Prod.fst).nodup_iff, map_fst_sortFields]
      exact h.1
    · exact distinctFields_iff.mp (distinct_sortFields fs h.2) e (hperm.mem_iff.mp he)

theorem distinct_sortItems : ∀ xs : List Json, DistinctItems xs → DistinctItems (sortItems xs)
  | [], _ => trivial
  | x :: xs, h => ⟨distinct_sortKeys x h.1, distinct_sortItems xs h.2⟩

theorem distinct_sortFields : ∀ fs : List (String × Json), DistinctFields fs →
    DistinctFields (sortFields fs)
  | [], _ => trivial
  | (_, v) :: fs, h => ⟨distinct_sortKeys v h.1, distinct_sortFields fs h.2⟩

end

/-- A dictionary with its keys in order, at every depth. -/
def sortedFields (o : Obj) : Obj :=
  (sortFields o).insertionSort fun a b => a.1 ≤ b.1

theorem sortKeys_obj (o : Obj) : sortKeys (.obj o) = .obj (sortedFields o) := by
  rw [sortKeys, sortedFields]

theorem distinct_sortedFields {o : Obj} (h : o.Distinct) : (sortedFields o).Distinct := by
  have := distinct_sortKeys (.obj o) h
  rwa [sortKeys_obj] at this

theorem mem_sortFields {fs : List (String × Json)} {k : String} {v : Json} :
    (k, v) ∈ sortFields fs ↔ ∃ w, (k, w) ∈ fs ∧ v = sortKeys w := by
  induction fs with
  | nil => simp [sortFields]
  | cons f fs ih =>
    obtain ⟨a, b⟩ := f
    rw [sortFields, mem_cons, ih, Prod.mk.injEq]
    constructor
    · rintro (⟨rfl, rfl⟩ | ⟨w, hw, rfl⟩)
      · exact ⟨b, mem_cons_self, rfl⟩
      · exact ⟨w, mem_cons_of_mem _ hw, rfl⟩
    · rintro ⟨w, hw, rfl⟩
      rcases mem_cons.mp hw with heq | hw
      · rw [Prod.mk.injEq] at heq
        exact Or.inl ⟨heq.1, by rw [heq.2]⟩
      · exact Or.inr ⟨w, hw, rfl⟩

/-- Sorting keeps every field: the dictionary is the same. -/
theorem get?_sortedFields {o : Obj} (h : o.Distinct) (k : String) :
    (sortedFields o).get? k = (o.get? k).map sortKeys := by
  have hmem : ∀ v, (sortedFields o).get? k = some v ↔ ∃ w, o.get? k = some w ∧ v = sortKeys w := by
    intro v
    rw [Obj.get?_eq_some_iff (distinct_sortedFields h).1, sortedFields,
      (perm_insertionSort _ _).mem_iff, mem_sortFields]
    simp only [Obj.get?_eq_some_iff h.1]
  cases ho : o.get? k with
  | none =>
    rw [Option.map_none, Option.eq_none_iff_forall_ne_some]
    intro v hv
    obtain ⟨w, hw, -⟩ := (hmem v).mp hv
    rw [ho] at hw
    exact absurd hw (by simp)
  | some w => exact (hmem _).mpr ⟨w, ho, rfl⟩

theorem get_sortedFields {o : Obj} (h : o.Distinct) (k : String) :
    (sortedFields o).get k = sortKeys (o.get k) := by
  rw [Obj.get, Obj.get, get?_sortedFields h]
  cases o.get? k <;> rfl

theorem dictOf_concat (ps : List (String × Json)) (p : String × Json) :
    dictOf (ps ++ [p]) = (dictOf ps).set p.1 p.2 := by
  simp [dictOf, foldl_append]

theorem set_of_notMem (o : Obj) {k : String} (v : Json) (h : k ∉ o.map Prod.fst) :
    o.set k v = o ++ [(k, v)] := by
  induction o with
  | nil => rfl
  | cons e o ih =>
    obtain ⟨a, b⟩ := e
    rw [map_cons, mem_cons, not_or] at h
    rw [Obj.set, if_neg h.1, ih h.2, cons_append]

/-- A list of pairs with distinct keys is the dictionary it makes. -/
theorem dictOf_eq_self {ps : List (String × Json)} (h : (ps.map Prod.fst).Nodup) :
    dictOf ps = ps := by
  induction ps using List.reverseRecOn with
  | nil => rfl
  | append_singleton ps p ih =>
    rw [map_append, nodup_append] at h
    rw [dictOf_concat, ih h.1]
    exact set_of_notMem ps p.2 fun hmem => h.2.2 _ hmem p.1 (by simp) rfl

/-- How the text of a value starts. -/
def ValueHead (c : Char) : Prop := isJsonSpace c = false ∧ c ≠ ']' ∧ c ≠ '}' ∧ c ≠ ','

instance (c : Char) : Decidable (ValueHead c) := by unfold ValueHead; infer_instance

theorem skipWs_cons {c : Char} (hc : isJsonSpace c = false) (cs : List Char) :
    skipWs (c :: cs) = c :: cs := by
  rw [skipWs, dropWhile_cons_of_neg (by simp [hc])]

/-- The text of a number starts with a digit or the sign. -/
theorem number_head (neg : Bool) (n : ℕ) (r : List Char) :
    ∃ c t, (if neg then ['-'] else []) ++ ((natDigits n).map digitChar ++ r) = c :: t ∧
      ValueHead c ∧ c ≠ '"' ∧ c ≠ '{' ∧ c ≠ '[' := by
  have hdigit : ∀ d : Fin 10, ValueHead (digitChar d) ∧ digitChar d ≠ '"' ∧ digitChar d ≠ '{' ∧
      digitChar d ≠ '[' := by decide
  cases neg with
  | true => exact ⟨'-', _, rfl, by decide⟩
  | false =>
    cases h : natDigits n with
    | nil => exact absurd h (natDigits_ne_nil n)
    | cons d ds => exact ⟨digitChar d, _, rfl, hdigit d⟩

theorem intText_head (n : ℤ) (r : List Char) : ∃ c t, intText n ++ r = c :: t ∧
    ValueHead c ∧ c ≠ '"' ∧ c ≠ '{' ∧ c ≠ '[' := by
  have := number_head (decide (n < 0)) n.natAbs r
  simpa [intText] using this

theorem text_head (f : FloatLit) (r : List Char) : ∃ c t, f.text ++ r = c :: t ∧
    ValueHead c ∧ c ≠ '"' ∧ c ≠ '{' ∧ c ≠ '[' := by
  rw [FloatLit.text, append_assoc, append_assoc, append_assoc]
  exact number_head f.neg f.whole _

section Separators

variable (gap : List Char)

theorem encodeWith_head (x : Json) (r : List Char) :
    ∃ c t, encodeWith gap x ++ r = c :: t ∧ ValueHead c := by
  cases x with
  | null => exact ⟨'n', _, rfl, by decide⟩
  | bool b => cases b <;> exact ⟨_, _, rfl, by decide⟩
  | int n => obtain ⟨c, t, h, hc, -⟩ := intText_head n r; exact ⟨c, t, h, hc⟩
  | float f => obtain ⟨c, t, h, hc, -⟩ := text_head f r; exact ⟨c, t, h, hc⟩
  | nan => exact ⟨'N', _, rfl, by decide⟩
  | infinity neg => cases neg <;> exact ⟨_, _, rfl, by decide⟩
  | str s => exact ⟨'"', _, rfl, by decide⟩
  | arr xs => exact ⟨'[', _, rfl, by decide⟩
  | obj fs => exact ⟨'{', _, rfl, by decide⟩

theorem encodeItemsWith_head (x : Json) (xs : List Json) (r : List Char) :
    ∃ c t, encodeItemsWith gap (x :: xs) ++ r = c :: t ∧ ValueHead c := by
  cases xs with
  | nil => exact encodeWith_head gap x r
  | cons y xs =>
    rw [encodeItemsWith, append_assoc]
    exact encodeWith_head gap x _

theorem encodeFieldsWith_head (e : String × Json) (fs : List (String × Json)) (r : List Char) :
    ∃ t, encodeFieldsWith gap (e :: fs) ++ r = '"' :: t := by
  obtain ⟨k, v⟩ := e
  cases fs <;> exact ⟨_, rfl⟩

theorem length_encodeWith_pos (x : Json) : 0 < (encodeWith gap x).length := by
  obtain ⟨c, t, h, -⟩ := encodeWith_head gap x []
  rw [append_nil] at h
  rw [h]
  exact Nat.succ_pos _

variable {gap}

/-- A text that starts like a number or a constant is scanned as one. -/
theorem scanValue_scalar (n : ℕ) {c : Char} (cs : List Char)
    (hc : c ≠ '"' ∧ c ≠ '{' ∧ c ≠ '[') :
    scanValue (n + 1) (c :: cs) = (scanNumber (c :: cs)).or (scanConstant (c :: cs)) := by
  rw [scanValue]
  · exact fun t h => hc.1 (List.cons.inj h).1
  · exact fun t h => hc.2.1 (List.cons.inj h).1
  · exact fun t h => hc.2.2 (List.cons.inj h).1

theorem numberEnd_cons {c : Char} (cs : List Char)
    (hc : digitOf? c = none ∧ c ≠ '.' ∧ c ≠ 'e' ∧ c ≠ 'E') : NumberEnd (c :: cs) := by
  rintro a ⟨⟩
  exact hc

/-- White space in front of a value is passed over. -/
theorem skipWs_gap (hgap : ∀ c ∈ gap, isJsonSpace c = true) {c : Char} (hc : ValueHead c) (cs : List Char) :
    skipWs (gap ++ c :: cs) = c :: cs := by
  rw [skipWs, dropWhile_append_of_pos hgap]
  exact skipWs_cons hc.1 cs

variable (hgap : ∀ c ∈ gap, isJsonSpace c = true)
include hgap

mutual

theorem scanValue_encodeWith : ∀ (x : Json) (n : ℕ) (r : List Char), x.Distinct →
    (encodeWith gap x).length ≤ n → NumberEnd r → scanValue n (encodeWith gap x ++ r) = some (x, r)
  | x, 0, _, _, hn, _ => absurd hn (by have := length_encodeWith_pos gap x; omega)
  | .null, n + 1, r, _, _, _ => rfl
  | .bool true, n + 1, r, _, _, _ => rfl
  | .bool false, n + 1, r, _, _, _ => rfl
  | .nan, n + 1, r, _, _, _ => rfl
  | .infinity true, n + 1, r, _, _, _ => rfl
  | .infinity false, n + 1, r, _, _, _ => rfl
  | .int k, n + 1, r, _, _, hr => by
    obtain ⟨c, t, h, -, hc⟩ := intText_head k r
    rw [encodeWith, h, scanValue_scalar n t hc, ← h, scanNumber_intText k hr]
    rfl
  | .float f, n + 1, r, _, _, hr => by
    obtain ⟨c, t, h, -, hc⟩ := text_head f r
    rw [encodeWith, h, scanValue_scalar n t hc, ← h, scanNumber_text f hr]
    rfl
  | .str s, n + 1, r, _, _, _ => by
    rw [encodeWith, encodeString, cons_append, append_assoc, singleton_append]
    show (scanString _).map _ = _
    rw [scanString_encodeString]
    rfl
  | .arr [], n + 1, r, _, _, _ => rfl
  | .arr (x :: xs), n + 1, r, hx, hn, _ => by
    rw [encodeWith, length_cons, length_append, length_singleton] at hn
    have hitems := scanElements_encodeWith x xs n r hx (by omega)
    obtain ⟨c, t, h, hc⟩ := encodeItemsWith_head gap x xs (']' :: r)
    rw [encodeWith, cons_append, append_assoc, singleton_append, h]
    rw [h] at hitems
    show (match skipWs (c :: t) with
      | ']' :: rest => some (Json.arr [], rest)
      | cs => (scanElements n cs).map fun p : List Json × List Char => (Json.arr p.1, p.2)) = _
    rw [skipWs_cons hc.1]
    split
    · rename_i h'; exact absurd (List.cons.inj h').1 hc.2.1
    · rw [hitems]; rfl
  | .obj [], n + 1, r, _, _, _ => rfl
  | .obj (f :: fs), n + 1, r, hx, hn, _ => by
    rw [encodeWith, length_cons, length_append, length_singleton] at hn
    have hfields := scanMembers_encodeWith f fs n r hx.2 (by omega)
    obtain ⟨t, h⟩ := encodeFieldsWith_head gap f fs ('}' :: r)
    rw [encodeWith, cons_append, append_assoc, singleton_append, h]
    rw [h] at hfields
    show ((scanMembers n ('"' :: t)).map fun p => (Json.obj (dictOf p.1), p.2)) = _
    rw [hfields, Option.map_some, dictOf_eq_self hx.1]

theorem scanElements_encodeWith : ∀ (x : Json) (xs : List Json) (n : ℕ) (r : List Char),
    DistinctItems (x :: xs) → (encodeItemsWith gap (x :: xs)).length < n →
      scanElements n (encodeItemsWith gap (x :: xs) ++ ']' :: r) = some (x :: xs, r)
  | x, [], n + 1, r, hx, hn => by
    rw [encodeItemsWith] at hn ⊢
    rw [scanElements, scanValue_encodeWith x n _ hx.1 (by omega) (numberEnd_cons _ (by decide)),
      Option.bind_some]
    rfl
  | x, y :: xs, n + 1, r, hx, hn => by
    rw [encodeItemsWith] at hn ⊢
    rw [length_append, length_cons, length_append] at hn
    have hrest := scanElements_encodeWith y xs n r hx.2 (by omega)
    obtain ⟨c, t, h, hc⟩ := encodeItemsWith_head gap y xs (']' :: r)
    rw [append_assoc, cons_append, append_assoc, h, scanElements,
      scanValue_encodeWith x n _ hx.1 (by omega) (numberEnd_cons _ (by decide)), Option.bind_some]
    rw [h] at hrest
    show ((scanElements n (skipWs (gap ++ c :: t))).map fun q => (x :: q.1, q.2)) = _
    rw [skipWs_gap hgap hc, hrest]
    rfl

theorem scanMembers_encodeWith : ∀ (f : String × Json) (fs : List (String × Json)) (n : ℕ)
    (r : List Char), DistinctFields (f :: fs) → (encodeFieldsWith gap (f :: fs)).length < n →
      scanMembers n (encodeFieldsWith gap (f :: fs) ++ '}' :: r) = some (f :: fs, r)
  | (k, v), [], n + 1, r, hx, hn => by
    rw [encodeFieldsWith] at hn ⊢
    rw [length_append, length_cons, length_append] at hn
    obtain ⟨c, t, h, hc⟩ := encodeWith_head gap v ('}' :: r)
    have hv := scanValue_encodeWith v n ('}' :: r) hx.1 (by omega) (numberEnd_cons _ (by decide))
    rw [h] at hv
    rw [append_assoc, cons_append, append_assoc, h, encodeString, cons_append,
      append_assoc, singleton_append]
    show ((scanString _).bind _) = _
    rw [scanString_encodeString, Option.bind_some]
    show ((scanValue n (skipWs (gap ++ c :: t))).bind _) = _
    rw [skipWs_gap hgap hc, hv, Option.bind_some]
    rfl
  | (k, v), f :: fs, n + 1, r, hx, hn => by
    rw [encodeFieldsWith] at hn ⊢
    rw [length_append, length_cons, length_append, length_append,
      length_cons, length_append] at hn
    have hrest := scanMembers_encodeWith f fs n r hx.2 (by omega)
    obtain ⟨t', h'⟩ := encodeFieldsWith_head gap f fs ('}' :: r)
    rw [h'] at hrest
    obtain ⟨c, t, h, hc⟩ := encodeWith_head gap v (',' :: (gap ++ '"' :: t'))
    have hv := scanValue_encodeWith v n (',' :: (gap ++ '"' :: t')) hx.1 (by omega)
      (numberEnd_cons _ (by decide))
    rw [h] at hv
    rw [append_assoc, cons_append, append_assoc, append_assoc,
      cons_append, append_assoc, h', h, encodeString, cons_append,
      append_assoc, singleton_append]
    show ((scanString _).bind _) = _
    rw [scanString_encodeString, Option.bind_some]
    show ((scanValue n (skipWs (gap ++ c :: t))).bind _) = _
    rw [skipWs_gap hgap hc, hv, Option.bind_some]
    show ((scanMembers n (skipWs (gap ++ '"' :: t'))).map fun q => ((k, v) :: q.1, q.2)) = _
    rw [skipWs_gap hgap (by decide), hrest]
    rfl

end

/-- Reading a text that starts with a value: anything but white space after it is an error. -/
theorem loads_encodeWith {x : Json} (hx : x.Distinct) {r : List Char} (hr : NumberEnd r) :
    loads (String.ofList (encodeWith gap x ++ r)) = if skipWs r = [] then some x else none := by
  obtain ⟨c, t, h, hc⟩ := encodeWith_head gap x r
  have hscan := scanValue_encodeWith hgap x ((encodeWith gap x ++ r).length + 1) r hx
    (by rw [length_append]; omega) hr
  rw [loads, String.toList_ofList]
  rw [h] at hscan ⊢
  rw [skipWs_cons hc.1, hscan, Option.bind_some]

omit hgap

theorem encode_head (x : Json) (r : List Char) :
    ∃ c t, encode x ++ r = c :: t ∧ ValueHead c := by
  rw [encode_eq]
  exact encodeWith_head _ x r

theorem loads_encode {x : Json} (hx : x.Distinct) {r : List Char} (hr : NumberEnd r) :
    loads (String.ofList (encode x ++ r)) = if skipWs r = [] then some x else none := by
  rw [encode_eq]
  exact loads_encodeWith (forall_mem_singleton.mpr rfl) hx hr

end Separators

/-- **Reading undoes writing**, up to the order of the keys. -/
theorem loads_dumps {x : Json} (hx : x.Distinct) : loads (dumps x) = some (sortKeys x) := by
  have hnil : NumberEnd [] := fun c hc => absurd hc (by simp)
  have hws : skipWs [] = [] := rfl
  have := loads_encode (distinct_sortKeys x hx) hnil
  rwa [append_nil, if_pos hws] at this

/-! ## The text is printable ASCII -/

def Printable (cs : List Char) : Prop := ∀ c ∈ cs, 32 ≤ c.toNat ∧ c.toNat ≤ 126

instance (cs : List Char) : Decidable (Printable cs) :=
  List.decidableBAll (fun c : Char => 32 ≤ c.toNat ∧ c.toNat ≤ 126) cs

theorem printable_append {cs ds : List Char} (hc : Printable cs) (hd : Printable ds) :
    Printable (cs ++ ds) := by
  intro c h
  rcases mem_append.mp h with h | h
  · exact hc c h
  · exact hd c h

theorem printable_cons {c : Char} {cs : List Char} (hc : 32 ≤ c.toNat ∧ c.toNat ≤ 126)
    (h : Printable cs) : Printable (c :: cs) := by
  intro a ha
  rcases mem_cons.mp ha with rfl | ha
  · exact hc
  · exact h a ha

theorem printable_nil : Printable [] := fun c hc => absurd hc (by simp)

theorem printable_hexDigit (n : ℕ) (hn : n < 16) :
    32 ≤ (hexDigit n).toNat ∧ (hexDigit n).toNat ≤ 126 := by
  revert n; decide

theorem printable_unitEscape (n : ℕ) : Printable (unitEscape n) := by
  have hdigit : ∀ k : ℕ, 32 ≤ (hexDigit (k % 16)).toNat ∧ (hexDigit (k % 16)).toNat ≤ 126 :=
    fun k => printable_hexDigit _ (Nat.mod_lt _ (by decide))
  exact printable_cons (by decide) (printable_cons (by decide) (printable_cons (hdigit _)
    (printable_cons (hdigit _) (printable_cons (hdigit _) (printable_cons (hdigit _)
      printable_nil)))))

theorem printable_escapeChar (c : Char) : Printable (escapeChar c) := by
  unfold escapeChar
  cases hf : shortEscapes.find? (·.2 = c.toNat) with
  | some e =>
    have hall : ∀ e ∈ shortEscapes, 32 ≤ e.1.toNat ∧ e.1.toNat ≤ 126 := by decide
    exact printable_cons (by decide)
      (printable_cons (hall e (mem_of_find?_eq_some hf)) printable_nil)
  | none =>
    by_cases hp : 32 ≤ c.toNat ∧ c.toNat ≤ 126
    · simp only [if_pos hp]
      exact printable_cons hp printable_nil
    · simp only [if_neg hp]
      intro d hd
      obtain ⟨u, -, hd⟩ := mem_flatMap.mp hd
      exact printable_unitEscape u d hd

theorem printable_encodeString (s : String) : Printable (encodeString s) := by
  refine printable_cons (by decide) (printable_append ?_
    (printable_cons (by decide) printable_nil))
  intro d hd
  obtain ⟨c, -, hd⟩ := mem_flatMap.mp hd
  exact printable_escapeChar c d hd

theorem printable_digits (ds : List (Fin 10)) : Printable (ds.map digitChar) := by
  have hdigit : ∀ d : Fin 10, 32 ≤ (digitChar d).toNat ∧ (digitChar d).toNat ≤ 126 := by decide
  intro c hc
  obtain ⟨d, -, rfl⟩ := mem_map.mp hc
  exact hdigit d

theorem printable_sign (neg : Bool) : Printable (if neg then ['-'] else []) := by
  cases neg with
  | true => exact printable_cons (by decide) printable_nil
  | false => exact printable_nil

theorem printable_intText (n : ℤ) : Printable (intText n) := by
  have := printable_append (printable_sign (decide (n < 0))) (printable_digits (natDigits n.natAbs))
  simpa [intText] using this

theorem printable_text (f : FloatLit) : Printable f.text := by
  refine printable_append (printable_append (printable_append (printable_sign f.neg)
    (printable_digits _)) ?_) ?_
  · split_ifs
    · exact printable_nil
    · exact printable_cons (by decide) (printable_digits _)
  · cases f.exp with
    | none => exact printable_nil
    | some x =>
      refine printable_cons (by cases x.upper <;> decide) (printable_append ?_ (printable_digits _))
      rcases x.sign with _ | _ | _
      · exact printable_nil
      · exact printable_cons (by decide) printable_nil
      · exact printable_cons (by decide) printable_nil

mutual

theorem printable_encode : ∀ x : Json, Printable (encode x)
  | .null => by decide
  | .bool true => by decide
  | .bool false => by decide
  | .nan => by decide
  | .infinity true => by decide
  | .infinity false => by decide
  | .int n => printable_intText n
  | .float f => printable_text f
  | .str s => printable_encodeString s
  | .arr xs => printable_cons (by decide) (printable_append (printable_encodeItems xs)
      (printable_cons (by decide) printable_nil))
  | .obj fs => printable_cons (by decide) (printable_append (printable_encodeFields fs)
      (printable_cons (by decide) printable_nil))

theorem printable_encodeItems : ∀ xs : List Json, Printable (encodeItems xs)
  | [] => printable_nil
  | [x] => printable_encode x
  | x :: y :: xs => printable_append (printable_encode x) (printable_cons (by decide)
      (printable_cons (by decide) (printable_encodeItems (y :: xs))))

theorem printable_encodeFields : ∀ fs : List (String × Json), Printable (encodeFields fs)
  | [] => printable_nil
  | [(k, v)] => printable_append (printable_encodeString k) (printable_cons (by decide)
      (printable_cons (by decide) (printable_encode v)))
  | (k, v) :: f :: fs => printable_append (printable_encodeString k) (printable_cons (by decide)
      (printable_cons (by decide) (printable_append (printable_encode v) (printable_cons (by decide)
        (printable_cons (by decide) (printable_encodeFields (f :: fs)))))))

end

end PtaasBench.Py
