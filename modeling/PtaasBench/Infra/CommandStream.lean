import PtaasBench.Lib.Bytes
import PtaasBench.Py.Text

/-!
# PtaasBench.Infra.CommandStream — the arguments on a line of the store's command stream

`unquote_arguments` of the store tap (`store_taps.py`), and the way the store writes arguments.  What a
decimal digit outside ASCII stands for is a parameter.
-/

namespace PtaasBench.Infra.CommandStream

open Py Lib List

abbrev Text := List Char

/-! ## The reader -/

section Reader

variable (decimal : Char → Option ℕ)

/-- A digit of a number in base 16. -/
def hexValue (c : Char) : Option ℕ :=
  if c.isDigit then some (c.toNat - 48)
  else if 97 ≤ c.toNat ∧ c.toNat ≤ 102 then some (c.toNat - 87)
  else if 65 ≤ c.toNat ∧ c.toNat ≤ 70 then some (c.toNat - 55)
  else if c.toNat < 128 then none
  else decimal c

/-- `chr(int(text, 16))` of two characters: both are digits, or one is and the other a sign or a blank. -/
def chrHex (a b : Char) : Option Char :=
  match hexValue decimal a, hexValue decimal b with
  | some high, some low => some (Char.ofNat (16 * high + low))
  | none, some low =>
    if isSpace a ∨ a = '+' then some (Char.ofNat low)
    else if a = '-' ∧ low = 0 then some (Char.ofNat 0)
    else none
  | some high, none => if isSpace b then some (Char.ofNat high) else none
  | none, none => none

/-- `{"n": "\n", "r": "\r", "t": "\t"}.get(following, following)` -/
def letter (following : Char) : Char :=
  if following = 'n' then '\n' else if following = 'r' then '\r' else if following = 't' then '\t' else following

/-- One character within quotes, of which the first is given, and what is left. -/
def readChar (char : Char) (behind : Text) : Char × Text :=
  if char = '\\' then
    match behind with
    | [] => (char, [])
    | following :: more =>
      if following = 'x' then
        match more with
        | a :: b :: rest =>
          match chrHex decimal a b with
          | some c => (c, rest)
          | none => (letter following, more)
        | _ => (letter following, more)
      else (letter following, more)
  else (char, behind)

theorem length_readChar (char : Char) (behind : Text) : (readChar decimal char behind).2.length ≤ behind.length := by
  rw [readChar.eq_def]
  split_ifs with hslash
  · rcases behind with _ | ⟨following, more⟩
    · exact Nat.le_refl _
    · dsimp only
      split_ifs with hx
      · rcases more with _ | ⟨a, _ | ⟨b, rest⟩⟩
        · exact Nat.le_succ _
        · exact Nat.le_succ _
        · dsimp only
          cases chrHex decimal a b with
          | none => exact Nat.le_succ _
          | some c =>
            simp only [length_cons]
            omega
      · exact Nat.le_succ _
  · exact Nat.le_refl _

/-- The characters up to the closing quote, and what is behind it. -/
def readQuoted (text : Text) : Text × Text :=
  match text with
  | [] => ([], [])
  | char :: behind =>
    if char = '"' then ([], behind)
    else
      let rest := readQuoted (readChar decimal char behind).2
      ((readChar decimal char behind).1 :: rest.1, rest.2)
termination_by text.length
decreasing_by exact Nat.lt_succ_of_le (length_readChar decimal char behind)

theorem length_readQuoted (text : Text) : (readQuoted decimal text).2.length ≤ text.length := by
  induction hn : text.length using Nat.strong_induction_on generalizing text with
  | _ n ih =>
    subst hn
    rcases text with _ | ⟨char, behind⟩
    · rw [readQuoted]
    · have hchar := length_readChar decimal char behind
      rw [readQuoted]
      split_ifs with hquote
      · exact Nat.le_succ _
      · have hrest := ih _ (Nat.lt_succ_of_le hchar) _ rfl
        dsimp only
        rw [length_cons]
        omega

/-- One argument that starts with this character, and what is left. -/
def readArgument (char : Char) (behind : Text) : Text × Text :=
  if char = '"' then readQuoted decimal behind
  else (char :: behind.takeWhile (· ≠ ' '), behind.dropWhile (· ≠ ' '))

theorem length_readArgument (char : Char) (behind : Text) :
    (readArgument decimal char behind).2.length ≤ behind.length := by
  rw [readArgument]
  split_ifs with hquote
  · exact length_readQuoted decimal behind
  · exact (dropWhile_sublist _).length_le

/-- `unquote_arguments` -/
def unquoteArguments (rest : Text) : List Text :=
  match _h : rest.dropWhile (· = ' ') with
  | [] => []
  | char :: behind => (readArgument decimal char behind).1 :: unquoteArguments (readArgument decimal char behind).2
termination_by rest.length
decreasing_by
  have hargument := length_readArgument decimal char behind
  have hspaces : (char :: behind).length ≤ rest.length := _h ▸ (dropWhile_sublist _).length_le
  exact lt_of_le_of_lt hargument hspaces

end Reader

/-! ## The writer -/

/-- `%02x` -/
def hex2 (n : ℕ) : Text := [Nat.digitChar (n / 16), Nat.digitChar (n % 16)]

/-- A byte of an argument, as the store prints it. -/
def printByte (b : UInt8) : Text :=
  if b = 92 then ['\\', '\\']
  else if b = 34 then ['\\', '"']
  else if b = 10 then ['\\', 'n']
  else if b = 13 then ['\\', 'r']
  else if b = 9 then ['\\', 't']
  else if b = 7 then ['\\', 'a']
  else if b = 8 then ['\\', 'b']
  else if 32 ≤ b.toNat ∧ b.toNat ≤ 126 then [Char.ofNat b.toNat]
  else '\\' :: 'x' :: hex2 b.toNat

def printArgument (argument : Bytes) : Text := '"' :: (argument.flatMap printByte ++ ['"'])

/-- The arguments of a command on a line. -/
def printArguments (arguments : List Bytes) : Text := [' '].intercalate (arguments.map printArgument)

/-- One character per byte. -/
def latin1 (argument : Bytes) : Text := argument.map fun b => Char.ofNat b.toNat

/-! ## What is read back -/

/-- The tap knows the letters of newline, return and tab only. -/
def readBack (b : UInt8) : Char := if b = 7 then 'a' else if b = 8 then 'b' else Char.ofNat b.toNat

section ReadBack

variable (decimal : Char → Option ℕ)

theorem chrHex_hex2 {n : ℕ} (h : n < 256) :
    chrHex decimal (Nat.digitChar (n / 16)) (Nat.digitChar (n % 16)) = some (Char.ofNat n) := by
  have hdigit : ∀ d < 16, ∀ decimal, hexValue decimal (Nat.digitChar d) = some d := by
    intro d hd decimal
    have hcases : ∀ d < 16, (Nat.digitChar d).isDigit = true ∧ (Nat.digitChar d).toNat - 48 = d ∨
        (Nat.digitChar d).isDigit = false ∧ (97 ≤ (Nat.digitChar d).toNat ∧ (Nat.digitChar d).toNat ≤ 102) ∧
          (Nat.digitChar d).toNat - 87 = d := by decide
    rcases hcases d hd with ⟨hten, hvalue⟩ | ⟨hten, hletter, hvalue⟩
    · rw [hexValue, if_pos hten, hvalue]
    · rw [hexValue, if_neg (by rw [hten]; decide), if_pos hletter, hvalue]
  rw [chrHex, hdigit _ (by omega), hdigit _ (Nat.mod_lt _ (by decide))]
  dsimp only
  rw [Nat.div_add_mod]

/-- A byte is read back as one character. -/
theorem readChar_printByte (b : UInt8) (rest : Text) :
    ∃ c t, printByte b = c :: t ∧ c ≠ '"' ∧ readChar decimal c (t ++ rest) = (readBack b, rest) := by
  by_cases hletter : b ∈ [92, 34, 10, 13, 9, 7, 8]
  · simp only [mem_cons, not_mem_nil, or_false] at hletter
    rcases hletter with rfl | rfl | rfl | rfl | rfl | rfl | rfl
    all_goals exact ⟨_, _, rfl, by decide, rfl⟩
  · simp only [mem_cons, not_mem_nil, or_false, not_or] at hletter
    obtain ⟨h92, h34, h10, h13, h9, h7, h8⟩ := hletter
    rw [printByte, if_neg h92, if_neg h34, if_neg h10, if_neg h13, if_neg h9, if_neg h7, if_neg h8, readBack,
      if_neg h7, if_neg h8]
    have hchar : ∀ n < 256, n ≠ 92 → Char.ofNat n ≠ '\\' := by decide +kernel
    have hquote : ∀ n < 256, n ≠ 34 → Char.ofNat n ≠ '"' := by decide +kernel
    have hvalue : ∀ n : UInt8, b ≠ n → b.toNat ≠ n.toNat := fun n hne heq => hne (UInt8.toNat_inj.mp heq)
    by_cases hprint : 32 ≤ b.toNat ∧ b.toNat ≤ 126
    · rw [if_pos hprint]
      refine ⟨_, _, rfl, hquote _ b.toNat_lt (hvalue 34 h34), ?_⟩
      rw [readChar.eq_def, if_neg (hchar _ b.toNat_lt (hvalue 92 h92))]
      rfl
    · rw [if_neg hprint]
      refine ⟨_, _, rfl, by decide, ?_⟩
      rw [readChar.eq_def, if_pos rfl]
      dsimp only [hex2, cons_append]
      rw [if_pos rfl, chrHex_hex2 decimal b.toNat_lt]
      rfl

/-- The bytes between the quotes, and what is behind the closing one. -/
theorem readQuoted_printed (argument : Bytes) (rest : Text) :
    readQuoted decimal (argument.flatMap printByte ++ '"' :: rest) = (argument.map readBack, rest) := by
  induction argument with
  | nil =>
    rw [flatMap_nil, nil_append, readQuoted, if_pos rfl]
    rfl
  | cons b argument ih =>
    obtain ⟨c, t, hprint, hquote, hread⟩ := readChar_printByte decimal b (argument.flatMap printByte ++ '"' :: rest)
    rw [flatMap_cons, hprint, append_assoc, cons_append, readQuoted, if_neg hquote, hread]
    dsimp only
    rw [ih]
    rfl

theorem unquoteArguments_nil : unquoteArguments decimal [] = [] := by
  rw [unquoteArguments]
  rfl

theorem unquoteArguments_space (rest : Text) :
    unquoteArguments decimal (' ' :: rest) = unquoteArguments decimal rest := by
  have hspace : (' ' :: rest).dropWhile (· = ' ') = rest.dropWhile (· = ' ') :=
    dropWhile_cons_of_pos (by decide)
  rw [unquoteArguments, unquoteArguments, hspace]

theorem unquoteArguments_quoted (argument : Bytes) (rest : Text) :
    unquoteArguments decimal (printArgument argument ++ rest) =
      argument.map readBack :: unquoteArguments decimal rest := by
  have hquote : (printArgument argument ++ rest).dropWhile (· = ' ') =
      '"' :: (argument.flatMap printByte ++ '"' :: rest) := by
    rw [printArgument, cons_append, append_assoc, singleton_append]
    exact dropWhile_cons_of_neg (by decide)
  rw [unquoteArguments, hquote]
  dsimp only
  rw [readArgument, if_pos rfl, readQuoted_printed]

/-- The tap reads every argument, with bell and backspace as the letters they are printed with. -/
theorem unquoteArguments_printed (arguments : List Bytes) :
    unquoteArguments decimal (printArguments arguments) = arguments.map (·.map readBack) := by
  induction arguments with
  | nil => exact unquoteArguments_nil decimal
  | cons argument arguments ih =>
    cases arguments with
    | nil =>
      have hone := unquoteArguments_quoted decimal argument []
      rw [append_nil, unquoteArguments_nil] at hone
      rw [printArguments, map_singleton, intercalate_singleton, hone]
      rfl
    | cons next arguments =>
      have hline : printArguments (argument :: next :: arguments) =
          printArgument argument ++ ' ' :: printArguments (next :: arguments) := by
        rw [printArguments, map_cons, map_cons, intercalate_cons_cons, append_assoc]
        rfl
      rw [hline, unquoteArguments_quoted, unquoteArguments_space, ih]
      rfl

theorem readBack_eq_iff (b : UInt8) : readBack b = Char.ofNat b.toNat ↔ b ≠ 7 ∧ b ≠ 8 := by
  rw [readBack]
  split_ifs with h7 h8
  · subst h7
    exact iff_of_false (by decide) (by decide)
  · subst h8
    exact iff_of_false (by decide) (by decide)
  · exact iff_of_true rfl ⟨h7, h8⟩

/-- The arguments come back as they were exactly if none has a bell or a backspace. -/
theorem arguments_read_back_iff (arguments : List Bytes) :
    unquoteArguments decimal (printArguments arguments) = arguments.map latin1 ↔
      ∀ argument ∈ arguments, 7 ∉ argument ∧ 8 ∉ argument := by
  rw [unquoteArguments_printed, map_inj_left]
  refine forall₂_congr fun argument _ => ?_
  rw [latin1, map_inj_left]
  simp only [readBack_eq_iff]
  constructor
  · intro h
    exact ⟨fun h7 => (h 7 h7).1 rfl, fun h8 => (h 8 h8).2 rfl⟩
  · rintro ⟨h7, h8⟩ b hb
    refine ⟨?_, ?_⟩
    · rintro rfl
      exact h7 hb
    · rintro rfl
      exact h8 hb

end ReadBack

/-- `GET` of a key with a bell in it. -/
theorem bell_misread : ∃ arguments : List Bytes, ∀ decimal,
    unquoteArguments decimal (printArguments arguments) = [['G', 'E', 'T'], ['k', 'a']] ∧
      arguments.map latin1 = [['G', 'E', 'T'], ['k', Char.ofNat 7]] :=
  ⟨[[71, 69, 84], [107, 7]], fun decimal => ⟨(unquoteArguments_printed decimal _).trans (by decide), by decide⟩⟩

end PtaasBench.Infra.CommandStream
