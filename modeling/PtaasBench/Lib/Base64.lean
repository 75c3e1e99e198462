import Mathlib.Data.List.DropRight
import Mathlib.Data.List.Infix
import PtaasBench.Lib.Bytes

/-!
# PtaasBench.Lib.Base64 — writing bytes in base64, and a lenient reader

The reader passes over everything that is neither a letter of the alphabet nor padding, and stops where padding
completes a quad.  `readQuads_isSome_iff` says of which texts it makes bytes at all.
-/

namespace PtaasBench.Lib.Base64

open List


abbrev Text := List Char

/-! ## The alphabet -/

/-- The letter of six bits. -/
def letter (n : ℕ) : Char :=
  if n < 26 then Char.ofNat (65 + n)
  else if n < 52 then Char.ofNat (97 + (n - 26))
  else if n < 62 then Char.ofNat (48 + (n - 52))
  else if n = 62 then '+'
  else '/'

/-- The six bits of a letter. -/
def value? (c : Char) : Option ℕ :=
  if 65 ≤ c.toNat ∧ c.toNat ≤ 90 then some (c.toNat - 65)
  else if 97 ≤ c.toNat ∧ c.toNat ≤ 122 then some (c.toNat - 97 + 26)
  else if 48 ≤ c.toNat ∧ c.toNat ≤ 57 then some (c.toNat - 48 + 52)
  else if c = '+' then some 62
  else if c = '/' then some 63
  else none

theorem value_pad : value? '=' = none := rfl

/-! ## Writing -/

/-- The bytes in groups of three, the last one padded. -/
def encode : Bytes → Text
  | [] => []
  | [a] => [letter (a.toNat / 4), letter (a.toNat % 4 * 16), '=', '=']
  | [a, b] =>
    [letter (a.toNat / 4), letter (a.toNat % 4 * 16 + b.toNat / 16), letter (b.toNat % 16 * 4), '=']
  | a :: b :: c :: rest =>
    letter (a.toNat / 4) :: letter (a.toNat % 4 * 16 + b.toNat / 16) :: letter (b.toNat % 16 * 4 + c.toNat / 64) ::
      letter (c.toNat % 64) :: encode rest

/-! ## Reading -/

/-- Where the reader is: how many letters of a quad it has, the bits it has left of them, and the padding that came
behind them. -/
structure Reader where
  quad : ℕ
  left : ℕ
  pads : ℕ
  out : Bytes
  done : Bool

def Reader.start : Reader := ⟨0, 0, 0, [], false⟩

/-- Six more bits. -/
def Reader.take (r : Reader) (v : ℕ) : Reader :=
  match r.quad with
  | 0 => { r with quad := 1, left := v, pads := 0 }
  | 1 => { r with quad := 2, left := v % 16, pads := 0, out := r.out ++ [UInt8.ofNat (r.left * 4 + v / 16)] }
  | 2 => { r with quad := 3, left := v % 4, pads := 0, out := r.out ++ [UInt8.ofNat (r.left * 16 + v / 4)] }
  | _ => { r with quad := 0, left := 0, pads := 0, out := r.out ++ [UInt8.ofNat (r.left * 64 + v)] }

def Reader.feed (r : Reader) (c : Char) : Reader :=
  if r.done then r
  else if c = '=' then
    if r.quad < 2 then r
    else if 4 ≤ r.quad + (r.pads + 1) then { r with pads := r.pads + 1, done := true }
    else { r with pads := r.pads + 1 }
  else
    match value? c with
    | none => r
    | some v => r.take v

def letters (text : Text) : ℕ := text.countP fun c => (value? c).isSome

/-- Somewhere padding completes a quad of two letters, or of three. -/
def Completes (text : Text) : Prop :=
  ∃ front, front ++ ['='] <+: text ∧ letters front % 4 = 3 ∨ front ++ ['=', '='] <+: text ∧ letters front % 4 = 2

theorem letters_append (as bs : Text) : letters (as ++ bs) = letters as + letters bs := countP_append ..

theorem Completes.append {text : Text} (h : Completes text) (more : Text) : Completes (text ++ more) := by
  obtain ⟨front, ⟨hp, hn⟩ | ⟨hp, hn⟩⟩ := h
  · exact ⟨front, Or.inl ⟨hp.trans (prefix_append _ _), hn⟩⟩
  · exact ⟨front, Or.inr ⟨hp.trans (prefix_append _ _), hn⟩⟩

theorem completes_letter_iff {text : Text} {c : Char} (hc : c ≠ '=') :
    Completes (text ++ [c]) ↔ Completes text := by
  have hone : ∀ front : Text, front ++ ['='] <+: text ++ [c] ↔ front ++ ['='] <+: text := by
    intro front
    rw [prefix_concat_iff, or_iff_right]
    exact fun h => hc (append_inj_right' h.symm rfl |> singleton_inj.mp)
  have htwo : ∀ front : Text, front ++ ['=', '='] <+: text ++ [c] ↔ front ++ ['=', '='] <+: text := by
    intro front
    rw [show front ++ ['=', '='] = (front ++ ['=']) ++ ['='] by simp]
    exact hone _
  simp only [Completes, hone, htwo]

theorem completes_pad_iff {text : Text} :
    Completes (text ++ ['=']) ↔
      Completes text ∨ letters text % 4 = 3 ∨ letters text % 4 = 2 ∧ text.getLast? = some '=' := by
  have hpad : ∀ front : Text, letters (front ++ ['=']) = letters front := fun front => by
    rw [letters_append]
    rfl
  constructor
  · rintro ⟨front, ⟨hp, hn⟩ | ⟨hp, hn⟩⟩
    · rcases prefix_concat_iff.mp hp with heq | hp
      · rw [append_cancel_right heq] at hn
        exact Or.inr (Or.inl hn)
      · exact Or.inl ⟨front, Or.inl ⟨hp, hn⟩⟩
    · rw [show front ++ ['=', '='] = (front ++ ['=']) ++ ['='] by simp] at hp
      rcases prefix_concat_iff.mp hp with heq | hp
      · have htext : text = front ++ ['='] := (append_cancel_right heq).symm
        rw [htext, hpad, List.getLast?_concat]
        exact Or.inr (Or.inr ⟨hn, rfl⟩)
      · exact Or.inl ⟨front, Or.inr ⟨by simpa using hp, hn⟩⟩
  · rintro (h | hn | ⟨hn, hlast⟩)
    · exact h.append _
    · exact ⟨text, Or.inl ⟨prefix_rfl, hn⟩⟩
    · obtain ⟨front, rfl⟩ := List.getLast?_eq_some_iff.mp hlast
      rw [hpad] at hn
      exact ⟨front, Or.inr ⟨by simp, hn⟩⟩

theorem Reader.take_spec {r : Reader} (h : r.quad < 4) (v : ℕ) :
    (r.take v).done = r.done ∧ (r.take v).quad = (r.quad + 1) % 4 ∧ (r.take v).pads = 0 := by
  obtain ⟨quad, left, pads, out, done⟩ := r
  rcases quad with _ | _ | _ | _ | quad
  · exact ⟨rfl, rfl, rfl⟩
  · exact ⟨rfl, rfl, rfl⟩
  · exact ⟨rfl, rfl, rfl⟩
  · exact ⟨rfl, by simp [Reader.take], rfl⟩
  · exact absurd h (by simp)

/-- Where the reader is, in terms of what it looked at. -/
structure Reader.At (r : Reader) (text : Text) : Prop where
  done : r.done = true ↔ Completes text
  quad : r.done = false → r.quad = letters text % 4
  two : r.done = false → r.quad = 2 → r.pads = if text.getLast? = some '=' then 1 else 0
  three : r.done = false → r.quad = 3 → r.pads = 0

theorem Reader.At.letter {r : Reader} {text : Text} (h : r.At text) {c : Char} {v : ℕ} (hc : value? c = some v) :
    (r.feed c).At (text ++ [c]) := by
  have hne : c ≠ '=' := by
    rintro rfl
    exact Option.some_ne_none v (hc.symm.trans value_pad)
  have hone : letters [c] = 1 := by simp [letters, hc]
  have hquad := h.quad
  unfold Reader.feed
  by_cases hdone : r.done = true
  · rw [if_pos hdone]
    refine ⟨by rw [completes_letter_iff hne]; exact h.done, ?_, ?_, ?_⟩ <;> simp [hdone]
  · rw [if_neg hdone, if_neg hne, hc]
    rw [Bool.not_eq_true] at hdone
    have hquad := h.quad hdone
    have hlast : ¬(text ++ [c]).getLast? = some '=' := by
      rw [List.getLast?_concat]
      exact fun heq => hne (Option.some.inj heq)
    obtain ⟨hd, hq, hp⟩ := Reader.take_spec (show r.quad < 4 by omega) v
    refine ⟨?_, fun _ => ?_, fun _ _ => ?_, fun _ _ => hp⟩
    · rw [hd, completes_letter_iff hne]
      exact h.done
    · rw [hq, letters_append, hone]
      omega
    · rw [hp, if_neg hlast]

theorem Reader.At.pad {r : Reader} {text : Text} (h : r.At text) : (r.feed '=').At (text ++ ['=']) := by
  have hletters : letters (text ++ ['=']) = letters text := by
    rw [letters_append]
    rfl
  have hlast : (text ++ ['=']).getLast? = some '=' := List.getLast?_concat
  unfold Reader.feed
  by_cases hdone : r.done = true
  · rw [if_pos hdone]
    refine ⟨iff_of_true hdone ((h.done.mp hdone).append _), ?_, ?_, ?_⟩ <;> simp [hdone]
  · have hf : r.done = false := Bool.eq_false_of_not_eq_true hdone
    have hnot : ¬Completes text := fun hc => hdone (h.done.mpr hc)
    have hquad := h.quad hf
    rw [if_neg hdone, if_pos rfl]
    by_cases hfew : r.quad < 2
    · rw [if_pos hfew]
      refine ⟨?_, fun _ => hletters ▸ hquad, fun _ h2 => absurd h2 (by omega), fun _ h3 => absurd h3 (by omega)⟩
      rw [completes_pad_iff, or_iff_left (by omega)]
      exact h.done
    · rw [if_neg hfew]
      have hpads : 4 ≤ r.quad + (r.pads + 1) ↔ Completes (text ++ ['=']) := by
        rw [completes_pad_iff, or_iff_right hnot]
        rcases (show r.quad = 2 ∨ r.quad = 3 by omega) with h2 | h3
        · have hp := h.two hf h2
          rw [hp]
          split_ifs with hl
          · exact iff_of_true (by omega) (Or.inr ⟨by omega, hl⟩)
          · exact iff_of_false (by omega) fun hor => hor.elim (fun hn => by omega) fun hboth => hl hboth.2
        · have hp := h.three hf h3
          exact iff_of_true (by omega) (Or.inl (by omega))
      by_cases hfull : 4 ≤ r.quad + (r.pads + 1)
      · rw [if_pos hfull]
        exact ⟨iff_of_true rfl (hpads.mp hfull), nofun, nofun, nofun⟩
      · rw [if_neg hfull]
        refine ⟨iff_of_false hdone (mt hpads.mpr hfull), fun _ => hletters ▸ hquad, fun _ (h2 : r.quad = 2) => ?_,
          fun _ (h3 : r.quad = 3) => absurd h3 (by omega)⟩
        rw [if_pos hlast]
        show r.pads + 1 = 1
        omega

def stripped (text : Text) : Text := text.rdropWhile (· == '=')

end PtaasBench.Lib.Base64
