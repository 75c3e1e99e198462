import Mathlib.Data.Prod.Lex
import Mathlib.Data.String.Basic
import PtaasBench.Lib.Ranking
import PtaasBench.EdgeResolver.Recorder

/-!
# PtaasBench.EdgeResolver.Tokens — the identifier of a request (`tokens.py`)

The candidates are sorted by the rank and the name of their source, and the first one that is an
identifier is taken.  The sort is stable: two candidates of one source stay in the order of the bag.
-/

namespace PtaasBench.EdgeResolver

open Py Lib

def sourceRanks : List (String × ℕ) :=
  [("dns_label", 10), ("host_header", 20), ("path_segment", 30), ("query_t", 40), ("smtp_localpart", 50),
    ("ldap_dn", 60), ("smtp_domain", 70), ("smtp_sender", 75)]

/-- One place an identifier might be hiding, with the rule that found it. -/
structure Candidate where
  source : String
  value : String
deriving DecidableEq

def Candidate.rank (c : Candidate) : ℕ := (sourceRanks.lookup c.source).getD 99

/-- `(c.rank, c.source)` -/
def Candidate.key (c : Candidate) : ℕ ×ₗ String := toLex (c.rank, c.source)

/-- `[a-z0-9]` -/
def isTokenChar (c : Char) : Bool := c.isLower || c.isDigit

/-- `[a-z0-9]{4,32}` -/
def isLabel (s : List Char) : Bool := decide (4 ≤ s.length ∧ s.length ≤ 32) && s.all isTokenChar

/-- `[a-z0-9][a-z0-9-]{0,63}` -/
def isNonce : List Char → Bool
  | [] => false
  | c :: s => isTokenChar c && decide (s.length ≤ 63) && s.all fun c => isTokenChar c || c == '-'

/-- The text up to where `$` matches: the end, or a newline that ends it. -/
def beforeEnd (s : List Char) : List Char := if s.getLast? = some '\n' then s.dropLast else s

section Extract

variable [Runtime]

/-- `value.strip().lower()` -/
def folded (value : String) : String := lower (strip value)

/-- `parse_token` -/
def parseToken (value : String) : Option (String × Option String) :=
  if value = "" then none
  else
    let text := beforeEnd (folded value).toList
    if isLabel text then some (folded value, none)
    else
      -- the first dash ends the label, which has none
      let label := text.takeWhile (· != '-')
      match text.dropWhile (· != '-') with
      | [] => none
      | _ :: nonce =>
        if isLabel label && isNonce nonce then some (String.ofList label, some (String.ofList nonce)) else none

def Candidate.isToken (c : Candidate) : Bool := (parseToken c.value).isSome

/-- `extract` -/
def extract (candidates : List Candidate) : Extraction :=
  let ordered := (candidates.filter fun c => c.value ≠ "").insertionSort fun a b => a.key ≤ b.key
  match ordered.find? (·.isToken) with
  | some c =>
    { token := (parseToken c.value).map Prod.fst
      nonce := (parseToken c.value).bind Prod.snd
      source := some c.source
      candidate := some (sliceTo (folded c.value) 128) }
  | none => { candidate := ordered.head?.map fun c => sliceTo (folded c.value) 128 }

/-! ## The order of the bag -/

/-- The candidate that is taken. -/
def chosen (candidates : List Candidate) : Option Candidate :=
  firstRanked (fun a b : Candidate => a.key ≤ b.key) (·.isToken) candidates

/-- An identifier in a bag that no identifier of the bag is ranked before. -/
def BestToken (candidates : List Candidate) (c : Candidate) : Prop :=
  IsBest (fun a b : Candidate => a.key ≤ b.key) (·.isToken) candidates c

instance : Std.Total fun a b : Candidate => a.key ≤ b.key := ⟨fun a b => le_total a.key b.key⟩

instance : IsTrans Candidate fun a b => a.key ≤ b.key := ⟨fun _ _ _ => le_trans⟩

theorem find?_ordered (candidates : List Candidate) :
    ((candidates.filter fun c => c.value ≠ "").insertionSort fun a b => a.key ≤ b.key).find? (·.isToken) =
      chosen candidates := by
  rw [find?_insertionSort, firstRanked_filter, chosen]
  -- an identifier is not empty
  have hboth : (fun c : Candidate => decide (c.value ≠ "") && c.isToken) = (·.isToken) := by
    funext c
    by_cases hc : c.value = ""
    · rw [decide_eq_false (not_not.mpr hc), Bool.false_and, Candidate.isToken, parseToken, if_pos hc]
      rfl
    · rw [decide_eq_true hc, Bool.true_and]
  rw [hboth]

/-- What is said of the identifier of a candidate: its label, and where it is from. -/
def Candidate.provenance (c : Candidate) : Option String × String := ((parseToken c.value).map Prod.fst, c.source)

theorem extract_eq (candidates : List Candidate) :
    (extract candidates).token = (chosen candidates).bind (fun c => (parseToken c.value).map Prod.fst) ∧
      (extract candidates).source = (chosen candidates).map (·.source) := by
  rw [extract, find?_ordered]
  cases chosen candidates <;> exact ⟨rfl, rfl⟩

/-- Two bags give one identifier from one source just if their chosen candidates do. -/
theorem extract_alike_iff {as bs : List Candidate} :
    ((extract as).token = (extract bs).token ∧ (extract as).source = (extract bs).source) ↔
      (chosen as).map (·.provenance) = (chosen bs).map (·.provenance) := by
  rw [(extract_eq as).1, (extract_eq as).2, (extract_eq bs).1, (extract_eq bs).2]
  cases chosen as with
  | none =>
    cases chosen bs with
    | none => exact iff_of_true ⟨rfl, rfl⟩ rfl
    | some b => exact iff_of_false (fun h => Option.some_ne_none _ h.2.symm) fun h => Option.some_ne_none _ h.symm
  | some a =>
    cases chosen bs with
    | none => exact iff_of_false (fun h => Option.some_ne_none _ h.2) fun h => Option.some_ne_none _ h
    | some b =>
      rw [Option.map_some, Option.map_some, Option.map_some, Option.map_some, Option.some_inj, Option.some_inj,
        Option.bind_some, Option.bind_some, Candidate.provenance, Candidate.provenance, Prod.mk.injEq]

theorem source_of_best {candidates : List Candidate} {a b : Candidate} (ha : BestToken candidates a)
    (hb : BestToken candidates b) : a.source = b.source := by
  have hkey : a.key = b.key := le_antisymm (ha.best b hb.mem hb.hit) (hb.best a ha.mem ha.hit)
  exact congrArg (fun k => (ofLex k).2) hkey

/-- The identifier of a bag and its source are the same in every order of the bag just if the best
identifiers of the bag have one label. -/
theorem extract_order_iff (candidates : List Candidate) :
    (∀ bag, bag.Perm candidates → (extract bag).token = (extract candidates).token ∧
      (extract bag).source = (extract candidates).source) ↔
    ∀ a b, BestToken candidates a → BestToken candidates b →
      (parseToken a.value).map Prod.fst = (parseToken b.value).map Prod.fst := by
  simp only [extract_alike_iff]
  refine (forall_perm_firstRanked_iff Candidate.provenance candidates).trans ?_
  refine forall_congr' fun a => forall_congr' fun b => forall_congr' fun ha => forall_congr' fun hb => ?_
  rw [Candidate.provenance, Candidate.provenance, Prod.mk.injEq, and_iff_left (source_of_best ha hb)]

end Extract

/-- Two recipients, in either order. -/
theorem two_recipients_order :
    let _ := Runtime.ascii
    let bag : List Candidate := [⟨"smtp_localpart", "shop0031"⟩, ⟨"smtp_localpart", "shop0032"⟩]
    bag.reverse.Perm bag ∧ (extract bag).token = some "shop0031" ∧ (extract bag.reverse).token = some "shop0032" := by
  intro _ bag
  exact ⟨List.reverse_perm bag, by decide, by decide⟩

end PtaasBench.EdgeResolver
