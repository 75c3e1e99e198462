import PtaasBench.Js.Text

/-!
# PtaasBench.Js.RegExp — regular expressions with word boundaries

An expression gives the places at which it can end, for a place at which it starts.
-/

namespace PtaasBench.Js

/-- A place in a text: the unit before it, and what follows. -/
structure Place where
  before : Option UInt16
  rest : Text
deriving DecidableEq

abbrev RegExp := Place → List Place

namespace RegExp

def item (p : UInt16 → Bool) : RegExp
  | ⟨_, []⟩ => []
  | ⟨_, u :: s⟩ => if p u then [⟨some u, s⟩] else []

/-- `\b` -/
def boundary : RegExp := fun x => if x.before.any isWord != x.rest.head?.any isWord then [x] else []

def seq (parts : List RegExp) : RegExp := fun x => parts.foldl (fun xs r => xs.flatMap r) [x]

def either (parts : List RegExp) : RegExp := fun x => parts.flatMap (· x)

def optional (r : RegExp) : RegExp := fun x => r x ++ [x]

/-- `*` -/
def many (p : UInt16 → Bool) : RegExp := fun x => go x.before x.rest
where
  go (before : Option UInt16) : Text → List Place
    | [] => [⟨before, []⟩]
    | u :: s => (if p u then go (some u) s else []) ++ [⟨before, u :: s⟩]

/-- `+` -/
def many1 (p : UInt16 → Bool) : RegExp := seq [item p, many p]

/-- `{0,n}` -/
def upTo (p : UInt16 → Bool) : ℕ → RegExp
  | 0 => fun x => [x]
  | n + 1 => fun x => (item p x).flatMap (upTo p n) ++ [x]

/-- The units of a word, letters in either case. -/
def word (w : String) : RegExp := seq ((ofString w).map fun c => item fun u => lower u == c)

/-- `test` -/
def test (r : RegExp) (s : Text) : Bool := go none s
where
  go (before : Option UInt16) : Text → Bool
    | [] => !(r ⟨before, []⟩).isEmpty
    | u :: s => !(r ⟨before, u :: s⟩).isEmpty || go (some u) s

/-! ## Where a match is found -/

end RegExp

end PtaasBench.Js
