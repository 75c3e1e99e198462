import PtaasBench.Py.Dict
import PtaasBench.Py.Json
import PtaasBench.Lib.Fallible

/-!
# PtaasBench.Runners.Normalise — the normalised finding, the mapping table and what the parsers share

`findings.py` and the first part of `normalise.py`.  An exception that leaves a parser is an `Except.error`.
-/

namespace PtaasBench.Runners.Normalise

open Py Lib

/-- The classes of the exceptions. -/
inductive Raised where
  | typeError
  | attributeError
  | valueError
  | overflowError
deriving DecidableEq

/-- A float, up to what it compares to. -/
inductive Score where
  | nan
  | infinity (neg : Bool)
  | finite (q : ℚ)

/-- The functions of the standard library that the parsers call and that are not translated. -/
class Library extends Py.Runtime where
  /-- The value of a character that `\d` matches. -/
  decimal : Char → Option ℕ
  /-- `urlsplit(url).query`; `none` where it raises `ValueError`. -/
  urlQuery : String → Option String
  /-- `float(text)`; `none` where it raises `ValueError`. -/
  float : String → Option Score

export Library (decimal urlQuery float)

/-- A library for concrete runs over ASCII text, with the query after the first question mark. -/
@[reducible] def Library.ascii : Library where
  toRuntime := Py.Runtime.ascii
  decimal c := if c.isDigit then some (c.toNat - 48) else none
  urlQuery url := some (beforeChar '#' (afterChar '?' url))
  float _ := none

/-! ## Findings (`findings.py`) -/

def severities : List String := ["info", "low", "medium", "high", "critical"]

def confidences : List String := ["low", "medium", "high", "confirmed"]

def methods : List String := ["GET", "POST", "PUT", "PATCH", "DELETE", "HEAD", "OPTIONS", "TRACE"]

/-- The arguments of the constructor of a finding. -/
structure Claim where
  tool : String
  url : Option String
  method : Option String
  param : Option String
  cwe : Option ℤ
  name : Option String
  severity : Option String
  confidence : Option String
  rawRef : String
deriving DecidableEq

/-- What `__post_init__` lets through. -/
def Claim.Valid (c : Claim) : Prop :=
  (∀ s ∈ c.severity, s ∈ severities) ∧ (∀ s ∈ c.confidence, s ∈ confidences) ∧ ∀ n ∈ c.cwe, 0 < n

instance (c : Claim) : Decidable c.Valid := by
  unfold Claim.Valid
  infer_instance

/-- A finding: a claim that was let through. -/
abbrev Finding := { c : Claim // c.Valid }

/-- `Finding(…)` -/
def Finding.new (c : Claim) : Except Raised Finding :=
  if h : c.Valid then .ok ⟨c, h⟩ else .error .valueError

structure Unmapped where
  tool : String
  key : String
  name : Option String
  sample : String
deriving DecidableEq

structure NormaliseResult where
  findings : List Finding := []
  unmapped : List Unmapped := []

/-- `NormaliseResult.extend` -/
def NormaliseResult.extend (out other : NormaliseResult) : NormaliseResult where
  findings := out.findings ++ other.findings
  unmapped := out.unmapped ++ other.unmapped

section

variable [Library]

def severityAliases : List (String × Option String) :=
  [("informational", "info"), ("information", "info"), ("info", "info"), ("note", "info"), ("none", "info"),
    ("unknown", none), ("low", "low"), ("medium", "medium"), ("moderate", "medium"), ("warning", "medium"),
    ("high", "high"), ("important", "high"), ("critical", "critical"), ("severe", "critical"),
    ("emergency", "critical")]

def confidenceAliases : List (String × Option String) :=
  [("false positive", "low"), ("falsepositive", "low"), ("tentative", "low"), ("low", "low"), ("medium", "medium"),
    ("moderate", "medium"), ("firm", "high"), ("high", "high"), ("certain", "confirmed"),
    ("confirmed", "confirmed"), ("trusted", "confirmed")]

/-- A word looked up in a table of aliases. -/
def normWord (aliases : List (String × Option String)) : Json → Option String
  | .null => none
  | value => (aliases.lookup (lower (strip value.pyStr))).join

/-- `norm_severity` -/
def normSeverity (value : Json) : Option String := normWord severityAliases value

/-- `norm_confidence` -/
def normConfidence (value : Json) : Option String := normWord confidenceAliases value

/-- `norm_method` -/
def normMethod : Json → Option String
  | .null => none
  | value => if upper (strip value.pyStr) ∈ methods then some (upper (strip value.pyStr)) else none

/-! ## The mapping table -/

/-- One row of the mapping table. -/
structure Rule where
  key : String
  cwe : Option ℤ
  name : Option String := none
  severity : Option String := none
  skip : Bool := false

/-- The table as it is loaded; a compiled pattern is what it finds something in. -/
structure CweTable where
  rules : String → Dict String Rule := fun _ => .empty
  patterns : String → List ((String → Bool) × Rule) := fun _ => []
  nullValues : String → List Json := fun _ => []
  useReferenceCwe : String → Bool := fun _ => true
  severityMap : String → Dict String String := fun _ => .empty

namespace CweTable

variable (table : CweTable) (tool : String)

/-- `lookup` -/
def lookup (keys : List (Option String)) : Option Rule :=
  keys.findSome? fun key => key.bind (table.rules tool).get?

/-- `match` -/
def matching (text : Option String) : Option Rule :=
  if given text then ((table.patterns tool).find? fun p => p.1 (text.getD "")).map Prod.snd else none

/-- A number, a truth value being one. -/
def number? : Json → Option ℚ
  | .bool b => some (if b then 1 else 0)
  | x => x.asNum?

/-- `a == b`, the second a scalar of the table. -/
def sameScalar : Json → Json → Bool
  | .null, .null => true
  | .str s, .str t => s = t
  | a, b => (number? a).isSome && number? a = number? b

/-- `is_null_value` -/
def isNullValue (value : Json) : Bool :=
  (table.nullValues tool).any (sameScalar value) ||
    match value with
    | .str s => strip s ∈ (table.nullValues tool).map Json.pyStr
    | _ => false

end CweTable

/-! ## Texts and numbers -/

/-- `_clean` -/
def clean : Json → Option String
  | .null => none
  | value => if strip value.pyStr = "" then none else some (strip value.pyStr)

/-- `_dig` -/
def dig (obj : Json) (dotted : String) : Json :=
  (splitChar '.' dotted).foldl (fun cur part =>
    match cur with
    | .obj fields => Obj.get fields part
    | _ => .null) obj

/-- `int(digits)`, which refuses more than 4300 digits. -/
def intOf (digits : List Char) : Except Raised ℤ :=
  if digits.length ≤ 4300 then .ok (digits.foldl (fun n d => 10 * n + ((decimal d).getD 0 : ℤ)) 0)
  else .error .valueError

/-- A pattern's letter against a character, under `re.IGNORECASE`. -/
def sameLetter (p c : Char) : Bool :=
  c.toLower = p || (p = 'i' && (c = 'ı' || c = 'İ')) || (p = 's' && c = 'ſ')

/-- What follows a literal, if the text starts with it. -/
def afterLiteral : List Char → List Char → Option (List Char)
  | [], text => some text
  | _ :: _, [] => none
  | p :: literal, c :: text => if sameLetter p c then afterLiteral literal text else none

/-- `(\d+)` at the start of a text, and what follows. -/
def digitsAt (text : List Char) : Option (List Char × List Char) :=
  let digits := text.takeWhile fun c => (decimal c).isSome
  if digits = [] then none else some (digits, text.drop digits.length)

/-- `cwe`, at most one separator, a literal and the digits of the group. -/
def cweAt (separator : Char → Bool) (literal : String) (text : List Char) : Option (List Char × List Char) := do
  let rest ← afterLiteral "cwe".toList text
  let number (rest : List Char) := (afterLiteral literal.toList rest).bind digitsAt
  match rest with
  | c :: after => if separator c then number after <|> number rest else number rest
  | [] => number []

/-- `[-_ :]` -/
def cweSeparator (c : Char) : Bool := c = '-' || c = '_' || c = ' ' || c = ':'

/-- `re.search`, the digits of the group. -/
def search (here : List Char → Option (List Char × List Char)) : List Char → Option (List Char)
  | [] => none
  | c :: text => ((here (c :: text)).map Prod.fst).or (search here text)

/-- `re.finditer`; a match is at least one character long, so that the text is as long as the search. -/
def findIter (here : List Char → Option (List Char × List Char)) : ℕ → List Char → List (List Char)
  | 0, _ => []
  | _, [] => []
  | n + 1, c :: text =>
    match here (c :: text) with
    | some (digits, rest) => digits :: findIter here n rest
    | none => findIter here n text

/-- The digits of `_CWE_RE`: the whole text is a number, after `cwe` or not. -/
def cweDigits (text : List Char) : Option (List Char) :=
  let whole (rest : List Char) := if rest ≠ [] ∧ rest.all (fun c => (decimal c).isSome) then some rest else none
  match afterLiteral "cwe".toList text with
  | some (c :: rest) => if cweSeparator c then whole rest else whole (c :: rest)
  | some [] => none
  | none => whole text

/-- `n if n > 0 else None` -/
def positive (n : ℤ) : Option ℤ := if 0 < n then some n else none

/-- `parse_cwe` of a scalar that is not an integer, by its text. -/
def textCwe (text : String) : Except Raised (Option ℤ) :=
  match cweDigits (strip text).toList with
  | none => .ok none
  | some digits => (intOf digits).map positive

mutual

/-- `parse_cwe` -/
def parseCwe : Json → Except Raised (Option ℤ)
  | .null => .ok none
  | .bool _ => .ok none
  | .arr items => parseCwes items
  | .int n => .ok (positive n)
  | value => textCwe value.pyStr

/-- The items of a list, up to the first that gives a number. -/
def parseCwes : List Json → Except Raised (Option ℤ)
  | [] => .ok none
  | item :: items =>
    match parseCwe item with
    | .ok none => parseCwes items
    | got => got

end

/-- `_first_cwe_in_text` -/
def firstCweInText (text : Option String) : Except Raised (Option ℤ) :=
  match search (cweAt cweSeparator "") (text.getD "").toList with
  | none => .ok none
  | some digits => (intOf digits).map some

/-- `_param_from_url` -/
def paramFromUrl (url : Option String) : Except Raised (Option String) :=
  match url with
  | none => .ok none
  | some url =>
    if '?' ∈ url.toList then
      match urlQuery url with
      | none => .error .valueError
      | some query =>
        match (splitChar '&' query).filter (· ≠ "") with
        | [part] => .ok (clean (.str (beforeChar '=' part)))
        | _ => .ok none
    else .ok none

/-- `param or _param_from_url(url)` -/
def paramOr (param url : Option String) : Except Raised (Option String) :=
  match param with
  | some p => .ok (some p)
  | none => paramFromUrl url

/-- `_unmapped` -/
def unmappedOf (tool key : String) (name : Option String) (sample : Option String) : Unmapped :=
  ⟨tool, key, name, String.ofList ((sample.getD "").toList.take 280)⟩

/-! ## Loops over values of any type -/

/-- What `enumerate(x or [])` runs over. -/
def elements (x : Json) : Except Raised (List Json) :=
  if x.truthy then
    match x with
    | .arr xs => .ok xs
    | .obj fields => .ok (fields.map fun e => .str e.1)
    | .str s => .ok (s.toList.map fun c => .str (String.singleton c))
    | _ => .error .typeError
  else .ok []

/-- `for i, x in enumerate(xs)`, from what one turn adds to the result. -/
def forEach {α : Type} (turn : ℕ → α → Except Raised NormaliseResult) (xs : List α) : Except Raised NormaliseResult :=
  xs.zipIdx.foldlM (fun out e => (turn e.2 e.1).map out.extend) {}

/-- A turn for the dictionaries among the values; the others are skipped. -/
def ofDict (turn : Obj → Except Raised NormaliseResult) : Json → Except Raised NormaliseResult
  | .obj fields => turn fields
  | _ => .ok {}

/-- The result of one finding. -/
def emit (c : Claim) : Except Raised NormaliseResult := (Finding.new c).map fun f => { findings := [f] }

end

end PtaasBench.Runners.Normalise
