import Mathlib.Data.List.Dedup
import PtaasBench.Js.RegExp

/-!
# PtaasBench.Shopfront.PlanWatch — the query-plan checks (`lib/planwatch.js`)

A statement that the service assembled as text is checked twice: its text for five signs of structure that
the template does not have, and its rows against the keys that a query with parameters returns.
-/

namespace PtaasBench.Shopfront

open Js

/-! ## The text -/

def quote : RegExp := RegExp.word "'"

/-- `\bunion\b[\s\S]{0,40}\bselect\b` -/
def unionSelect : RegExp :=
  .seq [.boundary, .word "union", .boundary, .upTo (fun _ => true) 40, .boundary, .word "select", .boundary]

/-- `'\s*(?:or|and)\s+'?\d+'?\s*=\s*'?\d+` -/
def alwaysTrue : RegExp :=
  .seq [quote, .many isSpace, .either [.word "or", .word "and"], .many1 isSpace, .optional quote, .many1 isDigit,
    .optional quote, .many isSpace, .word "=", .many isSpace, .optional quote, .many1 isDigit]

/-- `;\s*(?:select|insert|update|delete|drop|copy)\b` -/
def stacked : RegExp :=
  .seq [.word ";", .many isSpace,
    .either (["select", "insert", "update", "delete", "drop", "copy"].map .word), .boundary]

/-- `\bfrom\s+(?:pg_|information_schema\.)` -/
def systemTable : RegExp :=
  .seq [.boundary, .word "from", .many1 isSpace, .either [.word "pg_", .word "information_schema."]]

/-- `\b(?:pg_sleep|pg_read_file|current_setting|version)\s*\(` -/
def systemCall : RegExp :=
  .seq [.boundary, .either (["pg_sleep", "pg_read_file", "current_setting", "version"].map .word), .many isSpace,
    .word "("]

def signs : List RegExp := [unionSelect, alwaysTrue, stacked, systemTable, systemCall]

def statementWidened (statement template : Text) : Bool :=
  template.length < statement.length && signs.any (·.test statement)

/-! ## The result -/

/-- A value of a result. -/
inductive Cell where
  | null
  | number (n : ℤ)
  | text (s : Text)
  /-- Of another type, by what `String` makes of it. -/
  | other (shown : Text)
deriving DecidableEq

/-- `String(v)` -/
def Cell.toText : Cell → Text
  | .null => ofString "null"
  | .number n => ofString (toString n)
  | .text s => s
  | .other shown => shown

abbrev Row := List (String × Cell)

/-- `String(row?.[idColumn])` -/
def Row.key (idColumn : String) (row : Row) : Text := ((row.lookup idColumn).map Cell.toText).getD (ofString "undefined")

structure Escaped where
  returned : ℕ
  expected : ℕ
  foreign : List Text
  columns : List String

/-- `resultEscaped`, where `none` is what is not an array. -/
def resultEscaped (rows : Option (List Row)) (expected : List Cell) (idColumn : String) : Option Escaped :=
  match rows with
  | none => none
  | some [] => none
  | some (row :: rows) =>
    -- keys are compared as texts, so that what is no key at all is compared as `undefined` or `null`
    let allowed := (expected.map Cell.toText).dedup
    let foreign := ((row :: rows).map (Row.key idColumn)).filter fun key => key ∉ allowed
    if foreign = [] ∧ (row :: rows).length ≤ allowed.length then none
    else
      some {
        returned := (row :: rows).length
        expected := allowed.length
        foreign := foreign.take 8
        columns := row.map Prod.fst }

/-- Every key is expected, and there are no more rows than keys. -/
structure Within (rows : List Row) (expected : List Cell) (idColumn : String) : Prop where
  key_mem : ∀ row ∈ rows, Row.key idColumn row ∈ expected.map Cell.toText
  length_le : rows.length ≤ (expected.map Cell.toText).dedup.length

end PtaasBench.Shopfront
