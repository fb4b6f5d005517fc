import StopMotion.Number.Count
import StopMotion.Text.Pieces

/-!
# Output of type checkers

What an outside type checker says about a source: a list of diagnostics, or why there is
none. Lines and columns count from one, columns in UTF-16 units.

A diagnostic is a line `path(line,column): error code: message`. The path may hold
brackets and commas, for the last opening bracket counts. Other lines say nothing.
-/

namespace StopMotion.Checker

open StopMotion.Text

/-- One diagnostic. `code` is the checker's name for the kind of problem. -/
structure Diagnostic where
  message : String
  line : Nat
  column : Nat
  code : String
  deriving DecidableEq, Repr

/-- Diagnostics, or the wording of why they could not be had. -/
abbrev Verdict := Except String (List Diagnostic)

/-- A count in a place of a diagnostic. -/
def place? (text : List Char) : Option Nat :=
  Number.count? Number.greatest32 (trim text)

/-- The diagnostic of a line. -/
def diagnostic? (line : List Char) : Option Diagnostic := do
  let (location, rest) ← splitFirst? "): error ".toList line
  let (_, place) ← splitLast? '(' location
  let (row, column) ← splitFirst? [','] place
  let (code, message) ← splitFirst? ": ".toList rest
  return {
    message := String.ofList (trim message)
    line := ← place? row
    column := ← place? column
    code := String.ofList (trim code) }

/-- The diagnostics in what a checker wrote. -/
def diagnostics (output : String) : List Diagnostic :=
  (lines output.toList).filterMap diagnostic?

end StopMotion.Checker
