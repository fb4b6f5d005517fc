import StopMotion.Syntax.Grammar.Statement

/-!
# Reading a module

The rules of the grammar tied together. A rule calls the others through the record of
the depth below its own; every call comes behind a token, or is the step from a
statement to its expression or from an expression to a construction, so three times the
number of characters is depth enough for any source and no source is refused for being
nested too deeply.
-/

namespace StopMotion.Syntax

namespace Rules

/-- Rules that refuse everything as nested too deeply. -/
def bottom : Rules :=
  let refuseAll {α : Type} : Parse α := do
    Parse.fail (← Parse.token).span .nestedTooDeeply
  { statement := refuseAll
    assignment := fun _ => refuseAll
    binary := fun _ _ => refuseAll
    unary := refuseAll
    access := refuseAll
    construction := refuseAll
    target := refuseAll
    element := fun _ => refuseAll }

/-- The rules one level above given ones. -/
def next (below : Unit → Rules) : Rules where
  statement state := (below ()).anyStmt state
  assignment noIn state := (below ()).assignmentExpr noIn state
  binary least noIn state := (below ()).binaryExpr least noIn state
  unary state := (below ()).unaryExpr state
  access state := (below ()).accessChain state
  construction state := (below ()).newExpr state
  target state := (below ()).bindingTarget state
  element start state := (below ()).jsxElement start state

/-- The rules whose calls nest at most `depth` deep. -/
def ofDepth : Nat → Rules
  | 0 => bottom
  | depth + 1 => next fun _ => ofDepth depth

end Rules

/-- The statements of a source. -/
def readStatements (source : List Char) : Reading (List Stmt) := do
  let (first, cursor) ← readToken true (Cursor.start source)
  let rules := Rules.ofDepth (3 * source.length + 3)
  let (body, _) ← (Parse.many Parse.atEnd? rules.statement).run ⟨source, cursor, first, 0, false⟩
  return body

/-- Reads a source as a module. -/
def parse (source : List Char) : Except SyntaxError Module := do
  return ⟨source, ← readStatements source⟩

end StopMotion.Syntax
