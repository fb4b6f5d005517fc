import StopMotion.Syntax.Visit

/-!
# Fresh names

The names that a module binds or mentions, and the choice of one that is not among them.
-/

namespace StopMotion.Frame

open StopMotion.Syntax

/-- The names that a node itself binds or mentions. -/
def ownNames : {c : Category} → Node c → List String
  | _, .importStmt _ specifiers _ _ => specifiers.map (·.binding.text)
  | _, .enumStmt _ name => [name.text]
  | _, .typeOnly _ name => (name.map (·.text)).toList
  | _, .name _ name => [name.text]
  | _, .bindName _ name => [name.text]
  | _, .func _ name _ _ _ _ _ => (name.map (·.text)).toList
  | _, .klass _ name _ _ => (name.map (·.text)).toList
  | _, _ => []

/-- The names that a module binds or mentions. -/
def namesOf (module : Module) : List String :=
  module.body.flatMap fun stmt => stmt.collect fun node => { found := ownNames node }

/-- The first of some names that is not taken, or else the first name with the least number
from 2 on that makes it free. -/
def fresh (taken : List String) (name : String) (others : List String) : String :=
  let numbered := (List.range (taken.length + 1)).map fun count => name ++ toString (count + 2)
  ((name :: others ++ numbered).find? fun candidate => !taken.contains candidate).getD (name ++ "_")

end StopMotion.Frame
