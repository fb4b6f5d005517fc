import StopMotion.Number.Parts
import StopMotion.State.Callable

/-!
# Named functions and constants

The functions and numeric constants that a module declares anywhere, by name. Of two
declarations of one name the first in the source counts.
-/

namespace StopMotion.State

open StopMotion.Syntax

/-- The named functions and numeric constants of a module, in the order of their
declarations. -/
structure Locals where
  functions : List (String × Callable) := []
  constants : List (String × Float) := []

namespace Locals

/-- The function declared with a name. -/
def function? (locals : Locals) (name : String) : Option Callable :=
  locals.functions.lookup name

/-- The callable that a callback argument is or names. -/
def callback? (locals : Locals) (expr : Expr) : Option Callable :=
  match Callable.ofExpr? expr with
  | some callable => some callable
  | none => expr.bare.name?.bind locals.function?

/-- The value of an arithmetic operation on numbers, if it is one that is folded. -/
def foldBinary (op : BinaryOp) (left right : Float) : Option Float :=
  match op with
  | .add => some (left + right)
  | .subtract => some (left - right)
  | .multiply => some (left * right)
  | .divide => if right == 0.0 then none else some (left / right)
  | .remainder => if right == 0.0 then none else some (Number.remainder left right)
  | _ => none

/-- The value of an expression over number literals and known constants. -/
def number? (locals : Locals) : {c : Category} → Node c → Option Float
  | _, .paren _ inner | _, .assertion _ inner => number? locals inner
  | _, .number _ value => some value
  | _, .name _ name => locals.constants.lookup name.text
  | _, .unary _ .minus operand => (number? locals operand).map fun value => -value
  | _, .unary _ .plus operand => operand.literal?
  | _, .binary _ op left right =>
    match number? locals left, number? locals right with
    | some left, some right => foldBinary op left right
    | _, _ => none
  | _, _ => none

/-- The function that an initial value is, or that it hands to `useCallback`. -/
def declaredFunction? (init : Expr) : Option Callable :=
  match Callable.ofExpr? init with
  | some callable => some callable
  | none =>
    match bareCall? init with
    | some (callee, first :: _) =>
      if callee.dotted?.any ["useCallback", "React.useCallback"].contains then
        Callable.ofExpr? first
      else none
    | _ => none

/-- What a declarator adds. A constant may use those declared before it. -/
def addDeclarator (kind : VarKind) (locals : Locals) : Node .declarator → Locals
  | .declares _ (.bindName _ name) (.present init) =>
    match declaredFunction? init with
    | some callable => { locals with functions := locals.functions ++ [(name.text, callable)] }
    | none =>
      if kind = .constKind then
        match locals.number? init with
        | some value => { locals with constants := locals.constants ++ [(name.text, value)] }
        | none => locals
      else locals
  | _ => locals

/-- What a statement itself adds. -/
def addStmt (locals : Locals) : Stmt → Locals
  | .functionStmt _ (.func span (some name) params body bodySpan isAsync isGenerator) =>
    let callable :=
      Callable.ofFunction (.func span name params body bodySpan isAsync isGenerator)
    { locals with functions := locals.functions ++ [(name.text, callable)] }
  | .varStmt _ kind declarators =>
    declarators.toList.foldl (addDeclarator kind) locals
  | _ => locals

/-- The named functions and constants of a module. -/
def of (module : Module) : Locals :=
  (module.body.flatMap (·.stmts)).foldl addStmt {}

end Locals

end StopMotion.State
