import StopMotion.Proofs.Syntax.Run.Operator
import StopMotion.Proofs.Syntax.Run.Statement
import StopMotion.Proofs.Syntax.Spelling

/-!
# Values of expressions

The value of an expression over one name that stands for an integer: integers and booleans with
exact arithmetic. A text has the value of the expression that it is read as; how the values of
its parts make up the value of a text follows the rules for operators.
-/

namespace StopMotion.Frame

open Syntax Syntax.Rules Syntax.Parse
open Number (IsInteger)

/-! ## Values -/

/-- An integer or a boolean. -/
inductive Value where
  | integer (value : Int)
  | boolean (value : Bool)
  deriving DecidableEq, Repr

namespace Value

/-- Whether a value counts as true: a boolean that is, or an integer that is not zero. -/
def isTruthy : Value → Bool
  | integer value => value != 0
  | boolean value => value

/-- The value of a binary operator. A remainder has the sign of its dividend, and none by zero
is a value. -/
def binary? : BinaryOp → Value → Value → Option Value
  | .add, integer left, integer right => some (integer (left + right))
  | .subtract, integer left, integer right => some (integer (left - right))
  | .multiply, integer left, integer right => some (integer (left * right))
  | .remainder, integer left, integer right =>
    if right = 0 then none else some (integer (left.tmod right))
  | .less, integer left, integer right => some (boolean (left < right))
  | .lessEqual, integer left, integer right => some (boolean (left ≤ right))
  | .greater, integer left, integer right => some (boolean (right < left))
  | .greaterEqual, integer left, integer right => some (boolean (right ≤ left))
  | .strictEqual, left, right => some (boolean (left == right))
  | .strictNotEqual, left, right => some (boolean (left != right))
  | _, _, _ => none

/-- The value of a unary operator. -/
def unary? : UnaryOp → Value → Option Value
  | .minus, integer value => some (integer (-value))
  | .plus, integer value => some (integer value)
  | .not, value => some (boolean !value.isTruthy)
  | _, _ => none

/-- The value of a call with two arguments: the least or the greatest of two integers. -/
def call? : Option String → Value → Value → Option Value
  | some "Math.min", integer left, integer right => some (integer (min left right))
  | some "Math.max", integer left, integer right => some (integer (max left right))
  | _, _, _ => none

end Value

/-- The value of an expression in which a name stands for an integer. -/
def value? (name : String) (current : Int) : {c : Category} → Node c → Option Value
  | _, .number _ value =>
    if Number.isIntegral value then some (.integer (Number.toInt value)) else none
  | _, .boolean _ value => some (.boolean value)
  | _, .name _ found => if found.text = name then some (.integer current) else none
  | _, .paren _ inner => value? name current inner
  | _, .unary _ op operand => (value? name current operand).bind (Value.unary? op)
  | _, .binary _ op left right =>
    (value? name current left).bind fun left => (value? name current right).bind (left.binary? op)
  | _, .conditional _ test consequent alternative =>
    (value? name current test).bind fun test =>
      if test.isTruthy then value? name current consequent else value? name current alternative
  | _, .call _ callee (.cons first (.cons second .nil)) _ =>
    (value? name current first).bind fun first =>
      (value? name current second).bind (Value.call? callee.dotted? first)
  | _, _ => none

section

variable {name : String} {current : Int} {span : Span}

@[simp] theorem value?_number {value : Float} : value? name current (.number span value) =
    if Number.isIntegral value then some (.integer (Number.toInt value)) else none := rfl

@[simp] theorem value?_boolean {value : Bool} :
    value? name current (.boolean span value) = some (.boolean value) := rfl

@[simp] theorem value?_name {found : Name} : value? name current (.name span found) =
    if found.text = name then some (.integer current) else none := rfl

@[simp] theorem value?_paren {inner : Expr} :
    value? name current (.paren span inner) = value? name current inner := rfl

@[simp] theorem value?_unary {op : UnaryOp} {operand : Expr} :
    value? name current (.unary span op operand) =
      (value? name current operand).bind (Value.unary? op) := rfl

@[simp] theorem value?_binary {op : BinaryOp} {left right : Expr} :
    value? name current (.binary span op left right) = (value? name current left).bind fun left =>
      (value? name current right).bind (left.binary? op) := rfl

@[simp] theorem value?_conditional {test consequent alternative : Expr} :
    value? name current (.conditional span test consequent alternative) =
      (value? name current test).bind fun test =>
        if test.isTruthy then value? name current consequent
        else value? name current alternative := rfl

@[simp] theorem value?_call {callee first second : Expr} {isOptional : Bool} :
    value? name current (.call span callee (.ofList [first, second]) isOptional) =
      (value? name current first).bind fun first =>
        (value? name current second).bind (Value.call? callee.dotted? first) := rfl

end

/-- The value that a text has as the initial value of a constant. -/
def valueOf? (name : String) (current : Int) (text : String) : Option Value :=
  match parse ("const value = " ++ text ++ ";").toList with
  | .ok ⟨_, [.varStmt _ .constKind (.cons (.declares _ _ (.present value)) .nil)]⟩ =>
    value? name current value
  | _ => none

end StopMotion.Frame
