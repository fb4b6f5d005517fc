/-!
# Operators

The operators of expressions, each with its spelling. Binary operators carry their
precedence; a greater number binds tighter.
-/

namespace StopMotion.Syntax

/-- Operators written before their only operand. -/
inductive UnaryOp where
  | plus | minus | not | complement | typeOf | void | delete
  deriving DecidableEq, Repr

/-- The spelling of a unary operator. -/
def UnaryOp.text : UnaryOp → String
  | plus => "+" | minus => "-" | not => "!" | complement => "~"
  | typeOf => "typeof" | void => "void" | delete => "delete"

/-- Increment and decrement. -/
inductive UpdateOp where
  | increment | decrement
  deriving DecidableEq, Repr

/-- The spelling of an update operator. -/
def UpdateOp.text : UpdateOp → String
  | increment => "++" | decrement => "--"

/-- Operators between two operands, assignments apart. -/
inductive BinaryOp where
  | coalesce | or | and
  | bitOr | bitXor | bitAnd
  | equal | notEqual | strictEqual | strictNotEqual
  | less | greater | lessEqual | greaterEqual | instanceOf | inside
  | shiftLeft | shiftRight | shiftRightZero
  | add | subtract
  | multiply | divide | remainder
  | power
  deriving DecidableEq, Repr

namespace BinaryOp

/-- The spelling of a binary operator. -/
def text : BinaryOp → String
  | coalesce => "??" | or => "||" | and => "&&"
  | bitOr => "|" | bitXor => "^" | bitAnd => "&"
  | equal => "==" | notEqual => "!=" | strictEqual => "===" | strictNotEqual => "!=="
  | less => "<" | greater => ">" | lessEqual => "<=" | greaterEqual => ">="
  | instanceOf => "instanceof" | inside => "in"
  | shiftLeft => "<<" | shiftRight => ">>" | shiftRightZero => ">>>"
  | add => "+" | subtract => "-"
  | multiply => "*" | divide => "/" | remainder => "%"
  | power => "**"

/-- How tightly a binary operator binds. -/
def precedence : BinaryOp → Nat
  | coalesce => 1 | or => 2 | and => 3
  | bitOr => 4 | bitXor => 5 | bitAnd => 6
  | equal | notEqual | strictEqual | strictNotEqual => 7
  | less | greater | lessEqual | greaterEqual | instanceOf | inside => 8
  | shiftLeft | shiftRight | shiftRightZero => 9
  | add | subtract => 10
  | multiply | divide | remainder => 11
  | power => 12

/-- The least precedence of an operator in the right operand: powers group to the right,
all others to the left. -/
def rightPrecedence (op : BinaryOp) : Nat :=
  if op = power then op.precedence else op.precedence + 1

/-- Every operator binds at least as tightly as the loosest one. -/
theorem one_le_precedence (op : BinaryOp) : 1 ≤ op.precedence := by
  cases op <;> decide

end BinaryOp

/-- Assignments, plain and compound. -/
inductive AssignOp where
  | assign
  | add | subtract | multiply | divide | remainder | power
  | shiftLeft | shiftRight | shiftRightZero
  | bitAnd | bitOr | bitXor
  | and | or | coalesce
  deriving DecidableEq, Repr

/-- The spelling of an assignment operator. -/
def AssignOp.text : AssignOp → String
  | assign => "="
  | add => "+=" | subtract => "-=" | multiply => "*=" | divide => "/=" | remainder => "%="
  | power => "**="
  | shiftLeft => "<<=" | shiftRight => ">>=" | shiftRightZero => ">>>="
  | bitAnd => "&=" | bitOr => "|=" | bitXor => "^="
  | and => "&&=" | or => "||=" | coalesce => "??="

end StopMotion.Syntax
