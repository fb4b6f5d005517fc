import StopMotion.Number.Decimal
import StopMotion.Syntax.Operator
import StopMotion.Text.Pieces

/-!
# Frame formulas

Expressions over the frame counter, as they are put into a source. A formula is written
without adding parentheses, so it has them where its reading needs them; `operand` puts
them around a text of unknown shape.
-/

namespace StopMotion.Frame

open StopMotion.Syntax (BinaryOp)

/-- An expression over the frame counter. -/
inductive Formula where
  /-- Text taken from the source. -/
  | given (text : String)
  /-- The frame counter. -/
  | frame
  | number (value : Float)
  | binary (op : BinaryOp) (left right : Formula)
  | not (operand : Formula)
  | conditional (test consequent alternative : Formula)
  | paren (inner : Formula)
  | floor (argument : Formula)
  | sine (argument : Formula)
  | least (first second : Formula)
  | greatest (first second : Formula)
  deriving Repr

namespace Formula

/-- A formula as source text, with a name for the frame counter. -/
def text (counter : String) : Formula → String
  | given text => text
  | frame => counter
  | number value => Number.compact value
  | binary op left right => left.text counter ++ " " ++ op.text ++ " " ++ right.text counter
  | not operand => "!" ++ operand.text counter
  | conditional test consequent alternative =>
    test.text counter ++ " ? " ++ consequent.text counter ++ " : " ++ alternative.text counter
  | paren inner => "(" ++ inner.text counter ++ ")"
  | floor argument => "Math.floor(" ++ argument.text counter ++ ")"
  | sine argument => "Math.sin(" ++ argument.text counter ++ ")"
  | least first second => "Math.min(" ++ first.text counter ++ ", " ++ second.text counter ++ ")"
  | greatest first second =>
    "Math.max(" ++ first.text counter ++ ", " ++ second.text counter ++ ")"

/-- Whether the parenthesis that opens first in a text closes at its end. `depth` counts the
parentheses that are open. -/
def closesAtEnd : (depth : Int) → List Char → Bool
  | depth, [] => depth == 0
  | depth, '(' :: rest => closesAtEnd (depth + 1) rest
  | depth, ')' :: rest =>
    if depth == 1 && !rest.isEmpty then false else closesAtEnd (depth - 1) rest
  | depth, _ :: rest => closesAtEnd depth rest

/-- Whether the outer parentheses of a text enclose all of it. -/
def isEnclosed (text : List Char) : Bool :=
  text.head? == some '(' && text.getLast? == some ')' && closesAtEnd 0 text

/-- A character of names, member chains and numbers. -/
def isSimple (c : Char) : Bool :=
  c.isAlphanum || c == '_' || c == '$' || c == '.'

/-- Whether a text is an operand of any operator as it stands: a name, a chain of members, a
number, or something in parentheses. -/
def isOperand (text : List Char) : Bool :=
  (!text.isEmpty && text.all isSimple) || isEnclosed text

/-- Source text as an operand. -/
def operandOf (text : String) : Formula :=
  let trimmed := Text.trim text.toList
  if isOperand trimmed then given (String.ofList trimmed)
  else paren (given (String.ofList trimmed))

/-- A formula as an operand, as its text shows. -/
def operand (formula : Formula) : Formula :=
  match formula with
  | given text => operandOf text
  | frame => frame
  | _ => if isOperand (formula.text "").toList then formula else paren formula

end Formula

end StopMotion.Frame
