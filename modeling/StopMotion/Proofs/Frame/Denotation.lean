import StopMotion.Proofs.Frame.Value
import StopMotion.Proofs.Syntax.Run.Access

/-!
# What texts denote

A text denotes a value if it is read as an expression with that value, wherever an expression of
its rank may stand. The value of a text put together from parts is that of the operator or the
function between them.
-/

namespace StopMotion.Frame

open Syntax Syntax.Rules Syntax.Parse
open Number (IsInteger)

variable {name : String} {current : Int} {rank rank' : Nat} {text text' : String}
  {value value' : Value}

/-- A word that can name a variable of a module. -/
structure IsVariable (name : String) : Prop where
  word : IsWord name
  binds : canBind name = true
  noYield : name ≠ "yield"
  noAwait : name ≠ "await"

/-! ## Functions -/

theorem isOwner_math : IsOwner "Math" :=
  ⟨⟨by decide, by decide⟩, by decide, by decide, by decide⟩

/-- The functions that formulas call, and how a call of each begins. -/
inductive IsFunction : String → String → Prop where
  | floor : IsFunction "Math.floor" "Math.floor("
  | sine : IsFunction "Math.sin" "Math.sin("
  | least : IsFunction "Math.min" "Math.min("
  | greatest : IsFunction "Math.max" "Math.max("

theorem IsFunction.exists_property {function opening : String}
    (isFunction : IsFunction function opening) : ∃ property, IsProperty property ∧
      function = "Math" ++ "." ++ property ∧ opening = "Math" ++ "." ++ property ++ "(" := by
  cases isFunction with
  | floor => exact ⟨"floor", ⟨⟨by decide, by decide⟩, by decide⟩, by decide, by decide⟩
  | sine => exact ⟨"sin", ⟨⟨by decide, by decide⟩, by decide⟩, by decide, by decide⟩
  | least => exact ⟨"min", ⟨⟨by decide, by decide⟩, by decide⟩, by decide, by decide⟩
  | greatest => exact ⟨"max", ⟨⟨by decide, by decide⟩, by decide⟩, by decide, by decide⟩

/-- A call with one argument. -/
theorem IsFunction.expresses {function opening text : String} {holds : Expr → Prop}
    (isFunction : IsFunction function opening) (argument : Expresses 0 text holds) :
    Expresses operandRank (opening ++ text ++ ")") fun expr =>
      ∃ span callee one, expr = .call span callee (.ofList [one]) false ∧
        callee.dotted? = some function ∧ holds one := by
  obtain ⟨property, isProperty, rfl, rfl⟩ := isFunction.exists_property
  rw [String.append_assoc]
  exact .call isOwner_math isProperty argument

/-- A call with two arguments. -/
theorem IsFunction.expressesTwo {function opening text text' : String} {holds holds' : Expr → Prop}
    (isFunction : IsFunction function opening) (first : Expresses 0 text holds)
    (second : Expresses 0 text' holds') :
    Expresses operandRank (opening ++ text ++ ", " ++ text' ++ ")") fun expr =>
      ∃ span callee one two, expr = .call span callee (.ofList [one, two]) false ∧
        callee.dotted? = some function ∧ holds one ∧ holds' two := by
  obtain ⟨property, isProperty, rfl, rfl⟩ := isFunction.exists_property
  have called := Expresses.callTwo isOwner_math isProperty first second
  simpa only [String.append_assoc] using called

/-! ## Values -/

/-- An expression has a value. -/
def HasValue (name : String) (current : Int) (value : Value) (expr : Expr) : Prop :=
  value? name current expr = some value

/-- A text is read as an expression of a rank with a value. -/
def Denotes (name : String) (current : Int) (rank : Nat) (text : String) (value : Value) : Prop :=
  Expresses rank text (HasValue name current value)

namespace Denotes

/-- What binds tightly may stand where less is asked for. -/
theorem mono (denotes : Denotes name current rank text value) (le : rank' ≤ rank) :
    Denotes name current rank' text value :=
  Expresses.loosen denotes le

/-! ## Operands -/

/-- The variable has the value that it stands for. -/
theorem counter (isVariable : IsVariable name) :
    Denotes name current operandRank name (.integer current) := by
  obtain ⟨isWord, binds, noYield, noAwait⟩ := isVariable
  have named : Expresses operandRank name
      fun expr => ∃ span found, expr = .name span found ∧ found.text = name :=
    ⟨_, isReading_name isWord binds noYield noAwait⟩
  apply named.mono
  rintro _ ⟨span, found, rfl, isName⟩
  simp [HasValue, isName]

/-- A number has its value. -/
theorem numeral {count : Nat} (small : count < 2 ^ 53) :
    Denotes name current operandRank (toString count) (.integer count) := by
  have isInteger := Number.isInteger_nearest small
  have number : Expresses operandRank (toString count)
      fun expr => ∃ span, expr = .number span (Number.nearest count 0) :=
    ⟨_, isReading_number fun c rest ends => spells_numeral count rest ends⟩
  apply number.mono
  rintro _ ⟨span, rfl⟩
  simp [HasValue, isInteger.isIntegral_eq, isInteger.toInt_eq]

/-- A boolean has its value. -/
theorem boolean (value : Bool) :
    Denotes name current operandRank (if value then "true" else "false") (.boolean value) := by
  have literal : Expresses operandRank (if value then "true" else "false")
      fun expr => ∃ span, expr = .boolean span value := ⟨_, isReading_boolean value⟩
  apply literal.mono
  rintro _ ⟨span, rfl⟩
  exact value?_boolean

/-- An integer is its numeral, with a sign if it is negative. -/
theorem integer {integer : Int} (small : integer.natAbs < 2 ^ 53) :
    Denotes name current operandRank (toString integer) (.integer integer) := by
  cases integer with
  | ofNat count => exact numeral small
  | negSucc count =>
      have operand : Denotes name current operandRank (toString (count + 1))
          (.integer (count + 1 : Nat)) := numeral small
      have negated : Denotes name current operandRank ("-" ++ toString (count + 1))
          (.integer (-(count + 1 : Nat))) := by
        have signed : Expresses operandRank ("-" ++ toString (count + 1)) fun expr =>
            ∃ span inner, expr = .unary span .minus inner ∧
              HasValue name current (.integer (count + 1 : Nat)) inner :=
          .signed signs_minus (spells_minus (count + 1)) operand
        apply signed.mono
        rintro _ ⟨span, inner, rfl, hasValue⟩
        rw [HasValue, value?_unary, hasValue]
        rfl
      exact negated

/-- Parentheses keep the value. -/
theorem paren (denotes : Denotes name current rank text value) :
    Denotes name current operandRank ("(" ++ text ++ ")") value := by
  apply (Expresses.paren denotes).mono
  rintro _ ⟨span, expr, rfl, hasValue⟩
  exact hasValue

/-- An operator between operands that bind at least as tightly, the right one more tightly. -/
theorem binary {punct : Punct} {op : BinaryOp} {value'' : Value} (joins : Joins punct op)
    (noSlash : punct ≠ .slash) (left : Denotes name current rank text value)
    (tight : op.precedence ≤ rank) (right : Denotes name current rank' text' value')
    (tighter : op.precedence < rank') (applied : Value.binary? op value value' = some value'') :
    Denotes name current op.precedence (text ++ " " ++ op.text ++ " " ++ text') value'' := by
  apply (Expresses.binary joins noSlash left tight right tighter).mono
  rintro _ ⟨span, one, two, rfl, isOne, isTwo⟩
  rw [HasValue, value?_binary, isOne, isTwo]
  exact applied

/-- A choice of the least or the greatest of two values. -/
theorem call {function opening : String} {value'' : Value}
    (isFunction : IsFunction function opening) (first : Denotes name current rank text value)
    (second : Denotes name current rank' text' value')
    (applied : Value.call? (some function) value value' = some value'') :
    Denotes name current operandRank (opening ++ text ++ ", " ++ text' ++ ")") value'' := by
  apply (isFunction.expressesTwo (first.mono (Nat.zero_le _)) (second.mono (Nat.zero_le _))).mono
  rintro _ ⟨span, callee, one, two, rfl, named, isOne, isTwo⟩
  rw [HasValue, value?_call, isOne, isTwo, named]
  exact applied

/-- A choice by a test, between a boolean and its negation. -/
theorem choice {test : Value} (denotes : Denotes name current rank text test) (positive : 1 ≤ rank)
    (first : Bool) :
    Denotes name current 0 (text ++ " ? " ++ (if first then "true" else "false") ++ " : " ++
      ("!" ++ if first then "true" else "false"))
      (.boolean (if test.isTruthy then first else !first)) := by
  have isSign (rest : List Char) :
      Spells ("!".toList ++ ((if first then "true" else "false").toList ++ rest)) (.punct .bang)
        false ((if first then "true" else "false").toList ++ rest) := by
    cases first <;> exact fun _ _ => rfl
  have arm : Denotes name current operandRank (if first then "true" else "false")
      (.boolean first) := boolean first
  apply (Expresses.choiceNot denotes positive arm (by decide) isSign arm).mono
  rintro _ ⟨span, one, two, _, rfl, isTest, isFirst, signSpan, inner, rfl, isSecond⟩
  rw [HasValue, value?_conditional, isTest, Option.bind_some]
  split
  · exact isFirst
  · rw [value?_unary, isSecond]
    rfl

end Denotes

/-! ## Whole texts -/

/-- A text has the value that it denotes. -/
theorem Denotes.valueOf?_eq (denotes : Denotes name current rank text value) :
    valueOf? name current text = some value := by
  obtain ⟨⟨source, body⟩, parsed, -, span, declaredSpan, target, init, rfl, isValue⟩ :=
    Expresses.parse_constant denotes
  rw [valueOf?, parsed]
  exact isValue

end StopMotion.Frame
