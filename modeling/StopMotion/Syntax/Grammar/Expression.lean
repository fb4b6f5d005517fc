import StopMotion.Syntax.Grammar.Jsx

/-!
# Expressions

From the literals up to assignments. An arrow function is told from a parenthesised
expression by reading its head on trial; type arguments of a call are told from a
comparison in the same way.
-/

namespace StopMotion.Syntax

namespace Rules

open Parse

/-! ## Primary expressions -/

/-- An argument or element, which may be a spread. -/
def spreadable (rules : Rules) : Parse Expr := do
  let start ← here
  if ← eat .ellipsis then
    let operand ← rules.assignment false
    return .spread (← spanFrom start) operand
  else
    rules.assignment false

/-- Arguments in parentheses. -/
def arguments (rules : Rules) : Parse (List Expr) := do
  let _ ← expect .openParen
  commaList .closeParen rules.spreadable

/-- The elements of an array literal. -/
def array (rules : Rules) : Parse (List (Option Expr)) := do
  let _ ← expect .openBracket
  elements do
    if ← atEnd? then
      unexpected (.punct .closeBracket)
    else
      rules.spreadable

/-- Passes over `async`, `get` or `set` before the key of a method and says whether it was
`async`. -/
def entryModifier : Parse Bool := do
  match (← kind).word? with
  | none => return false
  | some word =>
    if ["async", "get", "set"].contains word then
      let next ← peek
      if next.kind.isOneOf [.comma, .colon, .openParen, .closeBrace, .assign, .less] then
        return false
      else
        pass
        return word == "async"
    else
      return false

/-- An entry of an object literal. A name with a default value behind it makes sense only
in a literal that turns out to be a pattern. -/
def entry (rules : Rules) : Parse (Node .entry) := do
  let start ← here
  if ← atEnd? then
    unexpected (.punct .closeBrace)
  else if ← eat .ellipsis then
    let operand ← rules.assignment false
    return .spreadEntry (← spanFrom start) operand
  else
    let isAsync ← entryModifier
    let isGenerator ← eat .star
    let key ← rules.key
    if ← atOneOf? [.openParen, .less] then
      let value ← rules.functionRest start none isAsync isGenerator
      return .methodEntry (← spanFrom start) key value
    else if ← eat .colon then
      let value ← rules.assignment false
      return .keyed (← spanFrom start) key value
    else
      match key with
      | .keyName found =>
        if ← eat .assign then
          let value ← rules.assignment false
          let span ← spanFrom start
          return .keyed span key (.assign span .assign (.bindName found.span found) value)
        else
          return .shorthand (← spanFrom start) found
      | _ => unexpected (.punct .colon)

/-- The entries of an object literal. -/
def object (rules : Rules) : Parse (List (Node .entry)) := do
  let _ ← expect .openBrace
  commaList .closeBrace rules.entry

/-- An expression that begins with a word. -/
def wordExpr (rules : Rules) (start : Nat) (word : String) : Parse Expr := do
  match word with
  | "function" =>
    let value ← rules.function start false false
    return .functionExpr (← spanFrom start) value
  | "class" =>
    let value ← rules.classDef false
    return .classExpr (← spanFrom start) value
  | "this" =>
    pass
    return .this (← spanFrom start)
  | "super" =>
    pass
    return .super (← spanFrom start)
  | "null" =>
    pass
    return .null (← spanFrom start)
  | "true" =>
    pass
    return .boolean (← spanFrom start) true
  | "false" =>
    pass
    return .boolean (← spanFrom start) false
  | "import" =>
    pass
    if ← eat .dot then
      let _ ← anyName
    return .metaProperty (← spanFrom start)
  | "new" => rules.construction
  | _ =>
    if word = "async" then
      if (← peek).kind.isWord "function" then
        pass
        let value ← rules.function start true false
        return .functionExpr (← spanFrom start) value
    if isReserved word then
      fail (← token).span (.unexpectedKeyword word)
    else
      let found ← anyName
      return .name (← spanFrom start) found

/-- A literal, a name, or an expression in brackets. -/
def primary (rules : Rules) : Parse Expr := do
  let current ← token
  let start := current.span.start
  match current.kind with
  | .word word => rules.wordExpr start word
  | .number value =>
    pass
    return .number (← spanFrom start) value
  | .string value =>
    pass
    return .string (← spanFrom start) value
  | .regex =>
    pass
    return .regex (← spanFrom start)
  | .template .. =>
    let (chunks, substitutions) ← rules.template
    return .template (← spanFrom start) chunks (.ofList substitutions)
  | .punct .openParen =>
    pass
    let inner ← rules.expression false
    let _ ← expect .closeParen
    return .paren (← spanFrom start) inner
  | .punct .openBracket =>
    let items ← rules.array
    return .array (← spanFrom start) (optionalNodes items)
  | .punct .openBrace =>
    let entries ← rules.object
    return .object (← spanFrom start) (.ofList entries)
  | .punct .less => rules.jsxExpr
  | .endOfInput => fail current.span .unexpectedEnd
  | _ => unexpected .expression

/-! ## Member accesses and calls -/

/-- The access to a named member of an object, at its name. -/
def memberAccess (start : Nat) (owner : Expr) (isOptional : Bool) : Parse Expr := do
  let property ← anyName
  let span ← spanFrom start
  if isPrivate property.text then
    return .privateMember span owner property isOptional
  else
    return .member span owner property isOptional

/-- The access to a computed member of an object, behind its bracket. -/
def indexAccess (rules : Rules) (start : Nat) (owner : Expr) (isOptional : Bool) :
    Parse Expr := do
  let property ← rules.expression false
  let _ ← expect .closeBracket
  return .index (← spanFrom start) owner property isOptional

/-- Passes over type arguments if a call follows them. -/
def eatTypeArguments (rules : Rules) : Parse Bool := do
  let passed ← speculate do
    rules.skipAngles
    let next ← kind
    return if next.isPunct .openParen || next.isTemplate then some () else none
  return passed.isSome

/-- One more access or call on an expression that began at `start`; none where the chain
ends. -/
def chainStep (rules : Rules) (start : Nat) (soFar : Expr) : Parse (Option Expr) := do
  let current ← token
  match current.kind with
  | .punct .less =>
    if ← rules.eatTypeArguments then
      return some soFar
    else
      return none
  | .punct .dot =>
    pass
    return some (← memberAccess start soFar false)
  | .punct .optionalDot =>
    pass
    if ← at? .openParen then
      let arguments ← rules.arguments
      return some (.call (← spanFrom start) soFar (.ofList arguments) true)
    else if ← eat .openBracket then
      return some (← rules.indexAccess start soFar true)
    else
      return some (← memberAccess start soFar true)
  | .punct .openBracket =>
    pass
    return some (← rules.indexAccess start soFar false)
  | .punct .openParen =>
    let arguments ← rules.arguments
    return some (.call (← spanFrom start) soFar (.ofList arguments) false)
  | .template .. =>
    let (chunks, substitutions) ← rules.template
    return some (.tagged (← spanFrom start) soFar chunks (.ofList substitutions))
  | .punct .bang =>
    if !current.afterNewline && current.span.start == (← get).lastEnd then
      pass
      return some (.assertion (← spanFrom start) soFar)
    else
      return none
  | _ => return none

/-- A primary expression or construction with the accesses and calls behind it. -/
def accessChain (rules : Rules) : Parse Expr := do
  let start ← here
  let first ← if ← atWord? "new" then rules.construction else rules.primary
  repeating first fun soFar => do
    match ← rules.chainStep start soFar with
    | some longer => return .inl longer
    | none => return .inr soFar

/-- The class of a construction with the accesses behind it, but no calls. -/
def constructed (rules : Rules) : Parse Expr := do
  let start ← here
  let first ← if ← atWord? "new" then rules.construction else rules.primary
  repeating first fun soFar => do
    if ← eat .dot then
      return .inl (← memberAccess start soFar false)
    else if ← eat .openBracket then
      return .inl (← rules.indexAccess start soFar false)
    else
      return .inr soFar

/-- A construction, or `new.target`. The arguments may be left out. -/
def newExpr (rules : Rules) : Parse Expr := do
  let start := (← expectWord "new").start
  if ← eat .dot then
    let _ ← anyName
    return .metaProperty (← spanFrom start)
  else
    let callee ← rules.constructed
    if ← at? .less then
      let _ ← rules.eatTypeArguments
    let arguments ← if ← at? .openParen then rules.arguments else pure []
    return .newCall (← spanFrom start) callee (.ofList arguments)

/-! ## Operators -/

/-- An access chain with an increment or decrement behind it, if there is one on the same
line. -/
def postfixExpr (rules : Rules) : Parse Expr := do
  let start ← here
  let operand ← rules.accessChain
  let current ← token
  match current.kind with
  | .punct punct =>
    match punct.update? with
    | some op =>
      if current.afterNewline then
        return operand
      else
        pass
        return .update (← spanFrom start) op false operand
    | none => return operand
  | _ => return operand

/-- The unary operator that a token is, if it is one. -/
def unaryOp? : TokenKind → Option UnaryOp
  | .punct punct => punct.unary?
  | .word "typeof" => some .typeOf
  | .word "void" => some .void
  | .word "delete" => some .delete
  | _ => none

/-- The update operator that a token is, if it is one. -/
def updateOp? : TokenKind → Option UpdateOp
  | .punct punct => punct.update?
  | _ => none

/-- Whether `await` has an operand: it is a name where nothing that begins one follows. -/
def awaitsOperand : Parse Bool := do
  let next ← peek
  return !next.kind.isEnd &&
    !next.kind.isOneOf
      [.closeParen, .closeBracket, .closeBrace, .comma, .semicolon, .colon, .assign, .arrow, .dot]

/-- An expression with the operators written before it. -/
def unaryExpr (rules : Rules) : Parse Expr := do
  let current ← token
  let start := current.span.start
  match unaryOp? current.kind, updateOp? current.kind with
  | some op, _ =>
    pass
    let operand ← rules.unary
    return .unary (← spanFrom start) op operand
  | none, some op =>
    pass
    let operand ← rules.unary
    return .update (← spanFrom start) op true operand
  | none, none =>
    if current.kind.isWord "await" then
      if ← awaitsOperand then
        pass
        let operand ← rules.unary
        return .awaited (← spanFrom start) operand
      else
        rules.postfixExpr
    else
      rules.postfixExpr

/-- What stands between two operands. Type assertions bind like comparisons. -/
inductive Infix where
  | operator (op : BinaryOp)
  | typeAssertion

/-- How tightly it binds. -/
def Infix.precedence : Infix → Nat
  | operator op => op.precedence
  | typeAssertion => 8

/-- The infix that a token is, if it is one. `in` is none in the head of a loop, and an
assertion must stand on the line of its operand. -/
def infixOf? (noIn : Bool) (current : Token) : Option Infix :=
  match current.kind with
  | .punct punct => punct.binary?.map .operator
  | .word "instanceof" => some (.operator .instanceOf)
  | .word "in" => if noIn then none else some (.operator .inside)
  | .word "as" | .word "satisfies" => if current.afterNewline then none else some .typeAssertion
  | _ => none

/-- One more operator and operand that bind at least as tightly as `least`; none where there
is none. -/
def binaryStep (rules : Rules) (start least : Nat) (noIn : Bool) (left : Expr) :
    Parse (Option Expr) := do
  match infixOf? noIn (← token) with
  | none => return none
  | some found =>
    if found.precedence < least then
      return none
    else
      pass
      match found with
      | .typeAssertion =>
        unless ← eatWord "const" do
          rules.skipType
        return some (.assertion (← spanFrom start) left)
      | .operator op =>
        let right ← rules.binary op.rightPrecedence noIn
        return some (.binary (← spanFrom start) op left right)

/-- Operands joined by operators that bind at least as tightly as `least`. -/
def binaryExpr (rules : Rules) (least : Nat) (noIn : Bool) : Parse Expr := do
  let start ← here
  let first ← rules.unaryExpr
  repeating first fun left => do
    match ← rules.binaryStep start least noIn left with
    | some longer => return .inl longer
    | none => return .inr left

/-- A conditional, or what binds tighter. -/
def conditionalExpr (rules : Rules) (noIn : Bool) : Parse Expr := do
  let start ← here
  let test ← rules.binaryExpr 1 noIn
  if ← eat .question then
    let consequent ← rules.assignment false
    let _ ← expect .colon
    let alternative ← rules.assignment noIn
    return .conditional (← spanFrom start) test consequent alternative
  else
    return test

/-! ## Arrow functions -/

/-- Whether an opening angle bracket begins the type parameters of an arrow function rather
than an element. -/
def beginsTypeParams : Parse Bool :=
  foresee do
    pass
    if ← atBinding? then
      pass
      return (← at? .comma) || (← atWord? "extends")
    else
      return false

/-- Passes over the `async` of an arrow function. -/
def eatArrowAsync : Parse Bool := do
  if ← atWord? "async" then
    let next ← peek
    let beginsHead :=
      next.kind.isPunct .openParen || next.kind.word?.any fun word => !isReserved word
    if beginsHead && !next.afterNewline then
      pass
      return true
  return false

/-- The parameters of an arrow function up to its arrow; none where there is no arrow
function. -/
def arrowParams (rules : Rules) : Parse (Option (List Pattern)) := do
  if ← atBinding? then
    let next ← peek
    if next.kind.isPunct .arrow && !next.afterNewline then
      let found ← bindingName
      return some [.bindName found.span found]
    else
      return none
  else if (← at? .openParen) || (← at? .less) then
    if (← at? .openParen) || (← beginsTypeParams) then
      speculate do
        rules.skipTypeParams
        let params ← rules.params
        rules.skipAnnotation
        if (← at? .arrow) && !(← afterNewline?) then
          return some params
        else
          return none
    else
      return none
  else
    return none

/-- The body of an arrow function. -/
def arrowBody (rules : Rules) (noIn : Bool) : Parse (Node .arrowBody) := do
  if ← at? .openBrace then
    let (span, body) ← withGenerator false rules.block
    return .bodyBlock span (.ofList body)
  else
    return .bodyExpr (← rules.assignment noIn)

/-- An arrow function, if one stands here. -/
def arrow? (rules : Rules) (noIn : Bool) : Parse (Option Expr) := do
  let before ← get
  let start ← here
  let isAsync ← eatArrowAsync
  match ← rules.arrowParams with
  | none =>
    set before
    return none
  | some params =>
    let _ ← expect .arrow
    let body ← rules.arrowBody noIn
    return some (.arrow (← spanFrom start) (.ofList params) body isAsync)

/-! ## Assignments -/

/-- A `yield` with its operand, if it has one. -/
def yieldExpr (rules : Rules) (noIn : Bool) : Parse Expr := do
  let start ← here
  pass
  let current ← token
  let isBare := current.afterNewline || current.kind.isEnd ||
    current.kind.isOneOf [.closeParen, .closeBracket, .closeBrace, .comma, .semicolon, .colon]
  let operand ←
    if isBare then pure none
    else do
      let _ ← eat .star
      some <$> rules.assignment noIn
  return .yielded (← spanFrom start) (.ofOption operand)

/-- The assignment operator that a token is, if it is one. -/
def assignOp? : TokenKind → Option AssignOp
  | .punct punct => punct.assign?
  | _ => none

/-- Reads an expression as the target of an assignment. -/
def targetOf (op : AssignOp) (left : Expr) : Parse Pattern := fun state =>
  match (if op = .assign then left.asTarget else left.asSimpleTarget) with
  | .ok target => .ok (target, state)
  | .error error => .error error

/-- An assignment, an arrow function, or what binds tighter. -/
def assignmentExpr (rules : Rules) (noIn : Bool) : Parse Expr := do
  match ← rules.arrow? noIn with
  | some arrow => return arrow
  | none =>
    let start ← here
    if (← get).inGenerator && (← atWord? "yield") then
      rules.yieldExpr noIn
    else
      let left ← rules.conditionalExpr noIn
      match assignOp? (← kind) with
      | none => return left
      | some op =>
        let target ← targetOf op left
        pass
        let value ← rules.assignment noIn
        return .assign (← spanFrom start) op target value

end Rules

end StopMotion.Syntax
