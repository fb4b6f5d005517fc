import StopMotion.Syntax.Grammar.Pattern

/-!
# Blocks, functions and classes

Parameter lists and bodies are shared by declarations, expressions and methods. Type
parameters, annotations and modifiers are passed over.
-/

namespace StopMotion.Syntax

namespace Rules

open Parse

/-- Statements in braces, and the span of the braces. -/
def block (rules : Rules) : Parse (Span × List Stmt) := do
  let start := (← expect .openBrace).start
  let body ← many (eat .closeBrace) do
    let current ← token
    if current.kind.isEnd then
      fail current.span (.unclosed .openBrace start)
    else
      rules.statement
  return (← spanFrom start, body)

/-! ## Parameters -/

/-- Modifiers that make a constructor parameter a property. -/
def paramModifiers : List String :=
  ["public", "private", "protected", "readonly", "override"]

/-- Passes over the modifiers before a parameter. -/
def skipParamModifiers : Parse Unit :=
  repeating () fun _ => do
    match (← kind).word? with
    | none => return .inr ()
    | some word =>
      if paramModifiers.contains word then
        let next ← peek
        if next.kind.word?.isSome || next.kind.isOneOf [.openBrace, .openBracket] then
          pass
          return .inl ()
        else
          return .inr ()
      else
        return .inr ()

/-- A parameter; none for a `this` parameter, which carries a type only. -/
def param (rules : Rules) : Parse (Option Pattern) := do
  skipParamModifiers
  let start ← here
  if ← eat .ellipsis then
    let target ← rules.target
    rules.skipAnnotation
    return some (.bindRest (← spanFrom start) target)
  else if ← eatWord "this" then
    rules.skipAnnotation
    return none
  else
    let target ← rules.target
    let _ ← eat .question
    rules.skipAnnotation
    return some (← rules.withDefault start target)

/-- A parameter list in parentheses. -/
def params (rules : Rules) : Parse (List Pattern) := do
  let _ ← expect .openParen
  let items ← commaList .closeParen rules.param
  return items.filterMap id

/-! ## Functions -/

/-- A function from its type parameters on. `start` is where it begins. -/
def functionRest (rules : Rules) (start : Nat) (name : Option Name)
    (isAsync isGenerator : Bool) : Parse Function := do
  rules.skipTypeParams
  let params ← withGenerator isGenerator rules.params
  rules.skipAnnotation
  let (bodySpan, body) ← withGenerator isGenerator rules.block
  return .func (← spanFrom start) name (.ofList params) (.ofList body) bodySpan
    isAsync isGenerator

/-- A name that a definition may leave out unless it is a declaration. -/
def definedName (required : Bool) (wanted : Wanted) : Parse (Option Name) := do
  if ← atBinding? then
    return some (← bindingName)
  else if required then
    unexpected wanted
  else
    return none

/-- A function from its keyword on. `start` is where an `async` before it begins. -/
def function (rules : Rules) (start : Nat) (isAsync nameRequired : Bool) : Parse Function := do
  let _ ← expectWord "function"
  let isGenerator ← eat .star
  let name ← definedName nameRequired .functionName
  rules.functionRest start name isAsync isGenerator

/-! ## Classes -/

/-- The modifiers of a class member. -/
def memberModifiers : List String :=
  ["static", "public", "private", "protected", "readonly", "abstract", "override", "declare",
    "accessor"]

/-- Whether the current word is a modifier rather than the key itself: a key stands on the
same line behind it. -/
def isModifier : Parse Bool := do
  let next ← peek
  return !next.afterNewline && !next.kind.isEnd &&
    !next.kind.isOneOf
      [.openParen, .assign, .semicolon, .colon, .question, .bang, .closeBrace, .less]

/-- Passes over the modifiers of a member and says whether `static` was among them; stops
before a static block and answers none. -/
def skipMemberModifiers : Parse (Option Bool) :=
  repeating false fun isStatic => do
    match (← kind).word? with
    | none => return .inr (some isStatic)
    | some word =>
      if !memberModifiers.contains word then
        return .inr (some isStatic)
      else if word = "static" ∧ (← peek).kind.isPunct .openBrace then
        return .inr none
      else if ← isModifier then
        pass
        return .inl (isStatic || word == "static")
      else
        return .inr (some isStatic)

/-- Passes over a word if it is a modifier here. -/
def eatModifier (words : List String) : Parse Bool := do
  if (← kind).word?.any words.contains then
    if ← isModifier then
      pass
      return true
  return false

/-- A class member behind its modifiers. -/
def memberRest (rules : Rules) (start : Nat) (isStatic : Bool) : Parse (Node .classMember) := do
  let isAsync ← eatModifier ["async"]
  let isGenerator ← eat .star
  let _ ← eatModifier ["get", "set"]
  let key ← rules.key
  if ← atOneOf? [.openParen, .less] then
    let value ← rules.functionRest start none isAsync isGenerator
    return .methodMember (← spanFrom start) key isStatic value
  else
    unless ← eat .question do
      let _ ← eat .bang
    rules.skipAnnotation
    let init ← if ← eat .assign then some <$> rules.assignment false else pure none
    semicolon
    return .fieldMember (← spanFrom start) key isStatic (.ofOption init)

/-- A class member. -/
def classMember (rules : Rules) : Parse (Node .classMember) := do
  let start ← here
  match ← skipMemberModifiers with
  | some isStatic => rules.memberRest start isStatic
  | none =>
    pass
    let (_, body) ← rules.block
    let key := Node.keyName ⟨"static", ⟨start, start + 6⟩⟩
    return .staticBlock (← spanFrom start) key (.ofList body)

/-- The members of a class up to its closing brace. -/
def classMembers (rules : Rules) : Parse (List (Node .classMember)) :=
  repeating [] fun members => do
    if ← eat .closeBrace then
      return .inr members.reverse
    else if ← atEnd? then
      unexpected .restOfClass
    else if ← eat .semicolon then
      return .inl members
    else
      return .inl ((← rules.classMember) :: members)

/-- A class from its keyword on. -/
def classDef (rules : Rules) (nameRequired : Bool) : Parse Class := do
  let start := (← expectWord "class").start
  let name ←
    if (← atBinding?) && !(← atWord? "implements") then some <$> bindingName
    else if nameRequired then unexpected .className
    else pure none
  rules.skipTypeParams
  let superClass ←
    if ← eatWord "extends" then do
      let base ← rules.access
      rules.skipTypeParams
      pure (some base)
    else pure none
  if ← eatWord "implements" then
    rules.skipTypes
  let _ ← expect .openBrace
  let members ← rules.classMembers
  return .klass (← spanFrom start) name (.ofOption superClass) (.ofList members)

end Rules

end StopMotion.Syntax
