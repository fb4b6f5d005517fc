import StopMotion.Syntax.Grammar.Function

/-!
# JSX elements

Inside a tag and between tags the text has tokens of its own, so these rules read at
the cursor and leave the current token alone, until an expression in braces is met or
the element ends. An element's `<` stands just before the cursor.
-/

namespace StopMotion.Syntax

namespace Rules

open Parse

/-- The next token inside a tag. -/
def tagToken : Parse Token := reading readTagToken

/-- Where the cursor is. -/
def cursorPos : Parse Nat := do
  return (← get).cursor.pos

/-- A word inside a tag. -/
def tagWord (cause : Cause) : Parse Name := do
  let found ← tagToken
  match found.kind with
  | .word text => return ⟨text, found.span⟩
  | _ => fail found.span cause

/-- The parts of a dotted tag name behind its first, and the token behind them. `next` is the
token behind the parts read so far. -/
def tagMembers (first : Name) (next : Token) : Parse (List Name × Token) :=
  repeating ([first], next) fun (parts, next) => do
    if next.kind.isPunct .dot then
      let part ← tagWord .expectedTagMember
      return .inl (part :: parts, ← tagToken)
    else
      return .inr (parts.reverse, next)

/-- The tag name that begins with a token, and the token behind it. -/
def tagName (current : Token) : Parse (TagName × Token) := do
  match current.kind with
  | .word text =>
    let first : Name := ⟨text, current.span⟩
    let next ← tagToken
    if next.kind.isPunct .dot then
      let (parts, next) ← tagMembers first next
      return (.member parts, next)
    else if next.kind.isPunct .colon then
      let second ← tagWord .expectedTagLocalName
      let next ← tagToken
      let span := ⟨first.span.start, second.span.stop⟩
      return (.namespaced (text ++ ":" ++ second.text) span, next)
    else
      return (.plain first, next)
  | _ => fail current.span .expectedTagName

/-- The expression of a container behind its opening brace, if it holds one. The cursor is
left behind the closing brace. -/
def container (rules : Rules) : Parse (Option Expr) := do
  if ← at? .closeBrace then
    return none
  else
    let value ← rules.expression false
    unless ← at? .closeBrace do
      unexpected .closeOfContainer
    return some value

/-- The operand of a spread behind its opening brace. The cursor is left behind the closing
brace. -/
def spreadOperand (rules : Rules) : Parse Expr := do
  let _ ← expect .ellipsis
  let value ← rules.assignment false
  unless ← at? .closeBrace do
    unexpected .closeOfSpread
  return value

/-! ## Attributes -/

/-- The value of an attribute behind its equals sign; it makes the attribute once the span
is known. -/
def attributeValue (rules : Rules) (name : String) : Parse (Span → Node .jsxAttribute) := do
  let found ← tagToken
  match found.kind with
  | .string value => return fun span => .attrString span name value found.span
  | .punct .openBrace =>
    resume true
    match ← rules.container with
    | some value => return fun span => .attrExpr span name value
    | none => fail ⟨found.span.start, ← cursorPos⟩ .emptyAttribute
  | .punct .less =>
    let value ← rules.element found.span.start
    return fun span => .attrElement span name value
  | _ => fail found.span .expectedAttributeValue

/-- The attribute whose name begins with a word, and the token behind it. -/
def namedAttribute (rules : Rules) (first : Name) : Parse (Node .jsxAttribute × Token) := do
  let next ← tagToken
  let (name, stop, next) ←
    if next.kind.isPunct .colon then do
      let second ← tagWord .expectedAttributeName
      pure (first.text ++ ":" ++ second.text, second.span.stop, ← tagToken)
    else pure (first.text, first.span.stop, next)
  if next.kind.isPunct .assign then
    let value ← rules.attributeValue name
    let span := ⟨first.span.start, ← cursorPos⟩
    return (value span, ← tagToken)
  else
    return (.attrFlag ⟨first.span.start, stop⟩ name, next)

/-- The attributes of a tag from a token on, and whether a slash ends it. -/
def attributes (rules : Rules) (start : Nat) (name : TagName) (first : Token) :
    Parse (List (Node .jsxAttribute) × Bool) :=
  repeating ([], first) fun (attributes, current) => do
    match current.kind with
    | .punct .slash =>
      let close ← tagToken
      unless close.kind.isPunct .greater do
        fail close.span .expectedTagEnd
      return .inr (attributes.reverse, true)
    | .punct .greater => return .inr (attributes.reverse, false)
    | .word text =>
      let (value, next) ← rules.namedAttribute ⟨text, current.span⟩
      return .inl (value :: attributes, next)
    | .punct .openBrace =>
      resume true
      let operand ← rules.spreadOperand
      let span := ⟨current.span.start, ← cursorPos⟩
      return .inl (.attrSpread span operand :: attributes, ← tagToken)
    | .endOfInput => fail ⟨start, start + 1⟩ (.unterminatedTag name.text)
    | _ => fail current.span (.unexpectedInTag current.kind)

/-! ## Children -/

/-- The end of a closing tag behind its slash, which must close `opened`. -/
def closingTag (opened : String) : Parse Unit := do
  let first ← tagToken
  let (closed, next) ←
    if first.kind.isPunct .greater then pure ("", first)
    else do
      let (name, next) ← tagName first
      pure (name.text, next)
  unless next.kind.isPunct .greater do
    fail next.span .expectedClosingTagEnd
  unless closed = opened do
    fail ⟨first.span.start, next.span.start⟩ (.mismatchedTag opened closed)

/-- The child that begins with a brace or an angle bracket at the cursor; none for the
closing tag of the element. -/
def child (rules : Rules) (start : Nat) (opened : String) : Parse (Option (Node .child)) := do
  let before ← place
  match before.rest with
  | [] => fail ⟨start, start + 1⟩ (.unclosedElement opened)
  | first :: _ =>
    modify fun state => { state with cursor := before.skip 1 }
    if first = '\x7b' then
      resume true
      if ← at? .ellipsis then
        return some (.childSpread (← rules.spreadOperand))
      else
        let value ← rules.container
        return some (.childExpr ⟨before.pos, ← cursorPos⟩ (.ofOption value))
    else
      let inside := (← get).cursor
      if (← tagToken).kind.isPunct .slash then
        closingTag opened
        return none
      else
        modify fun state => { state with cursor := inside }
        return some (.childElement (← rules.element before.pos))

/-- The children of an element up to its closing tag. -/
def children (rules : Rules) (start : Nat) (opened : String) : Parse (List (Node .child)) :=
  repeating [] fun children => do
    let text ← reading fun cursor => .ok (readText cursor)
    let children :=
      match text with
      | some (value, span) => .childText span value :: children
      | none => children
    match ← rules.child start opened with
    | some child => return .inl (child :: children)
    | none => return .inr children.reverse

/-! ## Elements -/

/-- The element whose `<` stands at `start`. The cursor is left behind the element. -/
def jsxElement (rules : Rules) (start : Nat) : Parse Element := do
  let first ← tagToken
  if first.kind.isPunct .greater then
    let children ← rules.children start ""
    return .tag ⟨start, ← cursorPos⟩ none .nil (.ofList children)
  else
    let (name, next) ← tagName first
    let (attributes, isClosed) ← rules.attributes start name next
    let children ← if isClosed then pure [] else rules.children start name.text
    return .tag ⟨start, ← cursorPos⟩ (some name) (.ofList attributes) (.ofList children)

/-- An element as an expression. -/
def jsxExpr (rules : Rules) : Parse Expr := do
  let start ← here
  let element ← rules.jsxElement start
  let stop ← cursorPos
  resume false
  return .jsx ⟨start, stop⟩ element

end Rules

end StopMotion.Syntax
