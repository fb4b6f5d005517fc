import StopMotion.Syntax.Grammar.Basic

/-!
# Templates, and types read over

A type leaves no node. It is passed over up to the first token that cannot continue
it, with balanced brackets inside. Template literals stand among the rules for types
because one can occur in a type.
-/

namespace StopMotion.Syntax

namespace Rules

open Parse

/-- One or more assignments separated by commas. -/
def expression (rules : Rules) (noIn : Bool) : Parse Expr := do
  let start ← here
  let first ← rules.assignment noIn
  if ← at? .comma then
    let items ← repeating [first] fun items => do
      if ← eat .comma then
        return .inl ((← rules.assignment noIn) :: items)
      else
        return .inr items.reverse
    return .sequence (← spanFrom start) (.ofList items)
  else
    return first

/-- The chunks and substitutions of a template literal whose first chunk is the current
token. -/
def template (rules : Rules) : Parse (List String × List Expr) :=
  repeating ([], []) fun (chunks, substitutions) => do
    let current ← token
    match current.kind with
    | .template chunk true =>
      pass
      return .inr ((chunk :: chunks).reverse, substitutions.reverse)
    | .template chunk false =>
      resume true
      let substitution ← rules.expression false
      let close ← token
      unless close.kind.isPunct .closeBrace do
        unexpected .closeOfSubstitution
      let next ← reading (readChunk close.span.start false)
      modify fun state => { state with token := next }
      return .inl (chunk :: chunks, substitution :: substitutions)
    | _ => unexpected .templateLiteral

/-- Passes over a bracketed group whose opening bracket must stand here. -/
def skipGroup (rules : Rules) (opening closing : Punct) : Parse Unit := do
  let start := (← expect opening).start
  repeating 1 fun depth => do
    let current ← token
    if current.kind.isEnd then
      fail current.span (.unclosed opening start)
    else if current.kind.isTemplate then
      let _ ← rules.template
      return .inl depth
    else if current.kind.isPunct opening then
      pass
      return .inl (depth + 1)
    else if current.kind.isPunct closing then
      pass
      if depth = 1 then
        return .inr ()
      else
        return .inl (depth - 1)
    else
      pass
      return .inl depth

/-- Passes over one closing angle bracket, which may be the first character of a longer
punctuator. -/
def closeAngle : Parse Unit := do
  let current ← token
  match current.kind with
  | .punct punct =>
    match punct.afterClosingAngle? with
    | none => unexpected (.punct .greater)
    | some none => pass
    | some (some left) =>
      let split := current.span.start + 1
      modify fun state =>
        { state with
          lastEnd := split
          token := ⟨.punct left, ⟨split, current.span.stop⟩, false⟩ }
  | _ => unexpected (.punct .greater)

/-- Passes over a type argument or parameter list whose opening bracket must stand here. -/
def skipAngles (rules : Rules) : Parse Unit := do
  let _ ← expect .less
  repeating 1 fun depth => do
    match ← kind with
    | .endOfInput => unexpected (.punct .greater)
    | .template .. =>
      let _ ← rules.template
      return .inl depth
    | .punct punct =>
      if punct.afterClosingAngle?.isSome then
        closeAngle
        if depth = 1 then
          return .inr ()
        else
          return .inl (depth - 1)
      else
        match punct with
        | .less =>
          pass
          return .inl (depth + 1)
        | .openParen =>
          rules.skipGroup .openParen .closeParen
          return .inl depth
        | .openBracket =>
          rules.skipGroup .openBracket .closeBracket
          return .inl depth
        | .openBrace =>
          rules.skipGroup .openBrace .closeBrace
          return .inl depth
        | .semicolon | .closeParen | .closeBracket | .closeBrace | .and | .or | .assign
        | .plus | .minus => unexpected .typeArgument
        | _ =>
          pass
          return .inl depth
    | _ =>
      pass
      return .inl depth

/-- Passes over a type parameter list, if there is one. -/
def skipTypeParams (rules : Rules) : Parse Unit := do
  if ← at? .less then
    rules.skipAngles

/-- The words behind which an operand of a type follows. -/
def typeOperators : List String :=
  ["keyof", "typeof", "readonly", "unique", "infer", "new", "asserts"]

/-- What may come next in a type: whether an operand is wanted, and whether the part just
passed was a parenthesised group, behind which an arrow makes it a parameter list. -/
structure TypeState where
  wantsOperand : Bool
  afterGroup : Bool

/-- Passes over the next part of a type and says what may come next; none where the type
has ended. -/
def skipTypePart (rules : Rules) (state : TypeState) : Parse (Option TypeState) := do
  let current ← token
  let operand : Option TypeState := some ⟨true, false⟩
  let finished : Option TypeState := some ⟨false, false⟩
  match current.kind with
  | .punct .openParen =>
    if state.wantsOperand then
      rules.skipGroup .openParen .closeParen
      return some ⟨false, true⟩
    else
      return none
  | .punct .arrow =>
    if state.afterGroup then
      pass
      return operand
    else
      return none
  | .punct .openBrace =>
    if state.wantsOperand then
      rules.skipGroup .openBrace .closeBrace
      return finished
    else
      return none
  | .punct .openBracket =>
    if state.wantsOperand || !current.afterNewline then
      rules.skipGroup .openBracket .closeBracket
      return finished
    else
      return none
  | .punct .less =>
    rules.skipAngles
    return some ⟨state.wantsOperand, false⟩
  | .punct .bar | .punct .ampersand =>
    pass
    return operand
  | .punct .dot =>
    if state.wantsOperand then
      return none
    else
      pass
      return operand
  | .punct .minus =>
    if state.wantsOperand then
      pass
      return operand
    else
      return none
  | .word word =>
    if state.wantsOperand then
      pass
      return some ⟨typeOperators.contains word, false⟩
    else if word = "is" ∨ word = "extends" then
      pass
      return operand
    else
      return none
  | .string _ | .number _ =>
    if state.wantsOperand then
      pass
      return finished
    else
      return none
  | .template .. =>
    if state.wantsOperand then
      let _ ← rules.template
      return finished
    else
      return none
  | _ => return none

/-- Passes over a type, up to the first token that cannot continue it. -/
def skipType (rules : Rules) : Parse Unit :=
  repeating ⟨true, false⟩ fun state => do
    match ← rules.skipTypePart state with
    | some state => return .inl state
    | none => return .inr ()

/-- Passes over a colon and the type behind it, if there is a colon. -/
def skipAnnotation (rules : Rules) : Parse Unit := do
  if ← eat .colon then
    rules.skipType

/-- Passes over one or more types separated by commas. -/
def skipTypes (rules : Rules) : Parse Unit :=
  repeating () fun _ => do
    rules.skipType
    if ← eat .comma then
      return .inl ()
    else
      return .inr ()

end Rules

end StopMotion.Syntax
