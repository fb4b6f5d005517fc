import StopMotion.Syntax.Token.Lexer
import StopMotion.Syntax.Tree

/-!
# Reading a module token by token

The state of a reading, the steps that look at and pass over one token, and the ways
to repeat and to undo them. A rule of the grammar is a value of `Parse`; the rules
that call each other come as a record, `Rules`, whose values of every depth are tied
together at the end.
-/

namespace StopMotion.Syntax

/-- Where a reading stands: its source, the cursor behind the current token, that token, the
end of the token before it, and whether `yield` is an operator here. -/
structure ParseState where
  source : List Char
  cursor : Cursor
  token : Token
  lastEnd : Nat
  inGenerator : Bool

/-- A step of a reading. -/
abbrev Parse (α : Type) := StateT ParseState (Except SyntaxError) α

/-- The rules that call each other. Every call of one through this record comes behind a
token of the calling rule, so the depth of the calls is bounded by the source. -/
structure Rules where
  statement : Parse Stmt
  assignment : (noIn : Bool) → Parse Expr
  binary : (least : Nat) → (noIn : Bool) → Parse Expr
  unary : Parse Expr
  access : Parse Expr
  construction : Parse Expr
  target : Parse Pattern
  element : (start : Nat) → Parse Element

namespace Parse

/-! ## Errors -/

/-- Refuses the source at a span. -/
def fail {α : Type} (span : Span) (cause : Cause) : Parse α :=
  fun _ => .error ⟨span, cause⟩

/-- Refuses the current token. -/
def unexpected {α : Type} (wanted : Wanted) : Parse α :=
  fun state => .error ⟨state.token.span, .expected wanted state.token.kind⟩

/-- Runs a way of reading at the cursor, on what is left of the source from there. Where no
character of the source begins nothing can be read. -/
def reading {α : Type} (read : Cursor → Reading (α × Cursor)) : Parse α := fun state =>
  match Text.rest? state.cursor.pos state.source with
  | none => .error ⟨.point state.cursor.pos, .strayed⟩
  | some rest =>
    match read ⟨rest, state.cursor.pos⟩ with
    | .ok (value, cursor) => .ok (value, { state with cursor })
    | .error error => .error error

/-- The place of the cursor, with what is left of the source from there. -/
def place : Parse Cursor := reading fun cursor => .ok (cursor, cursor)

/-! ## The current token -/

/-- The current token. -/
def token : Parse Token := fun state => .ok (state.token, state)

/-- The kind of the current token. -/
def kind : Parse TokenKind := fun state => .ok (state.token.kind, state)

/-- Where the current token starts. -/
def here : Parse Nat := fun state => .ok (state.token.span.start, state)

/-- The span from `start` to the end of the token passed last. -/
def spanFrom (start : Nat) : Parse Span := fun state => .ok (⟨start, state.lastEnd⟩, state)

/-- Whether the current token is a punctuator. -/
def at? (punct : Punct) : Parse Bool := fun state => .ok (state.token.kind.isPunct punct, state)

/-- Whether the current token is one of some punctuators. -/
def atOneOf? (puncts : List Punct) : Parse Bool :=
  fun state => .ok (state.token.kind.isOneOf puncts, state)

/-- Whether the current token is a word. -/
def atWord? (word : String) : Parse Bool :=
  fun state => .ok (state.token.kind.isWord word, state)

/-- Whether the input has ended. -/
def atEnd? : Parse Bool := fun state => .ok (state.token.kind.isEnd, state)

/-- Whether a line ended before the current token. -/
def afterNewline? : Parse Bool := fun state => .ok (state.token.afterNewline, state)

/-- Whether the current token can name a binding. -/
def atBinding? : Parse Bool :=
  fun state => .ok (state.token.kind.word?.any canBind, state)

/-- Passes over the current token and returns it. -/
def advance : Parse Token := do
  let passed ← token
  let next ← reading (readToken passed.kind.regexMayFollow)
  modify fun state => { state with token := next, lastEnd := passed.span.stop }
  return passed

/-- Passes over the current token. -/
def pass : Parse Unit := do
  let _ ← advance

/-- The token behind the current one. -/
def peek : Parse Token := do
  let before ← get
  let _ ← advance
  let next ← token
  set before
  return next

/-- Reads on from the cursor in the ordinary way. -/
def resume (regexMayFollow : Bool) : Parse Unit := do
  modify fun state => { state with lastEnd := state.cursor.pos }
  let next ← reading (readToken regexMayFollow)
  modify fun state => { state with token := next }

/-- Passes over a punctuator if it is the current token. -/
def eat (punct : Punct) : Parse Bool := do
  if ← at? punct then
    pass
    return true
  else
    return false

/-- Passes over a word if it is the current token. -/
def eatWord (word : String) : Parse Bool := do
  if ← atWord? word then
    pass
    return true
  else
    return false

/-- Passes over a punctuator that must stand here. -/
def expect (punct : Punct) : Parse Span := do
  if ← at? punct then
    return (← advance).span
  else
    unexpected (.punct punct)

/-- Passes over a word that must stand here. -/
def expectWord (word : String) : Parse Span := do
  if ← atWord? word then
    return (← advance).span
  else
    unexpected (.word word)

/-- The end of a statement: a semicolon, or a place where one may be left out. -/
def semicolon : Parse Unit := do
  if ← eat .semicolon then
    return ()
  if (← at? .closeBrace) || (← atEnd?) || (← afterNewline?) then
    return ()
  unexpected (.punct .semicolon)

/-- A string literal that must stand here. -/
def stringLiteral : Parse String := do
  match ← kind with
  | .string value =>
    pass
    return value
  | _ => unexpected .stringLiteral

/-- Any name, keywords included. -/
def anyName : Parse Name := do
  let current ← token
  match current.kind with
  | .word text =>
    pass
    return ⟨text, current.span⟩
  | _ => unexpected .identifier

/-- A name that can be bound. -/
def bindingName : Parse Name := do
  if ← atBinding? then
    anyName
  else
    unexpected .identifier

/-! ## Repetition and undoing -/

/-- Repeats a step at most `bound` times, until it returns a result. -/
def repeatAtMost {σ α : Type} (step : σ → Parse (σ ⊕ α)) : Nat → σ → Parse α
  | 0, _ => do fail (← token).span .nestedTooDeeply
  | bound + 1, soFar => do
    match ← step soFar with
    | .inl soFar => repeatAtMost step bound soFar
    | .inr result => return result

/-- Repeats a step until it returns a result. A step that does not return one passes over
a character at least, so what is left to read bounds their number. -/
def repeating {σ α : Type} (start : σ) (step : σ → Parse (σ ⊕ α)) : Parse α := do
  repeatAtMost step ((← get).cursor.rest.length + 2) start

/-- Collects items until `stop` says that there are no more. -/
def many {α : Type} (stop : Parse Bool) (item : Parse α) : Parse (List α) :=
  repeating [] fun items => do
    if ← stop then
      return .inr items.reverse
    else
      return .inl ((← item) :: items)

/-- Items separated by commas up to a closing punctuator, which is passed over. A comma may
follow the last item. -/
def commaList {α : Type} (close : Punct) (item : Parse α) : Parse (List α) :=
  many (eat close) do
    let value ← item
    unless ← at? close do
      let _ ← expect .comma
    return value

/-- Runs a step and undoes it, with its failure, unless it returns a result. A reading that
was given up is not gone on with. -/
def speculate {α : Type} (step : Parse (Option α)) : Parse (Option α) := fun state =>
  match step state with
  | .ok (some value, after) => .ok (some value, after)
  | .ok (none, _) => .ok (none, state)
  | .error error => if error.isGivenUp then .error error else .ok (none, state)

/-- Runs a step and undoes it in any case; a failure answers `false`. -/
def foresee (step : Parse Bool) : Parse Bool := fun state =>
  match step state with
  | .ok (answer, _) => .ok (answer, state)
  | .error error => if error.isGivenUp then .error error else .ok (false, state)

/-- Runs a step with `yield` as an operator or not. -/
def withGenerator {α : Type} (isGenerator : Bool) (step : Parse α) : Parse α := do
  let before := (← get).inGenerator
  modify fun state => { state with inGenerator := isGenerator }
  let value ← step
  modify fun state => { state with inGenerator := before }
  return value

end Parse

end StopMotion.Syntax
