import StopMotion.Syntax.Grammar.Expression

/-!
# Statements

Declarations, control flow, imports and exports. Declarations that hold nothing but
types are read over and keep at most their name.
-/

namespace StopMotion.Syntax

namespace Rules

open Parse

/-! ## Declarations -/

/-- One declared pattern with its initial value. -/
def declarator (rules : Rules) (noIn : Bool) : Parse (Node .declarator) := do
  let start ← here
  let target ← rules.bindingTarget
  let _ ← eat .bang
  rules.skipAnnotation
  let init ← if ← eat .assign then some <$> rules.assignment noIn else pure none
  return .declares (← spanFrom start) target (.ofOption init)

/-- A variable declaration from its keyword on. -/
def varDecl (rules : Rules) (noIn : Bool) : Parse (VarKind × Node (.list .declarator)) := do
  let keyword ← anyName
  let kind :=
    match keyword.text with
    | "const" => VarKind.constKind
    | "let" => .letKind
    | _ => .varKind
  let declarators ← repeating [] fun declarators => do
    let declarators := (← rules.declarator noIn) :: declarators
    if ← eat .comma then
      return .inl declarators
    else
      return .inr declarators.reverse
  return (kind, .ofList declarators)

/-- A variable declaration as a statement. -/
def varStmt (rules : Rules) (start : Nat) : Parse Stmt := do
  let (kind, declarators) ← rules.varDecl false
  semicolon
  return .varStmt (← spanFrom start) kind declarators

/-- An enumeration, whose members are passed over. -/
def enumStmt (rules : Rules) (start : Nat) : Parse Stmt := do
  let _ ← expectWord "enum"
  let name ← bindingName
  rules.skipGroup .openBrace .closeBrace
  return .enumStmt (← spanFrom start) name

/-- Passes over a namespace or module declaration; a body may be left out. -/
def skipNamespace (rules : Rules) : Parse Unit := do
  pass
  let hasBody ← repeating () fun _ => do
    if ← at? .openBrace then
      return .inr true
    else if (← atEnd?) || (← at? .semicolon) then
      let _ ← eat .semicolon
      return .inr false
    else
      pass
      return .inl ()
  if hasBody then
    rules.skipGroup .openBrace .closeBrace

/-- An interface, which is passed over. -/
def interfaceStmt (rules : Rules) (start : Nat) : Parse Stmt := do
  pass
  let name ← bindingName
  rules.skipTypeParams
  if ← eatWord "extends" then
    rules.skipTypes
  rules.skipGroup .openBrace .closeBrace
  return .typeOnly (← spanFrom start) name

/-- A type alias, which is passed over. -/
def typeStmt (rules : Rules) (start : Nat) : Parse Stmt := do
  pass
  let name ← bindingName
  rules.skipTypeParams
  let _ ← expect .assign
  rules.skipType
  semicolon
  return .typeOnly (← spanFrom start) name

/-! ## Control flow -/

/-- An expression in parentheses behind a keyword. -/
def condition (rules : Rules) : Parse Expr := do
  let _ ← expect .openParen
  let value ← rules.expression false
  let _ ← expect .closeParen
  return value

/-- A conditional statement. -/
def ifStmt (rules : Rules) (start : Nat) : Parse Stmt := do
  pass
  let test ← rules.condition
  let consequent ← rules.statement
  let alternative ← if ← eatWord "else" then some <$> rules.statement else pure none
  return .ifStmt (← spanFrom start) test consequent (.ofOption alternative)

/-- The first part of the head of a loop. -/
def loopHead (rules : Rules) : Parse (Option (Node .loopHead)) := do
  if ← at? .semicolon then
    return none
  else if (← atWord? "var") || (← atWord? "const") then
    let (kind, declarators) ← rules.varDecl true
    return some (.headVar kind declarators)
  else if ← atWord? "let" then
    let next ← peek
    if next.kind.word?.isSome || next.kind.isOneOf [.openBracket, .openBrace] then
      let (kind, declarators) ← rules.varDecl true
      return some (.headVar kind declarators)
    else
      return some (.headExpr (← rules.expression true))
  else
    return some (.headExpr (← rules.expression true))

/-- The head of a loop over values or keys, which must name a target. -/
def eachHead (head : Option (Node .loopHead)) : Parse (Node .loopHead) :=
  match head with
  | some (.headExpr value) => do
    return .headPattern (← targetOf .assign value)
  | some other => return other
  | none => unexpected .loopVariable

/-- An optional expression before a punctuator that must stand behind it. -/
def optionalExpr (rules : Rules) (close : Punct) : Parse (Option Expr) := do
  let value ← if ← at? close then pure none else some <$> rules.expression false
  let _ ← expect close
  return value

/-- A loop with a head in parentheses. -/
def forStmt (rules : Rules) (start : Nat) : Parse Stmt := do
  pass
  let _ ← eatWord "await"
  let _ ← expect .openParen
  let head ← rules.loopHead
  let overValues ← atWord? "of"
  if overValues || (← atWord? "in") then
    pass
    let left ← eachHead head
    let right ← if overValues then rules.assignment false else rules.expression false
    let _ ← expect .closeParen
    let body ← rules.statement
    return .forEach (← spanFrom start) left right body overValues
  else
    let _ ← expect .semicolon
    let test ← rules.optionalExpr .semicolon
    let update ← rules.optionalExpr .closeParen
    let body ← rules.statement
    return .forStmt (← spanFrom start) (.ofOption head) (.ofOption test) (.ofOption update) body

/-- A loop with its condition first. -/
def whileStmt (rules : Rules) (start : Nat) : Parse Stmt := do
  pass
  let test ← rules.condition
  let body ← rules.statement
  return .whileStmt (← spanFrom start) test body

/-- A loop with its condition last. -/
def doWhileStmt (rules : Rules) (start : Nat) : Parse Stmt := do
  pass
  let body ← rules.statement
  let _ ← expectWord "while"
  let test ← rules.condition
  let _ ← eat .semicolon
  return .doWhile (← spanFrom start) body test

/-- A return with its value, if it has one on the same line. -/
def returnStmt (rules : Rules) (start : Nat) : Parse Stmt := do
  pass
  let current ← token
  let isBare := current.afterNewline || current.kind.isEnd ||
    current.kind.isOneOf [.semicolon, .closeBrace]
  let value ← if isBare then pure none else some <$> rules.expression false
  semicolon
  return .returnStmt (← spanFrom start) (.ofOption value)

/-- A throw with its value. -/
def throwStmt (rules : Rules) (start : Nat) : Parse Stmt := do
  pass
  let value ← rules.expression false
  semicolon
  return .throwStmt (← spanFrom start) value

/-- The label behind a jump, if there is one on the same line. -/
def jumpLabel : Parse (Option Name) := do
  pass
  let label ←
    if (← atBinding?) && !(← afterNewline?) then some <$> bindingName else pure none
  semicolon
  return label

/-- A try with its handlers, at least one of them. -/
def tryStmt (rules : Rules) (start : Nat) : Parse Stmt := do
  pass
  let (_, body) ← rules.block
  let (param, handler) ←
    if ← eatWord "catch" then do
      let param ←
        if ← eat .openParen then do
          let target ← rules.bindingTarget
          rules.skipAnnotation
          let _ ← expect .closeParen
          pure (some target)
        else pure none
      let (_, handler) ← rules.block
      pure (param, some handler)
    else pure (none, none)
  let finalizer ←
    if ← eatWord "finally" then do
      let (_, finalizer) ← rules.block
      pure (some finalizer)
    else pure none
  if handler.isNone && finalizer.isNone then
    unexpected .catchOrFinally
  else
    return .tryStmt (← spanFrom start) (.ofList body) (.ofOption param)
      (.ofOption (handler.map .ofList)) (.ofOption (finalizer.map .ofList))

/-- Passes over the `default` that begins an arm without a test. -/
def expectDefault : Parse Unit := do
  unless ← eatWord "default" do
    unexpected .caseOrDefault

/-- An arm of a switch. -/
def switchArm (rules : Rules) : Parse (Node .arm) := do
  let test ←
    if ← eatWord "case" then some <$> rules.expression false
    else do
      expectDefault
      pure none
  let _ ← expect .colon
  let body ← many
    (do return (← atWord? "case") || (← atWord? "default") || (← at? .closeBrace))
    do
      if ← atEnd? then
        unexpected .restOfSwitch
      else
        rules.statement
  return .switchArm (.ofOption test) (.ofList body)

/-- A switch. -/
def switchStmt (rules : Rules) (start : Nat) : Parse Stmt := do
  pass
  let subject ← rules.condition
  let _ ← expect .openBrace
  let arms ← many (eat .closeBrace) rules.switchArm
  return .switchStmt (← spanFrom start) subject (.ofList arms)

/-! ## Imports and exports -/

/-- Passes over the attributes of an import. -/
def skipImportAttributes (rules : Rules) : Parse Unit := do
  if ((← atWord? "with") || (← atWord? "assert")) && !(← afterNewline?) then
    pass
    rules.skipGroup .openBrace .closeBrace

/-- The end of an import from its source on. -/
def importSource (rules : Rules) : Parse String := do
  let source ← stringLiteral
  rules.skipImportAttributes
  semicolon
  return source

/-- Passes over the `type` that makes an import one of types only. -/
def eatImportType : Parse Bool := do
  if ← atWord? "type" then
    let next ← peek
    if (next.kind.word?.any fun word => word != "from") ||
        next.kind.isOneOf [.openBrace, .star] then
      pass
      return true
  return false

/-- Passes over the `type` before one imported name. -/
def skipSpecifierType : Parse Unit := do
  if ← atWord? "type" then
    let next ← peek
    if next.kind.word?.any fun word => word != "as" then
      pass

/-- One name in the braces of an import. -/
def importSpecifier : Parse ImportSpec := do
  skipSpecifierType
  let current ← token
  let imported ←
    match current.kind with
    | .string value => do
      pass
      pure ⟨value, current.span⟩
    | _ => anyName
  let binding ← if ← eatWord "as" then bindingName else pure imported
  return ⟨binding, some imported.text, false⟩

/-- The names that an import binds. -/
def importSpecifiers : Parse (List ImportSpec) := do
  let (defaults, more) ←
    if ← atBinding? then do
      let binding ← bindingName
      pure ([ImportSpec.mk binding none false], ← eat .comma)
    else pure ([], true)
  if !more then
    return defaults
  else if ← eat .star then
    let _ ← expectWord "as"
    let binding ← bindingName
    return defaults ++ [⟨binding, none, true⟩]
  else if ← eat .openBrace then
    return defaults ++ (← commaList .closeBrace importSpecifier)
  else
    unexpected .importClause

/-- An import. -/
def importStmt (rules : Rules) (start : Nat) : Parse Stmt := do
  let _ ← expectWord "import"
  let typeOnly ← eatImportType
  match ← kind with
  | .string _ =>
    let source ← rules.importSource
    return .importStmt (← spanFrom start) [] source typeOnly
  | _ =>
    let specifiers ← importSpecifiers
    let _ ← expectWord "from"
    let source ← rules.importSource
    return .importStmt (← spanFrom start) specifiers source typeOnly

/-- One name in the braces of an export. -/
def exportSpecifier : Parse ExportSpec := do
  let source ← anyName
  if ← eatWord "as" then
    match ← kind with
    | .string value =>
      pass
      return ⟨source, value⟩
    | _ => return ⟨source, (← anyName).text⟩
  else
    return ⟨source, source.text⟩

/-- A default export behind its keywords. -/
def exportDefault (rules : Rules) (start : Nat) : Parse Stmt := do
  let valueStart ← here
  if ← atWord? "function" then
    let value ← rules.function valueStart false false
    return .exportFunction (← spanFrom start) value
  if ← atWord? "async" then
    let next ← peek
    if next.kind.isWord "function" && !next.afterNewline then
      pass
      let value ← rules.function valueStart true false
      return .exportFunction (← spanFrom start) value
  if ← atWord? "class" then
    let value ← rules.classDef false
    return .exportClass (← spanFrom start) value
  let value ← rules.assignment false
  semicolon
  return .exportExpr (← spanFrom start) value

/-- The export of everything another module exports. -/
def exportAll (start : Nat) : Parse Stmt := do
  let name ← if ← eatWord "as" then some <$> anyName else pure none
  let _ ← expectWord "from"
  let source ← stringLiteral
  semicolon
  return .exportAll (← spanFrom start) name source

/-- The export of a list of names, behind its opening brace. -/
def exportNamed (start : Nat) : Parse Stmt := do
  let specifiers ← commaList .closeBrace exportSpecifier
  let source ← if ← eatWord "from" then some <$> stringLiteral else pure none
  semicolon
  return .exportNamed (← spanFrom start) specifiers source

/-- Whether a statement declares something that can be exported. -/
def isDeclaration : Stmt → Bool
  | .varStmt .. | .functionStmt .. | .classStmt .. | .typeOnly .. | .enumStmt .. => true
  | _ => false

/-- The export of a declaration. -/
def exportDecl (rules : Rules) (start : Nat) : Parse Stmt := do
  let declaration ← rules.statement
  if isDeclaration declaration then
    return .exportDecl (← spanFrom start) declaration
  else
    fail ⟨start, declaration.span.stop⟩ .expectedDeclaration

/-- An export. -/
def exportStmt (rules : Rules) (start : Nat) : Parse Stmt := do
  let _ ← expectWord "export"
  if ← eatWord "default" then
    rules.exportDefault start
  else if ← eat .star then
    exportAll start
  else
    if ← atWord? "type" then
      if (← peek).kind.isPunct .openBrace then
        pass
    if ← eat .openBrace then
      exportNamed start
    else
      rules.exportDecl start

/-! ## Statements -/

/-- An expression as a statement. -/
def exprStmt (rules : Rules) (start : Nat) : Parse Stmt := do
  let value ← rules.expression false
  semicolon
  return .exprStmt (← spanFrom start) value

/-- The declaration behind a `declare`. -/
def declareStmt (rules : Rules) (start : Nat) : Parse Stmt := do
  pass
  if (← atWord? "module") || (← atWord? "namespace") || (← atWord? "global") then
    rules.skipNamespace
    return .typeOnly (← spanFrom start) none
  else
    let inner ← rules.statement
    return inner.withSpan (← spanFrom start)

/-- A statement with a label. -/
def labeledStmt (rules : Rules) (start : Nat) : Parse Stmt := do
  let label ← bindingName
  pass
  let body ← rules.statement
  return .labeled (← spanFrom start) label body

/-- A function declaration from its keyword on. -/
def functionStmt (rules : Rules) (start : Nat) (isAsync : Bool) : Parse Stmt := do
  let value ← rules.function start isAsync true
  return .functionStmt (← spanFrom start) value

/-- A class declaration from its keyword on. -/
def classStmt (rules : Rules) (start : Nat) : Parse Stmt := do
  let value ← rules.classDef true
  return .classStmt (← spanFrom start) value

/-- The kinds of statement that a word can begin. -/
inductive Leading where
  | var | function | asyncFunction | constEnum | enum | plainClass | abstractClass
  | if | for | while | do | return | throw | break | continue | try | switch | debugger
  | import | export | interface | type | declare | namespace | labeled | expression
  deriving DecidableEq, Repr

/-- What a word begins, as the token behind it tells: many words are keywords only where the
right token follows them. -/
def leading (word : String) (next : Token) : Leading :=
  let onLine := !next.afterNewline
  let beforeWord := next.kind.word?.isSome
  let isString := match next.kind with
    | .string _ => true
    | _ => false
  let other :=
    if !isReserved word && next.kind.isPunct .colon then Leading.labeled else .expression
  match word with
  | "const" => if next.kind.isWord "enum" then .constEnum else .var
  | "var" => .var
  | "let" =>
    if beforeWord || next.kind.isOneOf [.openBracket, .openBrace] then .var else other
  | "function" => .function
  | "async" => if next.kind.isWord "function" && onLine then .asyncFunction else other
  | "class" => .plainClass
  | "abstract" => if next.kind.isWord "class" then .abstractClass else other
  | "if" => .if
  | "for" => .for
  | "while" => .while
  | "do" => .do
  | "return" => .return
  | "throw" => .throw
  | "break" => .break
  | "continue" => .continue
  | "try" => .try
  | "switch" => .switch
  | "debugger" => .debugger
  | "import" => if next.kind.isOneOf [.openParen, .dot] then other else .import
  | "export" => .export
  | "interface" => if beforeWord && onLine then .interface else other
  | "type" => if beforeWord && onLine then .type else other
  | "enum" => if beforeWord then .enum else other
  | "declare" => if beforeWord && onLine then .declare else other
  | "namespace" | "module" =>
    if (beforeWord || isString) && onLine then .namespace else other
  | _ => other

/-- A statement that begins with a word. -/
def wordStmt (rules : Rules) (start : Nat) : Leading → Parse Stmt
  | .var => rules.varStmt start
  | .function => rules.functionStmt start false
  | .asyncFunction => do
    pass
    rules.functionStmt start true
  | .constEnum => do
    pass
    rules.enumStmt start
  | .enum => rules.enumStmt start
  | .plainClass => rules.classStmt start
  | .abstractClass => do
    pass
    rules.classStmt start
  | .if => rules.ifStmt start
  | .for => rules.forStmt start
  | .while => rules.whileStmt start
  | .do => rules.doWhileStmt start
  | .return => rules.returnStmt start
  | .throw => rules.throwStmt start
  | .break => do
    let label ← jumpLabel
    return .breakStmt (← spanFrom start) label
  | .continue => do
    let label ← jumpLabel
    return .continueStmt (← spanFrom start) label
  | .try => rules.tryStmt start
  | .switch => rules.switchStmt start
  | .debugger => do
    pass
    semicolon
    return .debugger (← spanFrom start)
  | .import => rules.importStmt start
  | .export => rules.exportStmt start
  | .interface => rules.interfaceStmt start
  | .type => rules.typeStmt start
  | .declare => rules.declareStmt start
  | .namespace => do
    rules.skipNamespace
    return .typeOnly (← spanFrom start) none
  | .labeled => rules.labeledStmt start
  | .expression => rules.exprStmt start

/-- A statement. -/
def anyStmt (rules : Rules) : Parse Stmt := do
  let current ← token
  let start := current.span.start
  match current.kind with
  | .punct .openBrace =>
    let (_, body) ← rules.block
    return .block (← spanFrom start) (.ofList body)
  | .punct .semicolon =>
    pass
    return .emptyStmt (← spanFrom start)
  | .word word => rules.wordStmt start (leading word (← peek))
  | _ => rules.exprStmt start

end Rules

end StopMotion.Syntax
