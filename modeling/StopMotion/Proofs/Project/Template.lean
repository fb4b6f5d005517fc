import StopMotion.Proofs.Project.Composition
import StopMotion.Proofs.Project.Specifier
import StopMotion.Proofs.Syntax.Run.Declaration

/-!
# Generated files are modules

The registry of compositions and the entry point are texts with a specifier, a name and numbers
put into them. Where the path that is imported has no quote, backslash or line end, the text is
read as a module that imports exactly the specifier, and whose composition has exactly its
settings, whatever is in the name. A path with such a character is put into its quotes as it is,
and that ends the literal or changes its value.
-/

namespace StopMotion.Project

open Syntax Syntax.Piece Syntax.Rules Syntax.Parse

/-! ## Imports -/

/-- The end of an import, from its specifier on. -/
def sourcePieces (source : String) : List Piece :=
  [.token " from" (.word "from") false, .token (" '" ++ source ++ "'") (.string source) false,
    .token ";" (.punct .semicolon) false]

theorem legible_sourcePieces {source : String} (verbatim : IsVerbatim source.toList)
    (rest : List Char) : Legible (sourcePieces source) rest := by
  have split (behind : List Char) : (" '" ++ source ++ "'").toList ++ behind =
      ' ' :: (("'" ++ source ++ "'").toList ++ behind) := by
    simp
  refine ⟨?_, ?_, fun _ _ => rfl, trivial⟩
  · change Spells (" from".toList ++ ((" '" ++ source ++ "'").toList ++ _)) _ _
      ((" '" ++ source ++ "'").toList ++ _)
    rw [split]
    exact fun _ _ => rfl
  · change Spells ((" '" ++ source ++ "'").toList ++ _) _ _ _
    rw [split]
    exact (spells_verbatim verbatim _).blank

/-- An import of one name in braces, behind its first word. -/
def bracesPieces (name : String) : List Piece :=
  [.token " \x7b" (.punct .openBrace) false, .token (" " ++ name) (.word name) false,
    .token " \x7d" (.punct .closeBrace) false]

theorem legible_bracesPieces {name : String} (isWord : IsWord name) (rest : List Char) :
    Legible (bracesPieces name) rest := by
  refine ⟨fun _ _ => rfl, ?_, fun _ _ => rfl, trivial⟩
  have split : (" " ++ name).toList = ' ' :: name.toList := by simp
  change Spells ((" " ++ name).toList ++ ' ' :: '\x7d' :: rest) _ _ _
  rw [split]
  exact (spells_word isWord _ rfl).blank

/-- An import of one name in braces, at the beginning of a text or of a line. -/
def importPieces (newline : Bool) (name source : String) : List Piece :=
  .token (if newline then "\nimport" else "import") (.word "import") newline ::
    (bracesPieces name ++ sourcePieces source)

theorem legible_importPieces (newline : Bool) {name source : String} (isWord : IsWord name)
    (verbatim : IsVerbatim source.toList) (rest : List Char) :
    Legible (importPieces newline name source) rest := by
  refine ⟨?_, (legible_bracesPieces isWord _).append (legible_sourcePieces verbatim _)⟩
  cases newline <;> exact fun _ _ => rfl

section Imports

variable {rules : Rules} {state : ParseState} {last : TokenKind} {newline lastNewline : Bool}
  {text rest lastText : List Char} {start : Nat} {name source : String}

/-- A statement that imports one name from a module. -/
def ImportsName (name source : String) (statement : Stmt) : Prop :=
  ∃ span nameSpan, statement =
    .importStmt span [⟨⟨name, nameSpan⟩, some name, false⟩] source false

theorem importsName_runs (sees : Sees state (.word "import") newline text)
    (isName : name ≠ "type") (read : ReadAs (bracesPieces name ++ sourcePieces source) text rest)
    (behind : Spells rest last lastNewline lastText) :
    Runs (rules.importStmt start) state fun statement next =>
      ImportsName name source statement ∧ Sees next last lastNewline lastText := by
  obtain ⟨_, opens, _, named, _, closes, _, keyword, _, literal, _, semicolon, rfl⟩ := read
  exact importStmt_one sees opens named isName closes keyword literal semicolon behind

end Imports

/-! ## The registry -/

/-- The import of the payload. -/
def payloadPieces (source : String) : List Piece :=
  .token "\nimport" (.word "import") true :: .token " Artifact" (.word "Artifact") false ::
    sourcePieces source

/-- The head of the registry, up to what it returns. -/
def registryPieces : List Piece :=
  [.token "\n\nexport" (.word "export") true, .token " const" (.word "const") false,
    .token " RemotionRoot" (.word "RemotionRoot") false, .token " =" (.punct .assign) false,
    .token " (" (.punct .openParen) false, .token ")" (.punct .closeParen) false,
    .token " =>" (.punct .arrow) false, .token " \x7b" (.punct .openBrace) false,
    .token "\n  return" (.word "return") true, .token " (" (.punct .openParen) false,
    .token "\n    <" (.punct .less) true]

/-- The element of the registry, behind its angle bracket. -/
def elementPieces (settings : List Setting) : List Piece :=
  .inTag "Composition" (.word "Composition") false ::
    .inTag (Setting.opening settings) (Setting.first settings) true :: Setting.pieces settings

/-- What is behind the element, up to the end of the registry. -/
def endPieces : List Piece :=
  [.token "\n  )" (.punct .closeParen) true, .token ";" (.punct .semicolon) false,
    .token "\n\x7d" (.punct .closeBrace) true, .token ";" (.punct .semicolon) false]

/-- A component that returns a composition. -/
def IsRegistry (composition : Composition) (value : Expr) : Prop :=
  ∃ span bodySpan returnSpan parenSpan jsxSpan element, value =
    .arrow span .nil (.bodyBlock bodySpan (.ofList [.returnStmt returnSpan
      (.present (.paren parenSpan (.jsx jsxSpan element)))])) false ∧
        IsComposition composition element

section Registry

variable {state : ParseState} {last : TokenKind} {newline lastNewline : Bool}
  {text rest lastText : List Char} {start depth : Nat} {composition : Composition}

theorem element_runs (small : composition.IsSmall) (before : state.Before text)
    (read : ReadAs (elementPieces composition.settings) text rest) :
    Runs ((ofDepth (depth + 2)).jsxElement start) state fun element next =>
      IsComposition composition element ∧ next.Before rest := by
  obtain ⟨_, named, behind, opening, read⟩ := read
  have attributes (tag : TagName) (first : Token) (next : ParseState) (before : next.Before behind)
      (isFirst : first.kind = .word "id") :
      Runs ((ofDepth (depth + 2)).attributes start tag first) next fun answer after =>
        (∃ made, answer = (made, true) ∧ List.Forall₂ Setting.Makes composition.settings made) ∧
          after.Before rest := by
    have enough : composition.settings.length ≤ next.cursor.rest.length := by
      rw [before.rest]
      exact Setting.length_le read
    apply attributes_runs (composition.settings.length + 1) (by omega)
    exact Setting.attributes_run small.isLegible before isFirst read
  apply (jsxElement_runs before named opening rfl rfl attributes
    fun next before => .pure ⟨(rfl : [] = []), before⟩).mono
  rintro _ next ⟨⟨span, nameSpan, made, _, rfl, areMade, rfl⟩, beforeNext⟩
  exact ⟨⟨span, nameSpan, made, rfl, areMade⟩, beforeNext⟩

/-- The component of the registry: an arrow function. `ahead` is where the element goes on behind
its name. -/
theorem component_runs {inner ahead ahead' : List Char}
    (small : composition.IsSmall) (sees : Sees state (.word "const") false text)
    (head : ReadAs registryPieces.tail.tail text inner)
    (named : Spells inner (.word "Composition") false ahead)
    (second : Spells ahead (.word "id") true ahead')
    (read : ReadAs (elementPieces composition.settings ++ endPieces) inner rest)
    (behind : Spells rest last lastNewline lastText) :
    Runs ((ofDepth (depth + 6)).varStmt start) state fun statement next =>
      (∃ span declared, statement = .varStmt span .constKind (.cons declared .nil) ∧
        Introduces "RemotionRoot" (IsRegistry composition) declared) ∧
          Sees next last lastNewline lastText := by
  obtain ⟨_, name, _, assign, _, opens, _, closes, _, arrow, _, brace, body, returns, _, paren,
    _, less, rfl⟩ := head
  obtain ⟨_, element, _, closesParen, _, semicolon, bodyEnd, ends, _, closing, rfl⟩ :=
    readAs_append.mp read
  have returned (next : ParseState) (sees : Sees next (.word "return") true body) :
      Runs (ofDepth (depth + 5)).statement next fun statement after =>
        (∃ span value, statement = .returnStmt span (.present value) ∧
          ∃ parenSpan jsxSpan element, value = .paren parenSpan (.jsx jsxSpan element) ∧
            IsComposition composition element) ∧ Sees after (.punct .closeBrace) true bodyEnd := by
    apply anyStmt_runs sees paren
    intro next _ _
    exact returnStmt_runs sees paren rfl rfl
      (fun _ sees => expression_parenJsx sees less named second (by decide)
        (fun _ _ before => element_runs small before element) closesParen semicolon rfl rfl) ends
  apply varStmt_one sees name (by decide) assign opens.after _ behind
  intro next sees
  apply (assignmentExpr_arrow sees closes arrow brace fun _ sees =>
    block_one sees returns rfl rfl returned closing).stands.mono
  rintro _ after ⟨⟨span, _, bodySpan, rfl, returnSpan, _, rfl, parenSpan, jsxSpan, element, rfl,
    isComposition⟩, stands⟩
  exact ⟨⟨span, bodySpan, returnSpan, parenSpan, jsxSpan, element, rfl, isComposition⟩, stands⟩

theorem export_runs {inner ahead ahead' : List Char} (small : composition.IsSmall)
    (sees : Sees state (.word "export") newline text)
    (head : ReadAs registryPieces.tail text inner)
    (named : Spells inner (.word "Composition") false ahead)
    (second : Spells ahead (.word "id") true ahead')
    (read : ReadAs (elementPieces composition.settings ++ endPieces) inner rest)
    (behind : Spells rest last lastNewline lastText) :
    Runs (ofDepth (depth + 8)).statement state fun statement next =>
      (∃ span declarationSpan declared, statement = .exportDecl span
        (.varStmt declarationSpan .constKind (.cons declared .nil)) ∧
          Introduces "RemotionRoot" (IsRegistry composition) declared) ∧
            Sees next last lastNewline lastText := by
  obtain ⟨declared, keyword, head⟩ := head
  have ⟨_, name, _⟩ := head
  have declaration (next : ParseState) (sees : Sees next (.word "const") false declared) :
      Runs (ofDepth (depth + 7)).statement next fun statement after =>
        ((∃ span declared, statement = .varStmt span .constKind (.cons declared .nil) ∧
          Introduces "RemotionRoot" (IsRegistry composition) declared) ∧
            isDeclaration statement = true) ∧ Sees after last lastNewline lastText := by
    apply anyStmt_runs sees name
    intro second' isName _
    have isConstant : leading "const" second' = .var := by
      change (if second'.kind.isWord "enum" then Leading.constEnum else .var) = _
      rw [isName]
      rfl
    rw [isConstant]
    apply (component_runs small sees head named second read behind).mono
    rintro _ after ⟨⟨span, declared, rfl, introduces⟩, seesAfter⟩
    exact ⟨⟨⟨span, declared, rfl, introduces⟩, rfl⟩, seesAfter⟩
  apply anyStmt_runs sees keyword
  intro _ _ _
  apply (exportStmt_declaration sees keyword ⟨by decide, by decide⟩ declaration).mono
  rintro _ after ⟨⟨span, _, rfl, declarationSpan, declared, rfl, introduces⟩, seesAfter⟩
  exact ⟨⟨span, declarationSpan, declared, rfl, introduces⟩, seesAfter⟩

end Registry

/-! ## Modules -/

/-- The module of the registry: it imports the payload from a source and exports the component
that shows a composition. -/
def IsRootModule (source : String) (composition : Composition) (body : List Stmt) : Prop :=
  ∃ first span nameSpan exportSpan declarationSpan declared,
    body = [first, .importStmt span [⟨⟨"Artifact", nameSpan⟩, none, false⟩] source false,
      .exportDecl exportSpan (.varStmt declarationSpan .constKind (.cons declared .nil))] ∧
    ImportsName "Composition" "remotion" first ∧
    Introduces "RemotionRoot" (IsRegistry composition) declared

/-- The module of the entry point: it imports the registry from a source and registers it. -/
def IsEntryModule (source : String) (body : List Stmt) : Prop :=
  ∃ first second span callSpan calleeSpan callee argument,
    body = [first, second,
      .exprStmt span (.call callSpan (.name calleeSpan callee) (.ofList [argument]) false)] ∧
    ImportsName "registerRoot" "remotion" first ∧ ImportsName "RemotionRoot" source second ∧
    callee.text = "registerRoot" ∧ IsName "RemotionRoot" argument

/-- The pieces of the registry. -/
def rootPieces (source : String) (composition : Composition) : List Piece :=
  importPieces false "Composition" "remotion" ++ (payloadPieces source ++ (registryPieces ++
    (elementPieces composition.settings ++ endPieces)))

/-- The call of the entry point. -/
def callPieces : List Piece :=
  [.token "\n\nregisterRoot" (.word "registerRoot") true, .token "(" (.punct .openParen) false,
    .token "RemotionRoot" (.word "RemotionRoot") false, .token ")" (.punct .closeParen) false,
    .token ";" (.punct .semicolon) false]

/-- The pieces of the entry point. -/
def entryPieces (source : String) : List Piece :=
  importPieces false "registerRoot" "remotion" ++
    (importPieces true "RemotionRoot" source ++ callPieces)

theorem rootBody_runs {state : ParseState} {source : String} {composition : Composition}
    {depth : Nat} {lastNewline : Bool}
    {text second text₂ third text₃ inner ahead ahead' rest lastText : List Char}
    (small : composition.IsSmall) (sees : Sees state (.word "import") false text)
    (imports : ReadAs (bracesPieces "Composition" ++ sourcePieces "remotion") text second)
    (payload : Spells second (.word "import") true text₂)
    (imports' : ReadAs (payloadPieces source).tail text₂ third)
    (exports : Spells third (.word "export") true text₃)
    (head : ReadAs registryPieces.tail text₃ inner)
    (named : Spells inner (.word "Composition") false ahead)
    (settings : Spells ahead (.word "id") true ahead')
    (read : ReadAs (elementPieces composition.settings ++ endPieces) inner rest)
    (ends : Spells rest .endOfInput lastNewline lastText) :
    Runs (many atEnd? (ofDepth (depth + 8)).statement) state fun body _ =>
      IsRootModule source composition body := by
  have ⟨_, opens, _, braced, _⟩ := imports
  obtain ⟨_, payloadName, _, keyword, _, literal, _, semicolon, rfl⟩ := imports'
  apply many_runs 4
  · have := opens.shorter rfl
    have := braced.shorter rfl
    rw [sees.rest]
    omega
  apply statements_more sees rfl
  apply (anyStmt_import sees opens rfl fun _ =>
    importsName_runs sees (by decide) imports payload).mono
  rintro first next ⟨isFirst, sees⟩
  apply statements_more sees rfl
  apply (anyStmt_import sees payloadName rfl fun _ =>
    importStmt_default sees payloadName (by decide) (by decide) keyword literal semicolon
      exports).mono
  rintro _ next ⟨⟨span, nameSpan, rfl⟩, sees⟩
  apply statements_more sees rfl
  apply (export_runs small sees head named settings read ends).mono
  rintro _ next ⟨⟨exportSpan, declarationSpan, declared, rfl, introduces⟩, sees⟩
  exact statements_done sees
    ⟨first, span, nameSpan, exportSpan, declarationSpan, declared, rfl, isFirst, introduces⟩

/-- The call of a function with a name, as a statement. -/
theorem call_runs {state : ParseState} {depth start : Nat} {last : TokenKind}
    {newline lastNewline : Bool} {text rest lastText : List Char}
    (sees : Sees state (.word "registerRoot") newline text)
    (read : ReadAs callPieces.tail text rest) (behind : Spells rest last lastNewline lastText) :
    Runs ((ofDepth (depth + 2)).exprStmt start) state fun statement next =>
      (∃ span callSpan calleeSpan callee argument, statement =
        .exprStmt span (.call callSpan (.name calleeSpan callee) (.ofList [argument]) false) ∧
          callee.text = "registerRoot" ∧ IsName "RemotionRoot" argument) ∧
            Sees next last lastNewline lastText := by
  obtain ⟨_, opens, _, name, _, closes, _, semicolon, rfl⟩ := read
  have stands : Stands state ([.word "registerRoot", .punct .openParen] ++
      ([.word "RemotionRoot"] ++ [.punct .closeParen]) ++ [.punct .semicolon]) _ :=
    sees.stands ⟨_, opens.after, _, name.after, _, closes.after, _, semicolon.after, rfl⟩
  have argument : ReadsAs ((ofDepth (depth + 1)).assignment false) [.word "RemotionRoot"] endsWhole
      (IsName "RemotionRoot") :=
    assignmentExpr_readsName (by decide) rfl (by decide)
  have binds : canBind "registerRoot" = true := by decide
  have leads : Leads ([.word "registerRoot", .punct .openParen] ++
      ([.word "RemotionRoot"] ++ [.punct .closeParen])) := rfl
  have noArrow : NoArrow (ofDepth (depth + 1)) ([.word "registerRoot", .punct .openParen] ++
      ([.word "RemotionRoot"] ++ [.punct .closeParen])) endsWhole := by
    apply noArrow_word (fun _ => endsExpression_of_endsWhole) (by decide)
    rintro _ isHead
    cases isHead
    exact ⟨rfl, rfl, fun isAsync => absurd isAsync (by decide)⟩
  have call : ReadsAs ((ofDepth (depth + 1)).assignmentExpr false) _ endsWhole _ :=
    assignmentExpr_of_operand (unaryExpr_of_access
      (accessChain_readsCallee binds argument ⟨_, [], rfl, rfl, rfl⟩) leads) noArrow
  apply (exprStmt_runs (expression_readsOne call state _ _ rfl stands) behind).mono
  rintro _ next ⟨⟨span, _, rfl, callSpan, calleeSpan, callee, argument, rfl, isCallee, isName⟩,
    seesNext⟩
  exact ⟨⟨span, callSpan, calleeSpan, callee, argument, rfl, isCallee, isName⟩, seesNext⟩

theorem entryBody_runs {state : ParseState} {source : String} {depth : Nat} {lastNewline : Bool}
    {text second text₂ third text₃ rest lastText : List Char}
    (sees : Sees state (.word "import") false text)
    (imports : ReadAs (bracesPieces "registerRoot" ++ sourcePieces "remotion") text second)
    (root : Spells second (.word "import") true text₂)
    (imports' : ReadAs (bracesPieces "RemotionRoot" ++ sourcePieces source) text₂ third)
    (callee : Spells third (.word "registerRoot") true text₃)
    (call : ReadAs callPieces.tail text₃ rest)
    (ends : Spells rest .endOfInput lastNewline lastText) :
    Runs (many atEnd? (ofDepth (depth + 3)).statement) state fun body _ =>
      IsEntryModule source body := by
  have ⟨_, opens, _, braced, _⟩ := imports
  have ⟨_, opens', _⟩ := imports'
  have ⟨_, paren, _⟩ := call
  apply many_runs 4
  · have := opens.shorter rfl
    have := braced.shorter rfl
    rw [sees.rest]
    omega
  apply statements_more sees rfl
  apply (anyStmt_import sees opens rfl fun _ =>
    importsName_runs sees (by decide) imports root).mono
  rintro first next ⟨isFirst, sees⟩
  apply statements_more sees rfl
  apply (anyStmt_import sees opens' rfl fun _ =>
    importsName_runs sees (by decide) imports' callee).mono
  rintro second next ⟨isSecond, sees⟩
  apply statements_more sees rfl
  have statement : Runs (ofDepth (depth + 3)).statement next fun statement next =>
      (∃ span callSpan calleeSpan callee argument, statement =
        .exprStmt span (.call callSpan (.name calleeSpan callee) (.ofList [argument]) false) ∧
          callee.text = "registerRoot" ∧ IsName "RemotionRoot" argument) ∧
            Sees next .endOfInput lastNewline lastText := by
    apply anyStmt_runs sees paren
    intro ahead isParen _
    have isExpression : leading "registerRoot" ahead = .expression := by
      change (if !isReserved "registerRoot" && ahead.kind.isPunct .colon then Leading.labeled
        else .expression) = _
      rw [isParen]
      rfl
    rw [isExpression]
    exact call_runs sees call ends
  apply statement.mono
  rintro _ next ⟨⟨span, callSpan, calleeSpan, callee, argument, rfl, isCallee, isName⟩, sees⟩
  exact statements_done sees ⟨first, second, span, callSpan, calleeSpan, callee, argument, rfl,
    isFirst, isSecond, isCallee, isName⟩

/-! ## Whole texts -/

/-- The element begins with its name and the name of its first attribute. -/
theorem written_elementPieces (composition : Composition) (rest : List Char) :
    ∃ behind, written (elementPieces composition.settings) rest =
      "Composition".toList ++ ("\n      id".toList ++ '=' :: behind) := ⟨_, rfl⟩

theorem legible_elementPieces {composition : Composition} (small : composition.IsSmall)
    (rest : List Char) : Legible (elementPieces composition.settings) rest := by
  have named (behind : List Char) :
      SpellsInTag ("Composition".toList ++ ("\n      id".toList ++ '=' :: behind))
        (.word "Composition") false ("\n      id".toList ++ '=' :: behind) := fun _ => rfl
  exact ⟨named _, Setting.spells_opening small.isLegible, Setting.legible_pieces small.isLegible⟩

theorem legible_registryPieces (composition : Composition) (rest : List Char) :
    Legible registryPieces (written (elementPieces composition.settings) rest) :=
  ⟨fun _ _ => rfl, fun _ _ => rfl, fun _ _ => rfl, fun _ _ => rfl, fun _ _ => rfl, fun _ _ => rfl,
    fun _ _ => rfl, fun _ _ => rfl, fun _ _ => rfl, fun _ _ => rfl, fun _ _ => rfl, trivial⟩

theorem legible_endPieces (rest : List Char) : Legible endPieces rest :=
  ⟨fun _ _ => rfl, fun _ _ => rfl, fun _ _ => rfl, fun _ _ => rfl, trivial⟩

theorem legible_payloadPieces {source : String} (verbatim : IsVerbatim source.toList)
    (rest : List Char) : Legible (payloadPieces source) rest :=
  ⟨fun _ _ => rfl, fun _ _ => rfl, legible_sourcePieces verbatim rest⟩

theorem legible_callPieces (rest : List Char) : Legible callPieces rest :=
  ⟨fun _ _ => rfl, fun _ _ => rfl, fun _ _ => rfl, fun _ _ => rfl, fun _ _ => rfl, trivial⟩

/-- Outside of a tag the names in it are words as well. -/
theorem spells_names (behind : List Char) :
    Spells ("Composition".toList ++ ("\n      id".toList ++ '=' :: behind)) (.word "Composition")
        false ("\n      id".toList ++ '=' :: behind) ∧
      Spells ("\n      id".toList ++ '=' :: behind) (.word "id") true ('=' :: behind) :=
  ⟨fun _ _ => rfl, fun _ _ => rfl⟩

theorem isVerbatim_remotion : IsVerbatim "remotion".toList := by simp [IsVerbatim]

/-- What is written in the pieces is read as the registry. -/
theorem parse_rootPieces {source : String} {composition : Composition}
    (verbatim : IsVerbatim source.toList) (small : composition.IsSmall) :
    ∃ module, parse (written (rootPieces source composition) ['\n']) = .ok module ∧
      IsRootModule source composition module.body := by
  obtain ⟨behind, isElement⟩ := written_elementPieces composition (written endPieces ['\n'])
  have names := spells_names behind
  have element := ((legible_elementPieces small _).append (legible_endPieces ['\n'])).readAs
  rw [written_append] at element
  obtain ⟨_, exports, head⟩ :=
    (legible_registryPieces composition (written endPieces ['\n'])).readAs
  rw [isElement] at element head exports
  obtain ⟨_, payload, imports'⟩ := (legible_payloadPieces verbatim (written registryPieces
    ("Composition".toList ++ ("\n      id".toList ++ '=' :: behind)))).readAs
  have isWord : IsWord "Composition" := ⟨by decide, by decide⟩
  obtain ⟨_, first, imports⟩ := (legible_importPieces false isWord isVerbatim_remotion
    (written (payloadPieces source) (written registryPieces
      ("Composition".toList ++ ("\n      id".toList ++ '=' :: behind))))).readAs
  unfold rootPieces
  rw [written_append, written_append, written_append, written_append, isElement]
  obtain ⟨depth, deep⟩ : ∃ depth, 3 * (written (importPieces false "Composition" "remotion")
      (written (payloadPieces source) (written registryPieces
        ("Composition".toList ++ ("\n      id".toList ++ '=' :: behind))))).length + 3 =
          depth + 8 := by
    have ⟨_, opens, _⟩ := imports
    have := first.shorter rfl
    have := opens.shorter rfl
    exact ⟨_, (Nat.sub_add_cancel (by omega)).symm⟩
  obtain ⟨module, parsed, -, isRoot⟩ := parse_of_runs first fun state sees => by
    rw [deep]
    exact rootBody_runs small sees imports payload imports' exports head names.1 names.2 element
      fun _ _ => rfl
  exact ⟨module, parsed, isRoot⟩

/-- What is written in the pieces is read as the entry point. -/
theorem parse_entryPieces {source : String} (verbatim : IsVerbatim source.toList) :
    ∃ module, parse (written (entryPieces source) ['\n']) = .ok module ∧
      IsEntryModule source module.body := by
  obtain ⟨_, callee, call⟩ := (legible_callPieces ['\n']).readAs
  have isWord' : IsWord "RemotionRoot" := ⟨by decide, by decide⟩
  obtain ⟨_, root, imports'⟩ :=
    (legible_importPieces true isWord' verbatim (written callPieces ['\n'])).readAs
  have isWord : IsWord "registerRoot" := ⟨by decide, by decide⟩
  obtain ⟨_, first, imports⟩ := (legible_importPieces false isWord isVerbatim_remotion
    (written (importPieces true "RemotionRoot" source) (written callPieces ['\n']))).readAs
  unfold entryPieces
  rw [written_append, written_append]
  obtain ⟨module, parsed, -, isEntry⟩ := parse_of_runs first fun state sees =>
    entryBody_runs sees imports root imports' callee call fun _ _ => rfl
  exact ⟨module, parsed, isEntry⟩

/-! ## Whole texts -/

/-- The path that the file of a template imports, if it imports one. -/
def importedPath (manifest : Manifest) : Template → String
  | .root => (manifest.primary?.map (·.path)).getD "src/Artifact.tsx"
  | .entry => ((manifest.withTemplate? .root).map (·.path)).getD "src/Root.tsx"
  | .config => ""

set_option maxRecDepth 8000 in
theorem toList_rootText (path : String) (manifest : Manifest) (composition : Composition) :
    (rootText path manifest composition).toList =
      written (rootPieces (specifier path (importedPath manifest .root)) composition) ['\n'] := by
  unfold rootText
  simp [rootPieces, importPieces, bracesPieces, sourcePieces, payloadPieces, registryPieces,
    elementPieces, endPieces, Composition.settings, Setting.pieces, Setting.opening,
    Setting.identifier, Setting.component, Setting.count, Piece.spelling, importedPath]

set_option maxRecDepth 8000 in
theorem toList_entryText (path : String) (manifest : Manifest) :
    (entryText path manifest).toList =
      written (entryPieces (specifier path (importedPath manifest .entry))) ['\n'] := by
  unfold entryText
  simp [entryPieces, importPieces, bracesPieces, sourcePieces, callPieces, Piece.spelling,
    importedPath]

/-- The module of the renderer's settings: an import and two calls. -/
def isConfigModule : List Stmt → Bool
  | [.importStmt _ [specifier] source false, .exprStmt _ (.call ..), .exprStmt _ (.call ..)] =>
    specifier.binding.text == "Config" && source == "@remotion/cli/config"
  | _ => false

theorem parse_configText : (parse configText.toList).toOption.any
    (fun module => isConfigModule module.body) = true := by decide +kernel

namespace Template

/-- What the module of a template is, with the specifier that it imports. -/
def IsModule (template : Template) (source : String) (composition : Composition)
    (body : List Stmt) : Prop :=
  match template with
  | root => IsRootModule source composition body
  | entry => IsEntryModule source body
  | config => isConfigModule body = true

/-- The text of every template is read as its module, if the path that it imports may stand in
quotes as it is. -/
theorem parse_text (template : Template) (path : String) (manifest : Manifest)
    {composition : Composition} (small : composition.IsSmall)
    (verbatim : IsVerbatim (importedPath manifest template).toList) :
    ∃ module, parse (template.text path manifest composition).toList = .ok module ∧
      template.IsModule (specifier path (importedPath manifest template)) composition
        module.body := by
  cases template with
  | root =>
      rw [text, toList_rootText]
      exact parse_rootPieces (isVerbatim_specifier verbatim) small
  | entry =>
      rw [text, toList_entryText]
      exact parse_entryPieces (isVerbatim_specifier verbatim)
  | config =>
      have isRead := parse_configText
      cases parsed : parse configText.toList with
      | error error => simp [parsed, Except.toOption] at isRead
      | ok module =>
          have isConfig : isConfigModule module.body = true := by
            simpa [parsed, Except.toOption] using isRead
          exact ⟨module, parsed, isConfig⟩

end Template

end StopMotion.Project
