import StopMotion.Proofs.Syntax.Run.Element

/-!
# Statements on a known text

What the rules for statements answer on an import of one name, on a function without parameters
whose body is one statement, on a return with a value and on a default export. At the end, what
is read as the body of a module is what reading the source answers.
-/

namespace StopMotion.Syntax

namespace Rules

open Parse

variable {rules : Rules} {state : ParseState} {kind kind' last : TokenKind}
  {newline newline₁ newline₂ newline₃ newline₄ newline₅ lastNewline : Bool}
  {text text₁ text₂ text₃ text₄ text₅ lastText : List Char} {start : Nat} {name : String}

/-! ## Functions -/

/-- A parameter list with nothing in it. -/
theorem params_none (sees : Sees state (.punct .openParen) newline text)
    (closes : Spells text (.punct .closeParen) newline₁ text₁)
    (behind : Spells text₁ last lastNewline lastText) :
    Runs rules.params state fun params next => params = [] ∧
      Sees next last lastNewline lastText := by
  unfold params
  apply (expect_runs sees closes).bind
  intro _ next seesClose
  have nothing : Runs (commaList .closeParen rules.param) next fun items after =>
      items = [] ∧ Sees after last lastNewline lastText := by
    apply many_runs 1 (by omega)
    apply manyAtMost_done
    apply (eat_runs seesClose behind).mono
    rintro _ after ⟨rfl, seesAfter⟩
    exact ⟨rfl, rfl, seesAfter⟩
  apply nothing.bind
  rintro _ after ⟨rfl, seesAfter⟩
  exact .pure ⟨rfl, seesAfter⟩

/-- A block of one statement. -/
theorem block_one {holds : Stmt → Prop} (sees : Sees state (.punct .openBrace) newline text)
    (first : Spells text kind newline₁ text₁) (filled : kind.isPunct .closeBrace = false)
    (goesOn : kind.isEnd = false)
    (statement : ∀ next, Sees next kind newline₁ text₁ →
      Runs rules.statement next fun value after =>
        holds value ∧ Sees after (.punct .closeBrace) newline₂ text₂)
    (behind : Spells text₂ last lastNewline lastText) :
    Runs rules.block state fun answer next =>
      (∃ span value, answer = (span, [value]) ∧ holds value) ∧
        Sees next last lastNewline lastText := by
  unfold block
  apply (expect_runs sees first).bind
  intro opening next seesFirst
  have noClose : next.token.kind.isPunct .closeBrace = false := by
    rw [seesFirst.kind]
    exact filled
  have noEnd : next.token.kind.isEnd = false := by
    rw [seesFirst.kind]
    exact goesOn
  have one : Runs (many (eat .closeBrace) do
      let current ← token
      if current.kind.isEnd then
        fail current.span (.unclosed .openBrace opening.start)
      else
        rules.statement) next fun body after =>
      (∃ value, body = [value] ∧ holds value) ∧ Sees after last lastNewline lastText := by
    apply many_runs 2 (by omega)
    apply manyAtMost_more (eat_other noClose)
    simp only [runs_token, noEnd, Bool.false_eq_true, if_false]
    apply (statement next seesFirst).mono
    rintro value after ⟨held, seesClose⟩
    apply manyAtMost_done
    apply (eat_runs seesClose behind).mono
    rintro _ after ⟨rfl, seesAfter⟩
    exact ⟨rfl, ⟨value, rfl, held⟩, seesAfter⟩
  apply one.bind
  rintro _ after ⟨⟨value, rfl, held⟩, seesAfter⟩
  rw [runs_spanFrom]
  exact .pure ⟨⟨_, value, rfl, held⟩, seesAfter⟩

/-- The name of a function. -/
theorem definedName_runs {required : Bool} {wanted : Wanted}
    (sees : Sees state (.word name) newline text) (binds : canBind name = true)
    (behind : Spells text last lastNewline lastText) :
    Runs (definedName required wanted) state fun answer next =>
      (∃ span, answer = some ⟨name, span⟩) ∧ Sees next last lastNewline lastText := by
  have isBinding : state.token.kind.word?.any canBind = true := by
    rw [sees.kind]
    exact binds
  unfold definedName
  rw [runs_atBinding?, if_pos isBinding]
  apply (bindingName_runs sees binds behind).bind
  rintro _ next ⟨rfl, seesNext⟩
  exact .pure ⟨⟨_, rfl⟩, seesNext⟩

/-- The body of a function that is no generator. -/
theorem functionBody_runs {holds : Span × List Stmt → Prop}
    (sees : Sees state (.punct .openBrace) newline text)
    (block : ∀ next, Sees next (.punct .openBrace) newline text →
      Runs rules.block next fun answer after =>
        holds answer ∧ Sees after last lastNewline lastText) :
    Runs (withGenerator false rules.block) state fun answer next =>
      holds answer ∧ Sees next last lastNewline lastText := by
  apply withGenerator_runs
  apply (block _ (sees.withGenerator false)).mono
  rintro answer after ⟨held, seesAfter⟩
  exact ⟨held, seesAfter.withGenerator _⟩

/-- A function without parameters, from its parameter list on. -/
theorem functionRest_runs {found : Option Name} {holds : Stmt → Prop}
    (sees : Sees state (.punct .openParen) newline text)
    (closes : Spells text (.punct .closeParen) newline₁ text₁)
    (brace : Spells text₁ (.punct .openBrace) newline₂ text₂)
    (block : ∀ next, Sees next (.punct .openBrace) newline₂ text₂ →
      Runs rules.block next fun answer after =>
        (∃ span value, answer = (span, [value]) ∧ holds value) ∧
          Sees after last lastNewline lastText) :
    Runs (rules.functionRest start found false false) state fun value next =>
      (∃ span inner bodySpan, value =
        .func span found .nil (.ofList [inner]) bodySpan false false ∧ holds inner) ∧
          Sees next last lastNewline lastText := by
  have noAngle : state.token.kind.isPunct .less = false := by
    rw [sees.kind]
    rfl
  unfold functionRest
  apply (skipTypeParams_none noAngle).bind
  rintro _ state rfl
  have params : Runs (withGenerator false rules.params) state fun params next =>
      params = [] ∧ Sees next (.punct .openBrace) newline₂ text₂ := by
    apply withGenerator_runs
    apply (params_none (sees.withGenerator false) closes brace).mono
    rintro _ next ⟨rfl, seesNext⟩
    exact ⟨rfl, seesNext.withGenerator _⟩
  apply params.bind
  rintro _ next ⟨rfl, seesBrace⟩
  have noColon : next.token.kind.isPunct .colon = false := by
    rw [seesBrace.kind]
    rfl
  apply (skipAnnotation_none noColon).bind
  rintro _ next rfl
  apply (functionBody_runs seesBrace block).bind
  rintro _ after ⟨⟨span, inner, rfl, held⟩, seesAfter⟩
  rw [runs_spanFrom]
  exact .pure ⟨⟨_, inner, span, rfl, held⟩, seesAfter⟩

/-- A function with a name and without parameters. -/
theorem function_runs {nameRequired : Bool} {holds : Stmt → Prop}
    (sees : Sees state (.word "function") newline text)
    (named : Spells text (.word name) newline₁ text₁) (binds : canBind name = true)
    (opens : Spells text₁ (.punct .openParen) newline₂ text₂)
    (closes : Spells text₂ (.punct .closeParen) newline₃ text₃)
    (brace : Spells text₃ (.punct .openBrace) newline₄ text₄)
    (block : ∀ next, Sees next (.punct .openBrace) newline₄ text₄ →
      Runs rules.block next fun answer after =>
        (∃ span value, answer = (span, [value]) ∧ holds value) ∧
          Sees after last lastNewline lastText) :
    Runs (rules.function start false nameRequired) state fun value next =>
      (∃ span nameSpan inner bodySpan, value =
        .func span (some ⟨name, nameSpan⟩) .nil (.ofList [inner]) bodySpan false false ∧
          holds inner) ∧ Sees next last lastNewline lastText := by
  unfold Rules.function
  apply (expectWord_runs sees named).bind
  intro _ next seesName
  have noStar : next.token.kind.isPunct .star = false := by
    rw [seesName.kind]
    rfl
  apply (eat_other noStar).bind
  rintro _ next ⟨rfl, rfl⟩
  apply (definedName_runs seesName binds opens).bind
  rintro _ next ⟨⟨nameSpan, rfl⟩, seesOpen⟩
  apply (functionRest_runs seesOpen closes brace block).mono
  rintro _ after ⟨⟨span, inner, bodySpan, rfl, held⟩, seesAfter⟩
  exact ⟨⟨span, nameSpan, inner, bodySpan, rfl, held⟩, seesAfter⟩

/-! ## Arrow functions -/

/-- Empty parentheses in front of an arrow are a parameter list. -/
theorem arrowParams_empty (sees : Sees state (.punct .openParen) newline text)
    (closes : Spells text (.punct .closeParen) newline₁ text₁)
    (arrow : Spells text₁ (.punct .arrow) false text₂) :
    Runs rules.arrowParams state fun answer next => answer = some [] ∧
      Sees next (.punct .arrow) false text₂ := by
  have noAngle : state.token.kind.isPunct .less = false := by
    rw [sees.kind]
    rfl
  unfold arrowParams
  simp only [runs_atBinding?, sees.kind, TokenKind.word?, Option.any_none, Bool.false_eq_true,
    if_false, runs_at?, TokenKind.isPunct, beq_self_eq_true, Bool.true_or, if_true]
  apply (beginsTypeParams_other sees closes.after rfl).bind
  rintro _ _ ⟨rfl, rfl⟩
  apply speculate_some
  apply (skipTypeParams_none noAngle).bind
  rintro _ _ rfl
  apply (params_none sees closes arrow).bind
  rintro _ next ⟨rfl, seesArrow⟩
  apply (skipAnnotation_none (by rw [seesArrow.kind]; rfl)).bind
  rintro _ next rfl
  rw [runs_at?, runs_afterNewline?, seesArrow.kind, seesArrow.newline]
  exact .pure ⟨rfl, seesArrow⟩

/-- An arrow function without parameters whose body is a block of one statement. -/
theorem assignmentExpr_arrow {noIn : Bool} {holds : Stmt → Prop}
    (sees : Sees state (.punct .openParen) newline text)
    (closes : Spells text (.punct .closeParen) newline₁ text₁)
    (arrow : Spells text₁ (.punct .arrow) false text₂)
    (brace : Spells text₂ (.punct .openBrace) newline₃ text₃)
    (block : ∀ next, Sees next (.punct .openBrace) newline₃ text₃ →
      Runs rules.block next fun answer after =>
        (∃ span value, answer = (span, [value]) ∧ holds value) ∧
          Sees after last lastNewline lastText) :
    Runs (rules.assignmentExpr noIn) state fun value next =>
      (∃ span inner bodySpan, value =
        .arrow span .nil (.bodyBlock bodySpan (.ofList [inner])) false ∧ holds inner) ∧
          Sees next last lastNewline lastText := by
  have isArrow : Runs (rules.arrow? noIn) state fun answer next =>
      (∃ span inner bodySpan, answer =
        some (.arrow span .nil (.bodyBlock bodySpan (.ofList [inner])) false) ∧ holds inner) ∧
          Sees next last lastNewline lastText := by
    have noAsync : Runs eatArrowAsync state fun answer next => answer = false ∧ next = state := by
      unfold eatArrowAsync
      rw [runs_atWord?, sees.kind]
      exact .pure ⟨rfl, rfl⟩
    unfold arrow?
    rw [runs_get, runs_here]
    apply noAsync.bind
    rintro _ _ ⟨rfl, rfl⟩
    apply (arrowParams_empty sees closes arrow).bind
    rintro _ next ⟨rfl, seesArrow⟩
    apply (expect_runs seesArrow brace).bind
    intro _ next seesBrace
    have body : Runs (rules.arrowBody noIn) next fun answer after =>
        (∃ span inner, answer = .bodyBlock span (.ofList [inner]) ∧ holds inner) ∧
          Sees after last lastNewline lastText := by
      unfold arrowBody
      rw [runs_at?, seesBrace.kind]
      apply (functionBody_runs seesBrace block).bind
      rintro _ after ⟨⟨span, inner, rfl, held⟩, seesAfter⟩
      exact .pure ⟨⟨span, inner, rfl, held⟩, seesAfter⟩
    apply body.bind
    rintro _ after ⟨⟨span, inner, rfl, held⟩, seesAfter⟩
    rw [runs_spanFrom]
    exact .pure ⟨⟨_, inner, span, rfl, held⟩, seesAfter⟩
  unfold assignmentExpr
  apply isArrow.bind
  rintro _ next ⟨⟨span, inner, bodySpan, rfl, held⟩, seesNext⟩
  exact .pure ⟨⟨span, inner, bodySpan, rfl, held⟩, seesNext⟩

/-! ## Statements -/

/-- A return with a value on its line. -/
theorem returnStmt_runs {holds : Expr → Prop} (sees : Sees state (.word "return") newline text)
    (operand : Spells text kind false text₁) (goesOn : kind.isEnd = false)
    (filled : kind.isOneOf [.semicolon, .closeBrace] = false)
    (runs : ∀ next, Sees next kind false text₁ →
      Runs (rules.expression false) next fun value after =>
        holds value ∧ Sees after (.punct .semicolon) newline₂ text₂)
    (behind : Spells text₂ last lastNewline lastText) :
    Runs (rules.returnStmt start) state fun statement next =>
      (∃ span value, statement = .returnStmt span (.present value) ∧ holds value) ∧
        Sees next last lastNewline lastText := by
  unfold returnStmt
  apply (pass_runs sees operand).bind
  intro _ next seesOperand
  rw [runs_token]
  simp only [seesOperand.kind, seesOperand.newline, goesOn, filled, Bool.or_self,
    Bool.false_eq_true, if_false]
  have returned : Runs (some <$> rules.expression false) next fun answer after =>
      (∃ value, answer = some value ∧ holds value) ∧
        Sees after (.punct .semicolon) newline₂ text₂ := by
    apply Runs.map
    apply (runs next seesOperand).mono
    rintro value after ⟨held, seesSemicolon⟩
    exact ⟨⟨value, rfl, held⟩, seesSemicolon⟩
  apply returned.bind
  rintro _ after ⟨⟨value, rfl, held⟩, seesSemicolon⟩
  apply (semicolon_runs seesSemicolon behind).bind
  intro _ after seesAfter
  rw [runs_spanFrom]
  exact .pure ⟨⟨_, value, rfl, held⟩, seesAfter⟩

/-- One name in the braces of an import. -/
theorem importSpecifier_runs (sees : Sees state (.word name) newline text)
    (isName : name ≠ "type") (behind : Spells text last lastNewline lastText)
    (alone : last.isWord "as" = false) :
    Runs importSpecifier state fun specifier next =>
      (∃ span, specifier = ⟨⟨name, span⟩, some name, false⟩) ∧
        Sees next last lastNewline lastText := by
  have noType : (TokenKind.word name).isWord "type" = false := by
    simpa [TokenKind.isWord, TokenKind.word?] using isName
  unfold importSpecifier skipSpecifierType
  simp only [runs_atWord?, sees.kind, noType, Bool.false_eq_true, if_false, runs_pure_bind,
    runs_token, bind_assoc]
  apply (anyName_runs sees behind).bind
  rintro _ next ⟨rfl, seesNext⟩
  have noAs : next.token.kind.isWord "as" = false := by
    rw [seesNext.kind]
    exact alone
  apply (eatWord_other noAs).bind
  rintro _ next ⟨rfl, rfl⟩
  exact .pure ⟨⟨_, rfl⟩, seesNext⟩

/-- The braces of an import with one name in them. -/
theorem importSpecifiers_one (sees : Sees state (.punct .openBrace) newline text)
    (named : Spells text (.word name) newline₁ text₁) (isName : name ≠ "type")
    (closes : Spells text₁ (.punct .closeBrace) newline₂ text₂)
    (behind : Spells text₂ last lastNewline lastText) :
    Runs importSpecifiers state fun specifiers next =>
      (∃ span, specifiers = [⟨⟨name, span⟩, some name, false⟩]) ∧
        Sees next last lastNewline lastText := by
  have noName : state.token.kind.word?.any canBind = false := by
    rw [sees.kind]
    rfl
  have noStar : state.token.kind.isPunct .star = false := by
    rw [sees.kind]
    rfl
  unfold importSpecifiers
  simp only [runs_atBinding?, noName, Bool.false_eq_true, if_false, runs_pure_bind, Bool.not_true]
  apply (eat_other noStar).bind
  rintro _ next ⟨rfl, rfl⟩
  apply (eat_runs sees named).bind
  rintro _ next ⟨rfl, seesName⟩
  have noClose : next.token.kind.isPunct .closeBrace = false := by
    rw [seesName.kind]
    rfl
  have one : Runs (commaList .closeBrace importSpecifier) next fun specifiers after =>
      (∃ span, specifiers = [⟨⟨name, span⟩, some name, false⟩]) ∧
        Sees after last lastNewline lastText := by
    apply many_runs 2 (by omega)
    apply manyAtMost_more (eat_other noClose)
    apply (listed_last (importSpecifier_runs seesName isName closes rfl)).mono
    rintro _ after ⟨⟨span, rfl⟩, seesClose⟩
    apply manyAtMost_done
    apply (eat_runs seesClose behind).mono
    rintro _ after ⟨rfl, seesAfter⟩
    exact ⟨rfl, ⟨span, rfl⟩, seesAfter⟩
  apply one.bind
  rintro _ after ⟨⟨span, rfl⟩, seesAfter⟩
  exact .pure ⟨⟨span, rfl⟩, seesAfter⟩

/-- The end of an import that has no attributes. -/
theorem importSource_runs {source : String} (sees : Sees state (.string source) newline text)
    (semicolon : Spells text (.punct .semicolon) newline₁ text₁)
    (behind : Spells text₁ last lastNewline lastText) :
    Runs rules.importSource state fun answer next =>
      answer = source ∧ Sees next last lastNewline lastText := by
  have noAttributes {state : ParseState} (is : state.token.kind = .punct .semicolon) :
      Runs rules.skipImportAttributes state fun _ next => next = state := by
    unfold skipImportAttributes
    rw [runs_atWord?, runs_atWord?, runs_afterNewline?, is]
    exact .pure rfl
  unfold importSource
  apply (stringLiteral_runs sees semicolon).bind
  rintro _ next ⟨rfl, seesSemicolon⟩
  apply (noAttributes seesSemicolon.kind).bind
  rintro _ next rfl
  apply (semicolon_runs seesSemicolon behind).bind
  intro _ after seesAfter
  exact .pure ⟨rfl, seesAfter⟩

/-- An import of a default export under a name. -/
theorem importSpecifiers_default (sees : Sees state (.word name) newline text)
    (binds : canBind name = true) (behind : Spells text (.word "from") lastNewline lastText) :
    Runs importSpecifiers state fun specifiers next =>
      (∃ span, specifiers = [⟨⟨name, span⟩, none, false⟩]) ∧
        Sees next (.word "from") lastNewline lastText := by
  have isBinding : state.token.kind.word?.any canBind = true := by
    rw [sees.kind]
    exact binds
  unfold importSpecifiers
  rw [runs_atBinding?, if_pos isBinding]
  apply (bindingName_runs sees binds behind).bind
  rintro _ next ⟨rfl, seesNext⟩
  have noComma : next.token.kind.isPunct .comma = false := by
    rw [seesNext.kind]
    rfl
  apply (eat_other noComma).bind
  rintro _ _ ⟨rfl, rfl⟩
  exact .pure ⟨⟨_, rfl⟩, seesNext⟩

/-- An import of some names, and what its statement is. -/
theorem importStmt_runs {source : String} {holds : List ImportSpec → Prop}
    (sees : Sees state (.word "import") newline text) (first : Spells text kind newline₁ text₁)
    (noType : kind.isWord "type" = false) (noString : ∀ value, kind ≠ .string value)
    (specifiers : ∀ next, Sees next kind newline₁ text₁ →
      Runs importSpecifiers next fun specifiers after =>
        holds specifiers ∧ Sees after (.word "from") newline₂ text₂)
    (literal : Spells text₂ (.string source) newline₃ text₃)
    (semicolon : Spells text₃ (.punct .semicolon) newline₄ text₄)
    (behind : Spells text₄ last lastNewline lastText) :
    Runs (rules.importStmt start) state fun statement next =>
      (∃ span specifiers, statement = .importStmt span specifiers source false ∧
        holds specifiers) ∧ Sees next last lastNewline lastText := by
  unfold importStmt
  apply (expectWord_runs sees first).bind
  intro _ next seesFirst
  have noType : Runs eatImportType next fun answer after => answer = false ∧ after = next := by
    unfold eatImportType
    rw [runs_atWord?, seesFirst.kind, noType]
    exact .pure ⟨rfl, rfl⟩
  apply noType.bind
  rintro _ next ⟨rfl, rfl⟩
  rw [runs_kind]
  split
  · rename_i value isString
    exact absurd (seesFirst.kind.symm.trans isString) (noString value)
  · apply (specifiers next seesFirst).bind
    rintro _ next ⟨held, seesFrom⟩
    apply (expectWord_runs seesFrom literal).bind
    intro _ next seesLiteral
    apply (importSource_runs seesLiteral semicolon behind).bind
    rintro _ after ⟨rfl, seesAfter⟩
    rw [runs_spanFrom]
    exact .pure ⟨⟨_, _, rfl, held⟩, seesAfter⟩

/-- An import of one name in braces. -/
theorem importStmt_one {source : String} (sees : Sees state (.word "import") newline text)
    (opens : Spells text (.punct .openBrace) newline₁ text₁)
    (named : Spells text₁ (.word name) newline₂ text₂) (isName : name ≠ "type")
    (closes : Spells text₂ (.punct .closeBrace) newline₃ text₃)
    (keyword : Spells text₃ (.word "from") newline₄ text₄)
    (literal : Spells text₄ (.string source) newline₅ text₅) {newline₆ : Bool}
    {text₆ : List Char} (semicolon : Spells text₅ (.punct .semicolon) newline₆ text₆)
    (behind : Spells text₆ last lastNewline lastText) :
    Runs (rules.importStmt start) state fun statement next =>
      (∃ span nameSpan, statement =
        .importStmt span [⟨⟨name, nameSpan⟩, some name, false⟩] source false) ∧
          Sees next last lastNewline lastText := by
  apply (importStmt_runs sees opens rfl (by simp)
    (fun _ sees => importSpecifiers_one sees named isName closes keyword) literal semicolon
      behind).mono
  rintro _ next ⟨⟨span, _, rfl, nameSpan, rfl⟩, seesNext⟩
  exact ⟨⟨span, nameSpan, rfl⟩, seesNext⟩

/-- An import of a default export. -/
theorem importStmt_default {source : String} (sees : Sees state (.word "import") newline text)
    (named : Spells text (.word name) newline₁ text₁) (binds : canBind name = true)
    (isName : name ≠ "type") (keyword : Spells text₁ (.word "from") newline₂ text₂)
    (literal : Spells text₂ (.string source) newline₃ text₃)
    (semicolon : Spells text₃ (.punct .semicolon) newline₄ text₄)
    (behind : Spells text₄ last lastNewline lastText) :
    Runs (rules.importStmt start) state fun statement next =>
      (∃ span nameSpan, statement =
        .importStmt span [⟨⟨name, nameSpan⟩, none, false⟩] source false) ∧
          Sees next last lastNewline lastText := by
  have noType : (TokenKind.word name).isWord "type" = false := by
    simpa [TokenKind.isWord, TokenKind.word?] using isName
  apply (importStmt_runs sees named noType (by simp)
    (fun _ sees => importSpecifiers_default sees binds keyword) literal semicolon behind).mono
  rintro _ next ⟨⟨span, _, rfl, nameSpan, rfl⟩, seesNext⟩
  exact ⟨⟨span, nameSpan, rfl⟩, seesNext⟩

/-- The export of a declaration. -/
theorem exportStmt_declaration {holds : Stmt → Prop}
    (sees : Sees state (.word "export") newline text)
    (keyword : Spells text (.word name) newline₁ text₁)
    (plain : name ≠ "default" ∧ name ≠ "type")
    (statement : ∀ next, Sees next (.word name) newline₁ text₁ →
      Runs rules.statement next fun value after =>
        (holds value ∧ isDeclaration value = true) ∧ Sees after last lastNewline lastText) :
    Runs (rules.exportStmt start) state fun statement next =>
      (∃ span declaration, statement = .exportDecl span declaration ∧ holds declaration) ∧
        Sees next last lastNewline lastText := by
  unfold exportStmt
  apply (expectWord_runs sees keyword).bind
  intro _ next seesKeyword
  have isWord {other : String} (differs : name ≠ other) :
      next.token.kind.isWord other = false := by
    rw [seesKeyword.kind]
    simpa [TokenKind.isWord, TokenKind.word?] using differs
  have isPunct (punct : Punct) : next.token.kind.isPunct punct = false := by
    rw [seesKeyword.kind]
    rfl
  apply (eatWord_other (isWord plain.1)).bind
  rintro _ _ ⟨rfl, rfl⟩
  apply (eat_other (isPunct .star)).bind
  rintro _ _ ⟨rfl, rfl⟩
  rw [if_neg Bool.false_ne_true, runs_atWord?, isWord plain.2]
  apply (eat_other (isPunct .openBrace)).bind
  rintro _ _ ⟨rfl, rfl⟩
  rw [if_neg Bool.false_ne_true]
  unfold exportDecl
  apply (statement _ seesKeyword).bind
  rintro value after ⟨⟨held, declares⟩, seesAfter⟩
  rw [if_pos declares, runs_spanFrom]
  exact .pure ⟨⟨_, value, rfl, held⟩, seesAfter⟩

/-- The default export of a function with a name and without parameters. -/
theorem exportStmt_function {holds : Stmt → Prop}
    (sees : Sees state (.word "export") newline text)
    (keyword : Spells text (.word "default") newline₁ text₁)
    (function : Spells text₁ (.word "function") newline₂ text₂)
    (runs : ∀ next begin, Sees next (.word "function") newline₂ text₂ →
      Runs (rules.function begin false false) next fun value after =>
        (∃ span nameSpan inner bodySpan, value =
          .func span (some ⟨name, nameSpan⟩) .nil (.ofList [inner]) bodySpan false false ∧
            holds inner) ∧ Sees after last lastNewline lastText) :
    Runs (rules.exportStmt start) state fun statement next =>
      (∃ span nameSpan functionSpan inner bodySpan, statement = .exportFunction span
        (.func functionSpan (some ⟨name, nameSpan⟩) .nil (.ofList [inner]) bodySpan false false) ∧
          holds inner) ∧ Sees next last lastNewline lastText := by
  unfold exportStmt exportDefault
  apply (expectWord_runs sees keyword).bind
  intro _ next seesDefault
  apply (eatWord_runs seesDefault function).bind
  rintro _ next ⟨rfl, seesFunction⟩
  have isFunction : next.token.kind.isWord "function" = true := by
    rw [seesFunction.kind]
    rfl
  simp only [if_true, runs_here, runs_atWord?, isFunction]
  apply (runs next _ seesFunction).bind
  rintro _ after ⟨⟨span, nameSpan, inner, bodySpan, rfl, held⟩, seesAfter⟩
  rw [runs_spanFrom]
  exact .pure ⟨⟨_, nameSpan, span, inner, bodySpan, rfl, held⟩, seesAfter⟩

/-- A statement that begins with a word. -/
theorem anyStmt_runs {word : String} {holds : Stmt → ParseState → Prop}
    (sees : Sees state (.word word) newline text) (second : Spells text kind newline₁ text₁)
    (runs : ∀ next : Token, next.kind = kind → next.afterNewline = newline₁ →
      Runs (rules.wordStmt state.token.span.start (leading word next)) state holds) :
    Runs rules.anyStmt state holds := by
  unfold anyStmt
  rw [runs_token]
  simp only [sees.kind]
  apply (peek_runs sees second).bind
  rintro next _ ⟨⟨isKind, isNewline⟩, rfl⟩
  exact runs next isKind isNewline

/-- An import as a statement. -/
theorem anyStmt_import {holds : Stmt → ParseState → Prop}
    (sees : Sees state (.word "import") newline text) (second : Spells text kind newline₁ text₁)
    (plain : kind.isOneOf [.openParen, .dot] = false)
    (runs : ∀ start, Runs (rules.importStmt start) state holds) :
    Runs rules.anyStmt state holds := by
  apply anyStmt_runs sees second
  intro next isKind _
  have isImport : leading "import" next = .import := by
    change (if next.kind.isOneOf [.openParen, .dot] then _ else Leading.import) = _
    rw [isKind, plain]
    rfl
  rw [isImport]
  exact runs _

/-- An expression as a statement. -/
theorem exprStmt_runs {holds : Expr → Prop}
    (expression : Runs (rules.expression false) state fun value next =>
      holds value ∧ Stands next [.punct .semicolon] text)
    (behind : Spells text last lastNewline lastText) :
    Runs (rules.exprStmt start) state fun statement next =>
      (∃ span value, statement = .exprStmt span value ∧ holds value) ∧
        Sees next last lastNewline lastText := by
  unfold exprStmt
  apply expression.bind
  rintro value next ⟨held, stands⟩
  obtain ⟨_, seesSemicolon⟩ := stands.one
  apply (semicolon_runs seesSemicolon behind).bind
  intro _ after seesAfter
  rw [runs_spanFrom]
  exact .pure ⟨⟨_, value, rfl, held⟩, seesAfter⟩

/-! ## Modules -/

section Body

variable {few : Nat} {soFar : List Stmt} {ends : List Stmt → ParseState → Prop}

/-- One more statement of a module. -/
theorem statements_more (sees : Sees state kind newline text) (goesOn : kind.isEnd = false)
    (first : Runs rules.statement state fun value next =>
      Runs (manyAtMost atEnd? rules.statement few (value :: soFar)) next ends) :
    Runs (manyAtMost atEnd? rules.statement (few + 1) soFar) state ends :=
  manyAtMost_more ⟨_, _, rfl, by rw [sees.kind, goesOn], rfl⟩ first

/-- The end of a module. -/
theorem statements_done (sees : Sees state .endOfInput newline text)
    (held : ends soFar.reverse state) :
    Runs (manyAtMost atEnd? rules.statement (few + 1) soFar) state ends :=
  manyAtMost_done ⟨_, _, rfl, by rw [sees.kind]; rfl, held⟩

end Body

end Rules

/-- What is read as the body of a module is what reading its source answers. -/
theorem parse_of_runs {source text : List Char} {kind : TokenKind} {newline : Bool}
    {holds : List Stmt → Prop} (first : Spells source kind newline text)
    (runs : ∀ state, Sees state kind newline text →
      Parse.Runs (Parse.many Parse.atEnd? (Rules.ofDepth (3 * source.length + 3)).statement) state
        fun body _ => holds body) :
    ∃ module, parse source = .ok module ∧ module.source = source ∧ holds module.body := by
  obtain ⟨token, cursor, read, isKind, isNewline, isRest⟩ := exists_of_seen? (first true 0)
  have place := (read_readToken (Cursor.start_in source) read).place
  obtain ⟨body, next, run, held⟩ := runs ⟨source, cursor, token, 0, false⟩
    ⟨⟨⟨rfl, place⟩, isRest⟩, isKind, isNewline⟩
  refine ⟨⟨source, body⟩, ?_, rfl, held⟩
  have statements : readStatements source = .ok body := by
    unfold readStatements
    rw [Cursor.start, read]
    change Except.bind ((Parse.many Parse.atEnd? _) _) _ = _
    rw [run]
    rfl
  unfold parse
  rw [statements]
  rfl

end StopMotion.Syntax
