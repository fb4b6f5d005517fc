import StopMotion.Proofs.Syntax.Run
import StopMotion.Syntax.Grammar

/-!
# Operands on a known text

What the rules for expressions answer on an operand that stands alone: a literal, an object, an
expression in parentheses. A fact about a rule takes what the rules below it answer on the text
behind as hypotheses and says nothing else about the record of rules, so it holds at every depth.
-/

namespace StopMotion.Syntax

namespace Rules

open Parse

variable {rules : Rules} {state : ParseState} {kind kind' last : TokenKind}
  {newline newline' newline'' lastNewline : Bool} {text text' text'' lastText : List Char}
  {noIn : Bool} {word word' : String}

/-! ## Operands on their own -/

/-- The punctuators that end an expression, wherever it stands: no operator, access or call goes
on behind them. -/
def endsWhole (kind : TokenKind) : Bool :=
  kind.isOneOf [.comma, .semicolon, .closeParen, .closeBrace]

theorem cases_of_endsWhole (ends : endsWhole kind = true) :
    kind = .punct .comma ∨ kind = .punct .semicolon ∨ kind = .punct .closeParen ∨
      kind = .punct .closeBrace := by
  cases kind with
  | punct found => simpa [endsWhole, TokenKind.isOneOf] using ends
  | _ => cases ends

/-- A token that can begin an operand and is neither a word nor an operator. -/
structure BeginsOperand (kind : TokenKind) : Prop where
  word : kind.word? = none
  unary : unaryOp? kind = none
  update : updateOp? kind = none

theorem BeginsOperand.isWord (begins : BeginsOperand kind) (word : String) :
    kind.isWord word = false := by
  rw [TokenKind.isWord, begins.word]
  rfl

theorem chainStep_none {start : Nat} {soFar : Expr} (ends : endsWhole state.token.kind = true) :
    Runs (rules.chainStep start soFar) state fun answer next => answer = none ∧ next = state := by
  unfold chainStep
  rw [runs_token]
  rcases cases_of_endsWhole ends with is | is | is | is <;> simp [is]

theorem binaryStep_none {start least : Nat} {left : Expr}
    (ends : endsWhole state.token.kind = true) :
    Runs (rules.binaryStep start least noIn left) state fun answer next =>
      answer = none ∧ next = state := by
  unfold binaryStep
  rw [runs_token]
  rcases cases_of_endsWhole ends with is | is | is | is <;> simp [infixOf?, is, Punct.binary?]

section Operand

variable {holds : Expr → ParseState → Prop}

theorem accessChain_runs (begins : BeginsOperand state.token.kind)
    (primary : Runs rules.primary state holds)
    (ends : ∀ value next, holds value next → endsWhole next.token.kind = true) :
    Runs rules.accessChain state holds := by
  unfold accessChain
  rw [runs_here, runs_atWord?, begins.isWord]
  apply primary.bind
  intro value next held
  apply repeating_once
  apply (chainStep_none (ends value next held)).bind
  rintro _ _ ⟨rfl, rfl⟩
  exact .pure ⟨value, rfl, held⟩

theorem postfixExpr_runs (begins : BeginsOperand state.token.kind)
    (primary : Runs rules.primary state holds)
    (ends : ∀ value next, holds value next → endsWhole next.token.kind = true) :
    Runs rules.postfixExpr state holds := by
  unfold postfixExpr
  rw [runs_here]
  apply (accessChain_runs begins primary ends).bind
  intro value next held
  rw [runs_token]
  rcases cases_of_endsWhole (ends value next held) with is | is | is | is <;>
    simpa [is, Punct.update?] using held

theorem unaryExpr_runs (begins : BeginsOperand state.token.kind)
    (primary : Runs rules.primary state holds)
    (ends : ∀ value next, holds value next → endsWhole next.token.kind = true) :
    Runs rules.unaryExpr state holds := by
  unfold unaryExpr
  simp only [runs_token, begins.unary, begins.update, begins.isWord]
  exact postfixExpr_runs begins primary ends

theorem binaryExpr_runs {least : Nat} (begins : BeginsOperand state.token.kind)
    (primary : Runs rules.primary state holds)
    (ends : ∀ value next, holds value next → endsWhole next.token.kind = true) :
    Runs (rules.binaryExpr least noIn) state holds := by
  unfold binaryExpr
  rw [runs_here]
  apply (unaryExpr_runs begins primary ends).bind
  intro value next held
  apply repeating_once
  apply (binaryStep_none (ends value next held)).bind
  rintro _ _ ⟨rfl, rfl⟩
  exact .pure ⟨value, rfl, held⟩

theorem conditionalExpr_runs (begins : BeginsOperand state.token.kind)
    (primary : Runs rules.primary state holds)
    (ends : ∀ value next, holds value next → endsWhole next.token.kind = true) :
    Runs (rules.conditionalExpr noIn) state holds := by
  unfold conditionalExpr
  rw [runs_here]
  apply (binaryExpr_runs begins primary ends).bind
  intro value next held
  have other : next.token.kind.isPunct .question = false := by
    rcases cases_of_endsWhole (ends value next held) with is | is | is | is <;> rw [is] <;> rfl
  apply (eat_other other).bind
  rintro _ _ ⟨rfl, rfl⟩
  exact .pure held

theorem arrow_none (begins : BeginsOperand state.token.kind)
    (noParams : Runs rules.arrowParams state fun answer _ => answer = none) :
    Runs (rules.arrow? noIn) state fun answer next => answer = none ∧ next = state := by
  unfold arrow? eatArrowAsync
  simp only [runs_get, runs_here, bind_assoc, runs_atWord?, begins.isWord, Bool.false_eq_true,
    if_false, runs_pure_bind]
  apply noParams.bind
  rintro _ next rfl
  rw [runs_set]
  exact .pure ⟨rfl, rfl⟩

theorem assignmentExpr_runs (begins : BeginsOperand state.token.kind)
    (noParams : Runs rules.arrowParams state fun answer _ => answer = none)
    (primary : Runs rules.primary state holds)
    (ends : ∀ value next, holds value next → endsWhole next.token.kind = true) :
    Runs (rules.assignmentExpr noIn) state holds := by
  unfold assignmentExpr
  apply (arrow_none begins noParams).bind
  rintro _ _ ⟨rfl, rfl⟩
  simp only [runs_here, runs_get, runs_atWord?, begins.isWord, Bool.and_false]
  apply (conditionalExpr_runs begins primary ends).bind
  intro value next held
  rw [runs_kind]
  rcases cases_of_endsWhole (ends value next held) with is | is | is | is <;>
    simpa [is, assignOp?, Punct.assign?] using held

end Operand

/-- An operand on its own is an assignment, where no arrow function begins and the token behind
it ends it. -/
theorem assignmentExpr_of_primary {holds : Expr → Prop} (sees : Sees state kind newline text)
    (begins : BeginsOperand kind)
    (noParams : Runs rules.arrowParams state fun answer _ => answer = none)
    (primary : Runs rules.primary state fun value next =>
      holds value ∧ Sees next last lastNewline lastText)
    (ends : endsWhole last = true) :
    Runs (rules.assignmentExpr noIn) state fun value next =>
      holds value ∧ Sees next last lastNewline lastText := by
  apply assignmentExpr_runs (by rw [sees.kind]; exact begins) noParams primary
  rintro value next ⟨-, seesNext⟩
  rw [seesNext.kind]
  exact ends

/-- One assignment is an expression, where no comma follows it. -/
theorem expression_of_assignment {holds : Expr → Prop}
    (assignment : Runs (rules.assignment noIn) state fun value next =>
      holds value ∧ Sees next last lastNewline lastText)
    (noComma : last.isPunct .comma = false) :
    Runs (rules.expression noIn) state fun value next =>
      holds value ∧ Sees next last lastNewline lastText := by
  unfold expression
  rw [runs_here]
  apply assignment.bind
  rintro value next ⟨held, sees⟩
  rw [runs_at?, sees.kind, noComma]
  exact .pure ⟨held, sees⟩

/-! ## Where no arrow function begins -/

/-- Only a name, an opening parenthesis or an opening angle bracket begins a parameter list. -/
theorem arrowParams_other (sees : Sees state kind newline text) (begins : BeginsOperand kind)
    (paren : kind.isPunct .openParen = false) (less : kind.isPunct .less = false) :
    Runs rules.arrowParams state fun answer _ => answer = none := by
  unfold arrowParams
  simp [sees.kind, begins.word, paren, less]

/-- An angle bracket before the name of a tag does not begin type parameters. -/
theorem arrowParams_less {name : String} (sees : Sees state (.punct .less) newline text)
    (named : Spells text (.word name) newline' text')
    (behind : Spells text' (.word word') newline'' text'')
    (other : word' ≠ "extends") :
    Runs rules.arrowParams state fun answer _ => answer = none := by
  have ahead : Runs beginsTypeParams state fun answer next => answer = false ∧ next = state := by
    unfold beginsTypeParams
    apply foresee_runs
    apply (pass_runs sees named).bind
    intro _ next seesName
    rw [runs_atBinding?]
    by_cases binds : next.token.kind.word?.any canBind
    · rw [if_pos binds]
      apply (pass_runs seesName behind).bind
      intro _ next seesNext
      rw [runs_at?, runs_atWord?, runs_pure, seesNext.kind]
      simpa [TokenKind.isPunct, TokenKind.isWord, TokenKind.word?] using other
    · rw [if_neg binds]
      exact .pure rfl
  unfold arrowParams
  simp only [runs_atBinding?, sees.kind, TokenKind.word?, Option.any_none, Bool.false_eq_true,
    if_false, runs_at?, TokenKind.isPunct, beq_self_eq_true, Bool.or_true, if_true]
  apply ahead.bind
  rintro _ _ ⟨rfl, rfl⟩
  exact .pure rfl

/-- A token that begins neither a pattern nor a parameter, and does not end a parameter list. -/
structure NoParam (kind : TokenKind) : Prop where
  binds : kind.word?.any canBind = false
  modifier : kind.word?.any paramModifiers.contains = false
  this : kind.isWord "this" = false
  bracket : kind.isPunct .openBracket = false
  brace : kind.isPunct .openBrace = false
  ellipsis : kind.isPunct .ellipsis = false
  paren : kind.isPunct .closeParen = false

/-- A pattern begins with a name, a bracket or a brace. -/
theorem bindingTarget_refuses (noParam : NoParam state.token.kind) :
    Refuses rules.bindingTarget state := by
  have name : Refuses nameTarget state := by
    refine ⟨⟨state.token.span, .expected .bindingPattern state.token.kind⟩, ?_, rfl⟩
    simp [nameTarget, bindingName, atBinding?, noParam.binds, unexpected, bind, StateT.bind,
      Except.bind]
  unfold bindingTarget
  rw [refuses_here]
  apply (eat_other noParam.bracket).refuses
  rintro _ _ ⟨rfl, rfl⟩
  apply (eat_other noParam.brace).refuses
  rintro _ _ ⟨rfl, rfl⟩
  exact name

theorem param_refuses (noParam : NoParam state.token.kind)
    (target : Refuses rules.target state) : Refuses rules.param state := by
  have modifiers : Runs skipParamModifiers state fun _ next => next = state := by
    apply repeating_once
    rw [runs_kind]
    cases found : state.token.kind.word? with
    | none => exact .pure ⟨⟨⟩, rfl, rfl⟩
    | some word =>
        have plain : paramModifiers.contains word = false := by
          simpa [found] using noParam.modifier
        simp only [plain]
        exact .pure ⟨⟨⟩, rfl, rfl⟩
  unfold param
  apply modifiers.refuses
  rintro _ _ rfl
  rw [refuses_here]
  apply (eat_other noParam.ellipsis).refuses
  rintro _ _ ⟨rfl, rfl⟩
  apply (eatWord_other noParam.this).refuses
  rintro _ _ ⟨rfl, rfl⟩
  exact target.bind

/-- A parameter list begins with a parameter. -/
theorem params_refuse (sees : Sees state (.punct .openParen) newline text)
    (inner : SpellsAfter (.punct .openParen) text kind newline' text') (noParam : NoParam kind)
    (target : ∀ next, NoParam next.token.kind → Refuses rules.target next) :
    Refuses rules.params state := by
  unfold params
  apply (expect_after sees inner).refuses
  intro _ next seesNext
  rw [← seesNext.kind] at noParam
  have items : Refuses (commaList .closeParen rules.param) next := by
    unfold commaList many repeating repeatAtMost
    rw [refuses_get]
    apply Refuses.bind
    apply (eat_other noParam.paren).refuses
    rintro _ _ ⟨rfl, rfl⟩
    exact (param_refuses noParam (target _ noParam)).bind.bind
  exact items.bind

theorem skipTypeParams_none (other : state.token.kind.isPunct .less = false) :
    Runs rules.skipTypeParams state fun _ next => next = state := by
  unfold skipTypeParams
  rw [runs_at?, other]
  exact .pure rfl

theorem skipAnnotation_none (other : state.token.kind.isPunct .colon = false) :
    Runs rules.skipAnnotation state fun _ next => next = state := by
  unfold skipAnnotation
  apply (eat_other other).bind
  rintro _ _ ⟨rfl, rfl⟩
  exact .pure rfl

/-- A step that answers nothing is undone. -/
theorem speculate_none {α : Type} {step : Parse (Option α)}
    (runs : Runs step state fun value _ => value = none) :
    Runs (speculate step) state fun value next => value = none ∧ next = state := by
  obtain ⟨value, next, run, rfl⟩ := runs
  exact ⟨none, state, by simp [speculate, run], rfl, rfl⟩

/-- Parentheses that no arrow follows are not a parameter list, whether they could be one or
not. -/
theorem arrowParams_none (sees : Sees state (.punct .openParen) newline text)
    (ahead : Runs beginsTypeParams state fun _ next => next = state)
    (tried : Refuses rules.params state ∨ Runs rules.params state fun _ next =>
      Runs rules.skipAnnotation next fun _ last => last.token.kind.isPunct .arrow = false) :
    Runs rules.arrowParams state fun answer _ => answer = none := by
  have noAngle : state.token.kind.isPunct .less = false := by
    rw [sees.kind]
    rfl
  unfold arrowParams
  simp only [runs_atBinding?, sees.kind, TokenKind.word?, Option.any_none, Bool.false_eq_true,
    if_false, runs_at?, TokenKind.isPunct, beq_self_eq_true, Bool.true_or, if_true]
  apply ahead.bind
  rintro _ _ rfl
  rcases tried with refuses | runs
  · apply (speculate_refused ((skipTypeParams_none noAngle).refuses ?_)).mono
    · rintro _ _ ⟨rfl, -⟩
      rfl
    · rintro _ _ rfl
      exact refuses.bind
  · apply (speculate_none ((skipTypeParams_none noAngle).bind ?_)).mono
    · rintro _ _ ⟨rfl, -⟩
      rfl
    · rintro _ _ rfl
      apply runs.bind
      intro _ next annotated
      apply annotated.bind
      intro _ last noArrow
      rw [runs_at?, runs_afterNewline?, noArrow]
      exact .pure rfl

/-- No type parameters begin in front of what cannot be bound. -/
theorem beginsTypeParams_other {punct : Punct} (sees : Sees state (.punct punct) newline text)
    (inner : SpellsAfter (.punct punct) text kind newline' text')
    (binds : kind.word?.any canBind = false) :
    Runs beginsTypeParams state fun answer next => answer = false ∧ next = state := by
  unfold beginsTypeParams
  apply foresee_runs
  apply (pass_after sees inner).bind
  intro _ next seesNext
  rw [runs_atBinding?, seesNext.kind, binds]
  exact .pure rfl

/-- Parentheses around what begins no parameter are not a parameter list. -/
theorem arrowParams_paren (sees : Sees state (.punct .openParen) newline text)
    (inner : SpellsAfter (.punct .openParen) text kind newline' text') (noParam : NoParam kind)
    (target : ∀ next, NoParam next.token.kind → Refuses rules.target next) :
    Runs rules.arrowParams state fun answer _ => answer = none := by
  apply arrowParams_none sees _ (.inl (params_refuse sees inner noParam target))
  exact (beginsTypeParams_other sees inner noParam.binds).mono fun _ _ unchanged => unchanged.2

/-! ## Primary expressions -/

theorem primary_string {value : String} (sees : Sees state (.string value) newline text)
    (behind : Spells text last lastNewline lastText) :
    Runs rules.primary state fun answer next =>
      (∃ span, answer = .string span value) ∧ Sees next last lastNewline lastText := by
  unfold primary
  rw [runs_token]
  simp only [sees.kind]
  apply (pass_runs sees behind).bind
  intro _ next seesNext
  rw [runs_spanFrom]
  exact .pure ⟨⟨_, rfl⟩, seesNext⟩

theorem primary_number {value : Float} (sees : Sees state (.number value) newline text)
    (behind : Spells text last lastNewline lastText) :
    Runs rules.primary state fun answer next =>
      (∃ span, answer = .number span value) ∧ Sees next last lastNewline lastText := by
  unfold primary
  rw [runs_token]
  simp only [sees.kind]
  apply (pass_runs sees behind).bind
  intro _ next seesNext
  rw [runs_spanFrom]
  exact .pure ⟨⟨_, rfl⟩, seesNext⟩

/-- A string is an assignment of its own. -/
theorem assignmentExpr_string {value : String} (sees : Sees state (.string value) newline text)
    (behind : Spells text last lastNewline lastText) (ends : endsWhole last = true) :
    Runs (rules.assignmentExpr noIn) state fun answer next =>
      (∃ span, answer = .string span value) ∧ Sees next last lastNewline lastText :=
  assignmentExpr_of_primary sees ⟨rfl, rfl, rfl⟩ (arrowParams_other sees ⟨rfl, rfl, rfl⟩ rfl rfl)
    (primary_string sees behind) ends

/-- A number is an assignment of its own. -/
theorem assignmentExpr_number {value : Float} (sees : Sees state (.number value) newline text)
    (behind : Spells text last lastNewline lastText) (ends : endsWhole last = true) :
    Runs (rules.assignmentExpr noIn) state fun answer next =>
      (∃ span, answer = .number span value) ∧ Sees next last lastNewline lastText :=
  assignmentExpr_of_primary sees ⟨rfl, rfl, rfl⟩ (arrowParams_other sees ⟨rfl, rfl, rfl⟩ rfl rfl)
    (primary_number sees behind) ends

theorem primary_paren {holds : Expr → Prop} (sees : Sees state (.punct .openParen) newline text)
    (inner : Spells text kind newline' text')
    (runs : ∀ next, Sees next kind newline' text' →
      Runs (rules.expression false) next fun value after =>
        holds value ∧ Sees after (.punct .closeParen) newline'' text'')
    (behind : Spells text'' last lastNewline lastText) :
    Runs rules.primary state fun answer next =>
      (∃ span value, answer = .paren span value ∧ holds value) ∧
        Sees next last lastNewline lastText := by
  unfold primary
  rw [runs_token]
  simp only [sees.kind]
  apply (pass_runs sees inner).bind
  intro _ next seesInner
  apply (runs next seesInner).bind
  rintro value after ⟨held, seesClose⟩
  apply (expect_runs seesClose behind).bind
  intro _ after seesAfter
  rw [runs_spanFrom]
  exact .pure ⟨⟨_, value, rfl, held⟩, seesAfter⟩

theorem primary_object {holds : List (Node .entry) → Prop}
    (sees : Sees state (.punct .openBrace) newline text)
    (first : Spells text kind newline' text')
    (runs : ∀ next, Sees next kind newline' text' →
      Runs (commaList .closeBrace rules.entry) next fun entries after =>
        holds entries ∧ Sees after last lastNewline lastText) :
    Runs rules.primary state fun answer next =>
      (∃ span entries, answer = .object span (.ofList entries) ∧ holds entries) ∧
        Sees next last lastNewline lastText := by
  unfold primary object
  rw [runs_token]
  simp only [sees.kind, bind_assoc]
  apply (expect_runs sees first).bind
  intro _ next seesFirst
  apply (runs next seesFirst).bind
  rintro entries after ⟨held, seesAfter⟩
  rw [runs_spanFrom]
  exact .pure ⟨⟨_, entries, rfl, held⟩, seesAfter⟩

/-- An entry whose key is a plain name. -/
theorem entry_runs {name : String} {holds : Expr → Prop}
    (sees : Sees state (.word name) newline text)
    (noModifier : ["async", "get", "set"].contains name = false)
    (notPrivate : isPrivate name = false)
    (colon : Spells text (.punct .colon) newline' text')
    (operand : Spells text' kind newline'' text'')
    (runs : ∀ next, Sees next kind newline'' text'' →
      Runs (rules.assignment false) next fun value after =>
        holds value ∧ Sees after last lastNewline lastText) :
    Runs rules.entry state fun entry after =>
      (∃ span key value, entry = .keyed span (.keyName key) value ∧ key.text = name ∧
        holds value) ∧ Sees after last lastNewline lastText := by
  have other (punct : Punct) : state.token.kind.isPunct punct = false := by
    rw [sees.kind]
    rfl
  have modifier : Runs entryModifier state fun isAsync next =>
      isAsync = false ∧ next = state := by
    unfold entryModifier
    rw [runs_kind, sees.kind]
    simp only [TokenKind.word?, noModifier, Bool.false_eq_true, if_false]
    exact .pure ⟨rfl, rfl⟩
  have key : Runs rules.key state fun key next =>
      key = .keyName ⟨name, state.token.span⟩ ∧ Sees next (.punct .colon) newline' text' := by
    unfold Rules.key
    rw [runs_token]
    simp only [sees.kind]
    apply (pass_runs sees colon).bind
    intro _ next seesColon
    simp only [notPrivate, Bool.false_eq_true, if_false]
    exact .pure ⟨rfl, seesColon⟩
  unfold entry
  rw [runs_here, runs_atEnd?, sees.kind]
  apply (eat_other (other .ellipsis)).bind
  rintro _ _ ⟨rfl, rfl⟩
  apply modifier.bind
  rintro _ _ ⟨rfl, rfl⟩
  apply (eat_other (other .star)).bind
  rintro _ _ ⟨rfl, rfl⟩
  apply key.bind
  rintro _ next ⟨rfl, seesColon⟩
  rw [runs_atOneOf?, seesColon.kind]
  apply (eat_runs seesColon operand).bind
  rintro _ after ⟨rfl, seesOperand⟩
  apply (runs after seesOperand).bind
  rintro value after ⟨held, seesAfter⟩
  rw [runs_spanFrom]
  exact .pure ⟨⟨_, _, value, rfl, rfl, held⟩, seesAfter⟩

/-- One more entry of an object, with the comma behind it, and the others. -/
theorem entries_more {name : String} {holds : Expr → Prop} {few : Nat}
    {soFar : List (Node .entry)} {ends : List (Node .entry) → ParseState → Prop}
    {newline₃ : Bool} {text₃ : List Char} (sees : Sees state (.word name) newline text)
    (noModifier : ["async", "get", "set"].contains name = false)
    (notPrivate : isPrivate name = false)
    (colon : Spells text (.punct .colon) newline' text')
    (operand : Spells text' kind newline'' text'')
    (runs : ∀ next, Sees next kind newline'' text'' →
      Runs (rules.assignment false) next fun value after =>
        holds value ∧ Sees after (.punct .comma) newline₃ text₃)
    (comma : Spells text₃ last lastNewline lastText)
    (others : ∀ entry next, (∃ span key value, entry = .keyed span (.keyName key) value ∧
        key.text = name ∧ holds value) → Sees next last lastNewline lastText →
      Runs (manyAtMost (eat .closeBrace) (listed .closeBrace rules.entry) few (entry :: soFar))
        next ends) :
    Runs (manyAtMost (eat .closeBrace) (listed .closeBrace rules.entry) (few + 1) soFar) state
      ends := by
  have goesOn : state.token.kind.isPunct .closeBrace = false := by
    rw [sees.kind]
    rfl
  apply manyAtMost_more (eat_other goesOn)
  apply (listed_comma rfl (entry_runs sees noModifier notPrivate colon operand runs) comma).mono
  rintro entry next ⟨held, seesNext⟩
  exact others entry next held seesNext

end Rules

end StopMotion.Syntax
