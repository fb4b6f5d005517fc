import StopMotion.Proofs.Syntax.Run.Operator

/-!
# Expressions that are no arrow functions

An arrow function begins with a name or with parentheses, so where an expression begins with one
of these, its reader looks ahead for an arrow first. On the beginnings here it finds none, and
what the text is read as is a conditional.
-/

namespace StopMotion.Syntax

namespace Rules

open Parse

variable {rules : Rules} {kinds : List TokenKind} {holds : Expr → Prop} {ends : TokenKind → Bool}

/-- No arrow function begins where a reading has come to. -/
structure HasNoArrow (rules : Rules) (state : ParseState) : Prop where
  noYield : state.token.kind.isWord "yield" = false
  noAsync : Runs eatArrowAsync state fun answer next => answer = false ∧ next = state
  noParams : Runs rules.arrowParams state fun answer _ => answer = none

/-- No arrow function begins with these tokens, wherever a token that ends them stands behind
them. -/
def NoArrow (rules : Rules) (kinds : List TokenKind) (ends : TokenKind → Bool) : Prop :=
  ∀ state follow rest, ends follow = true → Stands state (kinds ++ [follow]) rest →
    HasNoArrow rules state

/-- A conditional that is no head of an arrow function and has no assignment behind it, with
what is behind it. -/
theorem assignmentExpr_runs_conditional {noIn : Bool} {state : ParseState} {follow : TokenKind}
    {others : List TokenKind} {rest : List Char} (isEnd : EndsExpression follow)
    (conditional : Runs (rules.conditionalExpr noIn) state fun value next =>
      holds value ∧ Stands next (follow :: others) rest)
    (noArrow : HasNoArrow rules state) :
    Runs (rules.assignmentExpr noIn) state fun value next =>
      holds value ∧ Stands next (follow :: others) rest := by
  obtain ⟨noYield, noAsync, noParams⟩ := noArrow
  have arrow : Runs (rules.arrow? noIn) state fun answer next => answer = none ∧ next = state := by
    unfold arrow?
    rw [runs_get, runs_here]
    apply noAsync.bind
    rintro _ _ ⟨rfl, rfl⟩
    apply noParams.bind
    rintro _ next rfl
    rw [runs_set]
    exact .pure ⟨rfl, rfl⟩
  unfold assignmentExpr
  apply arrow.bind
  rintro _ _ ⟨rfl, rfl⟩
  simp only [runs_here, runs_get, runs_atWord?, noYield, Bool.and_false]
  apply conditional.bind
  rintro value next ⟨held, standsNext⟩
  rw [runs_kind, standsNext.kind, isEnd.assign]
  exact .pure ⟨held, standsNext⟩

/-- A conditional that is no head of an arrow function and has no assignment behind it. -/
theorem assignmentExpr_of_conditional {noIn : Bool}
    (areEnds : ∀ kind, ends kind = true → EndsExpression kind)
    (conditional : ReadsAs (rules.conditionalExpr noIn) kinds ends holds)
    (noArrow : NoArrow rules kinds ends) :
    ReadsAs (rules.assignmentExpr noIn) kinds ends holds := by
  intro state follow rest isEnd stands
  exact assignmentExpr_runs_conditional (areEnds follow isEnd)
    (conditional state follow rest isEnd stands) (noArrow state follow rest isEnd stands)

/-- An operand on its own, with no operator behind it. -/
theorem assignmentExpr_of_operand {noIn : Bool}
    (operand : ReadsAs rules.unaryExpr kinds endsTerm holds)
    (noArrow : NoArrow rules kinds endsWhole) :
    ReadsAs (rules.assignmentExpr noIn) kinds endsWhole holds := by
  have chain : ReadsChain rules 1 kinds holds := chain_of_unary operand
  exact assignmentExpr_of_conditional (fun _ => endsExpression_of_endsWhole)
    (conditionalExpr_of_binary (fun _ => endsExpression_of_endsWhole)
      (binaryExpr_of_chain chain (Nat.le_refl 1))) noArrow

/-! ## Where no arrow function begins -/

theorem eatArrowAsync_other {state : ParseState}
    (other : state.token.kind.isWord "async" = false) :
    Runs eatArrowAsync state fun answer next => answer = false ∧ next = state := by
  unfold eatArrowAsync
  rw [runs_atWord?, other]
  exact .pure ⟨rfl, rfl⟩

/-- Only a name or an opening bracket begins an arrow function. -/
theorem noArrow_other {first : TokenKind} {more : List TokenKind} (noWord : first.word? = none)
    (paren : first.isPunct .openParen = false) (less : first.isPunct .less = false) :
    NoArrow rules (first :: more) ends := by
  intro state follow rest _ stands
  rw [List.cons_append] at stands
  have isWord (word : String) : state.token.kind.isWord word = false := by
    rw [stands.kind, TokenKind.isWord, noWord]
    rfl
  refine ⟨isWord "yield", eatArrowAsync_other (isWord "async"), ?_⟩
  unfold arrowParams
  simp [stands.kind, noWord, paren, less]

/-- A word that no arrow follows, and `async` only where no parentheses follow either. -/
theorem noArrow_word {word : String} {more : List TokenKind}
    (areEnds : ∀ kind, ends kind = true → EndsExpression kind) (noYield : word ≠ "yield")
    (plain : ∀ second, more.head? = some second → second.word? = none ∧
      second.isPunct .arrow = false ∧ (word = "async" → second.isPunct .openParen = false)) :
    NoArrow rules (.word word :: more) ends := by
  intro state follow rest isEnd stands
  have ahead : ∃ second others, more ++ [follow] = second :: others ∧ second.word? = none ∧
      second.isPunct .arrow = false ∧ (word = "async" → second.isPunct .openParen = false) := by
    cases more with
    | nil =>
        obtain ⟨isTerm, -, -, -, noArrow⟩ := areEnds follow isEnd
        obtain ⟨punct, rfl, member⟩ := cases_of_endsTerm isTerm
        refine ⟨_, [], rfl, rfl, noArrow, fun _ => ?_⟩
        revert member
        cases punct <;> decide
    | cons second others => exact ⟨second, others ++ [follow], rfl, plain second rfl⟩
  obtain ⟨second, others, split, noWord, noArrow, noParen⟩ := ahead
  rw [List.cons_append, split] at stands
  refine ⟨?_, ?_, ?_⟩
  · rw [stands.kind]
    simpa [TokenKind.isWord, TokenKind.word?] using noYield
  · unfold eatArrowAsync
    rw [runs_atWord?]
    by_cases isAsync : state.token.kind.isWord "async"
    · rw [if_pos isAsync]
      apply (peek_stands stands).bind
      rintro next _ ⟨⟨isSecond, -⟩, rfl⟩
      have isWord : word = "async" := by
        rw [stands.kind] at isAsync
        simpa [TokenKind.isWord, TokenKind.word?] using isAsync
      simp only [isSecond, noWord, noParen isWord]
      exact .pure ⟨rfl, rfl⟩
    · rw [if_neg isAsync]
      exact .pure ⟨rfl, rfl⟩
  · unfold arrowParams
    rw [runs_atBinding?]
    by_cases binds : state.token.kind.word?.any canBind = true
    · rw [if_pos binds]
      apply (peek_stands stands).bind
      rintro next _ ⟨⟨isSecond, -⟩, rfl⟩
      rw [isSecond, noArrow]
      exact .pure rfl
    · rw [if_neg binds, runs_at?, runs_at?, stands.kind]
      exact .pure rfl

/-- A punctuator that neither goes on with a parameter nor separates two of them. -/
structure EndsParam (kind : TokenKind) : Prop where
  word : kind.word? = none
  pattern : kind.isOneOf [.openBrace, .openBracket] = false
  question : kind.isPunct .question = false
  colon : kind.isPunct .colon = false
  assign : kind.isPunct .assign = false

section Params

variable {state : ParseState} {word : String} {second : TokenKind} {others : List TokenKind}
  {rest : List Char}

theorem bindingTarget_readsName (binds : canBind word = true)
    (stands : Stands state (.word word :: second :: others) rest) :
    Runs rules.bindingTarget state fun target next =>
      (∃ span name, target = .bindName span name ∧ name.text = word) ∧
        Stands next (second :: others) rest := by
  have isBinding : state.token.kind.word?.any canBind = true := by
    rw [stands.kind]
    exact binds
  have named : Runs nameTarget state fun target next =>
      (∃ span name, target = .bindName span name ∧ name.text = word) ∧
        Stands next (second :: others) rest := by
    obtain ⟨name, next, run, isWord, standsNext⟩ := anyName_stands stands
    refine ⟨.bindName name.span name, next, ?_, ⟨_, name, rfl, isWord⟩, standsNext⟩
    have bound : bindingName state = .ok (name, next) := by
      change (if state.token.kind.word?.any canBind = true then anyName else _) state = _
      rw [if_pos isBinding]
      exact run
    simp only [nameTarget, bound]
  unfold bindingTarget
  rw [runs_here]
  apply (eat_stands_other stands rfl).bind
  rintro _ _ ⟨rfl, rfl⟩
  apply (eat_stands_other stands rfl).bind
  rintro _ _ ⟨rfl, rfl⟩
  exact named

/-- What is behind the target of a parameter. -/
def paramTail (rules : Rules) (start : Nat) (target : Pattern) : Parse (Option Pattern) := do
  let _ ← eat .question
  rules.skipAnnotation
  return some (← rules.withDefault start target)

/-- A name as the target of a parameter. -/
theorem param_ofName {seen : ParseState → Prop} (binds : canBind word = true)
    (noWord : second.word? = none) (noPattern : second.isOneOf [.openBrace, .openBracket] = false)
    (target : ∀ next, Stands next (.word word :: second :: others) rest →
      Runs rules.target next fun _ after => Stands after (second :: others) rest)
    (tail : ∀ start target next, Stands next (second :: others) rest →
      Runs (rules.paramTail start target) next fun _ after => seen after)
    (stands : Stands state (.word word :: second :: others) rest) :
    Runs rules.param state fun _ next => seen next := by
  have modifiers : Runs skipParamModifiers state fun _ next => next = state := by
    have isWord : state.token.kind.word? = some word := by rw [stands.kind]; rfl
    apply repeating_once
    rw [runs_kind, isWord]
    by_cases isModifier : paramModifiers.contains word = true
    · simp only [isModifier, if_true]
      apply (peek_stands stands).bind
      rintro ahead _ ⟨⟨isSecond, -⟩, rfl⟩
      rw [isSecond, noWord, noPattern]
      exact .pure ⟨⟨⟩, rfl, rfl⟩
    · simp only [isModifier]
      exact .pure ⟨⟨⟩, rfl, rfl⟩
  have noThis : state.token.kind.isWord "this" = false := by
    rw [stands.kind]
    simpa [TokenKind.isWord, TokenKind.word?] using ne_of_canBind binds (by decide)
  unfold param
  apply modifiers.bind
  rintro _ _ rfl
  rw [runs_here]
  apply (eat_stands_other stands rfl).bind
  rintro _ _ ⟨rfl, rfl⟩
  apply (eatWord_other noThis).bind
  rintro _ _ ⟨rfl, rfl⟩
  apply (target _ stands).bind
  intro _ next standsNext
  exact tail _ _ next standsNext

/-- Neither a type nor a default stands behind a parameter. -/
theorem annotation_none {start : Nat} {target : Pattern} {kind : TokenKind}
    {kinds : List TokenKind} (noColon : kind.isPunct .colon = false)
    (noAssign : kind.isPunct .assign = false) (stands : Stands state (kind :: kinds) rest) :
    Runs (do rules.skipAnnotation; return some (← rules.withDefault start target)) state
      fun _ next => Stands next (kind :: kinds) rest := by
  apply (skipAnnotation_none (by rw [stands.kind]; exact noColon)).bind
  rintro _ _ rfl
  unfold withDefault
  simp only [bind_assoc]
  apply (eat_stands_other stands noAssign).bind
  rintro _ _ ⟨rfl, rfl⟩
  exact .pure stands

/-- A name as a parameter. -/
theorem param_readsName (binds : canBind word = true) (ends : EndsParam second)
    (target : ∀ next, Stands next (.word word :: second :: others) rest →
      Runs rules.target next fun _ after => Stands after (second :: others) rest)
    (stands : Stands state (.word word :: second :: others) rest) :
    Runs rules.param state fun _ next => Stands next (second :: others) rest := by
  apply param_ofName binds ends.word ends.pattern target _ stands
  intro start target next standsNext
  unfold paramTail
  apply (eat_stands_other standsNext ends.question).bind
  rintro _ _ ⟨rfl, rfl⟩
  exact annotation_none ends.colon ends.assign standsNext

/-- A name with a question mark as a parameter. -/
theorem param_readsOptional {third : TokenKind} (binds : canBind word = true)
    (noColon : third.isPunct .colon = false) (noAssign : third.isPunct .assign = false)
    (target : ∀ next, Stands next (.word word :: .punct .question :: third :: others) rest →
      Runs rules.target next fun _ after => Stands after (.punct .question :: third :: others) rest)
    (stands : Stands state (.word word :: .punct .question :: third :: others) rest) :
    Runs rules.param state fun _ next => Stands next (third :: others) rest := by
  apply param_ofName binds rfl rfl target _ stands
  intro start target next standsNext
  unfold paramTail
  apply (eat_stands standsNext).bind
  rintro _ after ⟨rfl, standsThird⟩
  exact annotation_none noColon noAssign standsThird

/-- A name alone in parentheses could be a parameter list. -/
theorem params_readsName {kind : TokenKind} (binds : canBind word = true)
    (target : ∀ next, Stands next (.word word :: .punct .closeParen :: kind :: others) rest →
      Runs rules.target next fun _ after =>
        Stands after (.punct .closeParen :: kind :: others) rest)
    (stands : Stands state
      (.punct .openParen :: .word word :: .punct .closeParen :: kind :: others) rest) :
    Runs rules.params state fun _ next => Stands next (kind :: others) rest := by
  unfold params
  apply (expect_stands stands).bind
  intro _ next standsName
  have items : Runs (commaList .closeParen rules.param) next fun _ after =>
      Stands after (kind :: others) rest := by
    rw [commaList_eq]
    apply many_runs 2 (by omega)
    apply manyAtMost_more (eat_stands_other standsName rfl)
    unfold listed
    apply (param_readsName binds ⟨rfl, rfl, rfl, rfl, rfl⟩ target standsName).bind
    intro value after standsClose
    rw [runs_at?, standsClose.kind]
    apply Runs.pure
    apply manyAtMost_done
    apply (eat_stands standsClose).mono
    rintro _ last ⟨rfl, standsLast⟩
    exact ⟨rfl, standsLast⟩
  apply items.bind
  intro _ after standsAfter
  exact .pure standsAfter

/-- Parentheses in which neither a comma nor the end stands behind the first parameter are no
parameter list. -/
theorem params_refuseAfter {kind : TokenKind} {kinds : List TokenKind}
    (noComma : kind.isPunct .comma = false) (noClose : kind.isPunct .closeParen = false)
    (param : ∀ next, Stands next (.word word :: second :: others) rest →
      Runs rules.param next fun _ after => Stands after (kind :: kinds) rest)
    (stands : Stands state (.punct .openParen :: .word word :: second :: others) rest) :
    Refuses rules.params state := by
  unfold params
  apply (expect_stands stands).refuses
  intro _ next standsName
  have items : Refuses (commaList .closeParen rules.param) next := by
    unfold commaList many repeating repeatAtMost
    rw [refuses_get]
    apply Refuses.bind
    apply (eat_stands_other standsName rfl).refuses
    rintro _ _ ⟨rfl, rfl⟩
    apply Refuses.bind
    apply (param _ standsName).refuses
    intro value after standsKind
    rw [refuses_at?, standsKind.kind, noClose]
    exact (expect_refuses (by rw [standsKind.kind]; exact noComma)).bind
  exact items.bind

/-- Looking whether type parameters begin leaves the reading where it is. -/
theorem beginsTypeParams_runs {kind : TokenKind}
    (stands : Stands state (kind :: .word word :: second :: others) rest) :
    Runs beginsTypeParams state fun _ next => next = state := by
  have ahead : Runs (do
      pass
      if ← atBinding? then
        pass
        return (← at? .comma) || (← atWord? "extends")
      else
        return false) state fun _ _ => True := by
    apply (pass_stands stands).bind
    intro _ next standsName
    rw [runs_atBinding?]
    split
    · apply (pass_stands standsName).bind
      intro _ next _
      exact .pure trivial
    · exact .pure trivial
  obtain ⟨answer, next, run, -⟩ := ahead
  exact ⟨answer, state, by simp only [beginsTypeParams, foresee, run], rfl⟩

/-- An opening parenthesis is a head of no arrow function, where no parameter list is read up to
an arrow. -/
theorem noArrow_of_params {first : TokenKind} {more : List TokenKind}
    (tried : ∀ state follow rest, ends follow = true →
      Stands state (.punct .openParen :: first :: more ++ [follow]) rest →
        Runs rules.arrowParams state fun answer _ => answer = none) :
    NoArrow rules (.punct .openParen :: first :: more) ends := by
  intro state follow rest isEnd stands
  have isWord (word : String) : state.token.kind.isWord word = false := by
    rw [List.cons_append] at stands
    rw [stands.kind]
    rfl
  exact ⟨isWord "yield", eatArrowAsync_other (isWord "async"),
    tried state follow rest isEnd stands⟩

/-- Parentheses around what begins no parameter. -/
theorem noArrow_paren {first : TokenKind} {more : List TokenKind} (noParam : NoParam first)
    (target : ∀ next, NoParam next.token.kind → Refuses rules.target next) :
    NoArrow rules (.punct .openParen :: first :: more) ends := by
  apply noArrow_of_params
  rintro state follow rest - ⟨newline, text, sees, middle, inner, -⟩
  exact arrowParams_paren sees inner noParam target

/-- Parentheses around a name and an operator. -/
theorem noArrow_operator {more : List TokenKind} (binds : canBind word = true)
    (endsParam : EndsParam second) (noComma : second.isPunct .comma = false)
    (noClose : second.isPunct .closeParen = false)
    (target : ∀ next others rest, Stands next (.word word :: second :: others) rest →
      Runs rules.target next fun _ after => Stands after (second :: others) rest) :
    NoArrow rules (.punct .openParen :: .word word :: second :: more) ends := by
  apply noArrow_of_params
  intro state follow rest _ stands
  have ⟨newline, text, sees, _⟩ := stands
  exact arrowParams_none sees (beginsTypeParams_runs stands)
    (.inl (params_refuseAfter noComma noClose
      (fun _ => param_readsName binds endsParam fun next => target next _ _) stands))

/-- Parentheses around a choice by a name. -/
theorem noArrow_question {third : TokenKind} {more : List TokenKind} (binds : canBind word = true)
    (noColon : third.isPunct .colon = false) (noAssign : third.isPunct .assign = false)
    (noComma : third.isPunct .comma = false) (noClose : third.isPunct .closeParen = false)
    (target : ∀ next others rest,
      Stands next (.word word :: .punct .question :: others) rest →
        Runs rules.target next fun _ after => Stands after (.punct .question :: others) rest) :
    NoArrow rules (.punct .openParen :: .word word :: .punct .question :: third :: more) ends := by
  apply noArrow_of_params
  intro state follow rest _ stands
  have ⟨newline, text, sees, _⟩ := stands
  exact arrowParams_none sees (beginsTypeParams_runs stands)
    (.inl (params_refuseAfter noComma noClose
      (fun _ => param_readsOptional binds noColon noAssign fun next => target next _ _) stands))

/-- A token that goes on behind an operand and begins no parameters. -/
structure GoesOn (kind : TokenKind) : Prop where
  word : kind.word? = none
  paren : kind.isPunct .openParen = false
  colon : kind.isPunct .colon = false
  arrow : kind.isPunct .arrow = false

/-- What may stand behind an operand: nothing, a token that goes on, or the second arm of a
choice, whose first token no type begins with. -/
inductive Trails : List TokenKind → Prop where
  | nothing : Trails []
  | token {kind : TokenKind} {more : List TokenKind} (goesOn : GoesOn kind) : Trails (kind :: more)
  | negation {more : List TokenKind} : Trails (.punct .colon :: .punct .bang :: more)

/-- A type does not begin with an exclamation mark. -/
theorem skipAnnotation_negation
    (stands : Stands state (.punct .colon :: .punct .bang :: others) rest) :
    Runs rules.skipAnnotation state fun _ next => Stands next (.punct .bang :: others) rest := by
  unfold skipAnnotation
  apply (eat_stands stands).bind
  rintro _ next ⟨rfl, standsBang⟩
  rw [if_pos rfl]
  apply repeating_once
  have ends : Runs (rules.skipTypePart ⟨true, false⟩) next fun answer after =>
      answer = none ∧ after = next := by
    unfold skipTypePart
    rw [runs_token]
    simp only [standsBang.kind]
    exact .pure ⟨rfl, rfl⟩
  apply ends.bind
  rintro _ _ ⟨rfl, rfl⟩
  exact .pure ⟨(), rfl, standsBang⟩

/-- No annotation with an arrow behind it stands behind an operand. -/
theorem Trails.noArrow {more : List TokenKind} {follow : TokenKind} (trails : Trails more)
    (ends : endsWhole follow = true) (stands : Stands state (more ++ [follow]) rest) :
    Runs rules.skipAnnotation state fun _ last => last.token.kind.isPunct .arrow = false := by
  have plain {kind : TokenKind} (isKind : state.token.kind = kind)
      (noColon : kind.isPunct .colon = false) (noArrow : kind.isPunct .arrow = false) :
      Runs rules.skipAnnotation state fun _ last => last.token.kind.isPunct .arrow = false := by
    apply (skipAnnotation_none (by rw [isKind]; exact noColon)).mono
    rintro _ _ rfl
    rw [isKind]
    exact noArrow
  cases trails with
  | nothing =>
      apply plain stands.kind
      · rcases cases_of_endsWhole ends with rfl | rfl | rfl | rfl <;> rfl
      · exact (endsExpression_of_endsWhole ends).arrow
  | token goesOn => exact plain stands.kind goesOn.colon goesOn.arrow
  | negation =>
      apply (skipAnnotation_negation stands).mono
      intro _ last standsBang
      rw [standsBang.kind]
      rfl

/-- Parentheses around a name alone, behind which no annotation has an arrow. -/
theorem noArrow_name {more : List TokenKind} (binds : canBind word = true) (trails : Trails more)
    (target : ∀ next others rest, Stands next (.word word :: .punct .closeParen :: others) rest →
      Runs rules.target next fun _ after => Stands after (.punct .closeParen :: others) rest) :
    NoArrow rules (.punct .openParen :: .word word :: .punct .closeParen :: more) endsWhole := by
  apply noArrow_of_params
  intro state follow rest isEnd stands
  have ⟨newline, text, sees, _⟩ := stands
  refine arrowParams_none sees (beginsTypeParams_runs stands) (.inr ?_)
  have filled : more ++ [follow] ≠ [] := by simp
  obtain ⟨kind, others, split⟩ := List.exists_cons_of_ne_nil filled
  simp only [List.cons_append, split] at stands
  apply (params_readsName binds (fun next => target next _ _) stands).mono
  intro _ next standsNext
  rw [← split] at standsNext
  exact trails.noArrow isEnd standsNext

end Params

end Rules

end StopMotion.Syntax
