import StopMotion.Proofs.Syntax.Run.Line
import StopMotion.Proofs.Syntax.Run.Operand

/-!
# Operators on a known text

What the rules for expressions answer where operands are joined by operators. The tokens of such
a text are on one line; a rule reads some of them and comes to the one behind them. How far a
chain of binary operators goes depends on how tightly that token binds.
-/

namespace StopMotion.Syntax

namespace Rules

open Parse

variable {rules : Rules} {kinds kinds' : List TokenKind} {holds holds' : Expr → Prop}

/-! ## What may stand behind an expression -/

/-- The punctuators that end an operand: what ends an expression, and the operators that may go
on behind one. -/
def endsTerm (kind : TokenKind) : Bool :=
  kind.isOneOf [.comma, .semicolon, .closeParen, .closeBrace, .colon, .question, .plus, .minus,
    .star, .slash, .percent, .strictEqual]

/-- How tightly the operator that a token is binds; zero for other tokens. -/
def tightness : TokenKind → Nat
  | .punct punct => (punct.binary?.map BinaryOp.precedence).getD 0
  | _ => 0

theorem cases_of_endsTerm {kind : TokenKind} (ends : endsTerm kind = true) :
    ∃ punct, kind = .punct punct ∧ punct ∈ [Punct.comma, .semicolon, .closeParen, .closeBrace,
      .colon, .question, .plus, .minus, .star, .slash, .percent, .strictEqual] := by
  cases kind with
  | punct punct => exact ⟨punct, rfl, by simpa [endsTerm, TokenKind.isOneOf] using ends⟩
  | _ => cases ends

/-- A token that an expression does not go on with. -/
structure EndsExpression (kind : TokenKind) : Prop where
  term : endsTerm kind = true
  loose : tightness kind = 0
  assign : assignOp? kind = none
  question : kind.isPunct .question = false
  arrow : kind.isPunct .arrow = false

theorem endsExpression_of_endsWhole {kind : TokenKind} (ends : endsWhole kind = true) :
    EndsExpression kind := by
  rcases cases_of_endsWhole ends with rfl | rfl | rfl | rfl <;> exact ⟨rfl, rfl, rfl, rfl, rfl⟩

/-- A colon ends the first arm of a choice. -/
theorem endsExpression_of_isColon {kind : TokenKind} (isColon : kind.isPunct .colon = true) :
    EndsExpression kind := by
  cases kind with
  | punct punct =>
      obtain rfl : punct = .colon := by simpa [TokenKind.isPunct] using isColon
      exact ⟨rfl, rfl, rfl, rfl, rfl⟩
  | _ => cases isColon

/-- A rule reads tokens as an expression, wherever a token that ends it stands behind them. -/
def ReadsAs (rule : Parse Expr) (kinds : List TokenKind) (ends : TokenKind → Bool)
    (holds : Expr → Prop) : Prop :=
  ∀ state follow rest, ends follow = true → Stands state (kinds ++ [follow]) rest →
    Runs rule state fun value next => holds value ∧ Stands next [follow] rest

theorem ReadsAs.mono {rule : Parse Expr} {ends : TokenKind → Bool}
    (reads : ReadsAs rule kinds ends holds) (weaker : ∀ value, holds value → holds' value) :
    ReadsAs rule kinds ends holds' := by
  intro state follow rest ends stands
  apply (reads state follow rest ends stands).mono
  rintro value next ⟨held, stands⟩
  exact ⟨weaker value held, stands⟩

/-- What a rule answers on tokens with more tokens behind the one that ends them. -/
theorem ReadsAs.runs {rule : Parse Expr} {ends : TokenKind → Bool} {state : ParseState}
    {follow : TokenKind} {others : List TokenKind} {rest : List Char}
    (reads : ReadsAs rule kinds ends holds) (isEnd : ends follow = true)
    (stands : Stands state (kinds ++ follow :: others) rest) :
    Runs rule state fun value next => holds value ∧ Stands next (follow :: others) rest := by
  obtain ⟨middle, first, spells⟩ := stands.split
  apply (reads state follow middle isEnd first).mono
  rintro value next ⟨held, standsNext⟩
  obtain ⟨newline, sees⟩ := standsNext.one
  exact ⟨held, sees.stands spells⟩

/-! ## Primary expressions -/

theorem primary_readsNumber (value : Float) :
    ReadsAs rules.primary [.number value] endsTerm fun answer =>
      ∃ span, answer = .number span value := by
  intro state follow rest _ stands
  unfold primary
  rw [runs_token]
  simp only [stands.kind]
  apply (pass_stands stands).bind
  intro _ next standsNext
  rw [runs_spanFrom]
  exact .pure ⟨⟨_, rfl⟩, standsNext⟩

/-- A word that can be bound is an expression, unless it makes a function asynchronous. -/
theorem primary_runsName {state : ParseState} {word : String} {second : TokenKind}
    {others : List TokenKind} {rest : List Char} (binds : canBind word = true)
    (stands : Stands state (.word word :: second :: others) rest)
    (noFunction : second.isWord "function" = false) :
    Runs rules.primary state fun answer next =>
      (∃ span name, answer = .name span name ∧ name.text = word) ∧
        Stands next (second :: others) rest := by
  have plain : isReserved word = false := by
    rw [canBind, Bool.and_eq_true] at binds
    simpa using binds.1
  have found : Runs (do
      let name ← anyName
      return Node.name (← spanFrom state.token.span.start) name) state fun answer next =>
      (∃ span name, answer = .name span name ∧ name.text = word) ∧
        Stands next (second :: others) rest := by
    apply (anyName_stands stands).bind
    rintro name next ⟨isWord, standsNext⟩
    rw [runs_spanFrom]
    exact .pure ⟨⟨_, name, rfl, isWord⟩, standsNext⟩
  unfold primary
  rw [runs_token]
  simp only [stands.kind]
  unfold wordExpr
  split
  all_goals try
    rw [isReserved] at plain
    exact absurd plain (by decide)
  by_cases isAsync : word = "async"
  · subst isAsync
    simp only [if_true]
    apply (peek_stands stands).bind
    rintro ahead _ ⟨⟨isSecond, -⟩, rfl⟩
    simp only [isSecond, noFunction, plain]
    exact found
  · simp only [isAsync, if_false, plain]
    exact found

/-- A word that can be bound is none of the keywords. -/
theorem ne_of_canBind {word keyword : String} (binds : canBind word = true)
    (reserved : isReserved keyword = true) : word ≠ keyword := by
  rintro rfl
  simp [canBind, reserved] at binds

theorem primary_readsName {word : String} (binds : canBind word = true) :
    ReadsAs rules.primary [.word word] endsTerm fun answer =>
      ∃ span name, answer = .name span name ∧ name.text = word := by
  intro state follow rest ends stands
  obtain ⟨punct, rfl, -⟩ := cases_of_endsTerm ends
  exact primary_runsName binds stands rfl

/-- A boolean literal. -/
theorem primary_readsBoolean (value : Bool) :
    ReadsAs rules.primary [.word (if value then "true" else "false")] endsTerm fun answer =>
      ∃ span, answer = .boolean span value := by
  intro state follow rest _ stands
  unfold primary
  rw [runs_token]
  simp only [stands.kind]
  cases value <;>
  · apply (pass_stands stands).bind
    intro _ next standsNext
    rw [runs_spanFrom]
    exact .pure ⟨⟨_, rfl⟩, standsNext⟩

/-- One assignment is an expression, where no comma follows it. -/
theorem expression_readsOne {noIn : Bool}
    (assignment : ReadsAs (rules.assignment noIn) kinds endsWhole holds) :
    ReadsAs (rules.expression noIn) kinds (fun kind => endsWhole kind && !kind.isPunct .comma)
      holds := by
  intro state follow rest ends stands
  rw [Bool.and_eq_true, Bool.not_eq_true'] at ends
  unfold expression
  rw [runs_here]
  apply (assignment state follow rest ends.1 stands).bind
  rintro value next ⟨held, standsNext⟩
  rw [runs_at?, standsNext.kind, ends.2]
  exact .pure ⟨held, standsNext⟩

/-- An expression in parentheses. -/
theorem primary_readsParen (inner : ReadsAs (rules.assignment false) kinds endsWhole holds)
    (filled : kinds ≠ []) :
    ReadsAs rules.primary (.punct .openParen :: (kinds ++ [.punct .closeParen])) endsTerm
      fun answer => ∃ span value, answer = .paren span value ∧ holds value := by
  intro state follow rest _ stands
  obtain ⟨first, more, rfl⟩ := List.exists_cons_of_ne_nil filled
  rw [List.cons_append, List.append_assoc] at stands
  unfold primary
  rw [runs_token]
  simp only [stands.kind]
  apply (pass_stands stands).bind
  intro _ next standsNext
  apply ((expression_readsOne inner).runs rfl standsNext).bind
  rintro value after ⟨held, standsClose⟩
  apply (expect_stands standsClose).bind
  intro _ after standsAfter
  rw [runs_spanFrom]
  exact .pure ⟨⟨_, value, rfl, held⟩, standsAfter⟩

/-! ## Accesses and calls -/

/-- A token that begins an operand without an operator before it. -/
def leadsOperand (kind : TokenKind) : Bool :=
  (unaryOp? kind).isNone && (updateOp? kind).isNone && !kind.isWord "await" && !kind.isWord "new"

/-- The first of some tokens begins an operand. -/
def Leads (kinds : List TokenKind) : Prop := kinds.head?.any leadsOperand = true

theorem Leads.first {state : ParseState} {others : List TokenKind} {rest : List Char}
    (leads : Leads kinds) (stands : Stands state (kinds ++ others) rest) :
    unaryOp? state.token.kind = none ∧ updateOp? state.token.kind = none ∧
      state.token.kind.isWord "await" = false ∧ state.token.kind.isWord "new" = false := by
  cases kinds with
  | nil => cases leads
  | cons kind kinds =>
      rw [List.cons_append] at stands
      rw [stands.kind]
      simpa [Leads, leadsOperand, and_assoc] using leads

theorem chainStep_ends {state : ParseState} {start : Nat} {soFar : Expr}
    (ends : endsTerm state.token.kind = true) :
    Runs (rules.chainStep start soFar) state fun answer next => answer = none ∧ next = state := by
  obtain ⟨punct, is, member⟩ := cases_of_endsTerm ends
  unfold chainStep
  rw [runs_token]
  simp only [List.mem_cons, List.not_mem_nil, or_false] at member
  rcases member with rfl | rfl | rfl | rfl | rfl | rfl | rfl | rfl | rfl | rfl | rfl | rfl <;>
    simp [is]

/-- A primary expression without accesses and calls behind it. -/
theorem accessChain_of_primary (primary : ReadsAs rules.primary kinds endsTerm holds)
    (leads : Leads kinds) : ReadsAs rules.accessChain kinds endsTerm holds := by
  intro state follow rest ends stands
  obtain ⟨-, -, -, noNew⟩ := leads.first stands
  unfold accessChain
  rw [runs_here, runs_atWord?, noNew]
  apply (primary state follow rest ends stands).bind
  rintro value next ⟨held, standsNext⟩
  apply repeating_once
  apply (chainStep_ends (by rw [standsNext.kind]; exact ends)).bind
  rintro _ _ ⟨rfl, rfl⟩
  exact .pure ⟨value, rfl, held, standsNext⟩

/-- The first of some tokens is neither a spread nor the end of the arguments. -/
def BeginsArgument (kinds : List TokenKind) : Prop :=
  ∃ first more, kinds = first :: more ∧ first.isPunct .ellipsis = false ∧
    first.isPunct .closeParen = false

/-- One argument of a call, with what is behind it. -/
theorem spreadable_runs {state : ParseState} {follow : TokenKind} {others : List TokenKind}
    {rest : List Char} (reads : ReadsAs (rules.assignment false) kinds endsWhole holds)
    (begins : BeginsArgument kinds) (ends : endsWhole follow = true)
    (stands : Stands state (kinds ++ follow :: others) rest) :
    Runs rules.spreadable state fun value next =>
      holds value ∧ Stands next (follow :: others) rest := by
  obtain ⟨first, more, rfl, noEllipsis, -⟩ := begins
  unfold spreadable
  rw [runs_here]
  apply (eat_stands_other stands noEllipsis).bind
  rintro _ _ ⟨rfl, rfl⟩
  exact reads.runs ends stands

/-- Two arguments in parentheses. -/
theorem arguments_runsTwo {state : ParseState} {follow : TokenKind} {others : List TokenKind}
    {rest : List Char}
    (first : ReadsAs (rules.assignment false) kinds endsWhole holds)
    (begins : BeginsArgument kinds)
    (second : ReadsAs (rules.assignment false) kinds' endsWhole holds')
    (begins' : BeginsArgument kinds')
    (stands : Stands state (.punct .openParen :: (kinds ++
      .punct .comma :: (kinds' ++ .punct .closeParen :: follow :: others))) rest) :
    Runs rules.arguments state fun answer next =>
      (∃ one two, answer = [one, two] ∧ holds one ∧ holds' two) ∧
        Stands next (follow :: others) rest := by
  have ⟨head, more, isHead, _, noClose⟩ := begins
  have ⟨head', more', isHead', _, noClose'⟩ := begins'
  unfold arguments
  rw [isHead, List.cons_append] at stands
  apply (expect_stands stands).bind
  intro _ next standsFirst
  rw [commaList_eq]
  apply many_runs 3
  · obtain ⟨newline, text, sees, spells⟩ := standsFirst
    have comma : TokenKind.punct .comma ∈
        more ++ .punct .comma :: (kinds' ++ .punct .closeParen :: follow :: others) := by simp
    have := spells.shorter comma rfl
    rw [sees.rest]
    omega
  apply manyAtMost_more (eat_stands_other standsFirst noClose)
  unfold listed
  rw [← List.cons_append, ← isHead] at standsFirst
  apply (spreadable_runs first begins rfl standsFirst).bind
  rintro one next ⟨isOne, standsComma⟩
  rw [runs_at?, standsComma.kind]
  rw [isHead', List.cons_append] at standsComma
  apply (expect_stands standsComma).bind
  intro _ next standsSecond
  apply Runs.pure
  apply manyAtMost_more (eat_stands_other standsSecond noClose')
  rw [← List.cons_append, ← isHead'] at standsSecond
  apply (spreadable_runs second begins' rfl standsSecond).bind
  rintro two next ⟨isTwo, standsClose⟩
  rw [runs_at?, standsClose.kind]
  apply Runs.pure
  apply manyAtMost_done
  apply (eat_stands standsClose).mono
  rintro _ next ⟨rfl, standsNext⟩
  exact ⟨rfl, ⟨one, two, rfl, isOne, isTwo⟩, standsNext⟩

/-- One argument in parentheses. -/
theorem arguments_runsOne {state : ParseState} {others : List TokenKind} {rest : List Char}
    {follow : TokenKind} (first : ReadsAs (rules.assignment false) kinds endsWhole holds)
    (begins : BeginsArgument kinds)
    (stands : Stands state
      (.punct .openParen :: (kinds ++ .punct .closeParen :: follow :: others)) rest) :
    Runs rules.arguments state fun answer next =>
      (∃ one, answer = [one] ∧ holds one) ∧ Stands next (follow :: others) rest := by
  have ⟨head, more, isHead, _, noClose⟩ := begins
  unfold arguments
  rw [isHead, List.cons_append] at stands
  apply (expect_stands stands).bind
  intro _ next standsFirst
  rw [commaList_eq]
  apply many_runs 2 (by omega)
  apply manyAtMost_more (eat_stands_other standsFirst noClose)
  unfold listed
  rw [← List.cons_append, ← isHead] at standsFirst
  apply (spreadable_runs first begins rfl standsFirst).bind
  rintro one next ⟨isOne, standsClose⟩
  rw [runs_at?, standsClose.kind]
  apply Runs.pure
  apply manyAtMost_done
  apply (eat_stands standsClose).mono
  rintro _ next ⟨rfl, standsNext⟩
  exact ⟨rfl, ⟨one, rfl, isOne⟩, standsNext⟩

theorem chainStep_readsMember {state : ParseState} {start : Nat} {soFar : Expr} {property : String}
    {second : TokenKind} {others : List TokenKind} {rest : List Char}
    (isPublic : isPrivate property = false)
    (stands : Stands state (.punct .dot :: .word property :: second :: others) rest) :
    Runs (rules.chainStep start soFar) state fun answer next =>
      (∃ span name, answer = some (.member span soFar name false) ∧ name.text = property) ∧
        Stands next (second :: others) rest := by
  unfold chainStep
  rw [runs_token]
  simp only [stands.kind]
  apply (pass_stands stands).bind
  intro _ next standsProperty
  unfold memberAccess
  rw [bind_assoc]
  apply (anyName_stands standsProperty).bind
  rintro name next ⟨rfl, standsNext⟩
  simp only [bind_assoc, runs_spanFrom, isPublic, Bool.false_eq_true, if_false]
  exact .pure ⟨⟨_, name, rfl, rfl⟩, standsNext⟩

/-- A call, with arguments that are known. -/
theorem chainStep_readsCall {state : ParseState} {start : Nat} {soFar : Expr}
    {holdsAll : List Expr → Prop} {others others' : List TokenKind} {rest rest' : List Char}
    (stands : Stands state (.punct .openParen :: others) rest)
    (arguments : Runs rules.arguments state fun answer next =>
      holdsAll answer ∧ Stands next others' rest') :
    Runs (rules.chainStep start soFar) state fun answer next =>
      (∃ span values, answer = some (.call span soFar (.ofList values) false) ∧
        holdsAll values) ∧ Stands next others' rest' := by
  unfold chainStep
  rw [runs_token]
  simp only [stands.kind]
  apply arguments.bind
  rintro values next ⟨held, standsNext⟩
  rw [runs_spanFrom]
  exact .pure ⟨⟨_, values, rfl, held⟩, standsNext⟩

/-- A call of a method, with arguments that are known. -/
theorem accessChain_readsMethod {owner property : String} {holdsAll : List Expr → Prop}
    (binds : canBind owner = true) (isPublic : isPrivate property = false)
    (arguments : ∀ state follow rest, Stands state (.punct .openParen :: (kinds ++ [follow])) rest →
      Runs rules.arguments state fun answer next => holdsAll answer ∧ Stands next [follow] rest) :
    ReadsAs rules.accessChain
      ([.word owner, .punct .dot, .word property, .punct .openParen] ++ kinds) endsTerm
      fun answer => ∃ span callee values, answer = .call span callee (.ofList values) false ∧
        callee.dotted? = some (owner ++ "." ++ property) ∧ holdsAll values := by
  intro state follow rest ends stands
  simp only [List.cons_append, List.nil_append] at stands
  have noNew : state.token.kind.isWord "new" = false := by
    rw [stands.kind]
    simpa [TokenKind.isWord, TokenKind.word?] using ne_of_canBind binds (by decide)
  unfold accessChain
  rw [runs_here, runs_atWord?, noNew]
  apply (primary_runsName binds stands rfl).bind
  rintro _ next ⟨⟨nameSpan, name, rfl, isOwner⟩, standsDot⟩
  apply repeating_runs 3
  · obtain ⟨newline, text, sees, middle, spells, -⟩ := standsDot
    have := spells.shorter rfl
    rw [sees.rest]
    omega
  apply repeatAtMost_succ
  apply (chainStep_readsMember isPublic standsDot).bind
  rintro _ next ⟨⟨memberSpan, found, rfl, rfl⟩, standsParen⟩
  apply Runs.pure
  apply repeatAtMost_succ
  apply (chainStep_readsCall standsParen (arguments _ _ _ standsParen)).bind
  rintro _ next ⟨⟨span, values, rfl, held⟩, standsNext⟩
  apply Runs.pure
  apply repeatAtMost_succ
  apply (chainStep_ends (by rw [standsNext.kind]; exact ends)).bind
  rintro _ _ ⟨rfl, rfl⟩
  refine .pure ⟨⟨_, _, values, rfl, ?_, held⟩, standsNext⟩
  rw [← isOwner]
  rfl

/-- A call of a method with one argument. -/
theorem accessChain_readsCallOne {owner property : String} (binds : canBind owner = true)
    (isPublic : isPrivate property = false)
    (argument : ReadsAs (rules.assignment false) kinds endsWhole holds)
    (begins : BeginsArgument kinds) :
    ReadsAs rules.accessChain ([.word owner, .punct .dot, .word property, .punct .openParen] ++
        (kinds ++ [.punct .closeParen])) endsTerm fun answer =>
      ∃ span callee one, answer = .call span callee (.ofList [one]) false ∧
        callee.dotted? = some (owner ++ "." ++ property) ∧ holds one := by
  have arguments (state : ParseState) (follow : TokenKind) (rest : List Char)
      (stands : Stands state
        (.punct .openParen :: (kinds ++ [.punct .closeParen] ++ [follow])) rest) :
      Runs rules.arguments state fun answer next =>
        (∃ one, answer = [one] ∧ holds one) ∧ Stands next [follow] rest := by
    rw [List.append_assoc] at stands
    exact arguments_runsOne argument begins stands
  apply (accessChain_readsMethod binds isPublic arguments).mono
  rintro _ ⟨span, callee, _, rfl, named, one, rfl, isOne⟩
  exact ⟨span, callee, one, rfl, named, isOne⟩

/-- A call of a method with two arguments. -/
theorem accessChain_readsCall {owner property : String} (binds : canBind owner = true)
    (isPublic : isPrivate property = false)
    (first : ReadsAs (rules.assignment false) kinds endsWhole holds)
    (begins : BeginsArgument kinds)
    (second : ReadsAs (rules.assignment false) kinds' endsWhole holds')
    (begins' : BeginsArgument kinds') :
    ReadsAs rules.accessChain
      ([.word owner, .punct .dot, .word property, .punct .openParen] ++ (kinds ++
        (.punct .comma :: (kinds' ++ [.punct .closeParen])))) endsTerm fun answer =>
      ∃ span callee one two, answer = .call span callee (.ofList [one, two]) false ∧
        callee.dotted? = some (owner ++ "." ++ property) ∧ holds one ∧ holds' two := by
  have arguments (state : ParseState) (follow : TokenKind) (rest : List Char)
      (stands : Stands state (.punct .openParen ::
        (kinds ++ (.punct .comma :: (kinds' ++ [.punct .closeParen])) ++ [follow])) rest) :
      Runs rules.arguments state fun answer next =>
        (∃ one two, answer = [one, two] ∧ holds one ∧ holds' two) ∧ Stands next [follow] rest := by
    simp only [List.append_assoc, List.cons_append, List.nil_append] at stands
    exact arguments_runsTwo first begins second begins' stands
  apply (accessChain_readsMethod binds isPublic arguments).mono
  rintro _ ⟨span, callee, _, rfl, named, one, two, rfl, isOne, isTwo⟩
  exact ⟨span, callee, one, two, rfl, named, isOne, isTwo⟩

/-- The tokens of members of a name, the innermost first. -/
def membersOf (properties : List String) : List TokenKind :=
  properties.flatMap fun property => [.punct .dot, .word property]

/-- A name with members. -/
def pathOf (owner : String) (properties : List String) : String :=
  properties.foldl (fun path property => path ++ "." ++ property) owner

/-- The steps of a chain of members. -/
theorem repeatAtMost_readsMembers {properties : List String} {owner : String} {state : ParseState}
    {start few : Nat} {soFar : Expr} {follow : TokenKind} {rest : List Char}
    (arePublic : ∀ property ∈ properties, isPrivate property = false)
    (ends : endsTerm follow = true) (named : soFar.dotted? = some owner)
    (enough : properties.length < few)
    (stands : Stands state (membersOf properties ++ [follow]) rest) :
    Runs (repeatAtMost (fun soFar => do
        match ← rules.chainStep start soFar with
        | some longer => return .inl longer
        | none => return .inr soFar) few soFar) state fun answer next =>
      answer.dotted? = some (pathOf owner properties) ∧ Stands next [follow] rest := by
  obtain ⟨few, rfl⟩ : ∃ more, few = more + 1 := ⟨few - 1, by omega⟩
  induction properties generalizing state few soFar owner with
  | nil =>
      apply repeatAtMost_succ
      apply (chainStep_ends (by rw [stands.kind]; exact ends)).bind
      rintro _ _ ⟨rfl, rfl⟩
      exact .pure ⟨named, stands⟩
  | cons property properties inductionHypothesis =>
      rw [List.length_cons] at enough
      obtain ⟨few, rfl⟩ : ∃ more, few = more + 1 := ⟨few - 1, by omega⟩
      obtain ⟨isPublic, othersPublic⟩ := List.forall_mem_cons.1 arePublic
      have filled : membersOf properties ++ [follow] ≠ [] := by simp
      obtain ⟨second, others, split⟩ := List.exists_cons_of_ne_nil filled
      have line : membersOf (property :: properties) ++ [follow] =
          .punct .dot :: .word property :: second :: others := by
        rw [← split]
        rfl
      rw [line] at stands
      apply repeatAtMost_succ
      apply (chainStep_readsMember isPublic stands).bind
      rintro _ next ⟨⟨span, found, rfl, rfl⟩, standsNext⟩
      rw [← split] at standsNext
      apply Runs.pure
      refine inductionHypothesis othersPublic ?_ standsNext few (by omega)
      rw [Node.dotted?, named]
      rfl

/-- Every member of a chain takes up some of the text. -/
theorem length_membersOf_le {properties : List String} {before follow : TokenKind}
    {text rest : List Char}
    (spells : SpellsAll before (membersOf properties ++ [follow]) text rest) :
    properties.length + rest.length ≤ text.length := by
  induction properties generalizing before text with
  | nil =>
      have := spells.length_le
      rwa [List.length_nil, Nat.zero_add]
  | cons property properties inductionHypothesis =>
      obtain ⟨middle, first, behind, second, others⟩ := spells
      have := first.shorter rfl
      have := second.length_le
      have := inductionHypothesis others
      rw [List.length_cons]
      omega

/-- A name with members behind it. -/
theorem accessChain_readsMembers {owner : String} {properties : List String}
    (binds : canBind owner = true)
    (arePublic : ∀ property ∈ properties, isPrivate property = false) :
    ReadsAs rules.accessChain (.word owner :: membersOf properties) endsTerm fun answer =>
      answer.dotted? = some (pathOf owner properties) := by
  intro state follow rest ends stands
  have noNew : state.token.kind.isWord "new" = false := by
    rw [stands.kind]
    simpa [TokenKind.isWord, TokenKind.word?] using ne_of_canBind binds (by decide)
  obtain ⟨second, others, split, noFunction⟩ : ∃ second others,
      membersOf properties ++ [follow] = second :: others ∧ second.isWord "function" = false := by
    obtain ⟨punct, rfl, -⟩ := cases_of_endsTerm ends
    cases properties with
    | nil => exact ⟨_, _, rfl, rfl⟩
    | cons property properties => exact ⟨_, _, rfl, rfl⟩
  rw [List.cons_append, split] at stands
  unfold accessChain
  rw [runs_here, runs_atWord?, noNew]
  apply (primary_runsName binds stands noFunction).bind
  rintro _ next ⟨⟨nameSpan, name, rfl, rfl⟩, standsNext⟩
  rw [← split] at standsNext
  apply repeating_runs (properties.length + 1)
  · rw [split] at standsNext
    obtain ⟨newline, text, sees, spells⟩ := standsNext
    rw [sees.rest]
    cases properties with
    | nil => simp
    | cons property properties =>
        cases split
        obtain ⟨middle, first, others⟩ := spells
        have := first.shorter rfl
        have := length_membersOf_le others
        rw [List.length_cons]
        omega
  exact repeatAtMost_readsMembers arePublic ends rfl (Nat.lt_succ_self _) standsNext

/-- A call of a function by its name, with one argument. -/
theorem accessChain_readsCallee {name : String} (binds : canBind name = true)
    (argument : ReadsAs (rules.assignment false) kinds endsWhole holds)
    (begins : BeginsArgument kinds) :
    ReadsAs rules.accessChain
      ([.word name, .punct .openParen] ++ (kinds ++ [.punct .closeParen])) endsTerm fun answer =>
      ∃ span nameSpan found one, answer =
        .call span (.name nameSpan found) (.ofList [one]) false ∧ found.text = name ∧
          holds one := by
  intro state follow rest ends stands
  simp only [List.cons_append, List.nil_append, List.append_assoc] at stands
  have noNew : state.token.kind.isWord "new" = false := by
    rw [stands.kind]
    simpa [TokenKind.isWord, TokenKind.word?] using ne_of_canBind binds (by decide)
  unfold accessChain
  rw [runs_here, runs_atWord?, noNew]
  apply (primary_runsName binds stands rfl).bind
  rintro _ next ⟨⟨nameSpan, found, rfl, isName⟩, standsParen⟩
  apply repeating_runs 2 (by omega)
  apply repeatAtMost_succ
  apply (chainStep_readsCall standsParen (arguments_runsOne argument begins standsParen)).bind
  rintro _ next ⟨⟨span, _, rfl, one, rfl, isOne⟩, standsNext⟩
  apply Runs.pure
  apply repeatAtMost_succ
  apply (chainStep_ends (by rw [standsNext.kind]; exact ends)).bind
  rintro _ _ ⟨rfl, rfl⟩
  exact .pure ⟨⟨_, _, found, one, rfl, isName, isOne⟩, standsNext⟩

/-! ## Unary operators -/

/-- An operand without operators before and behind it. -/
theorem unaryExpr_of_access (access : ReadsAs rules.accessChain kinds endsTerm holds)
    (leads : Leads kinds) : ReadsAs rules.unaryExpr kinds endsTerm holds := by
  intro state follow rest ends stands
  obtain ⟨noUnary, noUpdate, noAwait, -⟩ := leads.first stands
  unfold unaryExpr
  simp only [runs_token, noUnary, noUpdate, noAwait]
  unfold postfixExpr
  rw [if_neg Bool.false_ne_true, runs_here]
  apply (access state follow rest ends stands).bind
  rintro value next ⟨held, standsNext⟩
  obtain ⟨punct, rfl, member⟩ := cases_of_endsTerm ends
  have noPostfix : punct.update? = none := by
    revert member
    cases punct <;> decide
  rw [runs_token]
  simp only [standsNext.kind, noPostfix]
  exact .pure ⟨held, standsNext⟩

/-- An operand with an operator before it. -/
theorem unaryExpr_readsOperator {punct : Punct} {op : UnaryOp} (isUnary : punct.unary? = some op)
    (operand : ReadsAs rules.unary kinds endsTerm holds) (filled : kinds ≠ []) :
    ReadsAs rules.unaryExpr (.punct punct :: kinds) endsTerm fun answer =>
      ∃ span inner, answer = .unary span op inner ∧ holds inner := by
  intro state follow rest ends stands
  obtain ⟨first, more, rfl⟩ := List.exists_cons_of_ne_nil filled
  unfold unaryExpr
  rw [runs_token]
  simp only [stands.kind, unaryOp?, isUnary]
  apply (pass_stands stands).bind
  intro _ next standsNext
  apply (operand next follow rest ends standsNext).bind
  rintro value after ⟨held, standsAfter⟩
  rw [runs_spanFrom]
  exact .pure ⟨⟨_, value, rfl, held⟩, standsAfter⟩

/-! ## Binary operators -/

/-- One round of reading a chain: an operator and its operand, or the end of the chain. -/
def binaryRound (rules : Rules) (start least : Nat) (noIn : Bool) (left : Expr) :
    Parse (Expr ⊕ Expr) := do
  match ← rules.binaryStep start least noIn left with
  | some longer => return .inl longer
  | none => return .inr left

theorem binaryExpr_eq (rules : Rules) (least : Nat) (noIn : Bool) :
    rules.binaryExpr least noIn = (do
      let start ← here
      let first ← rules.unaryExpr
      repeating first (rules.binaryRound start least noIn)) := rfl

/-- Tokens are read as operands joined by operators that bind at least as tightly as `bound`.
What is read of them stands on the left of all that follows. -/
def ReadsChain (rules : Rules) (bound : Nat) (kinds : List TokenKind)
    (holds : Expr → Prop) : Prop :=
  ∀ ⦃least noIn start state follow rest⦄ ⦃after : Expr → ParseState → Prop⦄, least ≤ bound →
    endsTerm follow = true → tightness follow ≤ bound → Stands state (kinds ++ [follow]) rest →
    (∀ value next newline few, holds value → Sees next follow newline rest →
      rest.length + 2 ≤ few →
        Runs (repeatAtMost (rules.binaryRound start least noIn) few value) next after) →
    Runs (do
      let first ← rules.unaryExpr
      repeating first (rules.binaryRound start least noIn)) state after

theorem ReadsChain.mono {bound : Nat} (reads : ReadsChain rules bound kinds holds)
    (weaker : ∀ value, holds value → holds' value) : ReadsChain rules bound kinds holds' := by
  intro least noIn start state follow rest after least_le ends follow_le stands goesOn
  exact reads least_le ends follow_le stands fun value next newline few held =>
    goesOn value next newline few (weaker value held)

theorem ReadsChain.loosen {bound bound' : Nat} (reads : ReadsChain rules bound kinds holds)
    (le : bound' ≤ bound) : ReadsChain rules bound' kinds holds := by
  intro least noIn start state follow rest after least_le ends follow_le stands goesOn
  exact reads (Nat.le_trans least_le le) ends (Nat.le_trans follow_le le) stands goesOn

/-- An operand is a chain. -/
theorem chain_of_unary {bound : Nat} (operand : ReadsAs rules.unaryExpr kinds endsTerm holds) :
    ReadsChain rules bound kinds holds := by
  intro least noIn start state follow rest after _ ends _ stands goesOn
  apply (operand state follow rest ends stands).bind
  rintro value next ⟨held, standsNext⟩
  obtain ⟨newline, sees⟩ := standsNext.one
  unfold repeating
  rw [runs_get, sees.rest]
  exact goesOn value next newline _ held sees (Nat.le_refl _)

/-- A chain with one more operator and operand. -/
theorem chain_readsOperator {punct : Punct} {op : BinaryOp} {bound : Nat}
    (isBinary : punct.binary? = some op) (isTerm : endsTerm (.punct punct) = true)
    (left : ReadsChain rules bound kinds holds) (tight : op.precedence ≤ bound)
    (right : ∀ noIn, ReadsAs (rules.binary op.rightPrecedence noIn) kinds'
      (fun kind => endsTerm kind && decide (tightness kind < op.rightPrecedence)) holds')
    (filled : kinds' ≠ []) (loose : op.precedence < op.rightPrecedence) :
    ReadsChain rules op.precedence (kinds ++ .punct punct :: kinds') fun answer =>
      ∃ span one two, answer = .binary span op one two ∧ holds one ∧ holds' two := by
  intro least noIn start state follow rest after least_le ends follow_le stands goesOn
  rw [List.append_assoc, List.cons_append] at stands
  obtain ⟨middle, standsLeft, spells⟩ := stands.split
  have tightOp : tightness (.punct punct) = op.precedence := by
    simp [tightness, isBinary]
  apply left (Nat.le_trans least_le tight) isTerm (by omega) standsLeft
  intro one next newline few isOne sees enough
  obtain ⟨few, rfl⟩ : ∃ more, few = more + 1 := ⟨few - 1, by omega⟩
  obtain ⟨first, more, rfl⟩ := List.exists_cons_of_ne_nil filled
  have goesOn' : follow.isEnd = false := by
    obtain ⟨found, rfl, -⟩ := cases_of_endsTerm ends
    rfl
  have shorter := spells.shorter (List.mem_append_right _ List.mem_cons_self) goesOn'
  apply repeatAtMost_succ
  unfold binaryRound binaryStep
  simp only [runs_token, bind_assoc, infixOf?, sees.kind, isBinary, Option.map_some]
  rw [if_neg (by simp only [Infix.precedence]; omega)]
  rw [bind_assoc]
  apply (pass_stands (sees.stands spells)).bind
  intro _ next standsRight
  rw [bind_assoc]
  have ended : (endsTerm follow && decide (tightness follow < op.rightPrecedence)) = true := by
    rw [ends, Bool.true_and]
    exact decide_eq_true (by omega)
  apply (right noIn next follow rest ended standsRight).bind
  rintro two last ⟨isTwo, standsLast⟩
  obtain ⟨newline, seesLast⟩ := standsLast.one
  rw [bind_assoc, runs_spanFrom]
  exact .pure (goesOn _ last newline few ⟨_, one, two, rfl, isOne, isTwo⟩ seesLast (by omega))

/-- A chain is read up to what binds less tightly than it must. -/
theorem binaryExpr_of_chain {bound least : Nat} {noIn : Bool}
    (chain : ReadsChain rules bound kinds holds) (le : least ≤ bound) :
    ReadsAs (rules.binaryExpr least noIn) kinds
      (fun kind => endsTerm kind && decide (tightness kind < least)) holds := by
  intro state follow rest ends stands
  rw [Bool.and_eq_true, decide_eq_true_eq] at ends
  obtain ⟨isTerm, loose⟩ := ends
  rw [binaryExpr_eq, runs_here]
  apply chain le isTerm (by omega) stands
  intro value next newline few held sees enough
  obtain ⟨few, rfl⟩ : ∃ more, few = more + 1 := ⟨few - 1, by omega⟩
  apply repeatAtMost_succ
  unfold binaryRound binaryStep
  simp only [runs_token, bind_assoc]
  obtain ⟨punct, rfl, member⟩ := cases_of_endsTerm isTerm
  have ended : infixOf? noIn next.token = none ∨ ∃ found, infixOf? noIn next.token = some found ∧
      found.precedence < least := by
    simp only [infixOf?, sees.kind]
    cases isBinary : punct.binary? with
    | none => exact .inl rfl
    | some op =>
        have less : op.precedence < least := by simpa [tightness, isBinary] using loose
        exact .inr ⟨.operator op, rfl, less⟩
  rcases ended with none | ⟨found, some, less⟩
  · rw [none]
    exact .pure ⟨held, sees.stands rfl⟩
  · rw [some]
    simp only [less, if_true]
    exact .pure ⟨held, sees.stands rfl⟩

/-! ## Whole expressions -/

/-- A chain that no question mark follows. -/
theorem conditionalExpr_of_binary {noIn : Bool} {ends : TokenKind → Bool}
    (areEnds : ∀ kind, ends kind = true → EndsExpression kind)
    (binary : ReadsAs (rules.binaryExpr 1 noIn) kinds
      (fun kind => endsTerm kind && decide (tightness kind < 1)) holds) :
    ReadsAs (rules.conditionalExpr noIn) kinds ends holds := by
  intro state follow rest isEnd stands
  obtain ⟨isTerm, loose, -, noQuestion, -⟩ := areEnds follow isEnd
  unfold conditionalExpr
  rw [runs_here]
  apply (binary state follow rest (by simp [isTerm, loose]) stands).bind
  rintro value next ⟨held, standsNext⟩
  apply (eat_stands_other standsNext noQuestion).bind
  rintro _ _ ⟨rfl, rfl⟩
  exact .pure ⟨held, standsNext⟩

/-- A choice between two expressions. How the first one is read may depend on what is behind the
colon. -/
theorem conditionalExpr_readsChoice {noIn : Bool} {kinds'' : List TokenKind}
    {holds'' : Expr → Prop}
    (test : ReadsAs (rules.binaryExpr 1 noIn) kinds
      (fun kind => endsTerm kind && decide (tightness kind < 1)) holds)
    (consequent : ∀ state follow rest, endsWhole follow = true →
      Stands state (kinds' ++ .punct .colon :: (kinds'' ++ [follow])) rest →
        Runs (rules.assignment false) state fun value next =>
          holds' value ∧ Stands next (.punct .colon :: (kinds'' ++ [follow])) rest)
    (filled : kinds' ≠ [])
    (alternative : ReadsAs (rules.assignment noIn) kinds'' endsWhole holds'')
    (filled' : kinds'' ≠ []) :
    ReadsAs (rules.conditionalExpr noIn)
      (kinds ++ .punct .question :: (kinds' ++ .punct .colon :: kinds'')) endsWhole fun answer =>
      ∃ span one two three, answer = .conditional span one two three ∧ holds one ∧ holds' two ∧
        holds'' three := by
  intro state follow rest ends stands
  obtain ⟨head, more, rfl⟩ := List.exists_cons_of_ne_nil filled
  obtain ⟨head', more', rfl⟩ := List.exists_cons_of_ne_nil filled'
  simp only [List.cons_append, List.append_assoc] at stands consequent
  unfold conditionalExpr
  rw [runs_here]
  apply (test.runs rfl stands).bind
  rintro one next ⟨isOne, standsQuestion⟩
  apply (eat_stands standsQuestion).bind
  rintro _ next ⟨rfl, standsConsequent⟩
  rw [if_pos rfl]
  apply (consequent _ _ _ ends standsConsequent).bind
  rintro two next ⟨isTwo, standsColon⟩
  apply (expect_stands standsColon).bind
  intro _ next standsAlternative
  apply (alternative next follow rest ends standsAlternative).bind
  rintro three last ⟨isThree, standsLast⟩
  rw [runs_spanFrom]
  exact .pure ⟨⟨_, one, two, three, rfl, isOne, isTwo, isThree⟩, standsLast⟩

end Rules

end StopMotion.Syntax
