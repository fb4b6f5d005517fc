import StopMotion.Proofs.Syntax.Precedence.Climb
import StopMotion.Proofs.Syntax.Run.Arrow

/-!
# Conditionals with parenthesised branches

An opening parenthesis may begin the head of an arrow function or an expression, and `(c) : a` may
begin either a head with an annotation or the consequent of a conditional with the alternative
behind it. The head is read on trial: where it stands the expression is an arrow function, and
everywhere else it is what it would be if there were no arrow functions.
-/

namespace StopMotion.Syntax

open Filter
open Parse (pass Runs)

/-! ## Heads of arrow functions -/

/-- The head of an arrow function up to its arrow: its parameters, and the types before and behind
them. -/
def Rules.arrowHead (rules : Rules) : Parse (List Pattern) := do
  rules.skipTypeParams
  let params ← rules.params
  rules.skipAnnotation
  return params

/-- An arrow is next, on the line of what is before it. -/
def ParseState.AtArrow (state : ParseState) : Prop :=
  state.token.kind.isPunct .arrow = true ∧ state.token.afterNewline = false

/-- The head of an arrow function stands here. -/
def BeginsArrow (state : ParseState) : Prop :=
  ∃ params next, Reads Rules.arrowHead state params next ∧ next.AtArrow

variable {source : List Char} {bound : Nat} {noIn : Bool} {state next last : ParseState}
  {params : List Pattern} {value inner : Expr}

theorem grows_arrowHead : Grows Rules.arrowHead := fun _ _ deepen =>
  deepen.skipTypeParams.bind fun _ => deepen.params.bind fun _ => deepen.skipAnnotation.before

/-- A head is laid. -/
theorem Rules.Sound.arrowHead {rules : Rules} {limit : Nat} (sound : rules.Sound source limit) :
    Parse.Lays source limit (.all Node.plan) rules.arrowHead := by
  intro bound state ready le
  refine (sound.skipTypeParams state ready le).bind fun _ inside generic => ?_
  refine (sound.params inside generic.ready le).bind fun params behind spans => ?_
  refine (sound.skipAnnotation behind spans.ready le).bind fun _ last typed => ?_
  exact .pure ((generic.spans_of spans).trans typed)

/-- A step that answers is not given up. -/
theorem Parse.Runs.yields {α : Type} {step : Parse α} {holds : α → ParseState → Prop}
    (runs : Runs step state holds) : Parse.Yields step state holds := by
  obtain ⟨value, next, run, held⟩ := runs
  simpa only [Parse.Yields, run] using held

/-- What has run in two steps. -/
theorem Parse.bind_ran {α β : Type} {step : Parse α} {more : α → Parse β} {answer : β}
    (run : (step >>= more) state = .ok (answer, last)) :
    ∃ value next, step state = .ok (value, next) ∧ more value next = .ok (answer, last) := by
  obtain ⟨⟨value, next⟩, first, rest⟩ := bind_eq_ok run
  exact ⟨value, next, first, rest⟩

/-- Looking ahead answers if it is not given up. -/
theorem Parse.Yields.foresee_runs {step : Parse Bool} {holds : Bool → ParseState → Prop}
    (yields : Parse.Yields (Parse.foresee step) state holds) :
    Runs (Parse.foresee step) state holds := by
  cases run : Parse.foresee step state with
  | ok answered => exact ⟨answered.1, answered.2, run, yields.of_run run⟩
  | error error =>
      have goesOn := yields.of_error run
      unfold Parse.foresee at run
      split at run
      · cases run
      · split at run
        · rename_i givenUp
          cases run
          rw [goesOn] at givenUp
          cases givenUp
        · cases run

/-- What is read on trial is answered or undone. -/
theorem Parse.Yields.speculate_runs {α : Type} {step : Parse (Option α)}
    {holds : Option α → ParseState → Prop} (yields : Parse.Yields step state holds) :
    Runs (Parse.speculate step) state fun answer after =>
      (answer = none ∧ ∀ value next, step state ≠ .ok (some value, next)) ∨
        ∃ value, answer = some value ∧ step state = .ok (some value, after) := by
  unfold Parse.speculate
  cases run : step state with
  | error error =>
      have goesOn := yields.of_error run
      exact ⟨none, state, by simp [run, goesOn], .inl ⟨rfl, by simp⟩⟩
  | ok answered =>
      obtain ⟨answer, after⟩ := answered
      cases answer with
      | none => exact ⟨none, state, by simp [run], .inl ⟨rfl, by simp⟩⟩
      | some value => exact ⟨some value, after, by simp [run], .inr ⟨value, rfl, rfl⟩⟩

/-- The parameters of a head, where an arrow follows it. -/
def Rules.beforeArrow (params : List Pattern) : Parse (Option (List Pattern)) := do
  if (← Parse.at? .arrow) && !(← Parse.afterNewline?) then
    return some params
  else
    return none

theorem head_eq_ok {rules : Rules} :
    (rules.arrowHead >>= Rules.beforeArrow) state = .ok (some params, next) ↔
      rules.arrowHead state = .ok (params, next) ∧ next.AtArrow := by
  change Except.bind (rules.arrowHead state) (fun answer => Rules.beforeArrow answer.1 answer.2) =
    _ ↔ _
  cases run : rules.arrowHead state with
  | error error => simp [Except.bind]
  | ok answered =>
      obtain ⟨params', next'⟩ := answered
      change (if next'.token.kind.isPunct .arrow && !next'.token.afterNewline then
        (pure (some params') : Parse _) else pure none) next' = _ ↔ _
      split
      · rename_i atArrow
        rw [Bool.and_eq_true, Bool.not_eq_true'] at atArrow
        change Except.ok (some params', next') = _ ↔ _
        simp only [Except.ok.injEq, Prod.mk.injEq, Option.some.injEq]
        constructor
        · rintro ⟨rfl, rfl⟩
          exact ⟨⟨rfl, rfl⟩, atArrow⟩
        · exact And.left
      · rename_i other
        change Except.ok (none, next') = _ ↔ _
        simp only [Except.ok.injEq, Prod.mk.injEq, reduceCtorEq, false_and, false_iff, not_and]
        rintro ⟨rfl, rfl⟩ atArrow
        exact other (by rw [atArrow.1, atArrow.2]; rfl)

/-- The trial of a head comes to an end. -/
theorem Rules.Sound.tried_yields {rules : Rules} {limit : Nat} (sound : rules.Sound source limit)
    (ready : Ready source bound state) (le : bound ≤ limit) :
    Parse.Yields (rules.arrowHead >>= Rules.beforeArrow) state fun _ _ => True := by
  refine (sound.arrowHead state ready le).bind fun params next _ => ?_
  unfold Rules.beforeArrow
  simp only [Parse.yields_at?, Parse.yields_afterNewline?]
  split
  · exact .pure trivial
  · exact .pure trivial

/-- Behind an opening parenthesis what is tried as a head is undone where an arrow does not follow
it. -/
theorem arrowParams_runs_openParen {rules : Rules} {limit : Nat} (sound : rules.Sound source limit)
    (ready : Ready source bound state) (le : bound ≤ limit)
    (opens : state.token.kind = .punct .openParen) :
    Runs rules.arrowParams state fun answer after =>
      (answer = none ∧ ∀ params next, rules.arrowHead state = .ok (params, next) → ¬ next.AtArrow) ∨
      ∃ params, answer = some params ∧ rules.arrowHead state = .ok (params, after) ∧
        after.AtArrow := by
  unfold Rules.arrowParams
  simp only [Parse.runs_atBinding?, opens, TokenKind.word?, Option.any_none, Bool.false_eq_true,
    if_false, Parse.runs_at?, TokenKind.isPunct, beq_self_eq_true, Bool.true_or, if_true]
  refine (Parse.Yields.foresee_runs (Rules.Sound.beginsTypeParams_yields ready)).bind ?_
  rintro _ _ rfl
  have head : (do
      rules.skipTypeParams
      let params ← rules.params
      rules.skipAnnotation
      if (← Parse.at? .arrow) && !(← Parse.afterNewline?) then
        return some params
      else
        return none) = rules.arrowHead >>= Rules.beforeArrow := by
    simp only [Rules.arrowHead, bind_assoc]
    rfl
  rw [head]
  refine (sound.tried_yields ready le).speculate_runs.mono fun answer after held => ?_
  rcases held with ⟨rfl, noAnswer⟩ | ⟨params, rfl, run⟩
  · exact .inl ⟨rfl, fun params next run atArrow =>
      noAnswer params next (head_eq_ok.mpr ⟨run, atArrow⟩)⟩
  · exact .inr ⟨params, rfl, head_eq_ok.mp run⟩

/-- Where no head stands, there is no arrow function. -/
theorem Reads.arrow?_none (ready : Ready source bound state)
    (opens : state.token.kind = .punct .openParen) (noHead : ¬ BeginsArrow state) :
    Reads (fun rules => rules.arrow? noIn) state none state := by
  apply Reads.of_runs
  filter_upwards [eventually_ge_atTop bound] with depth le
  have noAsync : state.token.kind.isWord "async" = false := by
    rw [opens]
    rfl
  unfold Rules.arrow?
  rw [Parse.runs_get, Parse.runs_here]
  refine (Rules.eatArrowAsync_other noAsync).bind ?_
  rintro _ _ ⟨rfl, rfl⟩
  refine (arrowParams_runs_openParen (Rules.sound_ofDepth depth) ready le opens).bind ?_
  rintro _ after (⟨rfl, -⟩ | ⟨params, rfl, run, atArrow⟩)
  · rw [Parse.runs_set]
    exact .pure ⟨rfl, rfl⟩
  · exact absurd ⟨params, after, ⟨depth, run⟩, atArrow⟩ noHead

/-- Where a head stands, nothing but an arrow function is read. -/
theorem Reads.arrow?_some {answer : Option Expr} (ready : Ready source bound state)
    (opens : state.token.kind = .punct .openParen) (head : BeginsArrow state)
    (reads : Reads (fun rules => rules.arrow? noIn) state answer next) :
    ∃ span params body isAsync, answer = some (.arrow span params body isAsync) := by
  obtain ⟨params, behind, headReads, atArrow⟩ := head
  obtain ⟨depth, ⟨run, headRun⟩, le⟩ := (((reads.eventually grows_arrow?).and
    (headReads.eventually grows_arrowHead)).and (eventually_ge_atTop bound)).exists
  have sound : (Rules.ofDepth depth).Sound source depth := Rules.sound_ofDepth depth
  have noAsync : state.token.kind.isWord "async" = false := by
    rw [opens]
    rfl
  have yields : Parse.Yields ((Rules.ofDepth depth).arrow? noIn) state fun answer _ =>
      ∃ span params body isAsync, answer = some (.arrow span params body isAsync) := by
    unfold Rules.arrow?
    rw [Parse.yields_get, Parse.yields_here]
    refine (Parse.Runs.yields (Rules.eatArrowAsync_other noAsync)).bind ?_
    rintro _ _ ⟨rfl, rfl⟩
    refine (Parse.Runs.yields (arrowParams_runs_openParen sound ready le opens)).bind ?_
    rintro _ after (⟨rfl, noArrow⟩ | ⟨params', rfl, run', -⟩)
    · exact absurd atArrow (noArrow params behind headRun)
    · have spans := (sound.arrowHead _ ready le).of_run run'
      refine (Parse.takes_expect after spans.ready le).bind fun _ body arrow => ?_
      refine (sound.arrowBody noIn body arrow.deeper (by omega)).bind fun found last _ => ?_
      rw [Parse.yields_spanFrom]
      exact .pure ⟨_, _, _, _, rfl⟩
  exact yields.of_run run

theorem TokenKind.eq_of_isPunct {kind : TokenKind} {punct : Punct}
    (isPunct : kind.isPunct punct = true) : kind = .punct punct := by
  cases kind with
  | punct found => exact congrArg TokenKind.punct (beq_iff_eq.mp isPunct)
  | _ => cases isPunct

/-- A punctuator stands where its token says. -/
theorem Ready.spelled {punct : Punct} (ready : Ready source bound state)
    (isPunct : state.token.kind = .punct punct) :
    ∃ before behind, source = before ++ punct.text.toList ++ behind ∧
      Text.size before = state.token.span.start ∧
        Text.size before + Text.size punct.text.toList = state.token.span.stop :=
  ready.stands.spelled punct.text (by rw [isPunct]; rfl)

/-- What is left behind a later token was left behind an earlier one. -/
theorem Follows.suffix (follows : Follows source bound state next)
    (ready : Ready source bound state) : next.cursor.rest <:+ state.cursor.rest := by
  obtain ⟨passed, whole, -⟩ := ready.place.cursor
  obtain ⟨passed', whole', -⟩ := follows.ready.place.cursor
  exact List.suffix_of_suffix_length_le ⟨passed', whole'.symm⟩ ⟨passed, whole.symm⟩ follows.rest

/-- Behind a parenthesis that begins a head an arrow is written. -/
theorem BeginsArrow.isInfix (head : BeginsArrow state) (ready : Ready source bound state)
    (opens : state.token.kind = .punct .openParen) :
    Punct.arrow.text.toList <:+: state.cursor.rest := by
  obtain ⟨params, next, reads, isArrow, -⟩ := head
  have consumes : Consumes source bound state next :=
    (reads.holds grows_arrowHead fun depth (le : bound ≤ depth) =>
      (Rules.sound_ofDepth depth).arrowHead state ready le).consumes
  obtain ⟨before, behind, whole, starts, -⟩ := consumes.ready.spelled (TokenKind.eq_of_isPunct isArrow)
  obtain ⟨_, _, _, opensAt, closesAt⟩ := ready.spelled opens
  obtain ⟨passed, whole', bytes⟩ := ready.place.cursor
  have further : Text.size passed ≤ Text.size before := by
    have := consumes.moved
    have := consumes.ready.behind
    have := ready.ends
    have one : Text.size Punct.openParen.text.toList = 1 := by decide
    omega
  rw [whole', List.append_assoc] at whole
  obtain ⟨between, -, rest⟩ := Text.exists_append_of_size_le whole further
  exact ⟨between, behind, by rw [rest, List.append_assoc]⟩

/-! ## Assignments that begin with a parenthesis -/

/-- Behind an opening parenthesis that begins no head, a conditional is an assignment, if no
assignment operator follows. -/
theorem Reads.assignmentExpr_of_conditional (ready : Ready source bound state)
    (opens : state.token.kind = .punct .openParen) (noHead : ¬ BeginsArrow state)
    (reads : Reads (fun rules => rules.conditionalExpr noIn) state value next)
    (ends : Rules.assignOp? next.token.kind = none) :
    Reads (fun rules => rules.assignmentExpr noIn) state value next := by
  apply Reads.of_runs
  have noArrow : Reads (fun rules => rules.arrow? noIn) state none state :=
    .arrow?_none ready opens noHead
  filter_upwards [noArrow.runs grows_arrow?, reads.runs grows_conditionalExpr] with depth arrow runs
  have noYield : state.token.kind.isWord "yield" = false := by
    rw [opens]
    rfl
  unfold Rules.assignmentExpr
  refine arrow.bind ?_
  rintro _ _ ⟨rfl, rfl⟩
  simp only [Parse.runs_here, Parse.runs_get, Parse.runs_atWord?, noYield, Bool.and_false]
  refine runs.bind ?_
  rintro _ _ ⟨rfl, rfl⟩
  rw [Parse.runs_kind, ends]
  exact .pure ⟨rfl, rfl⟩

/-- Behind an opening parenthesis that begins a head, an assignment is an arrow function. -/
theorem Reads.isArrow_of_assignmentExpr (ready : Ready source bound state)
    (opens : state.token.kind = .punct .openParen) (head : BeginsArrow state)
    (reads : Reads (fun rules => rules.assignmentExpr noIn) state value next) :
    ∃ span params body isAsync, value = .arrow span params body isAsync := by
  obtain ⟨depth, run⟩ := reads
  obtain ⟨⟨answer, after⟩, arrowRun, run⟩ := bind_eq_ok run
  obtain ⟨span, params, body, isAsync, rfl⟩ := Reads.arrow?_some ready opens head ⟨depth, arrowRun⟩
  cases run
  exact ⟨span, params, body, isAsync, rfl⟩

/-! ## Expressions in parentheses -/

/-- An expression stands in parentheses here, up to what is behind them. -/
structure Enclosed (state : ParseState) (inner : Expr) (next : ParseState) : Prop where
  opens : state.token.kind = .punct .openParen
  reads : ∃ inside close, pass state = .ok ((), inside) ∧
    Reads (fun rules => rules.expression false) inside inner close ∧
      close.token.kind.isPunct .closeParen = true ∧ pass close = .ok ((), next)

/-- The expression with its parentheses. -/
def enclosedExpr (state : ParseState) (inner : Expr) (next : ParseState) : Expr :=
  .paren ⟨state.token.span.start, next.lastEnd⟩ inner

theorem pass_runs_of (passes : pass state = .ok ((), next)) :
    Runs pass state fun _ after => after = next :=
  ⟨(), next, passes, rfl⟩

/-- A punctuator that is there is passed over. -/
theorem expect_runs_of {punct : Punct} (here : state.token.kind.isPunct punct = true)
    (passes : pass state = .ok ((), next)) :
    Runs (Parse.expect punct) state fun _ after => after = next := by
  unfold Parse.expect
  rw [Parse.runs_at?, if_pos here]
  obtain ⟨⟨passed, after⟩, run, same⟩ := bind_eq_ok passes
  obtain rfl : after = next := congrArg Prod.snd (Except.ok.inj same)
  have advanced : Runs Parse.advance state fun _ behind => behind = after := ⟨passed, _, run, rfl⟩
  exact advanced.bind fun _ _ same => .pure same

/-- Behind the parentheses only what ends an operand stands. -/
theorem Enclosed.readAt (enclosed : Enclosed state inner next)
    (ends : Rules.endsTerm next.token.kind = true) :
    Operand.ReadAt ⟨enclosedExpr state inner next, state.token.span.start, next.lastEnd⟩
      state next := by
  refine ⟨.of_runs ?_, rfl, rfl⟩
  obtain ⟨opens, inside, close, opening, reads, closes, closing⟩ := enclosed
  filter_upwards [reads.runs grows_expression] with depth expression
  have primary : Runs (Rules.ofDepth depth).primary state fun value after =>
      value = enclosedExpr state inner next ∧ after = next := by
    unfold Rules.primary
    rw [Parse.runs_token]
    simp only [opens]
    refine (pass_runs_of opening).bind ?_
    rintro _ _ rfl
    refine expression.bind ?_
    rintro _ _ ⟨rfl, rfl⟩
    refine (expect_runs_of closes closing).bind ?_
    rintro _ _ rfl
    rw [Parse.runs_spanFrom]
    exact .pure ⟨rfl, rfl⟩
  have chain : Runs (Rules.ofDepth depth).accessChain state fun value after =>
      value = enclosedExpr state inner next ∧ after = next := by
    unfold Rules.accessChain
    simp only [Parse.runs_here, Parse.runs_atWord?, opens]
    refine primary.bind ?_
    rintro _ _ ⟨rfl, rfl⟩
    apply Parse.repeating_once
    refine (Rules.chainStep_ends ends).bind ?_
    rintro _ _ ⟨rfl, rfl⟩
    exact .pure ⟨_, rfl, rfl, rfl⟩
  unfold Rules.unaryExpr
  simp only [Parse.runs_token, opens]
  change Runs (Rules.ofDepth depth).postfixExpr state _
  unfold Rules.postfixExpr
  rw [Parse.runs_here]
  refine chain.bind ?_
  rintro _ after ⟨rfl, rfl⟩
  obtain ⟨punct, isPunct, member⟩ := Rules.cases_of_endsTerm ends
  have noUpdate : punct.update? = none := by
    revert member
    cases punct <;> decide
  rw [Parse.runs_token]
  simp only [isPunct, noUpdate]
  exact .pure ⟨rfl, rfl⟩

/-- What is in parentheses was read behind the first of them. -/
theorem Enclosed.consumes (enclosed : Enclosed state inner next)
    (ends : Rules.endsTerm next.token.kind = true) (ready : Ready source bound state) :
    Consumes source bound state next :=
  (enclosed.readAt ends).consumes ready

/-- Parentheses with no operator behind them are a chain of operators. -/
theorem Enclosed.reads_binaryExpr (enclosed : Enclosed state inner next)
    (ready : Ready source bound state) (ends : Rules.endsTerm next.token.kind = true)
    (stops : Rules.infixOf? noIn next.token = none) :
    Reads (fun rules => rules.binaryExpr 1 noIn) state (enclosedExpr state inner next) next := by
  obtain ⟨grouping, only, reads⟩ :=
    binaryExpr_reads_ranked ready (enclosed.readAt ends) (.ends stops)
  obtain rfl := (only (.operand _)).mp ⟨trivial, rfl, rfl⟩
  exact reads

/-- Parentheses in front of a colon are a conditional without branches. -/
theorem Enclosed.reads_conditionalExpr (enclosed : Enclosed state inner next)
    (ready : Ready source bound state) (isColon : next.token.kind = .punct .colon) :
    Reads (fun rules => rules.conditionalExpr noIn) state (enclosedExpr state inner next) next := by
  have ends : Rules.endsTerm next.token.kind = true := by
    rw [isColon]
    rfl
  have stops : Rules.infixOf? noIn next.token = none := by
    simp [Rules.infixOf?, isColon, Punct.binary?]
  have binary := enclosed.reads_binaryExpr ready ends stops
  apply Reads.of_runs
  filter_upwards [binary.runs grows_binaryExpr] with depth runs
  have noQuestion : next.token.kind.isPunct .question = false := by
    rw [isColon]
    rfl
  unfold Rules.conditionalExpr
  rw [Parse.runs_here]
  refine runs.bind ?_
  rintro _ _ ⟨rfl, rfl⟩
  refine (Parse.eat_other noQuestion).bind ?_
  rintro _ _ ⟨rfl, rfl⟩
  exact .pure ⟨rfl, rfl⟩

/-! ## Conditionals -/

/-- `(test) ? (consequent) : alternative` stands here, up to what is behind it. -/
structure Choice (noIn : Bool) (state last : ParseState) where
  test : Expr
  consequent : Expr
  alternative : Expr
  atQuestion : ParseState
  branch : ParseState
  atColon : ParseState
  other : ParseState
  testEnclosed : Enclosed state test atQuestion
  isQuestion : atQuestion.token.kind = .punct .question
  passQuestion : pass atQuestion = .ok ((), branch)
  consequentEnclosed : Enclosed branch consequent atColon
  isColon : atColon.token.kind = .punct .colon
  passColon : pass atColon = .ok ((), other)
  alternativeReads : Reads (fun rules => rules.assignmentExpr noIn) other alternative last

namespace Choice

/-- The conditional. -/
def expr (choice : Choice noIn state last) : Expr :=
  .conditional ⟨state.token.span.start, last.lastEnd⟩
    (enclosedExpr state choice.test choice.atQuestion)
    (enclosedExpr choice.branch choice.consequent choice.atColon) choice.alternative

/-- The consequent begins behind the test. -/
theorem consumes (choice : Choice noIn state last) (ready : Ready source bound state) :
    Consumes source bound state choice.branch := by
  have test := choice.testEnclosed.consumes (by rw [choice.isQuestion]; rfl) ready
  have goesOn : choice.atQuestion.token.kind.isEnd = false := by
    rw [choice.isQuestion]
    rfl
  exact test.trans (pass_consumes test.ready goesOn choice.passQuestion).follows

theorem test_reads (choice : Choice noIn state last) (ready : Ready source bound state) :
    Reads (fun rules => rules.binaryExpr 1 noIn) state
      (enclosedExpr state choice.test choice.atQuestion) choice.atQuestion :=
  choice.testEnclosed.reads_binaryExpr ready (by rw [choice.isQuestion]; rfl)
    (by simp [Rules.infixOf?, choice.isQuestion, Punct.binary?])

theorem eat_question (choice : Choice noIn state last) :
    Parse.eat .question choice.atQuestion = .ok (true, choice.branch) := by
  have here : choice.atQuestion.token.kind.isPunct .question = true := by
    rw [choice.isQuestion]
    rfl
  have eats : Runs (Parse.eat .question) choice.atQuestion fun eaten after =>
      eaten = true ∧ after = choice.branch := by
    unfold Parse.eat
    rw [Parse.runs_at?, if_pos here]
    exact (pass_runs_of choice.passQuestion).bind fun _ _ same => .pure ⟨rfl, same⟩
  obtain ⟨_, _, run, rfl, rfl⟩ := eats
  exact run

/-- Where the consequent begins no head, the conditional is read. -/
theorem reads_conditionalExpr (choice : Choice noIn state last) (ready : Ready source bound state)
    (noHead : ¬ BeginsArrow choice.branch) :
    Reads (fun rules => rules.conditionalExpr noIn) state choice.expr last := by
  have branchReady := (choice.consumes ready).ready
  have consequent : Reads (fun rules => rules.assignmentExpr false) choice.branch
      (enclosedExpr choice.branch choice.consequent choice.atColon) choice.atColon := by
    refine .assignmentExpr_of_conditional branchReady choice.consequentEnclosed.opens noHead
      (choice.consequentEnclosed.reads_conditionalExpr branchReady choice.isColon) ?_
    rw [choice.isColon]
    rfl
  have called {noIn : Bool} {value : Expr} {state next : ParseState}
      (reads : Reads (fun rules => rules.assignmentExpr noIn) state value next) :
      Reads (fun rules => rules.assignment noIn) state value next := reads.called fun _ => rfl
  apply Reads.of_runs
  filter_upwards [(choice.test_reads ready).runs grows_binaryExpr,
    (called consequent).runs grows_assignment,
    (called choice.alternativeReads).runs grows_assignment] with depth test consequent alternative
  unfold Rules.conditionalExpr
  rw [Parse.runs_here]
  refine test.bind ?_
  rintro _ _ ⟨rfl, rfl⟩
  have eats : Runs (Parse.eat .question) choice.atQuestion fun eaten after =>
      eaten = true ∧ after = choice.branch := ⟨_, _, choice.eat_question, rfl, rfl⟩
  refine eats.bind ?_
  rintro _ _ ⟨rfl, rfl⟩
  rw [if_pos rfl]
  refine consequent.bind ?_
  rintro _ _ ⟨rfl, rfl⟩
  refine (expect_runs_of (by rw [choice.isColon]; rfl) choice.passColon).bind ?_
  rintro _ _ rfl
  refine alternative.bind ?_
  rintro _ _ ⟨rfl, rfl⟩
  rw [Parse.runs_spanFrom]
  exact .pure ⟨rfl, rfl⟩

/-- Where the consequent begins a head, the conditional is not read. -/
theorem not_reads_conditionalExpr (choice : Choice noIn state last)
    (ready : Ready source bound state) (head : BeginsArrow choice.branch) :
    ¬ Reads (fun rules => rules.conditionalExpr noIn) state choice.expr last := by
  intro reads
  obtain ⟨depth, ⟨run, test⟩, deep⟩ := (((reads.eventually grows_conditionalExpr).and
    ((choice.test_reads ready).eventually grows_binaryExpr)).and (eventually_ge_atTop 1)).exists
  obtain ⟨depth, rfl⟩ : ∃ less, depth = less + 1 := ⟨depth - 1, by omega⟩
  unfold Rules.conditionalExpr at run
  obtain ⟨_, _, hereRun, run⟩ := Parse.bind_ran run
  cases hereRun
  obtain ⟨_, _, testRun, run⟩ := Parse.bind_ran run
  obtain ⟨rfl, rfl⟩ := Prod.mk.inj (Except.ok.inj (test.symm.trans testRun))
  obtain ⟨_, _, eatRun, run⟩ := Parse.bind_ran run
  obtain ⟨rfl, rfl⟩ := Prod.mk.inj (Except.ok.inj (choice.eat_question.symm.trans eatRun))
  obtain ⟨consequent, _, consequentRun, run⟩ := Parse.bind_ran run
  obtain ⟨_, _, _, run⟩ := Parse.bind_ran run
  obtain ⟨_, _, _, run⟩ := Parse.bind_ran run
  obtain ⟨span, params, body, isAsync, rfl⟩ := Reads.isArrow_of_assignmentExpr
    (choice.consumes ready).ready choice.consequentEnclosed.opens head ⟨depth, consequentRun⟩
  obtain ⟨-, -, isParen, -⟩ := Node.conditional.inj (congrArg Prod.fst (Except.ok.inj run))
  cases isParen

/-- The conditional is read exactly where its consequent is not the head of an arrow function. -/
theorem reads_conditionalExpr_iff (choice : Choice noIn state last)
    (ready : Ready source bound state) :
    Reads (fun rules => rules.conditionalExpr noIn) state choice.expr last ↔
      ¬ BeginsArrow choice.branch :=
  ⟨fun reads head => choice.not_reads_conditionalExpr ready head reads,
    choice.reads_conditionalExpr ready⟩

/-- A conditional with parenthesised branches is read as one wherever no arrow is written behind
its first parenthesis. -/
theorem reads_assignmentExpr (choice : Choice noIn state last) (ready : Ready source bound state)
    (noArrow : ¬ Punct.arrow.text.toList <:+: state.cursor.rest)
    (ends : Rules.assignOp? last.token.kind = none) :
    Reads (fun rules => rules.assignmentExpr noIn) state choice.expr last := by
  have opens := choice.testEnclosed.opens
  have consumes := choice.consumes ready
  have noHead : ¬ BeginsArrow choice.branch := fun head =>
    noArrow ((head.isInfix consumes.ready choice.consequentEnclosed.opens).trans
      (consumes.follows.suffix ready).isInfix)
  exact .assignmentExpr_of_conditional ready opens (fun head => noArrow (head.isInfix ready opens))
    (choice.reads_conditionalExpr ready noHead) ends

end Choice

end StopMotion.Syntax
