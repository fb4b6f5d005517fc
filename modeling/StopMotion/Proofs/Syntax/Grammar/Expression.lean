import StopMotion.Proofs.Syntax.Grammar.Jsx
import StopMotion.Syntax.Grammar.Expression

/-!
# Layout of expressions

An expression that grows by an access or an operator keeps the place where it began, so its
first token is given together with what was read since.
-/

namespace StopMotion.Syntax

variable {source : List Char} {limit bound : Nat} {first state : ParseState}

namespace Rules

open Parse

/-! ## Modifiers and literals -/

theorem skips_entryModifier : Skips source limit entryModifier := by
  intro bound state ready le
  unfold entryModifier
  rw [yields_kind]
  split
  · exact .pure ready.follows
  · rename_i word is
    split
    · refine yields_peek ready.place fun token => ?_
      split
      · exact .pure ready.follows
      · exact (pass_yields ready (goesOn_of_word?_eq is)).bind fun _ _ passed =>
          .pure passed.follows
    · exact .pure ready.follows

end Rules

namespace Rules.Sound

open Parse

variable {rules : Rules}

/-- An argument is laid, as a spread or not. -/
theorem spreadable (sound : rules.Sound source limit) :
    Lays source (limit - 1) Node.plan rules.spreadable := by
  intro bound state ready le
  unfold Rules.spreadable
  rw [yields_here]
  refine (eat_yields ready).bind fun eaten inside held => ?_
  rcases held with ⟨rfl, rfl⟩ | ⟨rfl, dots⟩
  · exact sound.assignment false inside ready (by omega)
  · refine (sound.assignment false inside dots.ready (by omega)).bind fun operand next spans => ?_
    rw [yields_spanFrom]
    exact .pure ((dots.toConsumes.parts_of spans.covers).expr ready)

/-- Arguments are laid. -/
theorem arguments (sound : rules.Sound source limit) :
    Lays source limit (Plan.all Node.plan) rules.arguments := by
  intro bound state ready le
  refine (takes_expect state ready (Nat.le_refl _)).bind fun _ inside opened => ?_
  exact (commaList_yields opened.deeper sound.spreadable (by omega)).mono fun _ _ spans =>
    opened.follows.spans_of spans

/-- The elements of an array literal are laid in its brackets. -/
theorem array_yields (sound : rules.Sound source limit) (ready : Ready source bound state)
    (le : bound ≤ limit) :
    Yields rules.array state fun items next =>
      Parts source bound state (.all (.option Node.plan) items) next := by
  refine (takes_expect state ready (Nat.le_refl _)).bind fun _ inside opened => ?_
  have item : Lays source (limit - 1) Node.plan (do
      if ← atEnd? then
        unexpected (.punct .closeBracket)
      else
        rules.spreadable) := by
    intro bound state ready le
    rw [yields_atEnd?]
    split
    · exact yields_unexpected
    · exact sound.spreadable state ready (by omega)
  exact (elements_yields opened.deeper item (by omega)).mono fun _ _ spans =>
    opened.parts_of spans.covers

/-- An entry of an object literal is laid. -/
theorem entry (sound : rules.Sound source limit) : Lays source limit Node.plan rules.entry := by
  intro bound state ready le
  unfold Rules.entry
  rw [yields_here, yields_atEnd?]
  split
  · exact yields_unexpected
  · refine (eat_yields ready).bind fun eaten inside held => ?_
    rcases held with ⟨rfl, rfl⟩ | ⟨rfl, dots⟩
    · simp only [Bool.false_eq_true, if_false]
      refine (skips_entryModifier inside ready (Nat.le_refl _)).bind fun isAsync next modified => ?_
      refine (skips_eat next modified.ready (Nat.le_refl _)).bind fun isGenerator atKey star => ?_
      have toKey := modified.trans star
      refine (sound.key_yields toKey.ready le).bind fun key behind held => ?_
      obtain ⟨keySpans, plain⟩ := held
      have fromStart := toKey.spans_of keySpans
      rw [yields_atOneOf?]
      split
      · refine (sound.functionRest_yields ready fromStart.covers le).bind fun value last parts => ?_
        rw [yields_spanFrom]
        exact .pure (parts.toSpans.one ready rfl)
      · refine (eat_yields keySpans.ready).bind fun eaten afterColon held => ?_
        rcases held with ⟨rfl, rfl⟩ | ⟨rfl, colon⟩
        · simp only [Bool.false_eq_true, if_false]
          split
          · rename_i found
            obtain ⟨span, passed⟩ := plain found rfl
            refine (eat_yields passed.ready).bind fun eaten afterAssign held => ?_
            rcases held with ⟨rfl, rfl⟩ | ⟨rfl, assign⟩
            · simp only [Bool.false_eq_true, if_false]
              rw [yields_spanFrom]
              have named : Spans source bound atKey (.one .expr atKey.token.span .nil) _ :=
                passed.spans_token toKey.ready rfl
              rw [← span] at named
              exact .pure ((toKey.spans_of named).one ready rfl)
            · refine (sound.assignment false afterAssign assign.deeper (by omega)).bind
                fun value last spans => ?_
              rw [yields_spanFrom]
              have named : Spans source bound atKey (.one .pattern atKey.token.span .nil) _ :=
                passed.spans_token toKey.ready rfl
              rw [← span] at named
              have parts := (toKey.spans_of named).join_spans assign.follows spans
              have value : Spans source bound _ (.one .expr _ _) _ := parts.expr ready
              have onwards := (assign.follows.trans spans.follows).lastEnd
              -- The key stands at the place of the pattern.
              have keyed : Spans source bound _ (.key found.span _) _ :=
                ⟨value.consumes, fromStart.laid.beside_key value.laid onwards⟩
              exact .pure (keyed.one ready rfl)
          · exact yields_unexpected
        · refine (sound.assignment false afterColon colon.deeper (by omega)).bind
              fun value last spans => ?_
          rw [yields_spanFrom]
          exact .pure ((fromStart.join colon.follows spans.covers).one ready rfl)
    · refine (sound.assignment false inside dots.deeper (by omega)).bind
          fun operand next spans => ?_
      rw [yields_spanFrom]
      exact .pure ((dots.follows.spans_of spans).one ready rfl)

/-- The entries of an object literal are laid in its braces. -/
theorem object_yields (sound : rules.Sound source limit) (ready : Ready source bound state)
    (le : bound ≤ limit) :
    Yields rules.object state fun entries next =>
      Parts source bound state (.all Node.plan entries) next := by
  refine (takes_expect state ready (Nat.le_refl _)).bind fun _ inside opened => ?_
  exact (commaList_yields opened.ready sound.entry le).mono fun _ _ spans =>
    opened.parts_of spans.covers

/-! ## Primary expressions -/

/-- An expression that begins with a word is laid. -/
theorem wordExpr_yields (sound : rules.Sound source limit) {word : String}
    (ready : Ready source bound state) (is : state.token.kind = .word word) (le : bound ≤ limit) :
    Yields (rules.wordExpr state.token.span.start word) state fun value next =>
      Spans source bound state value.plan next := by
  have goesOn : state.token.kind.isEnd = false := goesOn_of_eq is rfl
  have passing : Yields pass state fun _ next => Passes source bound state next :=
    pass_yields ready goesOn
  have alone (next : ParseState) (passed : Passes source bound state next) :
      Spans source bound state (.one .expr ⟨state.token.span.start, next.lastEnd⟩ .nil) next :=
    passed.toConsumes.parts.expr ready
  unfold Rules.wordExpr
  split
  · refine (sound.function_yields ready ready.follows le).bind fun value next parts => ?_
    rw [yields_spanFrom]
    exact .pure (parts.expr ready)
  · refine (sound.classDef_yields ready le).bind fun value next parts => ?_
    rw [yields_spanFrom]
    exact .pure (parts.expr ready)
  · exact passing.bind fun _ next passed => .pure (alone next passed)
  · exact passing.bind fun _ next passed => .pure (alone next passed)
  · exact passing.bind fun _ next passed => .pure (alone next passed)
  · exact passing.bind fun _ next passed => .pure (alone next passed)
  · exact passing.bind fun _ next passed => .pure (alone next passed)
  · refine passing.bind fun _ next passed => ?_
    refine (eat_yields passed.ready).bind fun eaten inside held => ?_
    rcases held with ⟨rfl, rfl⟩ | ⟨rfl, dot⟩
    · exact .pure (alone inside passed)
    · refine (takes_anyName inside dot.ready (Nat.le_refl _)).bind fun _ last named => ?_
      have whole := passed.toConsumes.trans (dot.follows.trans named.follows)
      exact .pure (whole.parts.expr ready)
  · exact sound.construction state ready (by omega)
  · have named : Yields (do
        if isReserved word then
          fail (← token).span (.unexpectedKeyword word)
        else
          let found ← anyName
          return Node.name (← spanFrom state.token.span.start) found) state fun value next =>
        Spans source bound state value.plan next := by
      split
      · rw [yields_token]
        exact yields_fail rfl
      · refine (anyName_yields ready).bind fun found next held => ?_
        exact .pure (alone next held.2)
    by_cases isAsync : word = "async"
    · rw [if_pos isAsync]
      refine yields_peek ready.place fun token => ?_
      split
      · refine passing.bind fun _ next passed => ?_
        refine (sound.function_yields ready passed.follows le).bind fun value last parts => ?_
        rw [yields_spanFrom]
        exact .pure (parts.expr ready)
      · exact named
    · rw [if_neg isAsync]
      exact named

/-- A primary expression is laid. -/
theorem primary (sound : rules.Sound source limit) :
    Lays source limit Node.plan rules.primary := by
  intro bound state ready le
  unfold Rules.primary
  rw [yields_token]
  have pass {kind : TokenKind} (is : state.token.kind = kind) (goesOn : kind.isEnd = false) :=
    pass_yields ready (goesOn_of_eq is goesOn)
  have alone (next : ParseState) (passed : Passes source bound state next) :
      Spans source bound state (.one .expr ⟨state.token.span.start, next.lastEnd⟩ .nil) next :=
    passed.toConsumes.parts.expr ready
  dsimp only
  split
  · rename_i word is
    exact sound.wordExpr_yields ready is le
  · rename_i value is
    exact (pass is rfl).bind fun _ next passed => .pure (alone next passed)
  · rename_i value is
    exact (pass is rfl).bind fun _ next passed => .pure (alone next passed)
  · rename_i is
    exact (pass is rfl).bind fun _ next passed => .pure (alone next passed)
  · refine (sound.template_yields ready le).bind fun answer next parts => ?_
    simp only [← Node.plan_ofList] at parts
    exact .pure (parts.expr ready)
  · rename_i is
    refine (pass is rfl).bind fun _ inside opened => ?_
    refine (sound.expression false inside opened.deeper (by omega)).bind fun inner close spans => ?_
    refine (takes_expect close spans.ready (Nat.le_refl _)).bind fun _ next closed => ?_
    rw [yields_spanFrom]
    exact .pure ((opened.toConsumes.parts_of (spans.trans closed.follows).covers).expr ready)
  · refine (sound.array_yields ready le).bind fun items next parts => ?_
    rw [← plan_optionalNodes] at parts
    rw [yields_spanFrom]
    exact .pure (parts.expr ready)
  · refine (sound.object_yields ready le).bind fun entries next parts => ?_
    rw [← Node.plan_ofList] at parts
    rw [yields_spanFrom]
    exact .pure (parts.expr ready)
  · rename_i is
    exact sound.jsxExpr_yields ready (goesOn_of_eq is rfl) le
  · exact yields_fail rfl
  · exact yields_unexpected

end Rules.Sound

/-! ## Member accesses and calls -/

namespace Rules

open Parse

theorem memberAccess_yields {owner : Expr} {isOptional : Bool} (ready : Ready source bound first)
    (spans : Spans source bound first owner.plan state) :
    Yields (memberAccess first.token.span.start owner isOptional) state fun value next =>
      Spans source bound first value.plan next ∧ Consumes source bound state next := by
  refine (takes_anyName state spans.ready (Nat.le_refl _)).bind fun property next named => ?_
  rw [yields_spanFrom]
  have whole : Spans source bound first (.one .expr _ _) next := (spans.passes named).expr ready
  split
  · exact .pure ⟨whole, named⟩
  · exact .pure ⟨whole, named⟩

end Rules

namespace Rules.Sound

open Parse

variable {rules : Rules}

theorem indexAccess_yields (sound : rules.Sound source limit) {owner : Expr} {isOptional : Bool}
    {inside : ParseState} (ready : Ready source bound first)
    (spans : Spans source bound first owner.plan state)
    (opened : Consumes source bound state inside)
    (le : bound ≤ limit) :
    Yields (rules.indexAccess first.token.span.start owner isOptional) inside fun value next =>
      Spans source bound first value.plan next ∧ Consumes source bound state next := by
  refine (sound.expression false inside opened.deeper (by omega)).bind
      fun property close propertySpans => ?_
  refine (takes_expect close propertySpans.ready (Nat.le_refl _)).bind fun _ next closed => ?_
  rw [yields_spanFrom]
  have closedSpans := propertySpans.trans closed.follows
  exact .pure ⟨(spans.join_spans opened.follows closedSpans).expr ready,
    opened.trans closedSpans.follows⟩

theorem eatTypeArguments_yields (sound : rules.Sound source limit)
    (ready : Ready source bound state) (le : bound ≤ limit) :
    Yields rules.eatTypeArguments state fun eaten next =>
      (eaten = false ∧ next = state) ∨ (eaten = true ∧ Consumes source bound state next) := by
  have takes : Yields (do
      rules.skipAngles
      let next ← kind
      return if next.isPunct .openParen || next.isTemplate then some () else none) state
      fun answer next => ∀ value, answer = some value → Consumes source bound state next := by
    refine (sound.skipAngles state ready (by omega)).bind fun _ next skipped => ?_
    rw [yields_kind]
    split <;> exact .pure fun _ _ => skipped
  refine (speculate_yields takes).bind fun passed next held => ?_
  rcases held with ⟨rfl, rfl⟩ | ⟨_, rfl, consumes⟩
  · exact .pure (.inl ⟨rfl, rfl⟩)
  · exact .pure (.inr ⟨rfl, consumes⟩)

/-- An expression that goes on is laid with what it goes on with, which is a token at least. -/
theorem chainStep_yields (sound : rules.Sound source limit) {soFar : Expr}
    (ready : Ready source bound first) (spans : Spans source bound first soFar.plan state)
    (le : bound ≤ limit) :
    Yields (rules.chainStep first.token.span.start soFar) state fun answer next =>
      Spans source bound first (answer.getD soFar).plan next ∧
        (answer.isSome = true → Consumes source bound state next) := by
  unfold Rules.chainStep
  rw [yields_token]
  have pass {kind : TokenKind} (is : state.token.kind = kind) (goesOn : kind.isEnd = false) :=
    pass_yields spans.ready (goesOn_of_eq is goesOn)
  have call (isOptional : Bool) (opening : ParseState)
      (onwards : Follows source bound state opening) :
      Yields (do
          let arguments ← rules.arguments
          return some (Node.call (← spanFrom first.token.span.start) soFar (.ofList arguments)
            isOptional)) opening fun answer next =>
        Spans source bound first (answer.getD soFar).plan next ∧
          (answer.isSome = true → Consumes source bound state next) := by
    refine (sound.arguments opening onwards.ready (by omega)).bind
        fun items next argumentSpans => ?_
    rw [← Node.plan_ofList] at argumentSpans
    rw [yields_spanFrom]
    exact .pure ⟨(spans.join_spans onwards argumentSpans).expr ready,
      fun _ => onwards.consumes argumentSpans.consumes⟩
  have access (isOptional : Bool) (next : ParseState) (onwards : Follows source bound state next) :
      Yields (do return some (← memberAccess first.token.span.start soFar isOptional)) next
        fun answer next => Spans source bound first (answer.getD soFar).plan next ∧
          (answer.isSome = true → Consumes source bound state next) :=
    (memberAccess_yields ready (spans.trans onwards)).bind fun _ _ held =>
      .pure ⟨held.1, fun _ => onwards.consumes held.2⟩
  have index (isOptional : Bool) (next : ParseState) (opened : Consumes source bound state next) :
      Yields (do return some (← rules.indexAccess first.token.span.start soFar isOptional)) next
        fun answer next => Spans source bound first (answer.getD soFar).plan next ∧
          (answer.isSome = true → Consumes source bound state next) :=
    (sound.indexAccess_yields ready spans opened le).bind fun _ _ held =>
      .pure ⟨held.1, fun _ => held.2⟩
  have ended : Yields (pure none : Parse (Option Expr)) state fun answer next =>
      Spans source bound first (answer.getD soFar).plan next ∧
        (answer.isSome = true → Consumes source bound state next) :=
    .pure ⟨spans, by rintro ⟨⟩⟩
  dsimp only
  split
  · refine (sound.eatTypeArguments_yields spans.ready le).bind fun passed next held => ?_
    rcases held with ⟨rfl, rfl⟩ | ⟨rfl, consumes⟩
    · exact ended
    · exact .pure ⟨spans.trans consumes.follows, fun _ => consumes⟩
  · rename_i is
    exact (pass is rfl).bind fun _ next passed => access false next passed.follows
  · rename_i is
    refine (pass is rfl).bind fun _ next passed => ?_
    rw [yields_at?]
    split
    · exact call true next passed.follows
    · refine (eat_yields passed.ready).bind fun eaten inside held => ?_
      rcases held with ⟨rfl, rfl⟩ | ⟨rfl, opened⟩
      · exact access true inside passed.follows
      · exact index true inside (passed.toConsumes.trans opened.follows)
  · rename_i is
    exact (pass is rfl).bind fun _ next passed => index false next passed.toConsumes
  · exact call false state spans.ready.follows
  · refine (sound.template state spans.ready (by omega)).bind
        fun answer next substitutionSpans => ?_
    simp only [← Node.plan_ofList] at substitutionSpans
    simp only [yields_spanFrom]
    exact .pure ⟨(spans.join_spans spans.ready.follows substitutionSpans).expr ready,
      fun _ => substitutionSpans.consumes⟩
  · rename_i is
    rw [yields_get]
    split
    · refine (pass is rfl).bind fun _ next passed => ?_
      rw [yields_spanFrom]
      exact .pure ⟨(spans.passes passed.toConsumes).expr ready, fun _ => passed.toConsumes⟩
    · exact ended
  · exact ended

/-- The expression that an access chain begins with is laid. -/
theorem chainHead_yields (sound : rules.Sound source limit) {β : Type} {more : Expr → Parse β}
    {after : β → ParseState → Prop} (ready : Ready source bound state) (le : bound ≤ limit)
    (rest : ∀ value next, Spans source bound state value.plan next →
      Yields (more value) next after) :
    Yields (do
        let first ← if ← atWord? "new" then rules.construction else rules.primary
        more first) state after := by
  rw [yields_atWord?]
  split
  · exact (sound.construction state ready (by omega)).bind rest
  · exact (sound.primary state ready (by omega)).bind rest

/-- A primary expression with the accesses and calls behind it is laid. -/
theorem accessChain (sound : rules.Sound source limit) :
    Lays source limit Node.plan rules.accessChain := by
  intro bound state ready le
  unfold Rules.accessChain
  rw [yields_here]
  refine sound.chainHead_yields ready le fun head next spans => ?_
  refine repeating_yields (fun (soFar : Expr) next => Spans source bound state soFar.plan next)
    spans fun soFar next spans => ?_
  refine (sound.chainStep_yields ready spans le).bind fun answer last held => ?_
  obtain ⟨spans, consumes⟩ := held
  cases answer with
  | none => exact .pure spans
  | some longer => exact .pure ⟨spans, (consumes rfl).left_lt⟩

/-- The class of a construction is laid. -/
theorem constructed (sound : rules.Sound source limit) :
    Lays source limit Node.plan rules.constructed := by
  intro bound state ready le
  unfold Rules.constructed
  rw [yields_here]
  refine sound.chainHead_yields ready le fun head next spans => ?_
  refine repeating_yields (fun (soFar : Expr) next => Spans source bound state soFar.plan next)
    spans fun soFar next spans => ?_
  refine (eat_yields spans.ready).bind fun eaten inside held => ?_
  rcases held with ⟨rfl, rfl⟩ | ⟨rfl, dot⟩
  · simp only [Bool.false_eq_true, if_false]
    refine (eat_yields spans.ready).bind fun eaten inside held => ?_
    rcases held with ⟨rfl, rfl⟩ | ⟨rfl, opened⟩
    · exact .pure spans
    · exact (sound.indexAccess_yields ready spans opened.toConsumes le).bind fun _ _ held =>
        .pure ⟨held.1, held.2.left_lt⟩
  · exact (memberAccess_yields ready (spans.trans dot.follows)).bind fun _ _ held =>
      .pure ⟨held.1, (dot.follows.consumes held.2).left_lt⟩

/-- A construction is laid. -/
theorem newExpr (sound : rules.Sound source limit) :
    Lays source (limit + 1) Node.plan rules.newExpr := by
  intro bound state ready le
  refine (expectWord_yields ready).bind fun span inside held => ?_
  obtain ⟨rfl, keyword⟩ := held
  refine (eat_yields keyword.deeper).bind fun eaten next held => ?_
  rcases held with ⟨rfl, rfl⟩ | ⟨rfl, dot⟩
  · have arguments (callee : Expr) (last : ParseState)
        (spans : Spans source (bound - 3) next callee.plan last) :
        Yields (do
            let arguments ← if ← at? .openParen then rules.arguments else pure []
            return Node.newCall (← spanFrom state.token.span.start) callee (.ofList arguments)) last
          fun value next => Spans source bound state value.plan next := by
      rw [yields_at?]
      split
      · refine (sound.arguments last spans.ready (by omega)).bind fun items next argumentSpans => ?_
        rw [← Node.plan_ofList] at argumentSpans
        rw [yields_spanFrom]
        have parts := spans.join spans.ready.follows argumentSpans.covers
        exact .pure ((keyword.toConsumes.parts_of parts.covers).expr ready)
      · rw [yields_pure, yields_spanFrom]
        have parts := spans.join spans.ready.follows spans.ready.follows.covers
        exact .pure ((keyword.toConsumes.parts_of parts.covers).expr ready)
    refine (sound.constructed next keyword.deeper (by omega)).bind fun callee behind spans => ?_
    rw [yields_at?]
    split
    · refine (sound.eatTypeArguments_yields spans.ready (by omega)).bind fun _ last held => ?_
      rcases held with ⟨rfl, rfl⟩ | ⟨rfl, skipped⟩
      · exact arguments callee last spans
      · exact arguments callee last (spans.trans skipped.follows)
    · exact arguments callee behind spans
  · refine (takes_anyName next dot.ready (Nat.le_refl _)).bind fun _ last named => ?_
    have whole := keyword.toConsumes.trans (dot.follows.trans named.follows)
    exact .pure (whole.parts.expr ready)

/-! ## Operators -/

/-- A token that is read as something that the end is not is there. -/
theorem goesOn_of_eq_some {α : Type} {reads : TokenKind → Option α} {kind : TokenKind} {found : α}
    (atEnd : reads .endOfInput = none) (is : reads kind = some found) : kind.isEnd = false := by
  cases kind with
  | endOfInput =>
      rw [atEnd] at is
      cases is
  | _ => rfl

/-- An access chain is laid with the update behind it. -/
theorem postfixExpr (sound : rules.Sound source limit) :
    Lays source limit Node.plan rules.postfixExpr := by
  intro bound state ready le
  unfold Rules.postfixExpr
  rw [yields_here]
  refine (sound.accessChain state ready (by omega)).bind fun operand next spans => ?_
  rw [yields_token]
  split
  · rename_i punct is
    split
    · split
      · exact .pure spans
      · refine (pass_yields spans.ready (goesOn_of_eq is rfl)).bind fun _ last passed => ?_
        exact .pure ((spans.passes passed.toConsumes).expr ready)
    · exact .pure spans
  · exact .pure spans

theorem awaitsOperand_yields (ready : Ready source bound state) :
    Yields awaitsOperand state fun _ next => next = state :=
  yields_peek ready.place fun _ => .pure rfl

/-- An operand with the operators before it is laid. -/
theorem unaryExpr (sound : rules.Sound source limit) :
    Lays source limit Node.plan rules.unaryExpr := by
  intro bound state ready le
  unfold Rules.unaryExpr
  rw [yields_token]
  have operand {β : Type} {more : Expr → Parse β} {after : β → ParseState → Prop}
      (goesOn : state.token.kind.isEnd = false)
      (rest : ∀ value next, Parts source bound state value.plan next →
        Yields (more value) next after) :
      Yields (do
        pass
        let operand ← rules.unary
        more operand) state after := by
    refine (pass_yields ready goesOn).bind fun _ inside passed => ?_
    exact (sound.unary inside passed.deeper (by omega)).bind fun value next spans =>
      rest value next (passed.toConsumes.parts_of spans.covers)
  dsimp only
  split
  · rename_i isUnary
    exact operand (goesOn_of_eq_some rfl isUnary) fun _ next parts => .pure (parts.expr ready)
  · rename_i isUpdate
    exact operand (goesOn_of_eq_some rfl isUpdate) fun _ next parts => .pure (parts.expr ready)
  · split
    · rename_i isAwait
      refine (awaitsOperand_yields ready).bind fun answer next same => ?_
      subst same
      split
      · exact operand (goesOn_of_isWord isAwait) fun _ next parts => .pure (parts.expr ready)
      · exact sound.postfixExpr _ ready (by omega)
    · exact sound.postfixExpr state ready (by omega)

/-- Operands that go on are laid with the operator and the operand behind it. -/
theorem binaryStep_yields (sound : rules.Sound source limit) {least : Nat} {noIn : Bool}
    {left : Expr} (ready : Ready source bound first)
    (spans : Spans source bound first left.plan state) (le : bound ≤ limit) :
    Yields (rules.binaryStep first.token.span.start least noIn left) state fun answer next =>
      Spans source bound first (answer.getD left).plan next ∧
        (answer.isSome = true → Consumes source bound state next) := by
  unfold Rules.binaryStep
  rw [yields_token]
  have ended : Yields (pure none : Parse (Option Expr)) state fun answer next =>
      Spans source bound first (answer.getD left).plan next ∧
        (answer.isSome = true → Consumes source bound state next) :=
    .pure ⟨spans, by rintro ⟨⟩⟩
  split
  · exact ended
  · rename_i found isInfix
    split
    · exact ended
    · have goesOn : state.token.kind.isEnd = false := by
        cases kind : state.token.kind <;> first | rfl | simp [infixOf?, kind] at isInfix
      refine (pass_yields spans.ready goesOn).bind fun _ inside passed => ?_
      have onwards := passed.toConsumes
      split
      · refine (eatWord_yields passed.ready).bind fun eaten next held => ?_
        rcases held with ⟨rfl, rfl⟩ | ⟨rfl, word⟩
        · refine (sound.skipType next passed.ready (by omega)).bind fun _ last typed => ?_
          have asserted := onwards.trans typed
          rw [yields_spanFrom]
          exact .pure ⟨(spans.passes asserted).expr ready, fun _ => asserted⟩
        · have asserted := onwards.trans word.follows
          simp only [if_true, yields_spanFrom]
          exact .pure ⟨(spans.passes asserted).expr ready, fun _ => asserted⟩
      · rename_i op _
        refine (sound.binary op.rightPrecedence noIn inside passed.deeper (by omega)).bind
          fun right last rightSpans => ?_
        rw [yields_spanFrom]
        exact .pure ⟨(spans.join_spans onwards.follows rightSpans).expr ready,
          fun _ => onwards.trans rightSpans.follows⟩

/-- Operands joined by operators are laid. -/
theorem binaryExpr (sound : rules.Sound source limit) (least : Nat) (noIn : Bool) :
    Lays source limit Node.plan (rules.binaryExpr least noIn) := by
  intro bound state ready le
  unfold Rules.binaryExpr
  rw [yields_here]
  refine (sound.unaryExpr state ready (by omega)).bind fun head next spans => ?_
  refine repeating_yields (fun (left : Expr) next => Spans source bound state left.plan next)
    spans fun left next spans => ?_
  refine (sound.binaryStep_yields ready spans le).bind fun answer last held => ?_
  obtain ⟨spans, consumes⟩ := held
  cases answer with
  | none => exact .pure spans
  | some longer => exact .pure ⟨spans, (consumes rfl).left_lt⟩

/-- A conditional is laid. -/
theorem conditionalExpr (sound : rules.Sound source limit) (noIn : Bool) :
    Lays source limit Node.plan (rules.conditionalExpr noIn) := by
  intro bound state ready le
  unfold Rules.conditionalExpr
  rw [yields_here]
  refine (sound.binaryExpr 1 noIn state ready (by omega)).bind fun test next spans => ?_
  refine (eat_yields spans.ready).bind fun eaten inside held => ?_
  rcases held with ⟨rfl, rfl⟩ | ⟨rfl, question⟩
  · exact .pure spans
  · refine (sound.assignment false inside question.deeper (by omega)).bind
      fun consequent close consequentSpans => ?_
    refine (takes_expect close consequentSpans.ready (Nat.le_refl _)).bind fun _ behind colon => ?_
    refine (sound.assignment noIn behind colon.ready (by omega)).bind
        fun alternative last otherwise => ?_
    rw [yields_spanFrom]
    have parts := spans.join question.follows consequentSpans.covers
    exact .pure ((parts.join_spans colon.follows otherwise).expr ready)

/-! ## Arrow functions -/

theorem skips_eatArrowAsync : Skips source limit eatArrowAsync := by
  intro bound state ready le
  unfold eatArrowAsync
  rw [yields_atWord?]
  split
  · rename_i isAsync
    refine yields_peek ready.place fun token => ?_
    dsimp only
    split
    · exact (pass_yields ready (goesOn_of_isWord isAsync)).bind fun _ _ passed =>
        .pure passed.follows
    · exact .pure ready.follows
  · exact .pure ready.follows

theorem beginsTypeParams_yields (ready : Ready source bound state) :
    Yields beginsTypeParams state fun _ next => next = state := by
  have passing {state : ParseState} (place : state.In source) :
      Yields pass state fun _ next => next.In source :=
    (advance_settles place).bind fun _ _ held => .pure held.1
  refine foresee_yields (?_ : Yields _ state fun _ _ => True)
  refine (passing ready.place).bind fun _ next place => ?_
  rw [yields_atBinding?]
  split
  · exact (passing place).bind fun _ last _ => by
      simp only [yields_at?, yields_atWord?]
      exact .pure trivial
  · exact .pure trivial

/-- The parameters of an arrow function are laid, if there is one. -/
theorem arrowParams_yields (sound : rules.Sound source limit) (ready : Ready source bound state)
    (le : bound ≤ limit) :
    Yields rules.arrowParams state fun answer next => ∀ params, answer = some params →
      Spans source bound state (.all Node.plan params) next := by
  have none {next : ParseState} : Yields (pure none : Parse (Option (List Pattern))) next
      fun answer next => ∀ params, answer = some params →
        Spans source bound state (.all Node.plan params) next := .pure fun _ same => by cases same
  unfold Rules.arrowParams
  rw [yields_atBinding?]
  split
  · refine yields_peek ready.place fun token => ?_
    split
    · refine (bindingName_yields ready).bind fun found next held => ?_
      obtain ⟨span, passed⟩ := held
      refine .pure ?_
      rintro _ ⟨⟩
      have named : Spans source bound state (.one .pattern state.token.span .nil) next :=
        passed.spans_token ready rfl
      rw [← span] at named
      rw [Plan.all_singleton]
      exact named
    · exact none
  · simp only [yields_at?]
    split
    · rw [yields_at?]
      refine (beginsTypeParams_yields ready).bind fun answer next same => ?_
      subst same
      split
      · have head : Yields (do
            rules.skipTypeParams
            let params ← rules.params
            rules.skipAnnotation
            if (← at? .arrow) && !(← afterNewline?) then
              return some params
            else
              return Option.none) next fun answer last => ∀ params, answer = some params →
                Spans source bound next (.all Node.plan params) last := by
          refine (sound.skipTypeParams next ready (by omega)).bind fun _ inside generic => ?_
          refine (sound.params inside generic.ready (by omega)).bind fun params behind spans => ?_
          refine (sound.skipAnnotation behind spans.ready (by omega)).bind fun _ last typed => ?_
          simp only [yields_at?, yields_afterNewline?]
          split
          · refine .pure ?_
            rintro _ ⟨⟩
            exact (generic.spans_of spans).trans typed
          · exact .pure fun _ same => by cases same
        refine (speculate_yields head).mono fun answer last held => ?_
        rcases held with ⟨rfl, rfl⟩ | ⟨params, rfl, spans⟩
        · rintro _ ⟨⟩
        · rintro _ ⟨⟩
          exact spans
      · exact none
    · exact none

/-- The body of an arrow function is laid. -/
theorem arrowBody (sound : rules.Sound source limit) (noIn : Bool) :
    Lays source (limit - 1) Node.plan (rules.arrowBody noIn) := by
  intro bound state ready le
  unfold Rules.arrowBody
  rw [yields_at?]
  split
  · refine (lays_withGenerator sound.block state ready (by omega)).bind fun answer next spans => ?_
    obtain ⟨span, body⟩ := answer
    simp only [← Node.plan_ofList] at spans
    exact .pure spans
  · exact (sound.assignment noIn state ready (by omega)).bind fun value next spans => .pure spans

/-- An arrow function is laid, if one stands here. -/
theorem arrow?_yields (sound : rules.Sound source limit) (noIn : Bool)
    (ready : Ready source bound state) (le : bound ≤ limit) :
    Yields (rules.arrow? noIn) state fun answer next =>
      (answer = none ∧ next = state) ∨
        ∃ value, answer = some value ∧ Spans source bound state value.plan next := by
  unfold Rules.arrow?
  rw [yields_get, yields_here]
  refine (skips_eatArrowAsync state ready (Nat.le_refl _)).bind fun isAsync inside async => ?_
  refine (sound.arrowParams_yields async.ready le).bind fun answer behind held => ?_
  split
  · rw [yields_set]
    exact .pure (.inl ⟨rfl, rfl⟩)
  · rename_i params
    have spans := async.spans_of (held params rfl)
    refine (takes_expect behind spans.ready (Nat.le_refl _)).bind fun _ opening arrow => ?_
    refine (sound.arrowBody noIn opening arrow.deeper (by omega)).bind fun body last bodySpans => ?_
    rw [yields_spanFrom]
    rw [← Node.plan_ofList] at spans
    exact .pure (.inr ⟨_, rfl, (spans.join_spans arrow.follows bodySpans).expr ready⟩)

/-! ## Assignments -/

/-- A `yield` is laid with its operand. -/
theorem yieldExpr_yields (sound : rules.Sound source limit) (noIn : Bool)
    (ready : Ready source bound state) (goesOn : state.token.kind.isEnd = false)
    (le : bound ≤ limit) :
    Yields (rules.yieldExpr noIn) state fun value next =>
      Spans source bound state value.plan next := by
  unfold Rules.yieldExpr
  rw [yields_here]
  refine (pass_yields ready goesOn).bind fun _ inside passed => ?_
  rw [yields_token]
  have finish (operand : Option Expr) (last : ParseState)
      (covers : Covers source (bound - 3) inside (Plan.option Node.plan operand) last) :
      Yields (do return Node.yielded (← spanFrom state.token.span.start) (.ofOption operand)) last
        fun value next => Spans source bound state value.plan next := by
    rw [yields_spanFrom]
    rw [← Node.plan_ofOption] at covers
    exact .pure ((passed.toConsumes.parts_of covers).expr ready)
  dsimp only
  split
  · exact finish none inside passed.deeper.follows.covers
  · refine (skips_eat inside passed.deeper (Nat.le_refl _)).bind fun _ next star => ?_
    exact (sound.assignment noIn).bind_some star.ready (by omega) fun operand last covers =>
      finish operand last (star.covers_of covers)

/-- The target of an assignment is laid where its expression is. -/
theorem targetOf_yields {op : AssignOp} {left : Expr} :
    Yields (targetOf op left) state fun target next => next = state ∧
      ∀ {low high : Nat}, left.plan.Laid source low high →
        target.plan.Laid source low high := by
  have settles : Settles (if op = .assign then left.asTarget else left.asSimpleTarget) :=
    .ite left.settles_asTarget left.settles_asSimpleTarget
  unfold Yields targetOf
  split
  · rename_i found next run
    split at run
    · rename_i target read
      cases run
      refine ⟨rfl, fun laid => ?_⟩
      split at read
      · exact Node.laid_asTarget read laid
      · exact Node.laid_asSimpleTarget read laid
    · cases run
  · rename_i error run
    split at run
    · cases run
    · rename_i refused
      cases run
      exact settles _ refused

/-- An assignment is laid. -/
theorem assignmentExpr (sound : rules.Sound source limit) (noIn : Bool) :
    Lays source limit Node.plan (rules.assignmentExpr noIn) := by
  intro bound state ready le
  unfold Rules.assignmentExpr
  refine (sound.arrow?_yields noIn ready le).bind fun answer next held => ?_
  rcases held with ⟨rfl, rfl⟩ | ⟨value, rfl, spans⟩
  · simp only [yields_here, yields_get, yields_atWord?]
    split
    · rename_i isYield
      simp only [Bool.and_eq_true] at isYield
      exact sound.yieldExpr_yields noIn ready (goesOn_of_isWord isYield.2) le
    · refine (sound.conditionalExpr noIn next ready (by omega)).bind fun left behind spans => ?_
      rw [yields_kind]
      split
      · exact .pure spans
      · rename_i op isAssign
        refine (@targetOf_yields source _ _ _).bind fun target same held => ?_
        obtain ⟨rfl, laid⟩ := held
        have targetSpans : Spans source bound next target.plan same :=
          ⟨spans.consumes, laid spans.laid⟩
        refine (pass_yields spans.ready (goesOn_of_eq_some rfl isAssign)).bind
          fun _ inside passed => ?_
        refine (sound.assignment noIn inside passed.deeper (by omega)).bind
            fun value last valueSpans => ?_
        rw [yields_spanFrom]
        exact .pure ((targetSpans.join_spans passed.follows valueSpans).expr ready)
  · exact .pure spans

end Rules.Sound

end StopMotion.Syntax
