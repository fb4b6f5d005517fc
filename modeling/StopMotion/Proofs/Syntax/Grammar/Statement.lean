import StopMotion.Proofs.Syntax.Grammar.Expression
import StopMotion.Syntax.Grammar.Statement

/-!
# Layout of statements

A statement begins at the token that its rule is given as its start, which is the current
one or stands before modifiers already passed over.
-/

namespace StopMotion.Syntax

variable {source : List Char} {limit bound : Nat} {first state : ParseState}

/-- A statement that is given another span is laid like the one it was. -/
theorem Node.plan_withSpan (stmt : Stmt) (span : Span) : ∃ role old inside,
    (role.isBracketed || role == Role.expr) = false ∧ stmt.plan = .one role old inside ∧
      (stmt.withSpan span).plan = .one role span inside := by
  cases stmt <;> exact ⟨_, _, _, rfl, rfl, rfl⟩

namespace Rules

open Parse

/-! ## Names and words of imports and exports -/

theorem skips_skipSpecifierType : Skips source limit skipSpecifierType := by
  intro bound state ready le
  unfold skipSpecifierType
  rw [yields_atWord?]
  split
  · rename_i isType
    refine yields_peek ready.place fun token => ?_
    split
    · exact (pass_yields ready (goesOn_of_isWord isType)).mono fun _ _ passed => passed.follows
    · exact .pure ready.follows
  · exact .pure ready.follows

theorem takes_importSpecifier : Takes source limit importSpecifier := by
  intro bound state ready le
  refine (skips_skipSpecifierType state ready (Nat.le_refl _)).bind fun _ inside skipped => ?_
  have behind (imported : Name) (next : ParseState) (consumes : Consumes source bound inside next) :
      Yields (do
          let binding ← if ← eatWord "as" then bindingName else pure imported
          return (⟨binding, some imported.text, false⟩ : ImportSpec)) next
        fun _ last => Consumes source bound state last := by
    have consumes := skipped.consumes consumes
    refine (eatWord_yields consumes.ready).bind fun eaten afterWord held => ?_
    rcases held with ⟨rfl, rfl⟩ | ⟨rfl, word⟩
    · exact .pure consumes
    · refine (takes_bindingName afterWord word.ready (Nat.le_refl _)).bind fun _ last named => ?_
      exact .pure (consumes.trans (word.follows.trans named.follows))
  rw [yields_token]
  split
  · rename_i value is
    refine (pass_yields skipped.ready (goesOn_of_eq is rfl)).bind fun _ next passed => ?_
    exact behind _ next passed.toConsumes
  · exact (takes_anyName inside skipped.ready (Nat.le_refl _)).bind fun imported next consumes =>
      behind imported next consumes

theorem skips_importSpecifiers : Skips source limit importSpecifiers := by
  intro bound state ready le
  have behind (defaults : List ImportSpec) (more : Bool) (next : ParseState)
      (follows : Follows source bound state next) :
      Yields (do
          if !more then
            return defaults
          else if ← eat .star then
            let _ ← expectWord "as"
            let binding ← bindingName
            return defaults ++ [⟨binding, none, true⟩]
          else if ← eat .openBrace then
            return defaults ++ (← commaList .closeBrace importSpecifier)
          else
            unexpected .importClause) next fun _ last => Follows source bound state last := by
    split
    · exact .pure follows
    · refine (eat_yields follows.ready).bind fun eaten inside held => ?_
      rcases held with ⟨rfl, rfl⟩ | ⟨rfl, star⟩
      · simp only [Bool.false_eq_true, if_false]
        refine (eat_yields follows.ready).bind fun eaten inside held => ?_
        rcases held with ⟨rfl, rfl⟩ | ⟨rfl, opened⟩
        · exact yields_unexpected
        · refine (commaList_yields opened.ready takes_importSpecifier.lays (Nat.le_refl _)).bind
            fun _ last spans => ?_
          exact .pure (follows.trans (opened.follows.trans spans.follows))
      · refine (takes_expectWord inside star.ready (Nat.le_refl _)).bind fun _ named word => ?_
        refine (takes_bindingName named word.ready (Nat.le_refl _)).bind fun _ last bound => ?_
        exact .pure (follows.trans (star.follows.trans (word.follows.trans bound.follows)))
  unfold importSpecifiers
  rw [yields_atBinding?]
  split
  · refine (takes_bindingName state ready (Nat.le_refl _)).bind fun binding next bound => ?_
    refine (skips_eat next bound.ready (Nat.le_refl _)).bind fun more inside comma => ?_
    exact behind _ more inside (bound.follows.trans comma)
  · exact behind [] true state ready.follows

theorem takes_exportSpecifier : Takes source limit exportSpecifier := by
  intro bound state ready le
  refine (takes_anyName state ready (Nat.le_refl _)).bind fun found next named => ?_
  refine (eatWord_yields named.ready).bind fun eaten inside held => ?_
  rcases held with ⟨rfl, rfl⟩ | ⟨rfl, word⟩
  · exact .pure named
  · simp only [if_true]
    rw [yields_kind]
    split
    · rename_i value is
      refine (pass_yields word.ready (goesOn_of_eq is rfl)).bind fun _ last passed => ?_
      exact .pure (named.trans (word.follows.trans passed.follows))
    · refine (takes_anyName inside word.ready (Nat.le_refl _)).bind fun _ last renamed => ?_
      exact .pure (named.trans (word.follows.trans renamed.follows))

theorem skips_eatImportType : Skips source limit eatImportType := by
  intro bound state ready le
  unfold eatImportType
  rw [yields_atWord?]
  split
  · rename_i isType
    refine yields_peek ready.place fun token => ?_
    split
    · exact (pass_yields ready (goesOn_of_isWord isType)).bind fun _ _ passed =>
        .pure passed.follows
    · exact .pure ready.follows
  · exact .pure ready.follows

/-! ## Jumps -/

theorem jumpLabel_yields (ready : Ready source bound state)
    (goesOn : state.token.kind.isEnd = false) :
    Yields jumpLabel state fun _ next => Consumes source bound state next := by
  refine (pass_yields ready goesOn).bind fun _ inside passed => ?_
  simp only [yields_atBinding?, yields_afterNewline?]
  split
  · refine takes_bindingName.lays.bind_some passed.ready (Nat.le_refl _) fun _ next named => ?_
    refine (skips_semicolon next named.ready (Nat.le_refl _)).bind fun _ last ended => ?_
    exact .pure (passed.toConsumes.trans (named.follows.trans ended))
  · rw [yields_pure]
    refine (skips_semicolon inside passed.ready (Nat.le_refl _)).bind fun _ last ended => ?_
    exact .pure (passed.toConsumes.trans ended)

theorem takes_expectDefault : Takes source limit expectDefault := by
  intro bound state ready le
  refine (eatWord_yields ready).bind fun eaten next held => ?_
  rcases held with ⟨rfl, rfl⟩ | ⟨rfl, word⟩
  · exact yields_unexpected
  · exact .pure word.toConsumes

/-! ## Labels -/

/-- A name is one token. -/
theorem bindingName_advances (ready : Ready source bound state) : Yields bindingName state
    fun _ next =>
    ∃ passed, advance state = .ok (passed, next) := by
  have passes : Yields pass state fun _ next => ∃ passed, advance state = .ok (passed, next) :=
    (advance_settles ready.place).bind fun passed _ held => .pure ⟨passed, held.2⟩
  unfold bindingName
  rw [yields_atBinding?]
  split
  · unfold anyName
    rw [yields_token]
    split
    · exact passes.bind fun _ _ held => .pure held
    · exact yields_unexpected
  · exact yields_unexpected

/-- A word is a label only where a colon follows it. -/
theorem colon_of_labeled {word : String} {next : Token} (labeled : leading word next = .labeled) :
    next.kind.isPunct .colon = true := by
  unfold leading at labeled
  grind

end Rules

namespace Rules.Sound

open Parse

variable {rules : Rules}

/-! ## Declarations -/

/-- A declared pattern is laid with its initial value. -/
theorem declarator (sound : rules.Sound source limit) (noIn : Bool) :
    Lays source limit Node.plan (rules.declarator noIn) := by
  intro bound state ready le
  unfold Rules.declarator
  rw [yields_here]
  refine (sound.bindingTarget state ready (by omega)).bind fun target next spans => ?_
  refine (skips_eat next spans.ready (Nat.le_refl _)).bind fun _ inside bang => ?_
  refine (sound.skipAnnotation inside bang.ready (by omega)).bind fun _ behind typed => ?_
  have onwards := bang.trans typed
  refine (sound.assignment noIn).bind_eat typed.ready (by omega) fun init last covers => ?_
  rw [yields_spanFrom]
  rw [← Node.plan_ofOption] at covers
  exact .pure ((spans.join onwards covers).one ready rfl)

/-- Declarators are laid behind the keyword. -/
theorem varDecl (sound : rules.Sound source limit) (noIn : Bool) :
    Lays source limit (fun answer => answer.2.plan) (rules.varDecl noIn) := by
  intro bound state ready le
  refine (takes_anyName state ready (Nat.le_refl _)).bind fun keyword inside named => ?_
  refine repeating_bind
    (fun (declarators : List (Node .declarator)) last =>
      Covers source bound inside (.all Node.plan declarators.reverse) last)
    (fun declarators last => Covers source bound inside (.all Node.plan declarators) last)
    named.ready.follows.covers (fun declarators last covers => ?_) fun declarators last covers => ?_
  · refine (sound.declarator noIn last covers.ready (by omega)).bind fun value next spans => ?_
    have longer :
        Covers source bound inside (.all Node.plan (value :: declarators).reverse) next := by
      rw [Plan.all_reverse_cons]
      exact covers.join covers.ready.follows spans.covers
    refine (eat_yields spans.ready).bind fun eaten behind held => ?_
    rcases held with ⟨rfl, rfl⟩ | ⟨rfl, comma⟩
    · exact .pure longer
    · exact .pure ⟨longer.trans comma.follows, (spans.consumes.trans comma.follows).left_lt⟩
  · rw [← Node.plan_ofList] at covers
    exact .pure (named.spans.join named.ready.follows covers)

theorem varStmt_yields (sound : rules.Sound source limit) (ready : Ready source bound first)
    (passed : Follows source bound first state) (le : bound ≤ limit - 1) :
    Yields (rules.varStmt first.token.span.start) state fun value next =>
      Spans source bound first value.plan next := by
  refine (sound.varDecl false state passed.ready (by omega)).bind fun answer inside spans => ?_
  obtain ⟨kind, declarators⟩ := answer
  refine (skips_semicolon inside spans.ready (Nat.le_refl _)).bind fun _ next ended => ?_
  exact .pure (((passed.spans_of spans).trans ended).one ready rfl)

theorem enumStmt_yields (sound : rules.Sound source limit) (ready : Ready source bound first)
    (passed : Follows source bound first state) (le : bound ≤ limit - 1) :
    Yields (rules.enumStmt first.token.span.start) state fun value next =>
      Spans source bound first value.plan next := by
  refine (takes_expectWord state passed.ready (Nat.le_refl _)).bind fun _ inside word => ?_
  refine (takes_bindingName inside word.ready (Nat.le_refl _)).bind fun _ behind named => ?_
  refine (sound.skipGroup .openBrace .closeBrace behind named.ready (by omega)).bind
      fun _ next group => ?_
  have whole := passed.consumes (word.trans (named.follows.trans group.follows))
  exact .pure (whole.spans.one ready rfl)

theorem skipNamespace_yields (sound : rules.Sound source limit) (ready : Ready source bound state)
    (goesOn : state.token.kind.isEnd = false) (le : bound ≤ limit) :
    Yields rules.skipNamespace state fun _ next => Consumes source bound state next := by
  refine (pass_yields ready goesOn).bind fun _ inside passed => ?_
  refine repeating_bind (fun _ next => Consumes source bound state next)
    (fun _ next => Consumes source bound state next) passed.toConsumes (fun _ next consumes => ?_)
    fun hasBody next consumes => ?_
  · rw [yields_at?]
    split
    · exact .pure consumes
    · simp only [yields_at?, yields_atEnd?]
      split
      · refine (skips_eat next consumes.ready (Nat.le_refl _)).bind fun _ last ended => ?_
        exact .pure (consumes.trans ended)
      · rename_i goesOn
        have goesOn : next.token.kind.isEnd = false := by
          simp only [Bool.or_eq_true, not_or] at goesOn
          simpa using goesOn.1
        exact (pass_yields consumes.ready goesOn).bind fun _ last passed =>
          .pure ⟨consumes.trans passed.follows, passed.toConsumes.left_lt⟩
  · split
    · exact (sound.skipGroup .openBrace .closeBrace next consumes.ready (by omega)).mono
          fun _ _ group =>
        consumes.trans group.follows
    · exact .pure consumes

theorem interfaceStmt_yields (sound : rules.Sound source limit) (ready : Ready source bound state)
    (goesOn : state.token.kind.isEnd = false) (le : bound ≤ limit - 1) :
    Yields (rules.interfaceStmt state.token.span.start) state fun value next =>
      Spans source bound state value.plan next := by
  refine (pass_yields ready goesOn).bind fun _ inside passed => ?_
  refine (takes_bindingName inside passed.ready (Nat.le_refl _)).bind fun name behind named => ?_
  refine (sound.skipTypeParams behind named.ready (by omega)).bind fun _ next generic => ?_
  have follows := passed.follows.trans (named.follows.trans generic)
  have finish (last : ParseState) (onwards : Follows source bound state last) :
      Yields (do
          rules.skipGroup .openBrace .closeBrace
          return Node.typeOnly (← spanFrom state.token.span.start) name) last
        fun value next => Spans source bound state value.plan next := by
    refine (sound.skipGroup .openBrace .closeBrace last onwards.ready (by omega)).bind
        fun _ next group => ?_
    exact .pure ((onwards.consumes group).spans.one ready rfl)
  refine (eatWord_yields generic.ready).bind fun eaten types held => ?_
  rcases held with ⟨rfl, rfl⟩ | ⟨rfl, word⟩
  · exact finish types follows
  · refine (sound.skipTypes types word.ready (by omega)).bind fun _ last skipped => ?_
    exact finish last (follows.trans (word.follows.trans skipped))

theorem typeStmt_yields (sound : rules.Sound source limit) (ready : Ready source bound state)
    (goesOn : state.token.kind.isEnd = false) (le : bound ≤ limit - 1) :
    Yields (rules.typeStmt state.token.span.start) state fun value next =>
      Spans source bound state value.plan next := by
  refine (pass_yields ready goesOn).bind fun _ inside passed => ?_
  refine (takes_bindingName inside passed.ready (Nat.le_refl _)).bind fun name behind named => ?_
  refine (sound.skipTypeParams behind named.ready (by omega)).bind fun _ next generic => ?_
  refine (takes_expect next generic.ready (Nat.le_refl _)).bind fun _ value assign => ?_
  refine (sound.skipType value assign.ready (by omega)).bind fun _ last typed => ?_
  refine (skips_semicolon last typed.ready (Nat.le_refl _)).bind fun _ behindEnd ended => ?_
  have whole := passed.toConsumes.trans (named.follows.trans
    (generic.trans (assign.follows.trans (typed.trans ended))))
  exact .pure (whole.spans.one ready rfl)

/-! ## Control flow -/

/-- An expression in parentheses is laid. -/
theorem condition (sound : rules.Sound source limit) :
    Lays source limit Node.plan rules.condition := by
  intro bound state ready le
  refine (takes_expect state ready (Nat.le_refl _)).bind fun _ inside opened => ?_
  refine (sound.expression false inside opened.deeper (by omega)).bind fun value close spans => ?_
  refine (takes_expect close spans.ready (Nat.le_refl _)).bind fun _ next closed => ?_
  exact .pure (opened.follows.spans_of (spans.trans closed.follows))

theorem ifStmt_yields (sound : rules.Sound source limit) (ready : Ready source bound state)
    (goesOn : state.token.kind.isEnd = false) (le : bound ≤ limit - 1) :
    Yields (rules.ifStmt state.token.span.start) state fun value next =>
      Spans source bound state value.plan next := by
  refine (pass_yields ready goesOn).bind fun _ inside passed => ?_
  refine (sound.condition inside passed.deeper (by omega)).bind fun test next testSpans => ?_
  refine (sound.statement next testSpans.ready (by omega)).bind fun consequent behind spans => ?_
  have parts := (passed.follows.spans_of testSpans).join testSpans.ready.follows spans.covers
  refine sound.statement.bind_eatWord spans.ready (by omega) fun alternative last covers => ?_
  rw [yields_spanFrom]
  rw [← Node.plan_ofOption] at covers
  exact .pure ((parts.join spans.ready.follows covers).one ready rfl)

/-- Declarations in the head of a loop are laid. -/
theorem headVar_yields (sound : rules.Sound source limit) (ready : Ready source bound state)
    (le : bound ≤ limit) :
    Yields (do
      let (kind, declarators) ← rules.varDecl true
      return some (Node.headVar kind declarators)) state fun head next =>
        Covers source bound state (.option Node.plan head) next :=
  (sound.varDecl true state ready (by omega)).bind fun _ _ spans => .pure spans.covers

/-- The first part of the head of a loop is laid. -/
theorem loopHead_yields (sound : rules.Sound source limit) (ready : Ready source bound state)
    (le : bound ≤ limit - 1) :
    Yields rules.loopHead state fun head next =>
      Covers source bound state (.option Node.plan head) next := by
  have var := sound.headVar_yields ready (by omega)
  have expr : Yields (do return some (Node.headExpr (← rules.expression true))) state
      fun head next => Covers source bound state (.option Node.plan head) next :=
    (sound.expression true state ready (by omega)).bind fun _ _ spans => .pure spans.covers
  unfold Rules.loopHead
  rw [yields_at?]
  split
  · exact .pure ready.follows.covers
  · simp only [yields_atWord?]
    split
    · exact var
    · rw [yields_atWord?]
      split
      · refine yields_peek ready.place fun token => ?_
        split
        · exact var
        · exact expr
      · exact expr

/-- The head of a loop over values is laid where it was read. -/
theorem eachHead_yields {head : Option (Node .loopHead)} :
    Yields (eachHead head) state fun value next => next = state ∧
      ∀ {low high : Nat}, (Plan.option Node.plan head).Laid source low high →
        value.plan.Laid source low high := by
  unfold eachHead
  split
  · refine (@targetOf_yields source _ _ _).bind fun target next held => ?_
    obtain ⟨rfl, laid⟩ := held
    exact .pure ⟨rfl, laid⟩
  · exact .pure ⟨rfl, id⟩
  · exact yields_unexpected

/-- An optional expression is laid before the punctuator behind it. -/
theorem optionalExpr (sound : rules.Sound source limit) (close : Punct) :
    Lays source (limit - 1) (Plan.option Node.plan) (rules.optionalExpr close) := by
  intro bound state ready le
  unfold Rules.optionalExpr
  rw [yields_at?]
  refine (sound.expression false).bind_unless ready (by omega) fun value next covers => ?_
  refine (takes_expect next covers.ready (Nat.le_refl _)).bind fun _ last closed => ?_
  exact .pure (covers.passes closed).toSpans

theorem forStmt_yields (sound : rules.Sound source limit) (ready : Ready source bound state)
    (goesOn : state.token.kind.isEnd = false) (le : bound ≤ limit - 1) :
    Yields (rules.forStmt state.token.span.start) state fun value next =>
      Spans source bound state value.plan next := by
  refine (pass_yields ready goesOn).bind fun _ inside passed => ?_
  refine (skips_eatWord inside passed.deeper (Nat.le_refl _)).bind fun _ next await => ?_
  refine (takes_expect next await.ready (Nat.le_refl _)).bind fun _ atHead opened => ?_
  refine (sound.loopHead_yields opened.ready (by omega)).bind fun head behind headCovers => ?_
  have toHead := passed.toConsumes.trans (await.trans opened.follows)
  have covers := toHead.follows.covers_of headCovers
  simp only [yields_atWord?]
  split
  · rename_i isEach
    have goesOn : behind.token.kind.isEnd = false := by
      rcases Bool.or_eq_true_iff.mp isEach with isWord | isWord
      · exact goesOn_of_isWord isWord
      · exact goesOn_of_isWord isWord
    refine (pass_yields headCovers.ready goesOn).bind fun _ atValues word => ?_
    refine (@eachHead_yields source _ _).bind fun left same held => ?_
    obtain ⟨rfl, laid⟩ := held
    have leftCovers : Covers source bound state left.plan behind :=
      ⟨covers.follows, laid covers.laid⟩
    have finish (right : Expr) (close : ParseState) (overValues : Bool)
        (spans : Spans source (bound - 3) same right.plan close) :
        Yields (do
            let _ ← expect .closeParen
            let body ← rules.statement
            return Node.forEach (← spanFrom state.token.span.start) left right body overValues)
          close fun value next => Spans source bound state value.plan next := by
      refine (takes_expect close spans.ready (Nat.le_refl _)).bind fun _ atBody closed => ?_
      refine (sound.statement atBody closed.ready (by omega)).bind fun body last bodySpans => ?_
      rw [yields_spanFrom]
      have parts := leftCovers.join_spans word.follows spans
      exact .pure ((parts.join closed.follows bodySpans.covers).one ready rfl)
    split
    · exact (sound.assignment false same word.ready (by omega)).bind fun right close spans =>
        finish right close _ spans
    · exact (sound.expression false same word.ready (by omega)).bind fun right close spans =>
        finish right close _ spans
  · refine (takes_expect behind headCovers.ready (Nat.le_refl _)).bind fun _ atTest semicolon => ?_
    refine (sound.optionalExpr .semicolon atTest semicolon.ready (by omega)).bind
        fun test next testSpans => ?_
    refine (sound.optionalExpr .closeParen next testSpans.ready (by omega)).bind
        fun step close stepSpans => ?_
    refine (sound.statement close stepSpans.ready (by omega)).bind fun body last bodySpans => ?_
    rw [yields_spanFrom]
    rw [← Node.plan_ofOption] at covers testSpans stepSpans
    have parts := (covers.join_spans semicolon.follows testSpans).join testSpans.ready.follows
      stepSpans.covers
    exact .pure ((parts.join stepSpans.ready.follows bodySpans.covers).one ready rfl)

theorem whileStmt_yields (sound : rules.Sound source limit) (ready : Ready source bound state)
    (goesOn : state.token.kind.isEnd = false) (le : bound ≤ limit - 1) :
    Yields (rules.whileStmt state.token.span.start) state fun value next =>
      Spans source bound state value.plan next := by
  refine (pass_yields ready goesOn).bind fun _ inside passed => ?_
  refine (sound.condition inside passed.deeper (by omega)).bind fun test next testSpans => ?_
  refine (sound.statement next testSpans.ready (by omega)).bind fun body last spans => ?_
  have parts := (passed.follows.spans_of testSpans).join testSpans.ready.follows spans.covers
  exact .pure (parts.one ready rfl)

theorem doWhileStmt_yields (sound : rules.Sound source limit) (ready : Ready source bound state)
    (goesOn : state.token.kind.isEnd = false) (le : bound ≤ limit - 1) :
    Yields (rules.doWhileStmt state.token.span.start) state fun value next =>
      Spans source bound state value.plan next := by
  refine (pass_yields ready goesOn).bind fun _ inside passed => ?_
  refine (sound.statement inside passed.deeper (by omega)).bind fun body behind spans => ?_
  refine (takes_expectWord behind spans.ready (Nat.le_refl _)).bind fun _ next word => ?_
  refine (sound.condition next word.ready (by omega)).bind fun test last testSpans => ?_
  refine (skips_eat last testSpans.ready (Nat.le_refl _)).bind fun _ ended semicolon => ?_
  have parts := (passed.follows.spans_of spans).join word.follows (testSpans.trans semicolon).covers
  exact .pure (parts.one ready rfl)

theorem returnStmt_yields (sound : rules.Sound source limit) (ready : Ready source bound state)
    (goesOn : state.token.kind.isEnd = false) (le : bound ≤ limit - 1) :
    Yields (rules.returnStmt state.token.span.start) state fun value next =>
      Spans source bound state value.plan next := by
  refine (pass_yields ready goesOn).bind fun _ inside passed => ?_
  rw [yields_token]
  refine (sound.expression false).bind_unless passed.deeper (by omega) fun value next covers => ?_
  refine (skips_semicolon next covers.ready (Nat.le_refl _)).bind fun _ last ended => ?_
  rw [yields_spanFrom]
  rw [← Node.plan_ofOption] at covers
  have parts := passed.toConsumes.spans.join passed.ready.follows (covers.trans ended)
  exact .pure (parts.one ready rfl)

theorem throwStmt_yields (sound : rules.Sound source limit) (ready : Ready source bound state)
    (goesOn : state.token.kind.isEnd = false) (le : bound ≤ limit - 1) :
    Yields (rules.throwStmt state.token.span.start) state fun value next =>
      Spans source bound state value.plan next := by
  refine (pass_yields ready goesOn).bind fun _ inside passed => ?_
  refine (sound.expression false inside passed.deeper (by omega)).bind fun value next spans => ?_
  refine (skips_semicolon next spans.ready (Nat.le_refl _)).bind fun _ last ended => ?_
  exact .pure ((passed.follows.spans_of (spans.trans ended)).one ready rfl)

/-- What stands behind the handler of a `try` statement ends it. -/
theorem finalizer_yields (sound : rules.Sound source limit) (ready : Ready source bound state)
    (le : bound ≤ limit) {body : List Stmt} (param : Option Pattern)
    (handler : Option (List Stmt)) {last : ParseState}
    (spans : Spans source bound state ((Node.ofList body).plan ++ (Node.ofOption param).plan ++
      (Node.ofOption (handler.map Node.ofList)).plan) last) :
    Yields (do
        let finalizer ←
          if ← eatWord "finally" then do
            let (_, finalizer) ← rules.block
            pure (some finalizer)
          else pure none
        if handler.isNone && finalizer.isNone then
          unexpected .catchOrFinally
        else
          return Node.tryStmt (← spanFrom state.token.span.start) (.ofList body) (.ofOption param)
            (.ofOption (handler.map .ofList)) (.ofOption (finalizer.map .ofList))) last
      fun value next => Spans source bound state value.plan next := by
  have finish (finalizer : Option (List Stmt)) (last : ParseState)
      (spans : Spans source bound state ((Node.ofList body).plan ++ (Node.ofOption param).plan ++
        (Node.ofOption (handler.map Node.ofList)).plan ++
        (Node.ofOption (finalizer.map Node.ofList)).plan) last) :
      Yields (do
          if handler.isNone && finalizer.isNone then
            unexpected .catchOrFinally
          else
            return Node.tryStmt (← spanFrom state.token.span.start) (.ofList body)
              (.ofOption param) (.ofOption (handler.map .ofList))
              (.ofOption (finalizer.map .ofList))) last
        fun value next => Spans source bound state value.plan next := by
    split
    · exact yields_unexpected
    · exact .pure (spans.one ready rfl)
  refine (eatWord_yields spans.ready).bind fun eaten atBlock held => ?_
  rcases held with ⟨rfl, rfl⟩ | ⟨rfl, word⟩
  · exact finish none atBlock
      (spans.join spans.ready.follows spans.ready.follows.covers)
  · refine (sound.blockBody atBlock word.ready (by omega)).bind fun answer behind finalSpans => ?_
    exact finish (some answer.2) behind (spans.join word.follows finalSpans.covers)

theorem tryStmt_yields (sound : rules.Sound source limit) (ready : Ready source bound state)
    (goesOn : state.token.kind.isEnd = false) (le : bound ≤ limit - 1) :
    Yields (rules.tryStmt state.token.span.start) state fun value next =>
      Spans source bound state value.plan next := by
  refine (pass_yields ready goesOn).bind fun _ inside passed => ?_
  refine (sound.blockBody inside passed.ready (by omega)).bind fun answer next bodySpans => ?_
  obtain ⟨bodySpan, body⟩ := answer
  have bodySpans := passed.follows.spans_of bodySpans
  refine (eatWord_yields bodySpans.ready).bind fun eaten atParam held => ?_
  rcases held with ⟨rfl, rfl⟩ | ⟨rfl, word⟩
  · exact sound.finalizer_yields ready (by omega) none none
      ((bodySpans.join bodySpans.ready.follows bodySpans.ready.follows.covers).join
        bodySpans.ready.follows bodySpans.ready.follows.covers)
  · refine (eat_yields word.ready).bind fun eaten atTarget held => ?_
    rcases held with ⟨rfl, rfl⟩ | ⟨rfl, opened⟩
    · simp only [Bool.false_eq_true, if_false, yields_pure]
      refine (sound.blockBody atTarget word.ready (by omega)).bind fun answer behind spans => ?_
      have withParam := bodySpans.join word.follows word.ready.follows.covers
      exact sound.finalizer_yields ready (by omega) none (some answer.2)
        (withParam.join word.ready.follows spans.covers)
    · refine (sound.bindingTarget atTarget opened.ready (by omega)).bind
          fun target close targetSpans => ?_
      refine (sound.skipAnnotation close targetSpans.ready (by omega)).bind fun _ typed ofType => ?_
      refine (takes_expect typed ofType.ready (Nat.le_refl _)).bind fun _ atBlock closed => ?_
      rw [yields_pure]
      refine (sound.blockBody atBlock closed.ready (by omega)).bind fun answer behind spans => ?_
      have withParam := bodySpans.join (word.follows.trans opened.follows) targetSpans.covers
      exact sound.finalizer_yields ready (by omega) (some target) (some answer.2)
        (withParam.join (ofType.trans closed.follows) spans.covers)

/-- An arm of a switch is laid. -/
theorem switchArm (sound : rules.Sound source limit) :
    Lays source limit Node.plan rules.switchArm := by
  intro bound state ready le
  have finish (test : Option Expr) (next : ParseState)
      (spans : Spans source bound state (Plan.option Node.plan test) next) :
      Yields (do
          let _ ← expect .colon
          let body ← many
            (do return (← atWord? "case") || (← atWord? "default") || (← at? .closeBrace))
            do
              if ← atEnd? then
                unexpected .restOfSwitch
              else
                rules.statement
          return Node.switchArm (.ofOption test) (.ofList body)) next
        fun value last => Spans source bound state value.plan last := by
    refine (takes_expect next spans.ready (Nat.le_refl _)).bind fun _ inside colon => ?_
    have stops (state : ParseState) (_ : Ready source (bound - 3) state) : Yields
        (do return (← atWord? "case") || (← atWord? "default") || (← at? .closeBrace)) state
        fun answer next => (answer = false ∧ next = state) ∨ (answer = true ∧ next = state) := by
      simp only [yields_atWord?, yields_at?]
      refine .pure ?_
      cases state.token.kind.isWord "case" || state.token.kind.isWord "default" ||
        state.token.kind.isPunct .closeBrace
      · exact .inl ⟨rfl, rfl⟩
      · exact .inr ⟨rfl, rfl⟩
    have item : Lays source (limit - 2) Node.plan (do
        if ← atEnd? then
          unexpected .restOfSwitch
        else
          rules.statement) := by
      intro bound state ready le
      rw [yields_atEnd?]
      split
      · exact yields_unexpected
      · exact sound.statement state ready (by omega)
    refine (many_yields colon.deeper stops item (by omega)).bind fun body last held => ?_
    obtain ⟨_, covers, rfl⟩ := held
    rw [← Node.plan_ofList] at covers
    rw [← Node.plan_ofOption] at spans
    exact .pure (spans.join colon.follows covers)
  refine (eatWord_yields ready).bind fun eaten inside held => ?_
  rcases held with ⟨rfl, rfl⟩ | ⟨rfl, word⟩
  · exact (takes_expectDefault inside ready (Nat.le_refl _)).bind fun _ next word =>
      finish none next word.spans
  · refine (sound.expression false).bind_some word.deeper (by omega) fun test next covers => ?_
    exact finish test next (word.toConsumes.spans.join word.ready.follows covers)

theorem switchStmt_yields (sound : rules.Sound source limit) (ready : Ready source bound state)
    (goesOn : state.token.kind.isEnd = false) (le : bound ≤ limit - 1) :
    Yields (rules.switchStmt state.token.span.start) state fun value next =>
      Spans source bound state value.plan next := by
  refine (pass_yields ready goesOn).bind fun _ inside passed => ?_
  refine (sound.condition inside passed.deeper (by omega)).bind fun subject behind spans => ?_
  refine (takes_expect behind spans.ready (Nat.le_refl _)).bind fun _ next opened => ?_
  refine (many_eat_yields opened.ready sound.switchArm (by omega)).bind fun arms last held => ?_
  obtain ⟨_, covers, closed⟩ := held
  rw [← Node.plan_ofList] at covers
  have parts := (passed.follows.spans_of spans).join opened.follows (covers.trans closed.follows)
  exact .pure (parts.one ready rfl)

/-! ## Imports and exports -/

theorem skips_skipImportAttributes (sound : rules.Sound source limit) :
    Skips source limit rules.skipImportAttributes := by
  intro bound state ready le
  unfold Rules.skipImportAttributes
  simp only [yields_atWord?, yields_afterNewline?]
  split
  · rename_i isWord
    have goesOn : state.token.kind.isEnd = false := by
      rcases Bool.or_eq_true_iff.mp (Bool.and_eq_true_iff.mp isWord).1 with isWord | isWord
      · exact goesOn_of_isWord isWord
      · exact goesOn_of_isWord isWord
    refine (pass_yields ready goesOn).bind fun _ inside passed => ?_
    exact (sound.skipGroup .openBrace .closeBrace inside passed.ready (by omega)).mono
        fun _ _ group =>
      passed.follows.trans group.follows
  · exact .pure ready.follows

theorem skips_importSource (sound : rules.Sound source limit) :
    Skips source limit rules.importSource := by
  intro bound state ready le
  refine (takes_stringLiteral state ready (Nat.le_refl _)).bind fun _ inside literal => ?_
  refine (sound.skips_skipImportAttributes inside literal.ready (by omega)).bind
      fun _ next skipped => ?_
  refine (skips_semicolon next skipped.ready (Nat.le_refl _)).bind fun _ last ended => ?_
  exact .pure (literal.follows.trans (skipped.trans ended))

theorem importStmt_yields (sound : rules.Sound source limit) (ready : Ready source bound state)
    (le : bound ≤ limit - 1) :
    Yields (rules.importStmt state.token.span.start) state fun value next =>
      Spans source bound state value.plan next := by
  refine (takes_expectWord state ready (Nat.le_refl _)).bind fun _ inside word => ?_
  refine (skips_eatImportType inside word.ready (Nat.le_refl _)).bind
      fun typeOnly next skipped => ?_
  rw [yields_kind]
  split
  · refine (sound.skips_importSource next skipped.ready (by omega)).bind fun from_ last ended => ?_
    exact .pure ((word.trans (skipped.trans ended)).spans.one ready rfl)
  · refine (skips_importSpecifiers next skipped.ready (Nat.le_refl _)).bind
        fun specifiers behind named => ?_
    refine (takes_expectWord behind named.ready (Nat.le_refl _)).bind fun _ literal fromWord => ?_
    refine (sound.skips_importSource literal fromWord.ready (by omega)).bind
        fun from_ last ended => ?_
    have whole := word.trans (skipped.trans (named.trans (fromWord.follows.trans ended)))
    exact .pure (whole.spans.one ready rfl)

/-- A default export is laid behind its keywords. -/
theorem exportDefault_yields (sound : rules.Sound source limit) (ready : Ready source bound first)
    (passed : Follows source bound first state) (le : bound ≤ limit - 1) :
    Yields (rules.exportDefault first.token.span.start) state fun value next =>
      Spans source bound first value.plan next := by
  have afterwards : Yields (do
      if ← atWord? "class" then
        let value ← rules.classDef false
        return Node.exportClass (← spanFrom first.token.span.start) value
      let value ← rules.assignment false
      semicolon
      return Node.exportExpr (← spanFrom first.token.span.start) value) state
        fun value next => Spans source bound first value.plan next := by
    rw [yields_atWord?]
    split
    · refine (sound.classDef_yields passed.ready (by omega)).bind fun value next parts => ?_
      exact .pure ((passed.spans_of parts.toSpans).one ready rfl)
    · refine (sound.assignment false state passed.ready (by omega)).bind fun value next spans => ?_
      refine (skips_semicolon next spans.ready (Nat.le_refl _)).bind fun _ last ended => ?_
      exact .pure ((passed.spans_of (spans.trans ended)).one ready rfl)
  unfold Rules.exportDefault
  rw [yields_here, yields_atWord?]
  split
  · refine (sound.function_yields passed.ready passed.ready.follows (by omega)).bind
      fun value next parts => ?_
    rw [yields_spanFrom]
    exact .pure ((passed.spans_of parts.toSpans).one ready rfl)
  · simp only [yields_atWord?]
    split
    · rename_i isAsync
      refine yields_peek passed.ready.place fun token => ?_
      split
      · refine (pass_yields passed.ready (goesOn_of_isWord isAsync)).bind fun _ next async => ?_
        refine (sound.function_yields passed.ready async.follows (by omega)).bind
          fun value last parts => ?_
        rw [yields_spanFrom]
        exact .pure ((passed.spans_of parts.toSpans).one ready rfl)
      · exact afterwards
    · exact afterwards

theorem exportAll_yields (ready : Ready source bound first)
    (passed : Consumes source bound first state) :
    Yields (exportAll first.token.span.start) state fun value next =>
      Spans source bound first value.plan next := by
  have name : Takes source bound anyName := takes_anyName
  refine name.lays.bind_eatWord passed.ready (by omega) fun name next covers => ?_
  refine (takes_expectWord next covers.ready (Nat.le_refl _)).bind fun _ inside word => ?_
  refine (takes_stringLiteral inside word.ready (Nat.le_refl _)).bind fun _ behind literal => ?_
  refine (skips_semicolon behind literal.ready (Nat.le_refl _)).bind fun _ last ended => ?_
  have onwards := covers.follows.trans (word.follows.trans (literal.follows.trans ended))
  exact .pure ((passed.trans onwards).spans.one ready rfl)

theorem exportNamed_yields (ready : Ready source bound first)
    (passed : Consumes source bound first state) :
    Yields (exportNamed first.token.span.start) state fun value next =>
      Spans source bound first value.plan next := by
  refine (commaList_yields passed.ready takes_exportSpecifier.lays (Nat.le_refl _)).bind
    fun specifiers next spans => ?_
  have name : Takes source bound stringLiteral := takes_stringLiteral
  refine name.lays.bind_eatWord spans.ready (by omega) fun name behind covers => ?_
  refine (skips_semicolon behind covers.ready (Nat.le_refl _)).bind fun _ last ended => ?_
  have onwards := spans.follows.trans (covers.follows.trans ended)
  exact .pure ((passed.trans onwards).spans.one ready rfl)

theorem exportDecl_yields (sound : rules.Sound source limit) (ready : Ready source bound first)
    (passed : Consumes source bound first state) (le : bound ≤ limit - 1) :
    Yields (rules.exportDecl first.token.span.start) state fun value next =>
      Spans source bound first value.plan next := by
  refine (sound.statement state passed.deeper (by omega)).bind fun declaration next spans => ?_
  split
  · exact .pure ((passed.follows.spans_of spans).one ready rfl)
  · exact yields_fail rfl

theorem exportStmt_yields (sound : rules.Sound source limit) (ready : Ready source bound state)
    (le : bound ≤ limit - 1) :
    Yields (rules.exportStmt state.token.span.start) state fun value next =>
      Spans source bound state value.plan next := by
  have rest (last : ParseState) (passed : Consumes source bound state last) :
      Yields (do
          if ← eat .openBrace then
            exportNamed state.token.span.start
          else
            rules.exportDecl state.token.span.start) last
        fun value next => Spans source bound state value.plan next := by
    refine (eat_yields passed.ready).bind fun eaten inside held => ?_
    rcases held with ⟨rfl, rfl⟩ | ⟨rfl, opened⟩
    · exact sound.exportDecl_yields ready passed le
    · exact exportNamed_yields ready (passed.trans opened.follows)
  refine (takes_expectWord state ready (Nat.le_refl _)).bind fun _ inside word => ?_
  refine (eatWord_yields word.ready).bind fun eaten next held => ?_
  rcases held with ⟨rfl, rfl⟩ | ⟨rfl, isDefault⟩
  · refine (eat_yields word.ready).bind fun eaten behind held => ?_
    rcases held with ⟨rfl, rfl⟩ | ⟨rfl, star⟩
    · simp only [Bool.false_eq_true, if_false, yields_atWord?]
      split
      · rename_i isType
        refine yields_peek word.ready.place fun token => ?_
        split
        · refine (pass_yields word.ready (goesOn_of_isWord isType)).bind fun _ last typed => ?_
          exact rest last (word.trans typed.follows)
        · exact rest _ word
      · exact rest _ word
    · exact exportAll_yields ready (word.trans star.follows)
  · exact sound.exportDefault_yields ready (word.follows.trans isDefault.follows) le

/-! ## Statements -/

theorem exprStmt_yields (sound : rules.Sound source limit) (ready : Ready source bound state)
    (le : bound ≤ limit - 1) :
    Yields (rules.exprStmt state.token.span.start) state fun value next =>
      Spans source bound state value.plan next := by
  refine (sound.expression false state ready (by omega)).bind fun value next spans => ?_
  refine (skips_semicolon next spans.ready (Nat.le_refl _)).bind fun _ last ended => ?_
  exact .pure ((spans.trans ended).one ready rfl)

theorem declareStmt_yields (sound : rules.Sound source limit) (ready : Ready source bound state)
    (goesOn : state.token.kind.isEnd = false) (le : bound ≤ limit - 1) :
    Yields (rules.declareStmt state.token.span.start) state fun value next =>
      Spans source bound state value.plan next := by
  refine (pass_yields ready goesOn).bind fun _ inside passed => ?_
  simp only [yields_atWord?]
  split
  · rename_i isWord
    have goesOn : inside.token.kind.isEnd = false := by
      rcases Bool.or_eq_true_iff.mp isWord with isWord | isWord
      · rcases Bool.or_eq_true_iff.mp isWord with isWord | isWord
        · exact goesOn_of_isWord isWord
        · exact goesOn_of_isWord isWord
      · exact goesOn_of_isWord isWord
    refine (sound.skipNamespace_yields passed.ready goesOn (by omega)).bind
      fun _ last consumes => ?_
    exact .pure ((passed.toConsumes.trans consumes.follows).spans.one ready rfl)
  · refine (sound.statement inside passed.deeper (by omega)).bind fun stmt last spans => ?_
    rw [yields_spanFrom]
    obtain ⟨role, old, within, plain, isOld, isNew⟩ :=
      Node.plan_withSpan stmt ⟨state.token.span.start, last.lastEnd⟩
    rw [isOld] at spans
    refine .pure (?_ : Spans ..)
    rw [isNew]
    exact (passed.follows.spans_of spans.enclosed).one ready plain

/-- The token behind a label is the colon that was seen there. -/
theorem labeledStmt_yields (sound : rules.Sound source limit) {colon : Token}
    (ready : Ready source bound state)
    (seen : ∃ passed behind, advance state = .ok (passed, behind) ∧ behind.token = colon)
    (isColon : colon.kind.isPunct .colon = true) (le : bound ≤ limit - 1) :
    Yields (rules.labeledStmt state.token.span.start) state fun value next =>
      Spans source bound state value.plan next := by
  have named : Yields bindingName state fun _ next =>
      Consumes source bound state next ∧ next.token = colon := by
    refine ((takes_bindingName state ready (Nat.le_refl _)).and (bindingName_advances ready)).mono
      fun label next held => ?_
    obtain ⟨passed, behind, seen, rfl⟩ := seen
    obtain ⟨consumes, passed', advanced⟩ := held
    rw [seen] at advanced
    cases advanced
    exact ⟨consumes, rfl⟩
  refine named.bind fun label inside held => ?_
  obtain ⟨consumes, rfl⟩ := held
  refine (pass_yields consumes.ready (goesOn_of_isPunct isColon)).bind fun _ next passed => ?_
  refine (sound.statement next passed.deeper (by omega)).bind fun body last spans => ?_
  have onwards := consumes.follows.trans passed.follows
  exact .pure ((onwards.spans_of spans).one ready rfl)

theorem functionStmt_yields (sound : rules.Sound source limit) {isAsync : Bool}
    (ready : Ready source bound first) (passed : Follows source bound first state)
    (le : bound ≤ limit - 1) :
    Yields (rules.functionStmt first.token.span.start isAsync) state fun value next =>
      Spans source bound first value.plan next :=
  (sound.function_yields ready passed (by omega)).bind fun _ _ parts =>
    .pure (parts.toSpans.one ready rfl)

theorem classStmt_yields (sound : rules.Sound source limit) (ready : Ready source bound first)
    (passed : Follows source bound first state) (le : bound ≤ limit - 1) :
    Yields (rules.classStmt first.token.span.start) state fun value next =>
      Spans source bound first value.plan next :=
  (sound.classDef_yields passed.ready (by omega)).bind fun _ _ parts =>
    .pure ((passed.spans_of parts.toSpans).one ready rfl)

/-- A statement that begins with a word is laid. -/
theorem wordStmt_yields (sound : rules.Sound source limit) {word : String} {next : Token}
    (ready : Ready source bound state) (goesOn : state.token.kind.isEnd = false)
    (seen : ∃ passed behind, advance state = .ok (passed, behind) ∧ behind.token = next)
    (le : bound ≤ limit - 1) :
    Yields (rules.wordStmt state.token.span.start (leading word next)) state fun value next =>
      Spans source bound state value.plan next := by
  have modified {rest : Parse Stmt}
      (yields : ∀ inside, Follows source bound state inside → Yields rest inside fun value next =>
        Spans source bound state value.plan next) :
      Yields (do pass; rest) state fun value next => Spans source bound state value.plan next :=
    (pass_yields ready goesOn).bind fun _ inside passed => yields inside passed.follows
  cases kind : leading word next with
  | var => exact sound.varStmt_yields ready ready.follows le
  | function => exact sound.functionStmt_yields ready ready.follows le
  | asyncFunction => exact modified fun _ passed => sound.functionStmt_yields ready passed le
  | constEnum => exact modified fun _ passed => sound.enumStmt_yields ready passed le
  | enum => exact sound.enumStmt_yields ready ready.follows le
  | plainClass => exact sound.classStmt_yields ready ready.follows le
  | abstractClass => exact modified fun _ passed => sound.classStmt_yields ready passed le
  | «if» => exact sound.ifStmt_yields ready goesOn le
  | «for» => exact sound.forStmt_yields ready goesOn le
  | «while» => exact sound.whileStmt_yields ready goesOn le
  | «do» => exact sound.doWhileStmt_yields ready goesOn le
  | «return» => exact sound.returnStmt_yields ready goesOn le
  | throw => exact sound.throwStmt_yields ready goesOn le
  | «break» =>
      exact (jumpLabel_yields ready goesOn).bind fun _ _ consumes =>
        .pure (consumes.spans.one ready rfl)
  | «continue» =>
      exact (jumpLabel_yields ready goesOn).bind fun _ _ consumes =>
        .pure (consumes.spans.one ready rfl)
  | «try» => exact sound.tryStmt_yields ready goesOn le
  | switch => exact sound.switchStmt_yields ready goesOn le
  | debugger =>
      refine (pass_yields ready goesOn).bind fun _ inside passed => ?_
      refine (skips_semicolon inside passed.ready (Nat.le_refl _)).bind fun _ last ended => ?_
      exact .pure ((passed.toConsumes.trans ended).spans.one ready rfl)
  | «import» => exact sound.importStmt_yields ready le
  | «export» => exact sound.exportStmt_yields ready le
  | interface => exact sound.interfaceStmt_yields ready goesOn le
  | type => exact sound.typeStmt_yields ready goesOn le
  | declare => exact sound.declareStmt_yields ready goesOn le
  | «namespace» =>
      exact (sound.skipNamespace_yields ready goesOn (by omega)).bind fun _ _ consumes =>
        .pure (consumes.spans.one ready rfl)
  | labeled => exact sound.labeledStmt_yields ready seen (colon_of_labeled kind) le
  | expression => exact sound.exprStmt_yields ready le

/-- A statement is laid. -/
theorem anyStmt (sound : rules.Sound source limit) :
    Lays source (limit - 1) Node.plan rules.anyStmt := by
  intro bound state ready le
  unfold Rules.anyStmt
  rw [yields_token]
  dsimp only
  split
  · refine (sound.blockBody state ready (by omega)).bind fun answer next spans => ?_
    exact .pure (spans.one ready rfl)
  · rename_i is
    refine (pass_yields ready (goesOn_of_eq is rfl)).bind fun _ next passed => ?_
    exact .pure (passed.toConsumes.spans.one ready rfl)
  · rename_i word is
    refine (peek_yields ready.place).bind fun token same held => ?_
    obtain ⟨rfl, seen⟩ := held
    exact sound.wordStmt_yields ready (goesOn_of_eq is rfl) seen le
  · exact sound.exprStmt_yields ready le

end Rules.Sound

end StopMotion.Syntax
