import StopMotion.Proofs.Syntax.Rejection.Expression

/-!
# Where a module is refused

A statement that cannot be exported is refused from its `export` to its end. With that every rule
is refused at places of the source, at any depth, and so is the reading of a module.
-/

namespace StopMotion.Syntax

open Text (EdgeAt)

variable {source : List Char} {low lower : Nat} {state : ParseState} {rules : Rules}

namespace Rules

open Parse

theorem tells_jumpLabel : Tells source low jumpLabel :=
  Tells.pass.bind fun _ => .look fun _ => .look fun _ => .ite
    (Tells.bindingName.map.bind fun _ => Tells.semicolon.bind fun _ => .pure)
    (Tells.pure.bind fun _ => Tells.semicolon.bind fun _ => .pure)

theorem tells_expectDefault : Tells source low expectDefault :=
  Tells.eatWord.bind fun _ => .ite .pure .unexpected

theorem tells_eatImportType : Tells source low eatImportType :=
  .look fun _ => .ite (Tells.peek.bind fun _ => .ite (Tells.pass.bind fun _ => .pure) .pure) .pure

theorem tells_skipSpecifierType : Tells source low skipSpecifierType :=
  .look fun _ => .ite (Tells.peek.bind fun _ => .ite .pass .pure) .pure

theorem tells_importSpecifier : Tells source low importSpecifier := by
  refine tells_skipSpecifierType.bind fun _ => .look fun current => ?_
  dsimp only
  split
  · exact Tells.pass.bind fun _ => Tells.pure.bind fun _ => Tells.eatWord.bind fun _ => .ite
      (Tells.bindingName.bind fun _ => .pure) (Tells.pure.bind fun _ => .pure)
  · exact Tells.anyName.bind fun _ => Tells.eatWord.bind fun _ => .ite
      (Tells.bindingName.bind fun _ => .pure) (Tells.pure.bind fun _ => .pure)

theorem tells_importSpecifiers : Tells source low importSpecifiers := by
  have rest (defaults : List ImportSpec) (more : Bool) : Tells source low (do
      if !more then
        return defaults
      else if ← eat .star then
        let _ ← expectWord "as"
        let binding ← bindingName
        return defaults ++ [⟨binding, none, true⟩]
      else if ← eat .openBrace then
        return defaults ++ (← commaList .closeBrace importSpecifier)
      else
        unexpected .importClause) :=
    .ite .pure (Tells.eat.bind fun _ => .ite
      (Tells.expectWord.bind fun _ => Tells.bindingName.bind fun _ => .pure)
      (Tells.eat.bind fun _ => .ite
        ((Tells.commaList tells_importSpecifier).bind fun _ => .pure) .unexpected))
  exact .look fun _ => .ite (Tells.bindingName.bind fun _ => Tells.eat.bind fun _ => rest _ _)
    (Tells.pure.bind fun (defaults, more) => rest defaults more)

theorem tells_exportSpecifier : Tells source low exportSpecifier := by
  refine Tells.anyName.bind fun _ => Tells.eatWord.bind fun _ => .ite (.look fun kind => ?_) .pure
  split
  · exact Tells.pass.bind fun _ => .pure
  · exact Tells.anyName.bind fun _ => .pure

theorem tells_exportAll (start : Nat) : Tells source low (exportAll start) := by
  refine Tells.eatWord.bind fun _ => .ite (Tells.anyName.map.bind fun _ => ?_)
    (Tells.pure.bind fun _ => ?_)
  all_goals
    exact Tells.expectWord.bind fun _ => Tells.stringLiteral.bind fun _ => .spanned .semicolon

theorem tells_exportNamed (start : Nat) : Tells source low (exportNamed start) := by
  refine (Tells.commaList tells_exportSpecifier).bind fun _ => Tells.eatWord.bind fun _ => .ite
    (Tells.stringLiteral.map.bind fun _ => ?_) (Tells.pure.bind fun _ => ?_)
  all_goals exact .spanned .semicolon

end Rules

namespace Rules.Tell

open Parse

section

variable (tell : rules.Tell source)
include tell

/-! ## Declarations -/

theorem declarator (noIn : Bool) : Tells source low (rules.declarator noIn) := by
  refine .look fun _ => tell.bindingTarget.bind fun _ => Tells.eat.bind fun _ =>
    tell.skipAnnotation.bind fun _ => Tells.eat.bind fun _ => .ite
      ((tell.assignment noIn).map.bind fun _ => ?_) (Tells.pure.bind fun _ => ?_)
  all_goals exact .look fun _ => .pure

theorem varDecl (noIn : Bool) : Tells source low (rules.varDecl noIn) :=
  Tells.anyName.bind fun _ => (Tells.repeating fun _ => (tell.declarator noIn).bind fun _ =>
    Tells.eat.bind fun _ => .ite .pure .pure).bind fun _ => .pure

theorem varStmt (start : Nat) : Tells source low (rules.varStmt start) :=
  (tell.varDecl false).bind fun _ => .spanned .semicolon

theorem enumStmt (start : Nat) : Tells source low (rules.enumStmt start) :=
  Tells.expectWord.bind fun _ => Tells.bindingName.bind fun _ => .spanned (tell.skipGroup _ _)

theorem skipNamespace : Tells source low rules.skipNamespace :=
  Tells.pass.bind fun _ => (Tells.repeating fun _ => .look fun _ => .ite .pure (.look fun _ =>
    .look fun _ => .ite (Tells.eat.bind fun _ => .pure) (Tells.pass.bind fun _ => .pure))).bind
      fun _ => .ite (tell.skipGroup _ _) .pure

theorem interfaceStmt (start : Nat) : Tells source low (rules.interfaceStmt start) :=
  Tells.pass.bind fun _ => Tells.bindingName.bind fun _ => tell.skipTypeParams.bind fun _ =>
    Tells.eatWord.bind fun _ => .ite
      (tell.skipTypes.bind fun _ => .spanned (tell.skipGroup _ _)) (.spanned (tell.skipGroup _ _))

theorem typeStmt (start : Nat) : Tells source low (rules.typeStmt start) :=
  Tells.pass.bind fun _ => Tells.bindingName.bind fun _ => tell.skipTypeParams.bind fun _ =>
    Tells.expect.bind fun _ => tell.skipType.bind fun _ => .spanned .semicolon

/-! ## Control flow -/

theorem condition : Tells source low rules.condition :=
  Tells.expect.bind fun _ => (tell.expression false).bind fun _ => Tells.expect.bind fun _ => .pure

theorem ifStmt (start : Nat) : Tells source low (rules.ifStmt start) :=
  Tells.pass.bind fun _ => tell.condition.bind fun _ => tell.statement.bind fun _ =>
    Tells.eatWord.bind fun _ => .ite (.spanned tell.statement.map) (.spanned .pure)

theorem optionalExpr (close : Punct) : Tells source low (rules.optionalExpr close) := by
  refine .look fun _ => .ite (Tells.pure.bind fun _ => ?_)
    ((tell.expression false).map.bind fun _ => ?_)
  all_goals exact Tells.expect.bind fun _ => .pure

theorem whileStmt (start : Nat) : Tells source low (rules.whileStmt start) :=
  Tells.pass.bind fun _ => tell.condition.bind fun _ => .spanned tell.statement

theorem doWhileStmt (start : Nat) : Tells source low (rules.doWhileStmt start) :=
  Tells.pass.bind fun _ => tell.statement.bind fun _ => Tells.expectWord.bind fun _ =>
    tell.condition.bind fun _ => .spanned .eat

theorem returnStmt (start : Nat) : Tells source low (rules.returnStmt start) := by
  refine Tells.pass.bind fun _ => .look fun _ => .ite (Tells.pure.bind fun _ => ?_)
    ((tell.expression false).map.bind fun _ => ?_)
  all_goals exact .spanned .semicolon

theorem throwStmt (start : Nat) : Tells source low (rules.throwStmt start) :=
  Tells.pass.bind fun _ => (tell.expression false).bind fun _ => .spanned .semicolon

theorem tryStmt (start : Nat) : Tells source low (rules.tryStmt start) := by
  refine Tells.pass.bind fun _ => tell.block.bind fun _ => Tells.eatWord.bind fun _ => .ite
    (Tells.eat.bind fun _ => .ite (tell.bindingTarget.bind fun _ => tell.skipAnnotation.bind
      fun _ => Tells.expect.bind fun _ => Tells.pure.bind fun _ => tell.block.bind fun _ =>
        Tells.pure.bind fun _ => ?_)
      (Tells.pure.bind fun _ => tell.block.bind fun _ => Tells.pure.bind fun _ => ?_))
    (Tells.pure.bind fun _ => ?_)
  all_goals
    refine Tells.eatWord.bind fun _ => .ite
      (tell.block.bind fun _ => Tells.pure.bind fun _ => ?_) (Tells.pure.bind fun _ => ?_)
  all_goals exact .ite .unexpected (.look fun _ => .pure)

theorem switchArm : Tells source low rules.switchArm := by
  refine Tells.eatWord.bind fun _ => .ite ((tell.expression false).map.bind fun _ => ?_)
    (tells_expectDefault.bind fun _ => Tells.pure.bind fun _ => ?_)
  all_goals
    exact Tells.expect.bind fun _ => (Tells.many (.look fun _ => .look fun _ => .look fun _ => .pure)
      (.look fun _ => .ite .unexpected tell.statement)).bind fun _ => .pure

theorem switchStmt (start : Nat) : Tells source low (rules.switchStmt start) :=
  Tells.pass.bind fun _ => tell.condition.bind fun _ => Tells.expect.bind fun _ =>
    .spanned (.many .eat tell.switchArm)

/-! ## Imports and exports -/

theorem skipImportAttributes : Tells source low rules.skipImportAttributes :=
  .look fun _ => .look fun _ => .look fun _ => .ite
    (Tells.pass.bind fun _ => tell.skipGroup _ _) .pure

theorem importSource : Tells source low rules.importSource :=
  Tells.stringLiteral.bind fun _ => tell.skipImportAttributes.bind fun _ =>
    Tells.semicolon.bind fun _ => .pure

theorem importStmt (start : Nat) : Tells source low (rules.importStmt start) := by
  refine Tells.expectWord.bind fun _ => tells_eatImportType.bind fun _ => .look fun kind => ?_
  split
  · exact .spanned tell.importSource
  · exact tells_importSpecifiers.bind fun _ => Tells.expectWord.bind fun _ =>
      .spanned tell.importSource

theorem exportDefault (start : Nat) : Tells source low (rules.exportDefault start) := by
  refine .look fun _ => .look fun _ => .ite (.spanned (tell.function _ _ _)) (.look fun _ =>
    .ite (Tells.peek.bind fun _ => .ite (Tells.pass.bind fun _ => .spanned (tell.function _ _ _))
      ?_) ?_)
  all_goals
    exact .look fun _ => .ite (.spanned (tell.classDef false))
      ((tell.assignment false).bind fun _ => .spanned .semicolon)

/-! ## Other statements -/

theorem exprStmt (start : Nat) : Tells source low (rules.exprStmt start) :=
  (tell.expression false).bind fun _ => .spanned .semicolon

theorem declareStmt (start : Nat) : Tells source low (rules.declareStmt start) :=
  Tells.pass.bind fun _ => .look fun _ => .look fun _ => .look fun _ => .ite
    (.spanned tell.skipNamespace) (.spanned tell.statement)

theorem labeledStmt (start : Nat) : Tells source low (rules.labeledStmt start) :=
  Tells.bindingName.bind fun _ => Tells.pass.bind fun _ => .spanned tell.statement

theorem functionStmt (start : Nat) (isAsync : Bool) :
    Tells source low (rules.functionStmt start isAsync) :=
  .spanned (tell.function _ _ _)

theorem classStmt (start : Nat) : Tells source low (rules.classStmt start) :=
  .spanned (tell.classDef true)

end

end Rules.Tell

/-! ## What is refused for what was read -/

section

variable {depth : Nat} {next : ParseState}

/-- No expression is read at the end of the source. -/
theorem goesOn_of_expression {noIn : Bool} {value : Expr}
    (run : (Rules.ofDepth depth).expression noIn state = .ok (value, next)) :
    state.token.kind.isEnd = false := by
  obtain ⟨_, _, ⟨kind, _, _⟩, _, inGenerator⟩ := state
  cases kind with
  | endOfInput =>
      cases depth with
      | zero => cases run
      | succ depth => cases inGenerator <;> cases run
  | _ => rfl

/-- No statement is read at the end of the source. -/
theorem goesOn_of_statement {value : Stmt}
    (run : (Rules.ofDepth depth).statement state = .ok (value, next)) :
    state.token.kind.isEnd = false := by
  obtain ⟨_, _, ⟨kind, _, _⟩, _, inGenerator⟩ := state
  cases kind with
  | endOfInput =>
      cases depth with
      | zero => cases run
      | succ depth =>
          cases depth with
          | zero => cases run
          | succ depth => cases inGenerator <;> cases run
  | _ => rfl

end

/-- The head of a loop that is an expression lies in the source. -/
def HeadLies (source : List Char) (head : Option (Node .loopHead)) : Prop :=
  ∀ value, head = some (.headExpr value) → ∃ site, value.plan.LiesAt source site

theorem Rules.tellsAt_eachHead {head : Option (Node .loopHead)} (firm : Firm source low state)
    (lies : HeadLies source head) :
    Parse.TellsAt source (eachHead head) state fun _ next => Firm source low next := by
  unfold eachHead
  split
  · rename_i value
    obtain ⟨_, lies⟩ := lies value rfl
    exact (tellsAt_targetOf firm lies).bind fun _ _ firm => firm
  · exact firm
  · exact .inl firm.cuts

namespace Rules.Tell

open Parse

variable {depth : Nat} (tell : (Rules.ofDepth depth).Tell source)
include tell

theorem tellsAt_loopHead (firm : Firm source low state) :
    TellsAt source (Rules.ofDepth depth).loopHead state fun head next =>
      Firm source low next ∧ HeadLies source head := by
  have plain : TellsAt source (do
      return some (Node.headExpr (← (Rules.ofDepth depth).expression true))) state fun head next =>
        Firm source low next ∧ HeadLies source head := by
    refine (Tells.lies (tell.expression true) 1 grows_expression
      (fun sound => sound.expression true) firm goesOn_of_expression).bind fun value next held => ?_
    refine ⟨held.1, ?_⟩
    rintro _ ⟨⟩
    exact ⟨_, held.2⟩
  refine .look ?_
  split
  · exact ⟨firm, nofun⟩
  refine .look (.look ?_)
  split
  · exact (tell.varDecl true state firm).bind fun _ _ firm => ⟨firm, nofun⟩
  refine .look ?_
  split
  · refine (Tells.tellsAt_peek firm).bind fun _ _ same => ?_
    subst same
    split
    · exact (tell.varDecl true _ firm).bind fun _ _ firm => ⟨firm, nofun⟩
    · exact plain
  · exact plain

theorem forStmt (start : Nat) : Tells source low ((Rules.ofDepth depth).forStmt start) := by
  refine Tells.pass.bind fun _ => Tells.eatWord.bind fun _ => Tells.expect.bind fun _ => ?_
  intro state firm
  refine (tell.tellsAt_loopHead firm).bind fun head next held => .look (.look ?_)
  split
  · refine (Tells.pass next held.1).bind fun _ behind firm => ?_
    refine (tellsAt_eachHead firm held.2).bind fun left inside firm => ?_
    split
    · exact ((tell.assignment false).bind fun _ => Tells.expect.bind fun _ =>
        .spanned tell.statement) inside firm
    · exact ((tell.expression false).bind fun _ => Tells.expect.bind fun _ =>
        .spanned tell.statement) inside firm
  · exact (Tells.expect.bind fun _ => (tell.optionalExpr _).bind fun _ =>
      (tell.optionalExpr _).bind fun _ => .spanned tell.statement) next held.1

/-- A statement that is no declaration is refused from its `export` to its end. -/
theorem exportDecl (begins : EdgeAt source low) :
    Tells source low ((Rules.ofDepth depth).exportDecl low) := by
  intro state firm
  refine (Tells.lies tell.statement 2 grows_statement (fun sound => sound.statement) firm
    goesOn_of_statement).bind fun declaration next held => ?_
  split
  · exact .look held.1
  · obtain ⟨span, has⟩ : ∃ span, declaration.span? = some span := by
      cases declaration <;> exact ⟨_, rfl⟩
    have isSpan : declaration.span = span := by simp [Node.span, has]
    obtain ⟨from_, _, cuts, _⟩ := Node.span_of_liesAt held.2 has
    rw [isSpan]
    refine .fail (begins.cuts cuts.edges.2 ?_)
    have onwards := firm.token.behind
    have le := cuts.le
    exact Nat.le_trans onwards (Nat.le_trans from_ le)

theorem exportStmt (begins : EdgeAt source low) :
    Tells source low ((Rules.ofDepth depth).exportStmt low) := by
  refine Tells.expectWord.bind fun _ => Tells.eatWord.bind fun _ => .ite (tell.exportDefault low)
    (Tells.eat.bind fun _ => .ite (tells_exportAll low) (.look fun _ => .ite (Tells.peek.bind
      fun _ => .ite (Tells.pass.bind fun _ => ?_) ?_) ?_))
  all_goals
    exact Tells.eat.bind fun _ => .ite (tells_exportNamed low) (tell.exportDecl begins)

theorem wordStmt (begins : EdgeAt source low) (leading : Leading) :
    Tells source low ((Rules.ofDepth depth).wordStmt low leading) := by
  cases leading with
  | var => exact tell.varStmt low
  | function => exact tell.functionStmt low false
  | asyncFunction => exact Tells.pass.bind fun _ => tell.functionStmt low true
  | constEnum => exact Tells.pass.bind fun _ => tell.enumStmt low
  | enum => exact tell.enumStmt low
  | plainClass => exact tell.classStmt low
  | abstractClass => exact Tells.pass.bind fun _ => tell.classStmt low
  | «if» => exact tell.ifStmt low
  | «for» => exact tell.forStmt low
  | «while» => exact tell.whileStmt low
  | «do» => exact tell.doWhileStmt low
  | «return» => exact tell.returnStmt low
  | throw => exact tell.throwStmt low
  | «break» | «continue» => exact .spanned tells_jumpLabel
  | «try» => exact tell.tryStmt low
  | switch => exact tell.switchStmt low
  | debugger => exact Tells.pass.bind fun _ => .spanned .semicolon
  | «import» => exact tell.importStmt low
  | «export» => exact tell.exportStmt begins
  | interface => exact tell.interfaceStmt low
  | type => exact tell.typeStmt low
  | declare => exact tell.declareStmt low
  | «namespace» => exact .spanned tell.skipNamespace
  | labeled => exact tell.labeledStmt low
  | expression => exact tell.exprStmt low

/-- A statement begins with its token, and nothing of it lies before. -/
theorem anyStmt : Tells source low (Rules.ofDepth depth).anyStmt := by
  intro state firm
  have own : Firm source state.token.span.start state :=
    { firm with token := { firm.token with behind := Nat.le_refl _ } }
  refine TellsAt.mono (.look ?_) fun _ _ _ ends => Firm.mono ends firm.token.behind
  dsimp only
  split
  · exact tell.block.spanned state own
  · exact Tells.pass.spanned state own
  · exact (Tells.peek.bind fun _ => tell.wordStmt firm.token.begins _) state own
  · exact tell.exprStmt _ state own

end Rules.Tell

namespace Rules

/-- Rules that refuse everything refuse their token. -/
theorem tell_bottom : bottom.Tell source := by
  have refuses {α : Type} {low : Nat} :
      Parse.Tells source low (do Parse.fail (← Parse.token).span .nestedTooDeeply : Parse α) :=
    .token fun _ cuts => .fail cuts
  exact
    { statement := refuses
      assignment := fun _ => refuses
      binary := fun _ _ => refuses
      unary := refuses
      access := refuses
      construction := refuses
      target := refuses
      element := fun stays _ => .look (.fail stays.cuts) }

theorem tell_ofDepth (depth : Nat) : (ofDepth depth).Tell source := by
  induction depth with
  | zero => exact tell_bottom
  | succ depth tell =>
      exact
        { statement := tell.anyStmt
          assignment := tell.assignmentExpr
          binary := tell.binaryExpr
          unary := tell.unaryExpr
          access := tell.accessChain
          construction := tell.newExpr
          target := tell.bindingTarget
          element := tell.jsxElement }

end Rules

/-- A source is refused at a place in it, or for an escape that is cut short. -/
theorem placed_of_parse {error : SyntaxError} (refused : parse source = .error error) :
    error.Placed source := by
  have start := Cursor.start_in source
  have points : Points source (readStatements source) := by
    refine (points_readToken start).bind fun answer read => ?_
    obtain ⟨first, cursor⟩ := answer
    have before := before_readToken start read
    have firm : Firm source 0 ⟨source, cursor, first, 0, false⟩ :=
      ⟨rfl, before, Nat.zero_le _, fun _ => .inl rfl⟩
    have tells : Parse.Tells source 0 (Parse.many Parse.atEnd?
        (Rules.ofDepth (3 * source.length + 3)).statement) :=
      .many (.look fun _ => .pure) (Rules.tell_ofDepth _).statement
    exact Points.bind (fun _ => (tells _ firm).of_error) fun _ _ => points_ok _
  exact (points.bind fun _ _ => points_ok _) error refused

/-- The span of a refusal begins and ends where characters of the source do, in order, but for one
refusal: an escape `\u` behind which neither a brace stands nor four bytes of whole characters. -/
theorem cuts_iff_not_cutShort {error : SyntaxError} (refused : parse source = .error error) :
    error.span.Cuts source ↔ ¬ error.CutShort source :=
  ⟨fun cuts short => short.not_cuts cuts, (placed_of_parse refused).resolve_right⟩

end StopMotion.Syntax
