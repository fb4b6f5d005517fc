import StopMotion.Proofs.Syntax.Depth.Reads
import StopMotion.Proofs.Syntax.Rejection.Jsx

/-!
# Where expressions are refused

An expression that is read again as a target is refused at a node of it. That every node of it cuts
the source is known of what rules of enough depth lay, and these answer the same.
-/

namespace StopMotion.Syntax

variable {source : List Char} {low : Nat} {state : ParseState} {rules : Rules}

namespace Rules

open Parse

theorem tells_entryModifier : Tells source low entryModifier := by
  refine .look fun kind => ?_
  split
  · exact .pure
  · exact .ite (Tells.peek.bind fun _ => .ite .pure (Tells.pass.bind fun _ => .pure)) .pure

theorem tells_memberAccess (start : Nat) (owner : Expr) (isOptional : Bool) :
    Tells source low (memberAccess start owner isOptional) :=
  Tells.anyName.bind fun _ => .look fun _ => .ite .pure .pure

theorem tells_awaitsOperand : Tells source low awaitsOperand :=
  Tells.peek.bind fun _ => .pure

theorem tells_beginsTypeParams : Tells source low beginsTypeParams :=
  .foresee (Tells.pass.bind fun _ => .look fun _ => .ite (Tells.pass.bind fun _ => .look fun _ =>
    .look fun _ => .pure) .pure)

theorem tells_eatArrowAsync : Tells source low eatArrowAsync :=
  .look fun _ => .ite (Tells.peek.bind fun _ => .ite (Tells.pass.bind fun _ => .pure) .pure) .pure

end Rules

namespace Rules.Tell

open Parse

variable (tell : rules.Tell source)
include tell

/-! ## Primary expressions -/

theorem spreadable : Tells source low rules.spreadable :=
  .look fun _ => Tells.eat.bind fun _ => .ite (.spanned (tell.assignment false))
    (tell.assignment false)

theorem arguments : Tells source low rules.arguments :=
  Tells.expect.bind fun _ => .commaList tell.spreadable

theorem array : Tells source low rules.array :=
  Tells.expect.bind fun _ => tells_elements (.look fun _ => .ite .unexpected tell.spreadable)

theorem entry : Tells source low rules.entry := by
  refine .look fun _ => .look fun _ => .ite .unexpected (Tells.eat.bind fun _ => .ite
    (.spanned (tell.assignment false)) (tells_entryModifier.bind fun _ => Tells.eat.bind fun _ =>
      tell.key.bind fun key => .look fun _ => .ite (.spanned (tell.functionRest _ _ _ _))
        (Tells.eat.bind fun _ => .ite (.spanned (tell.assignment false)) ?_)))
  split
  · exact Tells.eat.bind fun _ => .ite (.spanned (tell.assignment false)) (.look fun _ => .pure)
  · exact .unexpected

theorem object : Tells source low rules.object :=
  Tells.expect.bind fun _ => .commaList tell.entry

theorem wordExpr (start : Nat) (word : String) : Tells source low (rules.wordExpr start word) := by
  have name : Tells source low (do
      if isReserved word then
        fail (← token).span (.unexpectedKeyword word)
      else
        let found ← anyName
        return Node.name (← spanFrom start) found) :=
    .ite (.token fun _ cuts => .fail cuts) (.spanned .anyName)
  unfold Rules.wordExpr
  split
  · exact .spanned (tell.function _ _ _)
  · exact .spanned (tell.classDef false)
  case h_8 =>
    exact Tells.pass.bind fun _ => Tells.eat.bind fun _ => .ite
      (Tells.anyName.bind fun _ => .look fun _ => .pure) (.look fun _ => .pure)
  case h_9 => exact tell.construction
  case h_10 =>
    exact .ite (Tells.peek.bind fun _ => .ite (Tells.pass.bind fun _ =>
      .spanned (tell.function _ _ _)) name) name
  all_goals exact .spanned .pass

theorem primary : Tells source low rules.primary := by
  intro state firm
  refine .look ?_
  dsimp only
  split
  · exact tell.wordExpr _ _ state firm
  · exact Tells.pass.spanned state firm
  · exact Tells.pass.spanned state firm
  · exact Tells.pass.spanned state firm
  · exact tell.template.spanned state firm
  · exact Tells.bind .pass (fun _ => (tell.expression false).bind fun _ => .spanned .expect)
      state firm
  · exact tell.array.spanned state firm
  · exact tell.object.spanned state firm
  · exact tell.tellsAt_jsxExpr firm ‹_›
  · exact .fail firm.cuts
  · exact .inl firm.cuts

/-! ## Member accesses and calls -/

theorem indexAccess (start : Nat) (owner : Expr) (isOptional : Bool) :
    Tells source low (rules.indexAccess start owner isOptional) :=
  (tell.expression false).bind fun _ => .spanned .expect

theorem eatTypeArguments : Tells source low rules.eatTypeArguments :=
  (Tells.speculate (tell.skipAngles.bind fun _ => .look fun _ => .pure)).bind fun _ => .pure

theorem chainStep (start : Nat) (soFar : Expr) :
    Tells source low (rules.chainStep start soFar) := by
  refine .look fun current => ?_
  split
  · exact tell.eatTypeArguments.bind fun _ => .ite .pure .pure
  · exact Tells.pass.bind fun _ => (tells_memberAccess _ _ _).bind fun _ => .pure
  · exact Tells.pass.bind fun _ => .look fun _ => .ite (.spanned tell.arguments)
      (Tells.eat.bind fun _ => .ite ((tell.indexAccess _ _ _).bind fun _ => .pure)
        ((tells_memberAccess _ _ _).bind fun _ => .pure))
  · exact Tells.pass.bind fun _ => (tell.indexAccess _ _ _).bind fun _ => .pure
  · exact .spanned tell.arguments
  · exact .spanned tell.template
  · exact .look fun _ => .ite (.spanned .pass) .pure
  · exact .pure

theorem accessChain : Tells source low rules.accessChain := by
  refine .look fun start => .look fun _ => .ite (tell.construction.bind fun _ => ?_)
    (tell.primary.bind fun _ => ?_)
  all_goals
    refine .repeating fun soFar => (tell.chainStep start soFar).bind fun longer => ?_
    cases longer <;> exact .pure

theorem constructed : Tells source low rules.constructed := by
  refine .look fun start => .look fun _ => .ite (tell.construction.bind fun _ => ?_)
    (tell.primary.bind fun _ => ?_)
  all_goals
    exact .repeating fun soFar => Tells.eat.bind fun _ => .ite
      ((tells_memberAccess _ _ _).bind fun _ => .pure) (Tells.eat.bind fun _ => .ite
        ((tell.indexAccess _ _ _).bind fun _ => .pure) .pure)

theorem newExpr : Tells source low rules.newExpr := by
  refine Tells.expectWord.bind fun _ => Tells.eat.bind fun _ => .ite (.spanned .anyName)
    (tell.constructed.bind fun _ => .look fun _ => .ite (tell.eatTypeArguments.bind fun _ => ?_) ?_)
  all_goals exact .look fun _ => .ite (.spanned tell.arguments) (.spanned .pure)

/-! ## Operators -/

theorem postfixExpr : Tells source low rules.postfixExpr := by
  refine .look fun start => tell.accessChain.bind fun operand => .look fun current => ?_
  split
  · split
    · exact .ite .pure (.spanned .pass)
    · exact .pure
  · exact .pure

theorem unaryExpr : Tells source low rules.unaryExpr := by
  refine .look fun current => ?_
  dsimp only
  split
  · exact Tells.pass.bind fun _ => .spanned tell.unary
  · exact Tells.pass.bind fun _ => .spanned tell.unary
  · exact .ite (tells_awaitsOperand.bind fun _ => .ite
      (Tells.pass.bind fun _ => .spanned tell.unary) tell.postfixExpr) tell.postfixExpr

theorem binaryStep (start least : Nat) (noIn : Bool) (left : Expr) :
    Tells source low (rules.binaryStep start least noIn left) := by
  refine .look fun current => ?_
  split
  · exact .pure
  · refine .ite .pure (Tells.pass.bind fun _ => ?_)
    split
    · exact Tells.eatWord.bind fun _ => .ite (.look fun _ => .pure) (.spanned tell.skipType)
    · exact .spanned (tell.binary _ _)

theorem binaryExpr (least : Nat) (noIn : Bool) : Tells source low (rules.binaryExpr least noIn) := by
  refine .look fun start => tell.unaryExpr.bind fun _ => .repeating fun left =>
    (tell.binaryStep start least noIn left).bind fun longer => ?_
  cases longer <;> exact .pure

theorem conditionalExpr (noIn : Bool) : Tells source low (rules.conditionalExpr noIn) :=
  .look fun _ => (tell.binaryExpr 1 noIn).bind fun _ => Tells.eat.bind fun _ => .ite
    ((tell.assignment false).bind fun _ => Tells.expect.bind fun _ =>
      .spanned (tell.assignment noIn)) .pure

/-! ## Arrow functions -/

theorem arrowParams : Tells source low rules.arrowParams := by
  refine .look fun _ => .ite (Tells.peek.bind fun _ => .ite (Tells.bindingName.bind fun _ => .pure)
    .pure) (.look fun _ => .look fun _ => .ite (.look fun _ => tells_beginsTypeParams.bind fun _ =>
      .ite (.speculate ?_) .pure) .pure)
  exact tell.skipTypeParams.bind fun _ => tell.params.bind fun _ => tell.skipAnnotation.bind fun _ =>
    .look fun _ => .look fun _ => .ite .pure .pure

theorem arrowBody (noIn : Bool) : Tells source low (rules.arrowBody noIn) :=
  .look fun _ => .ite (tell.block.withGenerator.bind fun _ => .pure)
    ((tell.assignment noIn).bind fun _ => .pure)

/-- Where no arrow function stands the reading goes on from where it was. -/
theorem arrow? (noIn : Bool) : Tells source low (rules.arrow? noIn) := by
  intro state firm
  refine .look (.look ((tells_eatArrowAsync state firm).bind fun _ behind behindFirm =>
    (tell.arrowParams behind behindFirm).bind fun params next nextFirm => ?_))
  cases params with
  | none => exact firm
  | some params =>
      exact Tells.bind .expect (fun _ => .spanned (tell.arrowBody noIn)) next nextFirm

theorem yieldExpr (noIn : Bool) : Tells source low (rules.yieldExpr noIn) :=
  .look fun _ => Tells.pass.bind fun _ => .look fun _ => .ite (.spanned .pure)
    (Tells.eat.bind fun _ => .spanned (tell.assignment noIn).map)

end Rules.Tell

/-! ## Assignments -/

/-- What a rule of any depth reads lies in the source, as rules of enough depth lay it and answer
the same. -/
theorem Parse.Tells.lies {c : Category} {rule : Rules → Parse (Node c)} {depth : Nat}
    (tells : Parse.Tells source low (rule (Rules.ofDepth depth))) (less : Nat) (grows : Grows rule)
    (lays : ∀ {limit : Nat} {rules : Rules}, rules.Sound source limit →
      Parse.Lays source (limit - less) Node.plan (rule rules))
    (firm : Firm source low state)
    (goesOn : ∀ {value : Node c} {next : ParseState},
      rule (Rules.ofDepth depth) state = .ok (value, next) → state.token.kind.isEnd = false) :
    Parse.TellsAt source (rule (Rules.ofDepth depth)) state fun value next =>
      Firm source low next ∧
        value.plan.LiesAt source (Site.of ⟨state.token.span.start, next.lastEnd⟩) := by
  refine (tells state firm).mono fun value next run nextFirm => ⟨nextFirm, ?_⟩
  have reads : Reads rule state value next := ⟨depth, run⟩
  have spans := reads.holds grows fun depth (le : 3 * state.room + 1 + less ≤ depth) =>
    lays (Rules.sound_ofDepth depth) state (firm.ready (goesOn run)) (by omega)
  exact spans.laid

/-- No expression is read at the end of the source. -/
theorem goesOn_of_conditionalExpr {noIn : Bool} {value : Expr} {next : ParseState}
    (run : rules.conditionalExpr noIn state = .ok (value, next)) :
    state.token.kind.isEnd = false := by
  obtain ⟨_, _, ⟨kind, _, _⟩, _, _⟩ := state
  cases kind with
  | endOfInput => cases run
  | _ => rfl

theorem Rules.tellsAt_targetOf {op : AssignOp} {left : Expr} {site : Site}
    (firm : Firm source low state) (lies : left.plan.LiesAt source site) :
    Parse.TellsAt source (targetOf op left) state fun _ next => Firm source low next := by
  have points : Points source (if op = .assign then left.asTarget else left.asSimpleTarget) :=
    .ite (fun _ => Node.points_asTarget lies) fun _ => Node.points_asSimpleTarget lies
  unfold Parse.TellsAt targetOf
  cases answer : if op = .assign then left.asTarget else left.asSimpleTarget with
  | error error => exact points error answer
  | ok target => exact firm

namespace Rules.Tell

open Parse

variable {depth : Nat} (tell : (Rules.ofDepth depth).Tell source)
include tell

theorem assignmentExpr (noIn : Bool) :
    Tells source low ((Rules.ofDepth depth).assignmentExpr noIn) := by
  refine (tell.arrow? noIn).bind fun arrow => ?_
  cases arrow with
  | some arrow => exact .pure
  | none =>
      refine .look fun _ => .look fun _ => .look fun _ => .ite (tell.yieldExpr noIn) ?_
      intro state firm
      refine (Tells.lies (tell.conditionalExpr noIn) 0 grows_conditionalExpr
        (fun sound => sound.conditionalExpr noIn) firm goesOn_of_conditionalExpr).bind
          fun left next held => ?_
      refine .look ?_
      split
      · exact held.1
      · refine (tellsAt_targetOf held.1 held.2).bind fun target next firm => ?_
        exact Tells.bind .pass (fun _ => .spanned (tell.assignment noIn)) next firm

end Rules.Tell

end StopMotion.Syntax
