import StopMotion.Proofs.Syntax.Depth.Step
import StopMotion.Syntax.Grammar

/-!
# Rules of a greater depth

Each rule of the grammar deepens if the rules that it calls do, in the order of the rules.
-/

namespace StopMotion.Syntax

namespace Rules.Deepen

open Parse

variable {rules rules' : Rules} (deepen : rules.Deepen rules')
include deepen

/-! ## Templates and types -/

theorem expression (noIn : Bool) : Deepens (rules.expression noIn) (rules'.expression noIn) :=
  .behind fun _ => (deepen.assignment noIn).bind fun _ => .behind fun _ => .ite
    (.before (.repeating fun _ => .behind fun _ => .ite (deepen.assignment noIn).before .refl))
    .refl

theorem template : Deepens rules.template rules'.template := by
  refine .repeating fun (chunks, substitutions) => .behind fun current => ?_
  split
  · exact .refl
  · exact .behind fun _ => (deepen.expression false).before
  · exact .refl

theorem skipGroup (opening closing : Punct) :
    Deepens (rules.skipGroup opening closing) (rules'.skipGroup opening closing) :=
  .behind fun _ => .repeating fun _ => .behind fun _ => .ite .refl (.ite deepen.template.before
    .refl)

theorem skipAngles : Deepens rules.skipAngles rules'.skipAngles := by
  refine .behind fun _ => .repeating fun depth => .behind fun kind => ?_
  split
  · exact .refl
  · exact deepen.template.before
  · refine .ite .refl ?_
    split
    · exact .refl
    · exact (deepen.skipGroup _ _).before
    · exact (deepen.skipGroup _ _).before
    · exact (deepen.skipGroup _ _).before
    all_goals exact .refl
  · exact .refl

theorem skipTypeParams : Deepens rules.skipTypeParams rules'.skipTypeParams :=
  .behind fun _ => .ite deepen.skipAngles .refl

theorem skipTypePart (state : TypeState) :
    Deepens (rules.skipTypePart state) (rules'.skipTypePart state) := by
  refine .behind fun current => ?_
  dsimp only
  split
  · exact .ite (deepen.skipGroup _ _).before .refl
  · exact .refl
  · exact .ite (deepen.skipGroup _ _).before .refl
  · exact .ite (deepen.skipGroup _ _).before .refl
  · exact deepen.skipAngles.before
  all_goals first
    | exact .refl
    | exact .ite deepen.template.before .refl

theorem skipType : Deepens rules.skipType rules'.skipType :=
  .repeating fun state => (deepen.skipTypePart state).before

theorem skipAnnotation : Deepens rules.skipAnnotation rules'.skipAnnotation :=
  .behind fun _ => .ite deepen.skipType .refl

theorem skipTypes : Deepens rules.skipTypes rules'.skipTypes :=
  .repeating fun _ => deepen.skipType.before

/-! ## Keys and patterns -/

theorem key : Deepens rules.key rules'.key := by
  refine .behind fun current => ?_
  split
  case h_4 => exact .behind fun _ => (deepen.assignment false).before
  all_goals exact .refl

theorem withDefault (start : Nat) (target : Pattern) :
    Deepens (rules.withDefault start target) (rules'.withDefault start target) :=
  .behind fun _ => .ite (deepen.assignment false).before .refl

theorem targetWithDefault : Deepens rules.targetWithDefault rules'.targetWithDefault :=
  .behind fun start => deepen.target.bind fun target => deepen.withDefault start target

theorem arrayTarget : Deepens rules.arrayTarget rules'.arrayTarget :=
  .behind fun _ => .behind fun _ => .ite deepen.target.before deepen.targetWithDefault

theorem objectTarget : Deepens rules.objectTarget rules'.objectTarget := by
  refine .behind fun _ => .ite deepen.target.before (.behind fun start => deepen.key.bind
    fun key => .behind fun _ => .ite deepen.targetWithDefault.before ?_)
  split
  · exact (deepen.withDefault _ _).before
  · exact .refl

theorem bindingTarget : Deepens rules.bindingTarget rules'.bindingTarget :=
  .behind fun _ => .behind fun _ => .ite deepen.arrayTarget.elements.before
    (.behind fun _ => .ite deepen.objectTarget.commaList.before .refl)

/-! ## Functions and classes -/

theorem block : Deepens rules.block rules'.block :=
  .behind fun _ => (Deepens.many (.behind fun _ => .ite .refl deepen.statement)).before

theorem param : Deepens rules.param rules'.param :=
  .behind fun _ => .behind fun _ => .behind fun _ => .ite
    (deepen.target.bind fun _ => deepen.skipAnnotation.before)
    (.behind fun _ => .ite deepen.skipAnnotation.before
      (deepen.target.bind fun _ => .behind fun _ => deepen.skipAnnotation.bind fun _ =>
        (deepen.withDefault _ _).before))

theorem params : Deepens rules.params rules'.params :=
  .behind fun _ => deepen.param.commaList.before

theorem functionRest (start : Nat) (name : Option Name) (isAsync isGenerator : Bool) :
    Deepens (rules.functionRest start name isAsync isGenerator)
      (rules'.functionRest start name isAsync isGenerator) :=
  deepen.skipTypeParams.bind fun _ => deepen.params.withGenerator.bind fun _ =>
    deepen.skipAnnotation.bind fun _ => deepen.block.withGenerator.before

theorem function (start : Nat) (isAsync nameRequired : Bool) :
    Deepens (rules.function start isAsync nameRequired)
      (rules'.function start isAsync nameRequired) :=
  .behind fun _ => .behind fun _ => .behind fun _ => deepen.functionRest _ _ _ _

theorem memberRest (start : Nat) (isStatic : Bool) :
    Deepens (rules.memberRest start isStatic) (rules'.memberRest start isStatic) := by
  refine .behind fun _ => .behind fun _ => .behind fun _ => deepen.key.bind fun _ => .behind fun _ =>
    .ite (deepen.functionRest _ _ _ _).before (.behind fun _ => .ite ?_ (.behind fun _ => ?_))
  all_goals
    exact deepen.skipAnnotation.bind fun _ => .behind fun _ =>
      .ite (deepen.assignment false).map.before .refl

theorem classMember : Deepens rules.classMember rules'.classMember := by
  refine .behind fun _ => .behind fun isStatic => ?_
  cases isStatic with
  | some isStatic => exact deepen.memberRest _ isStatic
  | none => exact .behind fun _ => deepen.block.before

theorem classMembers : Deepens rules.classMembers rules'.classMembers :=
  .repeating fun _ => .behind fun _ => .ite .refl (.behind fun _ => .ite .refl
    (.behind fun _ => .ite .refl deepen.classMember.before))

theorem classDef (nameRequired : Bool) :
    Deepens (rules.classDef nameRequired) (rules'.classDef nameRequired) := by
  refine .behind fun _ => .behind fun _ => .behind fun _ => .ite ?_ (.ite ?_ ?_)
  all_goals
    refine .behind fun _ => deepen.skipTypeParams.bind fun _ => .behind fun _ => .ite
      (deepen.access.bind fun _ => deepen.skipTypeParams.bind fun _ => .behind fun _ => ?_)
      (.behind fun _ => ?_)
  all_goals
    refine .behind fun _ => .ite (deepen.skipTypes.bind fun _ => ?_) ?_
  all_goals exact .behind fun _ => deepen.classMembers.before

/-! ## Elements -/

theorem container : Deepens rules.container rules'.container :=
  .behind fun _ => .ite .refl (deepen.expression false).before

theorem spreadOperand : Deepens rules.spreadOperand rules'.spreadOperand :=
  .behind fun _ => (deepen.assignment false).before

theorem attributeValue (name : String) :
    Deepens (rules.attributeValue name) (rules'.attributeValue name) := by
  refine .behind fun found => ?_
  split
  · exact .refl
  · exact .behind fun _ => deepen.container.before
  · exact (deepen.element _).before
  · exact .refl

theorem namedAttribute (first : Name) :
    Deepens (rules.namedAttribute first) (rules'.namedAttribute first) := by
  refine .behind fun _ => .ite (.behind fun _ => .behind fun _ => .behind fun _ => ?_)
    (.behind fun _ => ?_)
  all_goals exact .ite (deepen.attributeValue _).before .refl

theorem attributes (start : Nat) (name : TagName) (first : Token) :
    Deepens (rules.attributes start name first) (rules'.attributes start name first) := by
  refine .repeating fun (attributes, current) => ?_
  dsimp only
  split
  · exact .refl
  · exact .refl
  · exact (deepen.namedAttribute _).before
  · exact .behind fun _ => deepen.spreadOperand.before
  · exact .refl
  · exact .refl

theorem child (start : Nat) (opened : String) :
    Deepens (rules.child start opened) (rules'.child start opened) := by
  refine .behind fun before => ?_
  split
  · exact .refl
  · exact .behind fun _ => .ite
      (.behind fun _ => .behind fun _ => .ite deepen.spreadOperand.before deepen.container.before)
      (.behind fun _ => .behind fun _ => .ite .refl (.behind fun _ => (deepen.element _).before))

theorem children (start : Nat) (opened : String) :
    Deepens (rules.children start opened) (rules'.children start opened) :=
  .repeating fun _ => .behind fun _ => (deepen.child start opened).before

theorem jsxElement (start : Nat) :
    Deepens (rules.jsxElement start) (rules'.jsxElement start) := by
  refine .behind fun _ => .ite (deepen.children start "").before (.behind fun _ =>
    (deepen.attributes start _ _).bind fun _ => .ite .refl (deepen.children start _).before)

theorem jsxExpr : Deepens rules.jsxExpr rules'.jsxExpr :=
  .behind fun start => (deepen.jsxElement start).before

/-! ## Expressions -/

theorem spreadable : Deepens rules.spreadable rules'.spreadable :=
  .behind fun _ => .behind fun _ => .ite (deepen.assignment false).before
    (deepen.assignment false)

theorem arguments : Deepens rules.arguments rules'.arguments :=
  .behind fun _ => deepen.spreadable.commaList

theorem array : Deepens rules.array rules'.array :=
  .behind fun _ => Deepens.elements (.behind fun _ => .ite .refl deepen.spreadable)

theorem entry : Deepens rules.entry rules'.entry := by
  refine .behind fun _ => .behind fun _ => .ite .refl (.behind fun _ => .ite
    (deepen.assignment false).before (.behind fun _ => .behind fun _ => deepen.key.bind fun key =>
      .behind fun _ => .ite (deepen.functionRest _ _ _ _).before (.behind fun _ => .ite
        (deepen.assignment false).before ?_)))
  split
  · exact .behind fun _ => .ite (deepen.assignment false).before .refl
  · exact .refl

theorem object : Deepens rules.object rules'.object :=
  .behind fun _ => deepen.entry.commaList

theorem wordExpr (start : Nat) (word : String) :
    Deepens (rules.wordExpr start word) (rules'.wordExpr start word) := by
  unfold Rules.wordExpr
  split
  · exact (deepen.function _ _ _).before
  · exact (deepen.classDef false).before
  case h_9 => exact deepen.construction
  case h_10 =>
    exact .ite (.behind fun _ => .ite (.behind fun _ => (deepen.function _ _ _).before)
      .refl) .refl
  all_goals exact .refl

theorem primary : Deepens rules.primary rules'.primary := by
  refine .behind fun current => ?_
  dsimp only
  split
  · exact deepen.wordExpr _ _
  case h_5 => exact deepen.template.before
  case h_6 => exact .behind fun _ => (deepen.expression false).before
  case h_7 => exact deepen.array.before
  case h_8 => exact deepen.object.before
  case h_9 => exact deepen.jsxExpr
  all_goals exact .refl

theorem indexAccess (start : Nat) (owner : Expr) (isOptional : Bool) :
    Deepens (rules.indexAccess start owner isOptional)
      (rules'.indexAccess start owner isOptional) :=
  (deepen.expression false).before

theorem eatTypeArguments : Deepens rules.eatTypeArguments rules'.eatTypeArguments :=
  (Deepens.speculate deepen.skipAngles.before).before

theorem chainStep (start : Nat) (soFar : Expr) :
    Deepens (rules.chainStep start soFar) (rules'.chainStep start soFar) := by
  refine .behind fun current => ?_
  split
  · exact deepen.eatTypeArguments.before
  · exact .refl
  · exact .behind fun _ => .behind fun _ => .ite deepen.arguments.before (.behind fun _ => .ite
      (deepen.indexAccess _ _ _).before .refl)
  · exact .behind fun _ => (deepen.indexAccess _ _ _).before
  · exact deepen.arguments.before
  · exact deepen.template.before
  · exact .refl
  · exact .refl

theorem accessChain : Deepens rules.accessChain rules'.accessChain := by
  refine .behind fun start => .behind fun _ => .ite (deepen.construction.bind fun _ => ?_)
    (deepen.primary.bind fun _ => ?_)
  all_goals exact .repeating fun soFar => (deepen.chainStep start soFar).before

theorem constructed : Deepens rules.constructed rules'.constructed := by
  refine .behind fun start => .behind fun _ => .ite (deepen.construction.bind fun _ => ?_)
    (deepen.primary.bind fun _ => ?_)
  all_goals
    exact .repeating fun soFar => .behind fun _ => .ite .refl (.behind fun _ => .ite
      (deepen.indexAccess _ _ _).before .refl)

theorem newExpr : Deepens rules.newExpr rules'.newExpr := by
  refine .behind fun _ => .behind fun _ => .ite .refl (deepen.constructed.bind fun _ =>
    .behind fun _ => .ite (deepen.eatTypeArguments.bind fun _ => ?_) ?_)
  all_goals exact .behind fun _ => .ite deepen.arguments.before .refl

theorem postfixExpr : Deepens rules.postfixExpr rules'.postfixExpr :=
  .behind fun _ => deepen.accessChain.before

theorem unaryExpr : Deepens rules.unaryExpr rules'.unaryExpr := by
  refine .behind fun current => ?_
  dsimp only
  split
  · exact .behind fun _ => deepen.unary.before
  · exact .behind fun _ => deepen.unary.before
  · exact .ite (.behind fun _ => .ite (.behind fun _ => deepen.unary.before) deepen.postfixExpr)
      deepen.postfixExpr

theorem binaryStep (start least : Nat) (noIn : Bool) (left : Expr) :
    Deepens (rules.binaryStep start least noIn left) (rules'.binaryStep start least noIn left) := by
  refine .behind fun current => ?_
  split
  · exact .refl
  · refine .ite .refl (.behind fun _ => ?_)
    split
    · exact .behind fun _ => .ite .refl deepen.skipType.before
    · exact (deepen.binary _ _).before

theorem binaryExpr (least : Nat) (noIn : Bool) :
    Deepens (rules.binaryExpr least noIn) (rules'.binaryExpr least noIn) :=
  .behind fun start => deepen.unaryExpr.bind fun _ => .repeating fun left =>
    (deepen.binaryStep start least noIn left).before

theorem conditionalExpr (noIn : Bool) :
    Deepens (rules.conditionalExpr noIn) (rules'.conditionalExpr noIn) :=
  .behind fun _ => (deepen.binaryExpr 1 noIn).bind fun _ => .behind fun _ => .ite
    ((deepen.assignment false).bind fun _ => .behind fun _ => (deepen.assignment noIn).before) .refl

theorem arrowParams : Deepens rules.arrowParams rules'.arrowParams := by
  refine .behind fun _ => .ite .refl (.behind fun _ => .behind fun _ => .ite (.behind fun _ =>
    .behind fun _ => .ite (.speculate ?_) .refl) .refl)
  exact deepen.skipTypeParams.bind fun _ => deepen.params.bind fun _ => deepen.skipAnnotation.before

theorem arrowBody (noIn : Bool) : Deepens (rules.arrowBody noIn) (rules'.arrowBody noIn) :=
  .behind fun _ => .ite deepen.block.withGenerator.before (deepen.assignment noIn).before

theorem arrow? (noIn : Bool) : Deepens (rules.arrow? noIn) (rules'.arrow? noIn) := by
  refine .behind fun _ => .behind fun _ => .behind fun _ => deepen.arrowParams.bind fun params => ?_
  cases params with
  | none => exact .refl
  | some params => exact .behind fun _ => (deepen.arrowBody noIn).before

theorem yieldExpr (noIn : Bool) : Deepens (rules.yieldExpr noIn) (rules'.yieldExpr noIn) :=
  .behind fun _ => .behind fun _ => .behind fun _ => .ite .refl (.behind fun _ =>
    (deepen.assignment noIn).map.before)

theorem assignmentExpr (noIn : Bool) :
    Deepens (rules.assignmentExpr noIn) (rules'.assignmentExpr noIn) := by
  refine (deepen.arrow? noIn).bind fun arrow => ?_
  cases arrow with
  | some arrow => exact .refl
  | none =>
      refine .behind fun _ => .behind fun _ => .behind fun _ => .ite (deepen.yieldExpr noIn)
        ((deepen.conditionalExpr noIn).bind fun _ => .behind fun kind => ?_)
      split
      · exact .refl
      · exact .behind fun _ => .behind fun _ => (deepen.assignment noIn).before

/-! ## Declarations -/

theorem declarator (noIn : Bool) :
    Deepens (rules.declarator noIn) (rules'.declarator noIn) :=
  .behind fun _ => deepen.bindingTarget.bind fun _ => .behind fun _ =>
    deepen.skipAnnotation.bind fun _ => .behind fun _ => .ite (deepen.assignment noIn).map.before
      .refl

theorem varDecl (noIn : Bool) : Deepens (rules.varDecl noIn) (rules'.varDecl noIn) :=
  .behind fun _ => (Deepens.repeating fun _ => (deepen.declarator noIn).before).before

theorem varStmt (start : Nat) : Deepens (rules.varStmt start) (rules'.varStmt start) :=
  (deepen.varDecl false).before

theorem enumStmt (start : Nat) : Deepens (rules.enumStmt start) (rules'.enumStmt start) :=
  .behind fun _ => .behind fun _ => (deepen.skipGroup _ _).before

theorem skipNamespace : Deepens rules.skipNamespace rules'.skipNamespace :=
  .behind fun _ => .behind fun _ => .ite (deepen.skipGroup _ _) .refl

theorem interfaceStmt (start : Nat) :
    Deepens (rules.interfaceStmt start) (rules'.interfaceStmt start) :=
  .behind fun _ => .behind fun _ => deepen.skipTypeParams.bind fun _ => .behind fun _ => .ite
    (deepen.skipTypes.bind fun _ => (deepen.skipGroup _ _).before) (deepen.skipGroup _ _).before

theorem typeStmt (start : Nat) : Deepens (rules.typeStmt start) (rules'.typeStmt start) :=
  .behind fun _ => .behind fun _ => deepen.skipTypeParams.bind fun _ => .behind fun _ =>
    deepen.skipType.before

/-! ## Control flow -/

theorem condition : Deepens rules.condition rules'.condition :=
  .behind fun _ => (deepen.expression false).before

theorem ifStmt (start : Nat) : Deepens (rules.ifStmt start) (rules'.ifStmt start) :=
  .behind fun _ => deepen.condition.bind fun _ => deepen.statement.bind fun _ => .behind fun _ =>
    .ite deepen.statement.map.before .refl

theorem loopHead : Deepens rules.loopHead rules'.loopHead :=
  .behind fun _ => .ite .refl (.behind fun _ => .behind fun _ => .ite (deepen.varDecl true).before
    (.behind fun _ => .ite (.behind fun _ => .ite (deepen.varDecl true).before
      (deepen.expression true).before) (deepen.expression true).before))

theorem optionalExpr (close : Punct) :
    Deepens (rules.optionalExpr close) (rules'.optionalExpr close) :=
  .behind fun _ => .ite .refl (deepen.expression false).map.before

theorem forStmt (start : Nat) : Deepens (rules.forStmt start) (rules'.forStmt start) := by
  refine .behind fun _ => .behind fun _ => .behind fun _ => deepen.loopHead.bind fun _ =>
    .behind fun _ => .behind fun _ => .ite (.behind fun _ => .behind fun _ => .ite
      ((deepen.assignment false).bind fun _ => ?_) ((deepen.expression false).bind fun _ => ?_)) ?_
  · exact .behind fun _ => deepen.statement.before
  · exact .behind fun _ => deepen.statement.before
  · exact .behind fun _ => (deepen.optionalExpr _).bind fun _ => (deepen.optionalExpr _).bind
      fun _ => deepen.statement.before

theorem whileStmt (start : Nat) : Deepens (rules.whileStmt start) (rules'.whileStmt start) :=
  .behind fun _ => deepen.condition.bind fun _ => deepen.statement.before

theorem doWhileStmt (start : Nat) :
    Deepens (rules.doWhileStmt start) (rules'.doWhileStmt start) :=
  .behind fun _ => deepen.statement.bind fun _ => .behind fun _ => deepen.condition.before

theorem returnStmt (start : Nat) : Deepens (rules.returnStmt start) (rules'.returnStmt start) :=
  .behind fun _ => .behind fun _ => .ite .refl (deepen.expression false).map.before

theorem throwStmt (start : Nat) : Deepens (rules.throwStmt start) (rules'.throwStmt start) :=
  .behind fun _ => (deepen.expression false).before

theorem tryStmt (start : Nat) : Deepens (rules.tryStmt start) (rules'.tryStmt start) := by
  refine .behind fun _ => deepen.block.bind fun _ => .behind fun _ => .ite
    (.behind fun _ => .ite ?_ (.behind fun _ => ?_)) (.behind fun _ => ?_)
  · exact deepen.bindingTarget.bind fun _ => deepen.skipAnnotation.bind fun _ => .behind fun _ =>
      .behind fun _ => deepen.block.bind fun _ => .behind fun _ => .behind fun _ => .ite
        deepen.block.before .refl
  · exact deepen.block.bind fun _ => .behind fun _ => .behind fun _ => .ite deepen.block.before
      .refl
  · exact .behind fun _ => .ite deepen.block.before .refl

theorem switchArm : Deepens rules.switchArm rules'.switchArm := by
  refine .behind fun _ => .ite ((deepen.expression false).map.bind fun _ => ?_)
    (.behind fun _ => .behind fun _ => ?_)
  all_goals
    exact .behind fun _ => (Deepens.many (.behind fun _ => .ite .refl deepen.statement)).before

theorem switchStmt (start : Nat) : Deepens (rules.switchStmt start) (rules'.switchStmt start) :=
  .behind fun _ => deepen.condition.bind fun _ => .behind fun _ => deepen.switchArm.many.before

/-! ## Imports and exports -/

theorem skipImportAttributes :
    Deepens rules.skipImportAttributes rules'.skipImportAttributes :=
  .behind fun _ => .behind fun _ => .behind fun _ => .ite
    (.behind fun _ => deepen.skipGroup _ _) .refl

theorem importSource : Deepens rules.importSource rules'.importSource :=
  .behind fun _ => deepen.skipImportAttributes.before

theorem importStmt (start : Nat) :
    Deepens (rules.importStmt start) (rules'.importStmt start) := by
  refine .behind fun _ => .behind fun _ => .behind fun kind => ?_
  split
  · exact deepen.importSource.before
  · exact .behind fun _ => .behind fun _ => deepen.importSource.before

theorem exportDefault (start : Nat) :
    Deepens (rules.exportDefault start) (rules'.exportDefault start) := by
  refine .behind fun _ => .behind fun _ => .ite (deepen.function _ _ _).before (.behind fun _ =>
    .ite (.behind fun _ => .ite (.behind fun _ => (deepen.function _ _ _).before) ?_) ?_)
  all_goals
    exact .behind fun _ => .ite (deepen.classDef false).before (deepen.assignment false).before

theorem exportDecl (start : Nat) :
    Deepens (rules.exportDecl start) (rules'.exportDecl start) :=
  deepen.statement.before

theorem exportStmt (start : Nat) :
    Deepens (rules.exportStmt start) (rules'.exportStmt start) := by
  refine .behind fun _ => .behind fun _ => .ite (deepen.exportDefault start) (.behind fun _ => .ite
    .refl (.behind fun _ => .ite (.behind fun _ => .ite (.behind fun _ => ?_) ?_) ?_))
  all_goals exact .behind fun _ => .ite .refl (deepen.exportDecl start)

/-! ## Statements -/

theorem exprStmt (start : Nat) : Deepens (rules.exprStmt start) (rules'.exprStmt start) :=
  (deepen.expression false).before

theorem declareStmt (start : Nat) :
    Deepens (rules.declareStmt start) (rules'.declareStmt start) :=
  .behind fun _ => .behind fun _ => .behind fun _ => .behind fun _ => .ite
    deepen.skipNamespace.before deepen.statement.before

theorem labeledStmt (start : Nat) :
    Deepens (rules.labeledStmt start) (rules'.labeledStmt start) :=
  .behind fun _ => .behind fun _ => deepen.statement.before

theorem functionStmt (start : Nat) (isAsync : Bool) :
    Deepens (rules.functionStmt start isAsync) (rules'.functionStmt start isAsync) :=
  (deepen.function _ _ _).before

theorem classStmt (start : Nat) : Deepens (rules.classStmt start) (rules'.classStmt start) :=
  (deepen.classDef true).before

theorem wordStmt (start : Nat) (leading : Leading) :
    Deepens (rules.wordStmt start leading) (rules'.wordStmt start leading) := by
  cases leading with
  | var => exact deepen.varStmt start
  | function => exact deepen.functionStmt start false
  | asyncFunction => exact .behind fun _ => deepen.functionStmt start true
  | constEnum => exact .behind fun _ => deepen.enumStmt start
  | enum => exact deepen.enumStmt start
  | plainClass => exact deepen.classStmt start
  | abstractClass => exact .behind fun _ => deepen.classStmt start
  | «if» => exact deepen.ifStmt start
  | «for» => exact deepen.forStmt start
  | «while» => exact deepen.whileStmt start
  | «do» => exact deepen.doWhileStmt start
  | «return» => exact deepen.returnStmt start
  | throw => exact deepen.throwStmt start
  | «try» => exact deepen.tryStmt start
  | switch => exact deepen.switchStmt start
  | «import» => exact deepen.importStmt start
  | «export» => exact deepen.exportStmt start
  | interface => exact deepen.interfaceStmt start
  | type => exact deepen.typeStmt start
  | declare => exact deepen.declareStmt start
  | «namespace» => exact deepen.skipNamespace.before
  | labeled => exact deepen.labeledStmt start
  | expression => exact deepen.exprStmt start
  | _ => exact .refl

theorem anyStmt : Deepens rules.anyStmt rules'.anyStmt := by
  refine .behind fun current => ?_
  dsimp only
  split
  · exact deepen.block.before
  · exact .refl
  · exact .behind fun _ => deepen.wordStmt _ _
  · exact deepen.exprStmt _

end Rules.Deepen

end StopMotion.Syntax
