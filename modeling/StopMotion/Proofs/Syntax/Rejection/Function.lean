import StopMotion.Proofs.Syntax.Grammar.Type
import StopMotion.Proofs.Syntax.Rejection.Step
import StopMotion.Syntax.Grammar.Function

/-!
# Where types, patterns and functions are refused

Most rules hand on what the steps of them tell. A template is read on at the cursor where a
substitution ends, and a closing angle bracket may be split off a longer punctuator; both leave a
token that begins where a character does.
-/

namespace StopMotion.Syntax

variable {source : List Char} {low : Nat} {rules : Rules}

namespace Rules

open Parse

/-- What is left of a punctuator behind the bracket that is split off it begins where it says. -/
theorem tells_closeAngle : Tells source low closeAngle := by
  intro state firm
  have yields (goesOn : state.token.kind.isEnd = false) :=
    Rules.Sound.closeAngle_yields (firm.ready goesOn)
  unfold closeAngle at yields ⊢
  refine .look ?_
  split
  · rename_i punct isPunct
    split
    · exact .inl firm.cuts
    · exact Tells.pass state firm
    · rename_i left split
      have yields := yields (by rw [isPunct]; rfl)
      rw [yields_token] at yields
      simp only [isPunct, split] at yields
      have ready := (show _ ∧ _ from yields).1.ready
      exact .of_ready ready rfl (Nat.le_succ_of_le firm.token.behind)
  · exact .inl firm.cuts

end Rules

namespace Rules.Tell

open Parse

variable (tell : rules.Tell source)
include tell

/-! ## Templates and types -/

theorem expression (noIn : Bool) : Tells source low (rules.expression noIn) :=
  .look fun _ => (tell.assignment noIn).bind fun _ => .look fun _ => .ite
    (.spanned (.repeating fun _ => Tells.eat.bind fun _ => .ite
      ((tell.assignment noIn).bind fun _ => .pure) .pure))
    .pure

/-- Behind a substitution the chunk is read that begins with its brace. -/
theorem template : Tells source low rules.template := by
  refine .repeating fun (chunks, substitutions) state firm => ?_
  refine .look ?_
  dsimp only
  split
  · exact (Tells.pass state firm).bind fun _ _ firm => firm
  · rename_i isChunk
    have goesOn : state.token.kind.isEnd = false := by rw [isChunk]; rfl
    refine (tellsAt_resume firm.place (firm.token.closes goesOn) firm.token.le).bind
      fun _ inside firm => ?_
    refine (tell.expression false inside firm).bind fun substitution close firm => ?_
    refine .look ?_
    split
    · rename_i isBrace
      have goesOn := goesOn_of_isPunct isBrace
      have moved : close.token.span.start < close.cursor.pos := by
        rw [← firm.token.ends]
        exact firm.token.stands.filled goesOn
      refine .reading firm.place (points_readChunk firm.token.place firm.token.begins
        (Nat.le_of_lt moved)) fun token cursor read => ?_
      obtain ⟨before, begins, _⟩ := before_readChunk firm.token.place
        (firm.token.stands.opens goesOn) moved read
      refine .modify (.pure ⟨firm.whole, before.mono firm.token.behind, ?_,
        fun _ => firm.closes goesOn⟩)
      exact Nat.le_trans firm.behind (Nat.le_of_eq begins.symm)
    · exact .inl firm.cuts
  · exact Tells.unexpected state firm

theorem skipGroup (opening closing : Punct) :
    Tells source low (rules.skipGroup opening closing) := by
  refine Tells.expect.bind fun _ => .repeating fun depth => .token fun current cuts => .ite
    (.fail cuts) (.ite (tell.template.bind fun _ => .pure) (.ite ?_ (.ite ?_ ?_)))
  · exact Tells.pass.bind fun _ => .pure
  · exact Tells.pass.bind fun _ => .ite .pure .pure
  · exact Tells.pass.bind fun _ => .pure

theorem skipAngles : Tells source low rules.skipAngles := by
  have group (opening closing : Punct) (depth : Nat) :
      Tells source low (do rules.skipGroup opening closing; return (.inl depth : Nat ⊕ Unit)) :=
    (tell.skipGroup opening closing).bind fun _ => .pure
  have pass (depth : Nat) : Tells source low (do pass; return (.inl depth : Nat ⊕ Unit)) :=
    Tells.pass.bind fun _ => .pure
  refine Tells.expect.bind fun _ => .repeating fun depth => .look fun kind => ?_
  split
  · exact .unexpected
  · exact tell.template.bind fun _ => .pure
  · refine .ite (tells_closeAngle.bind fun _ => .ite .pure .pure) ?_
    split
    · exact pass _
    · exact group _ _ _
    · exact group _ _ _
    · exact group _ _ _
    all_goals first
      | exact .unexpected
      | exact pass _
  · exact pass _

theorem skipTypeParams : Tells source low rules.skipTypeParams :=
  .look fun _ => .ite tell.skipAngles .pure

theorem skipTypePart (state : TypeState) : Tells source low (rules.skipTypePart state) := by
  have group (opening closing : Punct) (next : Option TypeState) :
      Tells source low (do rules.skipGroup opening closing; return next) :=
    (tell.skipGroup opening closing).bind fun _ => .pure
  have pass (next : Option TypeState) : Tells source low (do pass; return next) :=
    Tells.pass.bind fun _ => .pure
  refine .look fun current => ?_
  dsimp only
  split
  · exact .ite (group _ _ _) .pure
  · exact .ite (pass _) .pure
  · exact .ite (group _ _ _) .pure
  · exact .ite (group _ _ _) .pure
  · exact tell.skipAngles.bind fun _ => .pure
  · exact pass _
  · exact pass _
  · exact .ite .pure (pass _)
  · exact .ite (pass _) .pure
  · exact .ite (pass _) (.ite (pass _) .pure)
  · exact .ite (pass _) .pure
  · exact .ite (pass _) .pure
  · exact .ite (tell.template.bind fun _ => .pure) .pure
  · exact .pure

theorem skipType : Tells source low rules.skipType := by
  refine .repeating fun state => (tell.skipTypePart state).bind fun answer => ?_
  cases answer <;> exact .pure

theorem skipAnnotation : Tells source low rules.skipAnnotation :=
  Tells.eat.bind fun _ => .ite tell.skipType .pure

theorem skipTypes : Tells source low rules.skipTypes :=
  .repeating fun _ => tell.skipType.bind fun _ => Tells.eat.bind fun _ => .ite .pure .pure

/-! ## Keys and patterns -/

theorem key : Tells source low rules.key := by
  refine .look fun current => ?_
  split
  · exact Tells.pass.bind fun _ => .ite .pure .pure
  · exact Tells.pass.bind fun _ => .pure
  · exact Tells.pass.bind fun _ => .pure
  · exact Tells.pass.bind fun _ => (tell.assignment false).bind fun _ => Tells.expect.bind fun _ =>
      .pure
  · exact .unexpected

theorem withDefault (start : Nat) (target : Pattern) :
    Tells source low (rules.withDefault start target) :=
  Tells.eat.bind fun _ => .ite (.spanned (tell.assignment false)) .pure

theorem targetWithDefault : Tells source low rules.targetWithDefault :=
  .look fun start => tell.target.bind fun target => tell.withDefault start target

theorem arrayTarget : Tells source low rules.arrayTarget :=
  .look fun _ => Tells.eat.bind fun _ => .ite (.spanned tell.target) tell.targetWithDefault

theorem objectTarget : Tells source low rules.objectTarget := by
  refine Tells.eat.bind fun _ => .ite (tell.target.bind fun _ => .pure) (.look fun start =>
    tell.key.bind fun key => Tells.eat.bind fun _ => .ite
      (tell.targetWithDefault.bind fun _ => .pure) ?_)
  split
  · exact (tell.withDefault _ _).bind fun _ => .pure
  · exact .unexpected

end Rules.Tell

namespace Rules

open Parse

/-- Whatever keeps a name from being read, its token is refused. -/
theorem tells_nameTarget : Tells source low nameTarget := by
  intro state firm
  have name := Tells.bindingName state firm
  unfold TellsAt at name ⊢
  unfold nameTarget
  cases run : bindingName state with
  | error error => exact .inl firm.cuts
  | ok answered =>
      rw [run] at name
      exact name

theorem tells_elements {α : Type} {item : Parse α} (tells : Tells source low item) :
    Tells source low (elements item) :=
  .many .eat (Tells.eat.bind fun _ => .ite .pure (tells.bind fun _ => .look fun _ => .ite .pure
    (Tells.expect.bind fun _ => .pure)))

/-! ## Functions and classes -/

theorem tells_skipParamModifiers : Tells source low skipParamModifiers := by
  refine .repeating fun _ => .look fun kind => ?_
  split
  · exact .pure
  · exact .ite (Tells.peek.bind fun _ => .ite (Tells.pass.bind fun _ => .pure) .pure) .pure

theorem tells_definedName {required : Bool} {wanted : Wanted} :
    Tells source low (definedName required wanted) :=
  .look fun _ => .ite (Tells.bindingName.bind fun _ => .pure) (.ite .unexpected .pure)

theorem tells_isModifier : Tells source low isModifier :=
  Tells.peek.bind fun _ => .pure

theorem tells_skipMemberModifiers : Tells source low skipMemberModifiers := by
  refine .repeating fun isStatic => .look fun kind => ?_
  split
  · exact .pure
  · exact .ite .pure (Tells.peek.bind fun _ => .ite .pure (tells_isModifier.bind fun _ => .ite
      (Tells.pass.bind fun _ => .pure) .pure))

theorem tells_eatModifier {words : List String} : Tells source low (eatModifier words) :=
  .look fun _ => .ite (tells_isModifier.bind fun _ => .ite (Tells.pass.bind fun _ => .pure)
    .pure) .pure

end Rules

namespace Rules.Tell

open Parse

variable (tell : rules.Tell source)
include tell

theorem bindingTarget : Tells source low rules.bindingTarget :=
  .look fun _ => Tells.eat.bind fun _ => .ite (.spanned (tells_elements tell.arrayTarget))
    (Tells.eat.bind fun _ => .ite (.spanned (.commaList tell.objectTarget)) tells_nameTarget)

theorem block : Tells source low rules.block :=
  Tells.expect.bind fun _ => .spanned (.many .eat (.token fun _ cuts => .ite (.fail cuts)
    tell.statement))

theorem param : Tells source low rules.param :=
  tells_skipParamModifiers.bind fun _ => .look fun _ => Tells.eat.bind fun _ => .ite
    (tell.target.bind fun _ => .spanned tell.skipAnnotation)
    (Tells.eatWord.bind fun _ => .ite (tell.skipAnnotation.bind fun _ => .pure)
      (tell.target.bind fun _ => Tells.eat.bind fun _ => tell.skipAnnotation.bind fun _ =>
        (tell.withDefault _ _).bind fun _ => .pure))

theorem params : Tells source low rules.params :=
  Tells.expect.bind fun _ => (Tells.commaList tell.param).bind fun _ => .pure

theorem functionRest (start : Nat) (name : Option Name) (isAsync isGenerator : Bool) :
    Tells source low (rules.functionRest start name isAsync isGenerator) :=
  tell.skipTypeParams.bind fun _ => tell.params.withGenerator.bind fun _ =>
    tell.skipAnnotation.bind fun _ => .spanned tell.block.withGenerator

theorem function (start : Nat) (isAsync nameRequired : Bool) :
    Tells source low (rules.function start isAsync nameRequired) :=
  Tells.expectWord.bind fun _ => Tells.eat.bind fun _ => tells_definedName.bind fun _ =>
    tell.functionRest _ _ _ _

theorem memberRest (start : Nat) (isStatic : Bool) :
    Tells source low (rules.memberRest start isStatic) := by
  refine tells_eatModifier.bind fun _ => Tells.eat.bind fun _ => tells_eatModifier.bind fun _ =>
    tell.key.bind fun _ => .look fun _ => .ite (.spanned (tell.functionRest _ _ _ _))
      (Tells.eat.bind fun _ => .ite ?_ (Tells.eat.bind fun _ => ?_))
  all_goals
    exact tell.skipAnnotation.bind fun _ => Tells.eat.bind fun _ =>
      .ite ((tell.assignment false).map.bind fun _ => .spanned .semicolon)
        (Tells.pure.bind fun _ => .spanned .semicolon)

theorem classMember : Tells source low rules.classMember := by
  refine .look fun start => tells_skipMemberModifiers.bind fun isStatic => ?_
  cases isStatic with
  | some isStatic => exact tell.memberRest start isStatic
  | none => exact Tells.pass.bind fun _ => .spanned tell.block

theorem classMembers : Tells source low rules.classMembers :=
  .repeating fun _ => Tells.eat.bind fun _ => .ite .pure (.look fun _ => .ite .unexpected
    (Tells.eat.bind fun _ => .ite .pure (tell.classMember.bind fun _ => .pure)))

theorem classDef (nameRequired : Bool) : Tells source low (rules.classDef nameRequired) := by
  refine Tells.expectWord.bind fun _ => .look fun _ => .look fun _ => .ite
    (Tells.bindingName.map.bind fun _ => ?_)
    (.ite (Tells.unexpected.bind fun _ => ?_) (Tells.pure.bind fun _ => ?_))
  all_goals
    refine tell.skipTypeParams.bind fun _ => Tells.eatWord.bind fun _ => .ite
      (tell.access.bind fun _ => tell.skipTypeParams.bind fun _ => Tells.pure.bind fun _ => ?_)
      (Tells.pure.bind fun _ => ?_)
  all_goals
    refine Tells.eatWord.bind fun _ => .ite (tell.skipTypes.bind fun _ => ?_) ?_
  all_goals exact Tells.expect.bind fun _ => .spanned tell.classMembers

end Rules.Tell

end StopMotion.Syntax
