import StopMotion.Proofs.Syntax.Grammar.Jsx
import StopMotion.Proofs.Syntax.Rejection.Function

/-!
# Where elements are refused

Between the brackets of an element the tokens are read at the cursor, so a token that is refused
there was handed on from the step that read it. What is left open is refused at its `<`.
-/

namespace StopMotion.Syntax

open Text (EdgeAt ClosesAt)

variable {source : List Char} {low lower : Nat} {state : ParseState} {rules : Rules}

/-- A token that was read in a tag, before the place where the cursor stays. -/
structure Tag (source : List Char) (low : Nat) (token : Token) (state : ParseState) : Prop where
  stays : Stays source low state
  before : token.Before source low state.cursor

theorem Stays.mono (stays : Stays source low state) (le : lower ≤ low) :
    Stays source lower state :=
  { stays with le := Nat.le_trans le stays.le }

theorem Tag.mono {token : Token} (tag : Tag source low token state) (le : lower ≤ low) :
    Tag source lower token state :=
  ⟨tag.stays.mono le, tag.before.mono le⟩

/-- A token stands no further on than where it does. -/
theorem Tag.own {token : Token} (tag : Tag source low token state) :
    Tag source token.span.start token state :=
  have before := { tag.before with behind := Nat.le_refl _ }
  ⟨{ tag.stays with le := before.le }, before⟩

/-- A stretch from a token to the place where the cursor stays. -/
theorem Stays.cuts_from {start : Nat} (stays : Stays source start state)
    (begins : EdgeAt source start) : Span.Cuts source ⟨start, state.cursor.pos⟩ :=
  begins.cuts stays.place.cursor.edgeAt stays.le

/-- An opening angle bracket that was read is one character. -/
theorem Token.Before.opens {token : Token} {cursor : Cursor}
    (before : token.Before source low cursor) (isAngle : token.kind = .punct .less) :
    Span.Cuts source ⟨token.span.start, token.span.start + 1⟩ := by
  obtain ⟨_, _, _, begins, ends⟩ := before.stands.spelled "<" (by rw [isAngle]; rfl)
  have stop : token.span.start + 1 = token.span.stop := by
    rw [← ends, ← begins]
    rfl
  rw [stop]
  exact before.cuts

namespace Rules

open Parse

theorem tellsAt_tagToken (stays : Stays source low state) :
    TellsAt source tagToken state fun token next => Tag source low token next := by
  unfold tagToken
  rw [← bind_pure (reading _)]
  refine .reading stays.place (points_readTagToken stays.place.cursor) fun token cursor read => ?_
  have before := (before_readTagToken stays.place.cursor read).mono stays.le
  exact .pure ⟨⟨⟨stays.place.whole, before.place⟩, stays.cuts, before.le⟩, before⟩

theorem tellsAt_tagWord {cause : Cause} (stays : Stays source low state) :
    TellsAt source (tagWord cause) state fun _ next => Stays source low next := by
  refine (tellsAt_tagToken stays).bind fun token next tag => ?_
  split
  · exact .pure tag.stays
  · exact .fail tag.before.cuts

theorem tellsAt_tagMembers {first : Name} {current : Token} (tag : Tag source low current state) :
    TellsAt source (tagMembers first current) state fun answer next =>
      Tag source low answer.2 next := by
  refine tellsAt_repeating (fun soFar next => Tag source low soFar.2 next) tag
    (fun _ _ tag => tag.stays.cuts) fun (parts, current) state tag => ?_
  dsimp only
  split
  · exact (tellsAt_tagWord tag.stays).bind fun part next stays =>
      (tellsAt_tagToken stays).bind fun _ _ tag => .pure tag
  · exact .pure tag

theorem tellsAt_tagName {current : Token} (tag : Tag source low current state) :
    TellsAt source (tagName current) state fun answer next => Tag source low answer.2 next := by
  unfold tagName
  split
  · refine (tellsAt_tagToken tag.stays).bind fun found next tag => ?_
    split
    · exact (tellsAt_tagMembers tag).bind fun _ _ tag => .pure tag
    · split
      · exact (tellsAt_tagWord tag.stays).bind fun second next stays =>
          (tellsAt_tagToken stays).bind fun _ _ tag => .pure tag
      · exact .pure tag
  · exact .fail tag.before.cuts

/-- What a closing tag is refused for lies between the tokens of it. -/
theorem tellsAt_closingTag {opened : String} (stays : Stays source low state) :
    TellsAt source (closingTag opened) state fun _ next =>
      Stays source low next ∧ ClosesAt source next.cursor.pos := by
  have finish (first next : Token) (closed : String) (last : ParseState)
      (begins : EdgeAt source first.span.start) (tag : Tag source low next last)
      (le : first.span.start ≤ next.span.start) :
      TellsAt source (do
          unless next.kind.isPunct .greater do
            fail next.span .expectedClosingTagEnd
          unless closed = opened do
            fail ⟨first.span.start, next.span.start⟩ (.mismatchedTag opened closed)) last
        fun _ next => Stays source low next ∧ ClosesAt source next.cursor.pos := by
    refine .guarded tag.before.cuts fun isGreater => ?_
    split
    · exact .pure ⟨tag.stays, tag.before.closes (goesOn_of_isPunct isGreater)⟩
    · exact .fail (begins.cuts tag.before.begins le)
  refine (tellsAt_tagToken stays).bind fun first next tag => ?_
  have begins := tag.before.begins
  split
  · exact finish first first "" next begins tag (Nat.le_refl _)
  · refine (tellsAt_tagName tag.own).bind fun answer last nameTag => ?_
    exact finish first answer.2 answer.1.text last begins (nameTag.mono tag.before.behind)
      nameTag.before.behind

/-! ## Attributes -/

end Rules

namespace Rules.Tell

open Parse

variable (tell : rules.Tell source)
include tell

theorem container : Tells source low rules.container :=
  .look fun _ => .ite .pure ((tell.expression false).bind fun _ => .look fun _ => .ite .pure
    (Tells.unexpected.bind fun _ => .pure))

theorem spreadOperand : Tells source low rules.spreadOperand :=
  Tells.expect.bind fun _ => (tell.assignment false).bind fun _ => .look fun _ => .ite .pure
    (Tells.unexpected.bind fun _ => .pure)

/-- A value in braces that is empty is refused from its brace to the place reached. -/
theorem tellsAt_attributeValue {name : String} (stays : Stays source low state) :
    TellsAt source (rules.attributeValue name) state fun _ next => Stays source low next := by
  refine (tellsAt_tagToken stays).bind fun found next tag => ?_
  split
  · exact .pure tag.stays
  · rename_i isBrace
    refine (tellsAt_resume tag.stays.place (tag.before.closes (goesOn_of_eq isBrace rfl))
      tag.own.stays.le).bind fun _ inside firm => ?_
    refine (tell.container inside firm).bind fun value last firm => ?_
    split
    · exact .pure (firm.stays.mono tag.before.behind)
    · exact .look (.fail (firm.stays.cuts_from tag.before.begins))
  · rename_i isAngle
    refine (tell.element tag.stays (tag.before.opens isAngle)).bind fun _ _ held => ?_
    exact .pure held.1
  · exact .fail tag.before.cuts

theorem tellsAt_namedAttribute {first : Name} (stays : Stays source low state) :
    TellsAt source (rules.namedAttribute first) state fun answer next =>
      Tag source low answer.2 next := by
  have finish (name : String) (stop : Nat) (current : Token) (last : ParseState)
      (tag : Tag source low current last) :
      TellsAt source (do
          if current.kind.isPunct .assign then
            let value ← rules.attributeValue name
            let span := ⟨first.span.start, ← cursorPos⟩
            return (value span, ← tagToken)
          else
            return (Node.attrFlag ⟨first.span.start, stop⟩ name, current)) last
        fun answer next => Tag source low answer.2 next := by
    split
    · exact (tell.tellsAt_attributeValue tag.stays).bind fun make next stays => .look
        ((tellsAt_tagToken stays).bind fun _ _ tag => .pure tag)
    · exact .pure tag
  refine (tellsAt_tagToken stays).bind fun next behind tag => ?_
  split
  · refine (tellsAt_tagWord tag.stays).bind fun second inside stays => ?_
    refine (tellsAt_tagToken stays).bind fun current last tag => ?_
    exact finish _ _ current last tag
  · exact finish _ _ next behind tag

/-- Attributes end with an angle bracket. -/
theorem tellsAt_attributes {start : Nat} {name : TagName} {first : Token}
    (tag : Tag source low first state) (opens : Span.Cuts source ⟨start, start + 1⟩) :
    TellsAt source (rules.attributes start name first) state fun _ next =>
      Stays source low next ∧ ClosesAt source next.cursor.pos := by
  refine tellsAt_repeating (fun soFar next => Tag source low soFar.2 next) tag
    (fun _ _ tag => tag.stays.cuts) fun (attributes, current) state tag => ?_
  dsimp only
  split
  · exact (tellsAt_tagToken tag.stays).bind fun close next tag => .guarded tag.before.cuts
      fun isGreater => .pure ⟨tag.stays, tag.before.closes (goesOn_of_isPunct isGreater)⟩
  · rename_i isGreater
    exact .pure ⟨tag.stays, tag.before.closes (goesOn_of_eq isGreater rfl)⟩
  · exact (tell.tellsAt_namedAttribute tag.stays).bind fun _ _ tag => .pure tag
  · rename_i isBrace
    refine (tellsAt_resume tag.stays.place (tag.before.closes (goesOn_of_eq isBrace rfl))
      tag.stays.le).bind fun _ inside firm => ?_
    exact (tell.spreadOperand inside firm).bind fun _ _ firm => .look
      ((tellsAt_tagToken firm.stays).bind fun _ _ tag => .pure tag)
  · exact .fail opens
  · exact .fail tag.before.cuts

/-! ## Children -/

/-- A child is read where a brace or an angle bracket stands. -/
theorem tellsAt_child {start : Nat} {opened : String} (stays : Stays source low state)
    (opens : Span.Cuts source ⟨start, start + 1⟩)
    (begins : ∀ c rest, state.cursor.rest = c :: rest → c = '\x7b' ∨ c = '<') :
    TellsAt source (rules.child start opened) state fun answer next =>
      Stays source low next ∧ (answer = none → ClosesAt source next.cursor.pos) := by
  unfold Rules.child
  refine .place stays.place ?_
  have place := stays.place.cursor
  split
  · exact .fail opens
  · rename_i c rest isNext
    have filled : Text.isBlank c = false := by
      rcases begins c rest isNext with rfl | rfl <;> rfl
    have reads := state.cursor.reads_skip 1
    rw [isNext] at reads
    have closes := place.closesAt reads (by simp) filled
    have onwards := Nat.le_trans stays.le reads.le
    let inside : ParseState := { state with cursor := state.cursor.skip 1 }
    have insideStays : Stays source low inside :=
      ⟨⟨stays.place.whole, place.reads reads⟩, stays.cuts, onwards⟩
    refine .modify ?_
    split
    · refine (tellsAt_resume insideStays.place closes onwards).bind fun _ inside firm => ?_
      refine .look ?_
      split
      · exact (tell.spreadOperand inside firm).bind fun _ _ firm => .pure ⟨firm.stays, nofun⟩
      · exact (tell.container inside firm).bind fun _ _ firm => .look (.pure ⟨firm.stays, nofun⟩)
    · rename_i notBrace
      obtain rfl := (begins c rest isNext).resolve_left notBrace
      refine .look ((tellsAt_tagToken insideStays).bind fun token next tag => ?_)
      split
      · exact (tellsAt_closingTag tag.stays).bind fun _ _ held => .pure ⟨held.1, fun _ => held.2⟩
      · have angle : Span.Cuts source ⟨state.cursor.pos, state.cursor.pos + 1⟩ := by
          have edge := (place.reads reads).edgeAt
          rw [pos_skip_one isNext] at edge
          exact place.edgeAt.cuts edge (Nat.le_succ _)
        let there : ParseState := { next with cursor := state.cursor.skip 1 }
        have thereStays : Stays source low there :=
          ⟨⟨tag.stays.place.whole, place.reads reads⟩, tag.stays.cuts, onwards⟩
        exact .modify (TellsAt.bind (tell.element thereStays angle) fun _ _ held =>
          .pure ⟨held.1, nofun⟩)

theorem tellsAt_children {start : Nat} {opened : String} (stays : Stays source low state)
    (opens : Span.Cuts source ⟨start, start + 1⟩) :
    TellsAt source (rules.children start opened) state fun _ next =>
      Stays source low next ∧ ClosesAt source next.cursor.pos := by
  refine tellsAt_repeating (fun _ => Stays source low) stays (fun _ _ stays => stays.cuts)
    fun children last stays => ?_
  obtain ⟨_, reads, _⟩ := reads_readText last.cursor
  refine .reading stays.place (points_ok _) fun text after textRead => ?_
  have isText := Except.ok.inj textRead
  obtain rfl : (readText last.cursor).2 = after := congrArg Prod.snd isText
  have inside : Stays source low { last with cursor := (readText last.cursor).2 } :=
    ⟨⟨stays.place.whole, stays.place.cursor.reads reads⟩, stays.cuts,
      Nat.le_trans stays.le reads.le⟩
  refine TellsAt.bind (tell.tellsAt_child inside opens (rest_readText last.cursor))
    fun answer next held => ?_
  split
  · exact .pure held.1
  · exact .pure ⟨held.1, held.2 rfl⟩

/-! ## Elements -/

theorem jsxElement {start : Nat} (stays : Stays source low state)
    (opens : Span.Cuts source ⟨start, start + 1⟩) :
    TellsAt source (rules.jsxElement start) state fun _ next =>
      Stays source low next ∧ ClosesAt source next.cursor.pos := by
  refine (tellsAt_tagToken stays).bind fun first next tag => ?_
  split
  · exact (tell.tellsAt_children tag.stays opens).bind fun _ _ held => .look (.pure held)
  · refine (tellsAt_tagName tag).bind fun answer inside tag => ?_
    refine (tell.tellsAt_attributes tag opens).bind fun answer last held => ?_
    obtain ⟨attributes, isClosed⟩ := answer
    dsimp only
    split
    · exact .look (.look (.pure held))
    · exact (tell.tellsAt_children held.1 opens).bind fun _ _ held => .look (.pure held)

/-- An element as an expression begins with its `<`. -/
theorem tellsAt_jsxExpr (firm : Firm source low state)
    (isAngle : state.token.kind = .punct .less) :
    TellsAt source rules.jsxExpr state fun _ next => Firm source low next := by
  refine .look ((tell.jsxElement firm.stays (firm.token.opens isAngle)).bind
    fun _ last held => ?_)
  exact .look ((tellsAt_resume held.1.place held.2 held.1.le).bind fun _ _ firm => .pure firm)

end Rules.Tell

end StopMotion.Syntax
