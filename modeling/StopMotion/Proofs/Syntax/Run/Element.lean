import StopMotion.Proofs.Syntax.Run.Line
import StopMotion.Proofs.Syntax.Run.Operand

/-!
# Elements on a known text

What the rules for JSX answer on an element with attributes in containers, and with one container
or nothing inside. Inside a tag and between tags the cursor is where the reading is, and the
current token is of no account.
-/

namespace StopMotion.Syntax

namespace Rules

open Parse

variable {rules : Rules} {state : ParseState} {kind kind' last : TokenKind}
  {newline newline' newline'' lastNewline : Bool}
  {text text' text'' lastText behind : List Char} {start : Nat}

/-! ## Steps inside a tag -/

theorem tagToken_runs (before : state.Before text) (spells : SpellsInTag text kind newline text') :
    Runs tagToken state fun found next => found.kind = kind ∧ next.Before text' := by
  have spelled := spells state.cursor.pos
  rw [← before.cursor_eq] at spelled
  obtain ⟨found, cursor, read, isKind, -, isRest⟩ := exists_of_seen? spelled
  have place := (read_readTagToken before.place.cursor read).place
  exact ⟨found, { state with cursor }, reading_eq before read, isKind, ⟨rfl, place⟩, isRest⟩

@[simp] theorem runs_cursorPos {β : Type} {more : Nat → Parse β}
    {after : β → ParseState → Prop} :
    Runs (cursorPos >>= more) state after ↔ Runs (more state.cursor.pos) state after := Iff.rfl

/-- The text up to the next tag or container. -/
theorem readText_runs {value : String} (before : state.Before text)
    (spells : SpellsText text value text') :
    Runs (reading fun cursor => .ok (readText cursor)) state fun found next =>
      (∃ span, found = some (value, span)) ∧ next.Before text' := by
  have spelled := spells state.cursor.pos
  rw [← before.cursor_eq] at spelled
  simp only [Prod.mk.injEq, Option.map_eq_some_iff] at spelled
  obtain ⟨⟨⟨_, span⟩, found, rfl⟩, isRest⟩ := spelled
  obtain ⟨taken, reads, -⟩ := reads_readText state.cursor
  exact ⟨_, { state with cursor := (readText state.cursor).2 }, reading_eq before rfl,
    ⟨span, found⟩, ⟨rfl, before.place.cursor.reads reads⟩, isRest⟩

theorem place_runs (before : state.Before text) :
    Runs place state fun cursor next => cursor = state.cursor ∧ next = state :=
  ⟨_, _, reading_eq before rfl, rfl, rfl⟩

/-- A tag name without dots and colons. -/
theorem tagName_runs {current : Token} {name : String} (named : current.kind = .word name)
    (before : state.Before text) (behind : SpellsInTag text kind newline text')
    (noDot : kind.isPunct .dot = false) (noColon : kind.isPunct .colon = false) :
    Runs (tagName current) state fun answer next =>
      (answer.1 = .plain ⟨name, current.span⟩ ∧ answer.2.kind = kind) ∧ next.Before text' := by
  unfold tagName
  simp only [named]
  apply (tagToken_runs before behind).bind
  rintro found next ⟨rfl, beforeNext⟩
  simp only [noDot, noColon, Bool.false_eq_true, if_false]
  exact .pure ⟨⟨rfl, rfl⟩, beforeNext⟩

/-- The expression in a container. -/
theorem container_runs {holds : Expr → Prop}
    (filled : state.token.kind.isPunct .closeBrace = false)
    (runs : Runs (rules.expression false) state fun value next =>
      holds value ∧ Stands next [.punct .closeBrace] text) :
    Runs rules.container state fun answer next =>
      (∃ value, answer = some value ∧ holds value) ∧ next.Before text := by
  unfold container
  simp only [runs_at?, filled, Bool.false_eq_true, if_false]
  apply runs.bind
  rintro value next ⟨held, stands⟩
  obtain ⟨newline, sees⟩ := stands.one
  have closes : next.token.kind.isPunct .closeBrace = true := by
    rw [sees.kind]
    rfl
  simp only [runs_at?, closes, if_true]
  exact .pure ⟨⟨value, rfl, held⟩, sees.toBefore⟩

/-! ## Attributes -/

/-- The value of an attribute in a container. -/
theorem attributeValue_runs {name : String} {holds : Expr → Prop} (before : state.Before text)
    (brace : SpellsInTag text (.punct .openBrace) newline text')
    (operand : Spells text' kind newline' text'')
    (filled : kind.isPunct .closeBrace = false)
    (runs : ∀ next, Sees next kind newline' text'' →
      Runs (rules.expression false) next fun value after =>
        holds value ∧ Stands after [.punct .closeBrace] lastText) :
    Runs (rules.attributeValue name) state fun make next =>
      (∃ value, (∀ span, make span = .attrExpr span name value) ∧ holds value) ∧
        next.Before lastText := by
  unfold attributeValue
  apply (tagToken_runs before brace).bind
  rintro found next ⟨isBrace, beforeNext⟩
  simp only [isBrace]
  apply (resume_runs beforeNext operand).bind
  intro _ next sees
  apply (container_runs (by rw [sees.kind]; exact filled) (runs next sees)).bind
  rintro _ after ⟨⟨value, rfl, held⟩, beforeAfter⟩
  exact .pure ⟨⟨value, fun _ => rfl, held⟩, beforeAfter⟩

/-- An attribute with a value. -/
theorem namedAttribute_runs {first : Name} {holds : (Span → Node .jsxAttribute) → Prop}
    (before : state.Before text) (assign : SpellsInTag text (.punct .assign) newline text')
    (runs : ∀ next, next.Before text' →
      Runs (rules.attributeValue first.text) next fun make after =>
        holds make ∧ after.Before text'')
    (behind : SpellsInTag text'' last lastNewline lastText) :
    Runs (rules.namedAttribute first) state fun answer next =>
      ((∃ make span, answer.1 = make span ∧ holds make) ∧ answer.2.kind = last) ∧
        next.Before lastText := by
  unfold namedAttribute
  apply (tagToken_runs before assign).bind
  rintro found next ⟨isAssign, beforeNext⟩
  have noColon : found.kind.isPunct .colon = false := by
    rw [isAssign]
    rfl
  have equals : found.kind.isPunct .assign = true := by
    rw [isAssign]
    rfl
  simp only [noColon, Bool.false_eq_true, if_false, runs_pure_bind, equals, if_true]
  apply (runs next beforeNext).bind
  rintro make after ⟨held, beforeAfter⟩
  rw [runs_cursorPos]
  apply (tagToken_runs beforeAfter behind).bind
  rintro found _ ⟨isLast, beforeLast⟩
  exact .pure ⟨⟨⟨make, _, rfl, held⟩, isLast⟩, beforeLast⟩

/-- An attribute with its value in a container. -/
theorem namedAttribute_operand {first : Name} {holds : Expr → Prop} {lastText' : List Char}
    (before : state.Before text) (assign : SpellsInTag text (.punct .assign) newline text')
    (brace : SpellsInTag text' (.punct .openBrace) newline' text'')
    (operand : Spells text'' kind newline'' behind) (filled : kind.isPunct .closeBrace = false)
    (runs : ∀ next, Sees next kind newline'' behind →
      Runs (rules.expression false) next fun value after =>
        holds value ∧ Stands after [.punct .closeBrace] lastText)
    (next : SpellsInTag lastText last lastNewline lastText') :
    Runs (rules.namedAttribute first) state fun answer after =>
      ((∃ span value, answer.1 = .attrExpr span first.text value ∧ holds value) ∧
        answer.2.kind = last) ∧ after.Before lastText' := by
  apply (namedAttribute_runs before assign
    (fun _ before => attributeValue_runs before brace operand filled runs) next).mono
  rintro ⟨_, found⟩ _ ⟨⟨⟨make, span, rfl, value, made, held⟩, isLast⟩, beforeNext⟩
  exact ⟨⟨⟨span, value, made span, held⟩, isLast⟩, beforeNext⟩

/-- The attributes of a tag from a token on, `few` rounds at most, behind those collected so
far. -/
def attributesAtMost (rules : Rules) (start : Nat) (name : TagName) (few : Nat)
    (soFar : List (Node .jsxAttribute)) (first : Token) :
    Parse (List (Node .jsxAttribute) × Bool) :=
  repeatAtMost (fun (attributes, current) => do
    match current.kind with
    | .punct .slash =>
      let close ← tagToken
      unless close.kind.isPunct .greater do
        fail close.span .expectedTagEnd
      return .inr (attributes.reverse, true)
    | .punct .greater => return .inr (attributes.reverse, false)
    | .word text =>
      let (value, next) ← rules.namedAttribute ⟨text, current.span⟩
      return .inl (value :: attributes, next)
    | .punct .openBrace =>
      resume true
      let operand ← rules.spreadOperand
      let span := ⟨current.span.start, ← cursorPos⟩
      return .inl (.attrSpread span operand :: attributes, ← tagToken)
    | .endOfInput => fail ⟨start, start + 1⟩ (.unterminatedTag name.text)
    | _ => fail current.span (.unexpectedInTag current.kind)) few (soFar, first)

section Attributes

variable {name : TagName} {first : Token} {few : Nat} {soFar : List (Node .jsxAttribute)}
  {word : String} {ends : List (Node .jsxAttribute) × Bool → ParseState → Prop}

theorem attributes_runs (few : Nat) (le : few ≤ state.cursor.rest.length + 2)
    (runs : Runs (rules.attributesAtMost start name few [] first) state ends) :
    Runs (rules.attributes start name first) state ends :=
  repeating_runs few le runs

/-- One more attribute, and the others. -/
theorem attributesAtMost_more (named : first.kind = .word word)
    (runs : Runs (rules.namedAttribute ⟨word, first.span⟩) state fun answer next =>
      Runs (rules.attributesAtMost start name few (answer.1 :: soFar) answer.2) next ends) :
    Runs (rules.attributesAtMost start name (few + 1) soFar first) state ends := by
  apply repeatAtMost_succ
  simp only [named]
  apply runs.bind
  rintro ⟨made, found⟩ next others
  exact .pure others

/-- The end of an opening tag. -/
theorem attributesAtMost_opens (closes : first.kind = .punct .greater)
    (held : ends (soFar.reverse, false) state) :
    Runs (rules.attributesAtMost start name (few + 1) soFar first) state ends := by
  apply repeatAtMost_succ
  simp only [closes]
  exact .pure held

/-- The end of a tag without children. -/
theorem attributesAtMost_closes (slash : first.kind = .punct .slash) (before : state.Before text)
    (closes : SpellsInTag text (.punct .greater) newline lastText)
    (held : ∀ next, next.Before lastText → ends (soFar.reverse, true) next) :
    Runs (rules.attributesAtMost start name (few + 1) soFar first) state ends := by
  apply repeatAtMost_succ
  simp only [slash]
  apply (tagToken_runs before closes).bind
  rintro found next ⟨isClose, beforeNext⟩
  have isGreater : found.kind.isPunct .greater = true := by
    rw [isClose]
    rfl
  rw [isGreater]
  exact .pure (held next beforeNext)

end Attributes

/-! ## Children -/

/-- A child in a container. -/
theorem child_container {opened : String} {holds : Expr → Prop}
    (before : state.Before ('\x7b' :: text)) (operand : Spells text kind newline text')
    (noSpread : kind.isPunct .ellipsis = false) (filled : kind.isPunct .closeBrace = false)
    (runs : ∀ next, Sees next kind newline text' →
      Runs (rules.expression false) next fun value after =>
        holds value ∧ Stands after [.punct .closeBrace] lastText) :
    Runs (rules.child start opened) state fun answer next =>
      (∃ span value, answer = some (.childExpr span (.present value)) ∧ holds value) ∧
        next.Before lastText := by
  unfold child
  apply (place_runs before).bind
  rintro _ _ ⟨rfl, rfl⟩
  simp only [before.rest, runs_modify, if_true]
  apply (resume_runs before.skip_one operand).bind
  intro _ next sees
  rw [runs_at?, sees.kind, noSpread]
  apply (container_runs (by rw [sees.kind]; exact filled) (runs next sees)).bind
  rintro _ after ⟨⟨value, rfl, held⟩, beforeAfter⟩
  rw [runs_cursorPos]
  exact .pure ⟨⟨_, value, rfl, held⟩, beforeAfter⟩

/-- The end of a closing tag behind its slash. -/
theorem closingTag_runs {name : String} (before : state.Before text)
    (named : SpellsInTag text (.word name) newline text')
    (closes : SpellsInTag text' (.punct .greater) lastNewline lastText) :
    Runs (closingTag name) state fun _ next => next.Before lastText := by
  unfold closingTag
  apply (tagToken_runs before named).bind
  rintro first next ⟨isName, beforeNext⟩
  have goesOn : first.kind.isPunct .greater = false := by
    rw [isName]
    rfl
  simp only [goesOn, Bool.false_eq_true, if_false]
  apply (tagName_runs isName beforeNext closes rfl rfl).bind
  rintro ⟨_, found⟩ after ⟨⟨rfl, isClose : found.kind = .punct .greater⟩, beforeAfter⟩
  have ends : found.kind.isPunct .greater = true := by
    rw [isClose]
    rfl
  simp only [runs_pure_bind, ends, TagName.text, if_true]
  exact .pure beforeAfter

/-- The closing tag of an element with a plain name. -/
theorem child_closing {name : String}
    (before : state.Before ('<' :: text)) (slash : SpellsInTag text (.punct .slash) newline text')
    (named : SpellsInTag text' (.word name) newline' text'')
    (closes : SpellsInTag text'' (.punct .greater) lastNewline lastText) :
    Runs (rules.child start name) state fun answer next =>
      answer = none ∧ next.Before lastText := by
  have noBrace : ('<' = '\x7b') = False := by simp
  unfold child
  apply (place_runs before).bind
  rintro _ _ ⟨rfl, rfl⟩
  simp only [before.rest, runs_modify, noBrace, if_false, runs_get]
  apply (tagToken_runs before.skip_one slash).bind
  rintro found next ⟨isSlash, beforeNext⟩
  have ends : found.kind.isPunct .slash = true := by
    rw [isSlash]
    rfl
  simp only [ends, if_true]
  apply (closingTag_runs beforeNext named closes).bind
  intro _ after beforeAfter
  exact .pure ⟨rfl, beforeAfter⟩

/-- The children of an element that holds one container with text around it. -/
theorem children_runs {opened first second : String} {holds : Expr → Prop}
    (before : state.Before text) (firstText : SpellsText text first text')
    (container : ∀ next, next.Before text' →
      Runs (rules.child start opened) next fun answer after =>
        (∃ span value, answer = some (.childExpr span (.present value)) ∧ holds value) ∧
          after.Before text'')
    (secondText : SpellsText text'' second lastText)
    (closing : ∀ next, next.Before lastText →
      Runs (rules.child start opened) next fun answer after =>
        answer = none ∧ after.Before behind) :
    Runs (rules.children start opened) state fun children next =>
      (∃ firstSpan span value secondSpan, children = [.childText firstSpan first,
        .childExpr span (.present value), .childText secondSpan second] ∧ holds value) ∧
          next.Before behind := by
  apply repeating_runs 2 (by omega)
  apply repeatAtMost_succ
  apply (readText_runs before firstText).bind
  rintro _ next ⟨⟨firstSpan, rfl⟩, beforeNext⟩
  apply (container next beforeNext).bind
  rintro _ next ⟨⟨span, value, rfl, held⟩, beforeNext⟩
  apply Runs.pure
  apply repeatAtMost_succ
  apply (readText_runs beforeNext secondText).bind
  rintro _ next ⟨⟨secondSpan, rfl⟩, beforeNext⟩
  apply (closing next beforeNext).bind
  rintro _ after ⟨rfl, beforeAfter⟩
  exact .pure ⟨⟨firstSpan, span, value, secondSpan, rfl, held⟩, beforeAfter⟩

/-! ## Elements -/

/-- An element with a plain name, with its attributes, and with its children if the tag does not
end in a slash. -/
theorem jsxElement_runs {name : String} {isClosed : Bool}
    {holds : List (Node .jsxAttribute) → Prop} {holdsChildren : List (Node .child) → Prop}
    (before : state.Before text) (named : SpellsInTag text (.word name) newline text')
    (second : SpellsInTag text' kind newline' text'')
    (noDot : kind.isPunct .dot = false) (noColon : kind.isPunct .colon = false)
    (attributes : ∀ tag first next, next.Before text'' → first.kind = kind →
      Runs (rules.attributes start tag first) next fun answer after =>
        (∃ made, answer = (made, isClosed) ∧ holds made) ∧ after.Before behind)
    (children : ∀ next, next.Before behind →
      Runs (if isClosed then pure [] else rules.children start name) next fun answer after =>
        holdsChildren answer ∧ after.Before lastText) :
    Runs (rules.jsxElement start) state fun element next =>
      (∃ span nameSpan made inside, element =
        .tag span (some (.plain ⟨name, nameSpan⟩)) (.ofList made) (.ofList inside) ∧
          holds made ∧ holdsChildren inside) ∧ next.Before lastText := by
  unfold jsxElement
  apply (tagToken_runs before named).bind
  rintro first next ⟨isName, beforeNext⟩
  have opens : first.kind.isPunct .greater = false := by
    rw [isName]
    rfl
  simp only [opens, Bool.false_eq_true, if_false]
  apply (tagName_runs isName beforeNext second noDot noColon).bind
  rintro ⟨_, found⟩ next ⟨⟨rfl, isSecond⟩, beforeNext⟩
  apply (attributes _ _ next beforeNext isSecond).bind
  rintro _ next ⟨⟨made, rfl, held⟩, beforeNext⟩
  have inside := children next beforeNext
  cases isClosed <;>
  · apply inside.bind
    rintro inside after ⟨heldInside, beforeAfter⟩
    rw [runs_cursorPos]
    exact .pure ⟨⟨_, _, made, inside, rfl, held, heldInside⟩, beforeAfter⟩

/-- An element as an expression. -/
theorem primary_jsx {holds : Element → Prop} (sees : Sees state (.punct .less) newline text)
    (element : ∀ start, Runs (rules.jsxElement start) state fun element next =>
      holds element ∧ next.Before text')
    (behind : Spells text' last lastNewline lastText) :
    Runs rules.primary state fun answer next =>
      (∃ span element, answer = .jsx span element ∧ holds element) ∧
        Sees next last lastNewline lastText := by
  unfold primary jsxExpr
  rw [runs_token]
  simp only [sees.kind]
  rw [runs_here]
  apply (element _).bind
  rintro element next ⟨held, beforeNext⟩
  rw [runs_cursorPos]
  apply (resume_runs beforeNext behind).bind
  intro _ after seesAfter
  exact .pure ⟨⟨_, element, rfl, held⟩, seesAfter⟩

section Parenthesized

variable {depth : Nat} {name second : String} {ahead ahead' behind' : List Char}
  {newline₁ newline₂ : Bool} {holds : Element → Prop}

/-- An element on its own. Behind its angle bracket the name of the tag is first read as that of
a type parameter, which the word behind it refutes. -/
theorem expression_jsx (sees : Sees state (.punct .less) newline text)
    (named : Spells text (.word name) newline₁ ahead)
    (behind : Spells ahead (.word second) newline₂ ahead') (other : second ≠ "extends")
    (element : ∀ start next, next.Before text →
      Runs ((ofDepth depth).jsxElement start) next fun element after =>
        holds element ∧ after.Before text')
    (closes : Spells text' last lastNewline lastText) (ends : endsWhole last = true)
    (noComma : last.isPunct .comma = false) :
    Runs ((ofDepth (depth + 1)).expression false) state fun value next =>
      (∃ span element, value = .jsx span element ∧ holds element) ∧
        Sees next last lastNewline lastText := by
  apply expression_of_assignment _ noComma
  apply assignmentExpr_of_primary sees ⟨rfl, rfl, rfl⟩
    (arrowParams_less sees named behind other) _ ends
  exact primary_jsx sees (fun start => element start _ sees.toBefore) closes

/-- An element in parentheses. -/
theorem expression_parenJsx (sees : Sees state (.punct .openParen) newline text)
    (less : Spells text (.punct .less) newline' text')
    (named : Spells text' (.word name) newline₁ ahead)
    (behind : Spells ahead (.word second) newline₂ ahead') (other : second ≠ "extends")
    (element : ∀ start next, next.Before text' →
      Runs ((ofDepth depth).jsxElement start) next fun element after =>
        holds element ∧ after.Before text'')
    (closes : Spells text'' (.punct .closeParen) newline'' behind')
    (follow : Spells behind' last lastNewline lastText) (ends : endsWhole last = true)
    (noComma : last.isPunct .comma = false) :
    Runs ((ofDepth (depth + 2)).expression false) state fun value next =>
      (∃ span jsxSpan element, value = .paren span (.jsx jsxSpan element) ∧ holds element) ∧
        Sees next last lastNewline lastText := by
  apply expression_of_assignment _ noComma
  apply (assignmentExpr_of_primary sees ⟨rfl, rfl, rfl⟩
    (arrowParams_paren sees less.after ⟨rfl, rfl, rfl, rfl, rfl, rfl, rfl⟩
      fun _ noParam => bindingTarget_refuses noParam)
    (primary_paren sees less
      (fun _ sees => expression_jsx sees named behind other element closes rfl rfl) follow)
        ends).mono
  rintro _ next ⟨⟨span, _, rfl, jsxSpan, element, rfl, held⟩, seesNext⟩
  exact ⟨⟨span, jsxSpan, element, rfl, held⟩, seesNext⟩

end Parenthesized

end Rules

end StopMotion.Syntax
