import StopMotion.Proofs.Syntax.Grammar.Pattern
import StopMotion.Syntax.Grammar.Function

/-!
# Layout of blocks, functions and classes

The body of a function lies between its braces. A method begins where its entry or member
does, so that its key stands inside of it.
-/

namespace StopMotion.Syntax

open Text (isBlank)

variable {source : List Char}

namespace Rules.Sound

open Parse

variable {limit bound : Nat} {rules : Rules}

/-- Where a token is spelled with a character of one byte first, that ends one byte further. -/
theorem closesAt_narrow {token : Token} {text : String} {c : Char} {rest : List Char}
    (stands : token.Stands source) (spelling : token.kind.spelling? = some text)
    (spelled : text.toList = c :: rest) (width : c.utf8Size = 1) (filled : isBlank c = false) :
    Text.ClosesAt source (token.span.start + 1) := by
  obtain ⟨before, behind, joined, begins, _⟩ := stands.spelled text spelling
  refine ⟨before, c, rest ++ behind, ?_, by rw [begins, width], filled⟩
  rw [joined, spelled]
  simp

/-- Statements in braces are laid between them. -/
theorem block (sound : rules.Sound source limit) :
    Lays source limit (fun answer => .one .block answer.1 (.all Node.plan answer.2))
      rules.block := by
  intro bound state ready le
  unfold Rules.block
  refine (expect_yields ready).bind fun span inside held => ?_
  obtain ⟨rfl, isBrace, opened⟩ := held
  have brace : state.token.kind.spelling? = some "\x7b" := by
    cases kind : state.token.kind <;> simp_all [TokenKind.isPunct, TokenKind.spelling?]
    rfl
  have spelled : "\x7b".toList = ['\x7b'] := rfl
  have item : Lays source (limit - 2) Node.plan (do
      let current ← token
      if current.kind.isEnd then
        Parse.fail current.span (.unclosed .openBrace state.token.span.start)
      else rules.statement) := by
    intro bound state ready le
    rw [yields_token]
    split
    · exact yields_fail rfl
    · exact sound.statement state ready (by omega)
  refine (many_eat_yields opened.deeper item (by omega)).bind fun body next held => ?_
  obtain ⟨last, covers, closed⟩ := held
  rw [yields_spanFrom]
  have whole := opened.toConsumes.trans (covers.follows.trans closed.follows)
  refine .pure ⟨whole, Plan.laid_one.mpr
    ⟨Nat.le_refl _, Nat.le_refl _, whole.snug ready, ?_, by rintro ⟨⟩,
      fun _ => closesAt_narrow ready.stands brace spelled (by decide) (by decide)⟩⟩
  refine covers.laid.mono ?_ (Nat.le_sub_one_of_lt ?_)
  · exact Nat.le_trans opened.moved opened.ready.behind
  · exact Nat.lt_of_le_of_lt covers.ready.behind closed.moved

/-- The statements of a block are laid where the block is. -/
theorem blockBody (sound : rules.Sound source limit) :
    Lays source limit (fun answer => (Node.ofList answer.2).plan) rules.block := by
  intro bound state ready le
  refine (sound.block state ready (by omega)).mono fun answer next spans => ?_
  simp only [Node.plan_ofList]
  exact spans.enclosed

/-! ## Parameters -/

theorem skips_skipParamModifiers : Skips source limit skipParamModifiers := by
  intro bound state ready le
  unfold skipParamModifiers
  refine repeating_yields (fun _ next => Follows source bound state next) ready.follows
    fun _ next follows => ?_
  rw [yields_kind]
  split
  · exact .pure follows
  · rename_i word is
    split
    · refine yields_peek follows.ready.place fun token => ?_
      split
      · exact (pass_yields follows.ready (goesOn_of_word?_eq is)).bind fun _ _ passed =>
          .pure ⟨follows.trans passed.follows, passed.toConsumes.left_lt⟩
      · exact .pure follows
    · exact .pure follows

/-- A parameter is laid. -/
theorem param (sound : rules.Sound source limit) :
    Lays source (limit - 1) (Plan.option Node.plan) rules.param := by
  intro bound state ready le
  refine (skips_skipParamModifiers state ready (Nat.le_refl _)).bind fun _ first before => ?_
  rw [yields_here]
  refine Yields.mono (?_ : Yields _ first fun value next =>
    Spans source bound first (Plan.option Node.plan value) next)
    fun value next spans => before.spans_of spans
  have ready := before.ready
  refine (eat_yields ready).bind fun eaten inside held => ?_
  rcases held with ⟨rfl, rfl⟩ | ⟨rfl, dots⟩
  · simp only [Bool.false_eq_true, if_false]
    refine (eatWord_yields ready).bind fun eaten next held => ?_
    rcases held with ⟨rfl, rfl⟩ | ⟨rfl, this⟩
    · refine (sound.target next ready (by omega)).bind fun target behind spans => ?_
      refine (skips_eat behind spans.ready (Nat.le_refl _)).bind fun _ question optional => ?_
      refine (sound.skipAnnotation question optional.ready (by omega)).bind fun _ last typed => ?_
      have typed := spans.trans (optional.trans typed)
      exact (sound.withDefault_yields ready typed (by omega)).bind fun value _ held => .pure held.1
    · refine (sound.skipAnnotation next this.ready (by omega)).bind fun _ last typed => ?_
      exact .pure (this.toConsumes.trans typed).spans
  · refine (sound.target inside dots.ready (by omega)).bind fun target next spans => ?_
    refine (sound.skipAnnotation next spans.ready (by omega)).bind fun _ last typed => ?_
    rw [yields_spanFrom]
    exact .pure ((dots.follows.spans_of (spans.trans typed)).one ready rfl)

/-- A parameter list is laid. -/
theorem params (sound : rules.Sound source limit) :
    Lays source limit (Plan.all Node.plan) rules.params := by
  intro bound state ready le
  refine (takes_expect state ready (Nat.le_refl _)).bind fun _ inside opened => ?_
  refine (commaList_yields opened.deeper sound.param (by omega)).bind fun items next spans => ?_
  have present (items : List (Option Pattern)) :
      Plan.all Node.plan (items.filterMap id) =
        Plan.all (Plan.option Node.plan) items := by
    induction items with
    | nil => rfl
    | cons head tail inductionHypothesis =>
        cases head with
        | none => exact inductionHypothesis
        | some head => exact congrArg (head.plan ++ ·) inductionHypothesis
  rw [← present] at spans
  exact .pure (opened.follows.spans_of spans)

/-! ## Functions -/

/-- A function whose stretch begins at an earlier token is laid from there on, with what was
read before its parameters at its front. -/
theorem functionRest_yields (sound : rules.Sound source limit) {first state : ParseState}
    {before : Plan} {name : Option Name} {isAsync isGenerator : Bool}
    (ready : Ready source bound first) (covers : Covers source bound first before state)
    (le : bound ≤ limit) :
    Yields (rules.functionRest first.token.span.start name isAsync isGenerator) state
      fun value next => Parts source bound first (value.plan.around before) next := by
  refine (sound.skipTypeParams state covers.ready (by omega)).bind fun _ inside generic => ?_
  refine (lays_withGenerator sound.params inside generic.ready (by omega)).bind
      fun params next spans => ?_
  refine (sound.skipAnnotation next spans.ready (by omega)).bind fun _ opening typed => ?_
  refine (lays_withGenerator sound.block opening typed.ready (by omega)).bind
      fun answer last bodySpans => ?_
  obtain ⟨bodySpan, body⟩ := answer
  simp only [yields_spanFrom]
  simp only [← Node.plan_ofList] at spans bodySpans
  have parts := (covers.join_spans generic spans).join_spans typed bodySpans
  rw [Plan.append_assoc] at parts
  exact .pure (parts.one ready rfl)

theorem skips_definedName {required : Bool} {wanted : Wanted} :
    Skips source limit (definedName required wanted) := by
  intro bound state ready le
  unfold definedName
  rw [yields_atBinding?]
  split
  · exact (bindingName_yields ready).bind fun _ _ held => .pure held.2.follows
  · split
    · exact yields_unexpected
    · exact .pure ready.follows

/-- A function from its keyword on is laid from an earlier token on. -/
theorem function_yields (sound : rules.Sound source limit) {first state : ParseState}
    {isAsync nameRequired : Bool} (ready : Ready source bound first)
    (passed : Follows source bound first state) (le : bound ≤ limit) :
    Yields (rules.function first.token.span.start isAsync nameRequired) state
      fun value next => Parts source bound first value.plan next := by
  refine (takes_expectWord state passed.ready (Nat.le_refl _)).bind fun _ inside keyword => ?_
  refine (skips_eat inside keyword.ready (Nat.le_refl _)).bind fun _ next star => ?_
  refine (skips_definedName next star.ready (Nat.le_refl _)).bind fun name behind named => ?_
  have onwards := passed.trans (keyword.follows.trans (star.trans named))
  refine (sound.functionRest_yields ready onwards.covers le).mono fun value last parts => ?_
  cases value with
  | func => exact parts

/-! ## Classes -/

theorem isModifier_yields {state : ParseState} (ready : Ready source bound state) :
    Yields isModifier state fun _ next => next = state := by
  unfold isModifier
  exact yields_peek ready.place fun _ => .pure rfl

theorem skips_eatModifier {words : List String} : Skips source limit (eatModifier words) := by
  intro bound state ready le
  unfold eatModifier
  rw [yields_kind]
  split
  · rename_i isWord
    refine (isModifier_yields ready).bind fun answer next held => ?_
    subst held
    split
    · exact (pass_yields ready (goesOn_of_word? isWord)).bind fun _ _ passed =>
        .pure passed.follows
    · exact .pure ready.follows
  · exact .pure ready.follows

/-- A modifier of a member is not blank up to its sixth character, which takes up one byte as
those before it do. -/
theorem closed_memberModifier {word : String} (isModifier : word ∈ memberModifiers) :
    ∃ init last rest, word.toList = init ++ last :: rest ∧
      Text.size init + last.utf8Size = 6 ∧ isBlank last = false := by
  have each : memberModifiers.all (fun word => word.toList[5]?.any (!isBlank ·) &&
      Text.size (word.toList.take 6) == 6) = true := by decide
  have found := List.all_eq_true.mp each word isModifier
  rw [Bool.and_eq_true, beq_iff_eq] at found
  obtain ⟨filled, width⟩ := found
  obtain ⟨last, atLast, filled⟩ := (Option.any_eq_true _ _).mp filled
  have taken : word.toList.take 6 = word.toList.take 5 ++ [last] := by
    rw [List.take_add_one, atLast]
    rfl
  rw [taken, Text.size_append, Text.size_cons, Text.size_nil] at width
  refine ⟨word.toList.take 5, last, word.toList.drop 6, ?_, width, by simpa using filled⟩
  rw [List.append_cons, ← taken, List.take_append_drop]

/-- A modifier of a member begins with a character of one byte that is not blank. -/
theorem narrow_memberModifier {word : String} (isModifier : word ∈ memberModifiers) :
    ∃ c rest, word.toList = c :: rest ∧ c.utf8Size = 1 ∧ isBlank c = false := by
  have each : memberModifiers.all (fun word => word.toList.head?.any fun c =>
      c.utf8Size == 1 && !isBlank c) = true := by decide
  have found := List.all_eq_true.mp each word isModifier
  obtain ⟨c, isFirst, found⟩ := (Option.any_eq_true _ _).mp found
  rw [Bool.and_eq_true, beq_iff_eq, Bool.not_eq_true'] at found
  obtain ⟨rest, spelled⟩ := List.head?_eq_some_iff.mp isFirst
  exact ⟨c, rest, spelled, found⟩

/-- What the key of a static block takes up stands at the front of any modifier. -/
theorem snug_memberModifier {state : ParseState} (ready : Ready source bound state)
    (isModifier : state.token.kind.word?.any memberModifiers.contains = true) :
    Span.Snug source ⟨state.token.span.start, state.token.span.start + 6⟩ ∧
      state.token.span.start + 6 ≤ state.token.span.stop ∧
        Text.ClosesAt source (state.token.span.start + 1) := by
  obtain ⟨word, is, isModifier⟩ := (Option.any_eq_true _ _).mp isModifier
  have spelling : state.token.kind.spelling? = some word := by
    cases kind : state.token.kind <;> simp_all [TokenKind.word?, TokenKind.spelling?]
  have isModifier := List.contains_iff_mem.mp isModifier
  obtain ⟨c, others, begun, isNarrow, notBlank⟩ := narrow_memberModifier isModifier
  have narrow := closesAt_narrow ready.stands spelling begun isNarrow notBlank
  obtain ⟨before, behind, joined, begins, ends⟩ := ready.stands.spelled word spelling
  obtain ⟨init, last, rest, spelled, width, filled⟩ := closed_memberModifier isModifier
  rw [spelled] at joined ends
  simp only [Text.size_append, Text.size_cons] at ends
  refine ⟨⟨ready.stands.opens (goesOn_of_word?_eq is),
    ⟨before ++ init, last, rest ++ behind, ?_, ?_,
    filled⟩, Nat.lt_add_of_pos_right (by decide)⟩, by omega, narrow⟩
  · simp [joined]
  · simp only [Text.size_append]
    omega

/-- Modifiers are passed over. Where a static block begins a token is left, which may be the
first of them. -/
theorem skipMemberModifiers_yields {state : ParseState} (ready : Ready source bound state) :
    Yields skipMemberModifiers state fun answer next => Follows source bound state next ∧
      (answer = none → next.token.kind.isEnd = false ∧
        state.token.kind.word?.any memberModifiers.contains = true ∧
          state.token.span.stop ≤ next.token.span.stop) := by
  unfold skipMemberModifiers
  refine repeating_yields
    (fun _ next => Follows source bound state next ∧
      state.token.span.stop ≤ next.token.span.stop ∧
        (next = state ∨ state.token.kind.word?.any memberModifiers.contains = true))
    ⟨ready.follows, Nat.le_refl _, .inl rfl⟩ fun isStatic next held => ?_
  obtain ⟨follows, stops, modified⟩ := held
  rw [yields_kind]
  split
  · exact .pure ⟨follows, fun none => by cases none⟩
  · rename_i word is
    split
    · exact .pure ⟨follows, fun none => by cases none⟩
    · rename_i isModifier
      have isFirst : state.token.kind.word?.any memberModifiers.contains = true := by
        rcases modified with rfl | modified
        · simpa [is] using isModifier
        · exact modified
      refine (peek_yields follows.ready.place).bind fun token same held => ?_
      obtain ⟨rfl, _⟩ := held
      split
      · exact .pure ⟨follows, fun _ => ⟨goesOn_of_word?_eq is, isFirst, stops⟩⟩
      · refine (isModifier_yields follows.ready).bind fun answer behind held => ?_
        subst held
        split
        · refine (pass_yields follows.ready (goesOn_of_word?_eq is)).bind fun _ last passed => ?_
          have behind := passed.ready.behind
          have ordered := passed.ready.stands.ordered
          rw [passed.stops] at behind
          exact .pure ⟨⟨follows.trans passed.follows, by omega, .inr isFirst⟩,
            passed.toConsumes.left_lt⟩
        · exact .pure ⟨follows, fun none => by cases none⟩

/-- A class member is laid from an earlier token on. -/
theorem memberRest_yields (sound : rules.Sound source limit) {first state : ParseState}
    {isStatic : Bool} (ready : Ready source bound first) (passed : Follows source bound first state)
    (le : bound ≤ limit) :
    Yields (rules.memberRest first.token.span.start isStatic) state fun value next =>
      Spans source bound first value.plan next := by
  refine (skips_eatModifier state passed.ready (Nat.le_refl _)).bind fun isAsync inside async => ?_
  refine (skips_eat inside async.ready (Nat.le_refl _)).bind fun isGenerator next star => ?_
  refine (skips_eatModifier next star.ready (Nat.le_refl _)).bind fun _ atKey accessor => ?_
  have toKey := passed.trans (async.trans (star.trans accessor))
  refine (sound.key_yields toKey.ready le).bind fun key behind held => ?_
  have keySpans := toKey.spans_of held.1
  rw [yields_atOneOf?]
  split
  · refine (sound.functionRest_yields ready keySpans.covers le).bind fun value last parts => ?_
    rw [yields_spanFrom]
    exact .pure (parts.toSpans.one ready rfl)
  · have typed (state : ParseState) (optional : Follows source bound behind state) :
        Yields (do
            rules.skipAnnotation
            let init ← if ← eat .assign then some <$> rules.assignment false else pure none
            Parse.semicolon
            return Node.fieldMember (← spanFrom first.token.span.start) key isStatic
              (.ofOption init)) state
                  fun value next => Spans source bound first value.plan next := by
      refine (sound.skipAnnotation state optional.ready (by omega)).bind fun _ next ofType => ?_
      refine (sound.assignment false).bind_eat ofType.ready (by omega) fun init last covers => ?_
      refine (skips_semicolon last covers.ready (Nat.le_refl _)).bind fun _ next ended => ?_
      rw [yields_spanFrom]
      rw [← Node.plan_ofOption] at covers
      have parts := keySpans.join (optional.trans ofType) (covers.trans ended)
      exact .pure (parts.one ready rfl)
    refine (eat_yields keySpans.ready).bind fun eaten inside held => ?_
    rcases held with ⟨rfl, rfl⟩ | ⟨rfl, question⟩
    · refine (skips_eat inside keySpans.ready (Nat.le_refl _)).bind fun _ next bang => ?_
      exact typed next bang
    · exact typed inside question.follows

/-- A class member is laid. The key of a static block is the word in front of it. -/
theorem classMember (sound : rules.Sound source limit) :
    Lays source limit Node.plan rules.classMember := by
  intro bound state ready le
  unfold Rules.classMember
  rw [yields_here]
  refine (skipMemberModifiers_yields ready).bind fun answer next held => ?_
  obtain ⟨follows, present⟩ := held
  cases answer with
  | some isStatic => exact sound.memberRest_yields ready follows le
  | none =>
      obtain ⟨goesOn, modified, stops⟩ := present rfl
      obtain ⟨keySnug, keyEnds, narrow⟩ := snug_memberModifier ready modified
      refine (pass_yields follows.ready goesOn).bind fun _ inside word => ?_
      refine (sound.block inside word.ready (by omega)).bind fun answer last spans => ?_
      obtain ⟨bodySpan, body⟩ := answer
      simp only [yields_spanFrom]
      have before := follows.consumes word.toConsumes
      have whole := before.trans spans.follows
      have snug := whole.snug ready
      have onwards := spans.follows.lastEnd
      rw [word.stops] at onwards
      obtain ⟨begins, ends, _, within, _⟩ := Plan.laid_one.mp spans.laid
      rw [← Node.plan_ofList] at within
      have bodyLaid := within.mono (Nat.succ_le_succ (Nat.le_trans before.start begins))
        (Nat.sub_le_sub_right ends 1)
      refine .pure ⟨whole, Plan.laid_one.mpr ⟨Nat.le_refl _, Nat.le_refl _, snug, ?_,
        .other (by decide) (by decide)⟩⟩
      exact ⟨⟨Nat.le_refl _, Nat.le_trans keyEnds (Nat.le_trans stops onwards), keySnug⟩,
        Plan.laid_one.mpr ⟨Nat.le_refl _, Nat.le_refl _, snug, bodyLaid, by rintro ⟨⟩,
          fun _ => narrow⟩⟩

/-- The members of a class are laid. -/
theorem classMembers_yields (sound : rules.Sound source limit) {state : ParseState}
    (ready : Ready source bound state) (le : bound ≤ limit) :
    Yields rules.classMembers state fun members next =>
      Spans source bound state (.all Node.plan members) next := by
  unfold Rules.classMembers
  refine repeating_yields
    (fun (members : List (Node .classMember)) last =>
      Covers source bound state (.all Node.plan members.reverse) last)
    ready.follows.covers fun members last covers => ?_
  refine (eat_yields covers.ready).bind fun eaten next held => ?_
  rcases held with ⟨rfl, rfl⟩ | ⟨rfl, closed⟩
  · simp only [Bool.false_eq_true, if_false, yields_atEnd?]
    split
    · exact yields_unexpected
    · refine (eat_yields covers.ready).bind fun eaten behind held => ?_
      rcases held with ⟨rfl, rfl⟩ | ⟨rfl, semicolon⟩
      · refine (sound.classMember behind covers.ready (by omega)).bind fun value last spans => ?_
        refine .pure ⟨(?_ : Covers ..), spans.consumes.left_lt⟩
        rw [Plan.all_reverse_cons]
        exact covers.join covers.ready.follows spans.covers
      · exact .pure ⟨covers.trans semicolon.follows, semicolon.toConsumes.left_lt⟩
  · exact .pure (covers.passes closed.toConsumes).toSpans

/-- A class is laid, and its keyword belongs to nothing inside of it. -/
theorem classDef_yields (sound : rules.Sound source limit) {state : ParseState}
    {nameRequired : Bool} (ready : Ready source bound state) (le : bound ≤ limit) :
    Yields (rules.classDef nameRequired) state fun value next =>
      Parts source bound state value.plan next := by
  refine (expectWord_yields ready).bind fun span inside held => ?_
  obtain ⟨rfl, keyword⟩ := held
  have finish (name : Option Name) (superClass : Option Expr) (last : ParseState)
      (covers : Covers source bound inside (Plan.option Node.plan superClass) last) :
      Yields (do
          let _ ← expect .openBrace
          let members ← rules.classMembers
          return Node.klass (← spanFrom state.token.span.start) name (.ofOption superClass)
            (.ofList members)) last fun value next => Parts source bound state value.plan next := by
    refine (takes_expect last covers.ready (Nat.le_refl _)).bind fun _ body opened => ?_
    refine (sound.classMembers_yields opened.ready le).bind fun members next spans => ?_
    rw [yields_spanFrom]
    rw [← Node.plan_ofOption] at covers
    rw [← Node.plan_ofList] at spans
    have inside := covers.join_spans opened.follows spans
    exact .pure ((keyword.toConsumes.parts_of inside.covers).one ready rfl)
  have implementing (name : Option Name) (superClass : Option Expr) (last : ParseState)
      (covers : Covers source bound inside (Plan.option Node.plan superClass) last) :
      Yields (do
          if ← eatWord "implements" then
            rules.skipTypes
          let _ ← expect .openBrace
          let members ← rules.classMembers
          return Node.klass (← spanFrom state.token.span.start) name (.ofOption superClass)
            (.ofList members)) last fun value next => Parts source bound state value.plan next := by
    refine (eatWord_yields covers.ready).bind fun eaten next held => ?_
    rcases held with ⟨rfl, rfl⟩ | ⟨rfl, word⟩
    · exact finish name superClass next covers
    · refine (sound.skipTypes next word.ready (by omega)).bind fun _ behind types => ?_
      exact finish name superClass behind (covers.trans (word.follows.trans types))
  have named (name : Option Name) (last : ParseState) (follows : Follows source bound inside last) :
      Yields (do
          rules.skipTypeParams
          let superClass ←
            if ← eatWord "extends" then do
              let base ← rules.access
              rules.skipTypeParams
              pure (some base)
            else pure none
          if ← eatWord "implements" then
            rules.skipTypes
          let _ ← expect .openBrace
          let members ← rules.classMembers
          return Node.klass (← spanFrom state.token.span.start) name (.ofOption superClass)
            (.ofList members)) last fun value next => Parts source bound state value.plan next := by
    refine (sound.skipTypeParams last follows.ready (by omega)).bind fun _ next generic => ?_
    have follows := follows.trans generic
    refine (eatWord_yields follows.ready).bind fun eaten base held => ?_
    rcases held with ⟨rfl, rfl⟩ | ⟨rfl, word⟩
    · exact implementing name none base follows.covers
    · refine (sound.access base word.deeper (by omega)).bind fun superClass behind spans => ?_
      refine (sound.skipTypeParams behind spans.ready (by omega)).bind fun _ last generic => ?_
      exact implementing name (some superClass) last
        ((follows.trans word.follows).covers_of (spans.trans generic).covers)
  simp only [yields_atBinding?, yields_atWord?]
  split
  · exact takes_bindingName.lays.bind_some keyword.ready (Nat.le_refl _) fun name next covers =>
      named name next covers.follows
  · split
    · exact yields_unexpected_bind
    · exact named none inside keyword.ready.follows

end Rules.Sound

end StopMotion.Syntax
