import StopMotion.Proofs.Syntax.Step
import StopMotion.Syntax.Grammar.Type

/-!
# Layout of templates, and of types read over

A type is only passed over. What matters is that a closing angle bracket which is the
first character of a longer punctuator leaves the rest of it as a token that stands where
it is spelled.
-/

namespace StopMotion.Syntax

namespace Rules.Sound

open Parse Text

variable {source : List Char} {limit bound : Nat} {state : ParseState} {rules : Rules}

/-- A comma expression is laid. -/
theorem expression (sound : rules.Sound source limit) (noIn : Bool) :
    Lays source (limit - 1) Node.plan (rules.expression noIn) := by
  intro bound state ready le
  unfold Rules.expression
  rw [yields_here]
  refine (sound.assignment noIn state ready (by omega)).bind fun first next spans => ?_
  rw [yields_at?]
  split
  · -- Either the comma is still to come, or more than one item lies behind it.
    refine repeating_bind
      (fun items next => Spans source bound state (.all Node.plan items.reverse) next ∧
        (next.token.kind.isPunct .comma = true ∨
          Parts source bound state (.all Node.plan items.reverse) next))
      (fun items next => Parts source bound state (.all Node.plan items) next)
      ⟨by simpa using spans, .inl ‹_›⟩ (fun items next held => ?_) fun items next parts => ?_
    · obtain ⟨spans, proper⟩ := held
      refine (eat_yields_at spans.ready).bind fun eaten behind held => ?_
      rcases held with ⟨rfl, rfl, noComma⟩ | ⟨rfl, comma⟩
      · exact .pure (proper.resolve_left (by simp [noComma]))
      · refine (sound.assignment noIn behind comma.ready (by omega)).bind
            fun item last itemSpans => ?_
        have parts := spans.join_spans comma.follows itemSpans
        rw [← Plan.all_reverse_cons] at parts
        exact .pure ⟨⟨parts.toSpans, .inr parts⟩,
          (comma.toConsumes.trans itemSpans.follows).left_lt⟩
    · rw [yields_spanFrom]
      rw [← Node.plan_ofList] at parts
      exact .pure (parts.expr ready)
  · exact .pure spans

/-- A template is laid: its substitutions, one behind the other, with chunks around them. -/
theorem template_yields (sound : rules.Sound source limit) (ready : Ready source bound state)
    (le : bound ≤ limit) :
    Yields rules.template state fun answer next =>
      Parts source bound state (.all Node.plan answer.2) next := by
  unfold Rules.template
  refine repeating_yields
    (fun (soFar : List String × List Expr) next =>
      Covers source bound state (.all Node.plan soFar.2.reverse) next)
    ready.follows.covers fun soFar next covers => ?_
  rw [yields_token]
  split
  · rename_i chunk isLast
    refine (pass_yields covers.ready (by rw [isLast]; rfl)).bind fun _ behind passed => ?_
    exact .pure (covers.passes passed.toConsumes)
  · rename_i chunk isChunk
    have goesOn : next.token.kind.isEnd = false := by rw [isChunk]; rfl
    have closes := covers.ready.stands.closes goesOn
    have filled := covers.ready.stands.filled goesOn
    have fits : 3 * next.cursor.rest.length < bound - 3 := by
      have whole := covers.ready.fits
      have heavy := TokenKind.weight_pos goesOn
      have here : next.room = next.cursor.rest.length + next.token.kind.weight := rfl
      omega
    rw [covers.ready.ends] at closes filled
    refine (resume_yields covers.ready.place closes fits).bind fun _ inside resumed => ?_
    obtain ⟨insideReady, lastEnd, shorter⟩ := resumed
    have entered : Consumes source bound next inside :=
      covers.ready.consumes goesOn insideReady (by omega) shorter
    refine (sound.expression false inside insideReady (by omega)).bind
        fun substitution close spans => ?_
    rw [yields_token]
    split
    · rename_i isBrace
      have braceGoesOn := goesOn_of_isPunct isBrace
      have braceFilled := spans.ready.stands.filled braceGoesOn
      have braceEnds := spans.ready.ends
      refine yields_reading spans.ready.place settles_readChunk fun token cursor read => ?_
      obtain ⟨place, stands, span, shorter⟩ := stands_readChunk spans.ready.place.cursor
        (spans.ready.stands.opens braceGoesOn) (by omega) read
      rw [yields_modify]
      have behind : Follows source (bound - 3) close { close with cursor, token } := by
        have whole := spans.ready.fits
        simp only [ParseState.room] at whole
        refine ⟨⟨⟨spans.ready.place.whole, place⟩, stands, ?_, ?_, spans.ready.closes, ?_⟩,
          Nat.le_refl _, ?_, ?_, ?_, ?_⟩
        · simp [span]
        · simpa [span] using spans.ready.behind
        · simp only [ParseState.room]
          omega
        · simp [span]
        · simp [braceGoesOn]
        · simp only
          omega
        · simp only [ParseState.room]
          omega
      have substituted := spans.trans behind
      refine .pure ⟨(?_ : Covers ..), (entered.trans substituted.follows).left_lt⟩
      rw [Plan.all_reverse_cons]
      exact covers.join entered.follows substituted.covers
    · exact yields_unexpected_bind
  · exact yields_unexpected

theorem template (sound : rules.Sound source limit) :
    Lays source limit (fun answer => Plan.all Node.plan answer.2) rules.template :=
  fun _ _ ready le => (sound.template_yields ready le).mono fun _ _ parts => parts.toSpans

/-- A bracketed group is passed over. -/
theorem skipGroup (sound : rules.Sound source limit) (opening closing : Punct) :
    Takes source limit (rules.skipGroup opening closing) := by
  intro bound state ready le
  unfold Rules.skipGroup
  refine (takes_expect state ready (Nat.le_refl _)).bind fun span next opened => ?_
  refine repeating_yields (fun _ next => Consumes source bound state next) opened
    fun depth next held => ?_
  -- Whatever is passed over, the reading is further on.
  have passing {α : Type} {step : Parse α} (yields : Yields step next fun _ behind =>
      Consumes source bound next behind) (depth : Nat) :
      Yields (do let _ ← step; return (.inl depth : Nat ⊕ Unit)) next fun answer behind =>
        Sum.elim (fun _ => Consumes source bound state behind ∧ behind.left < next.left)
          (fun _ => Consumes source bound state behind) answer :=
    yields.bind fun _ _ passed => .pure ⟨held.trans passed.follows, passed.left_lt⟩
  rw [yields_token]
  split
  · exact yields_fail rfl
  · rename_i goesOn
    have goesOn : next.token.kind.isEnd = false := by simpa using goesOn
    have pass : Yields pass next fun _ behind => Consumes source bound next behind :=
      (pass_yields held.ready goesOn).mono fun _ _ passed => passed.toConsumes
    split
    · exact passing (sound.template.takes next held.ready (by omega)) depth
    · split
      · exact passing pass (depth + 1)
      · split
        · refine pass.bind fun _ _ passed => ?_
          split
          · exact .pure (held.trans passed.follows)
          · exact .pure ⟨held.trans passed.follows, passed.left_lt⟩
        · exact passing pass depth

/-- A punctuator that a closing angle bracket begins is spelled by it and the rest. -/
theorem text_of_afterClosingAngle? {punct left : Punct}
    (split : punct.afterClosingAngle? = some (some left)) :
    punct.text.toList = '>' :: left.text.toList := by
  cases punct <;> cases split <;> rfl

/-- A closing angle bracket is passed over, though it may be only the first character of the
token, of which less is left then. -/
theorem closeAngle_yields (ready : Ready source bound state) :
    Yields closeAngle state fun _ next =>
      Follows source bound state next ∧ next.room < state.room := by
  unfold closeAngle
  rw [yields_token]
  split
  · rename_i punct isPunct
    have goesOn : state.token.kind.isEnd = false := by rw [isPunct]; rfl
    split
    · exact yields_unexpected
    · exact (pass_yields ready goesOn).mono fun _ _ passed =>
        ⟨passed.follows, passed.toConsumes.room_lt⟩
    · rename_i left split
      rw [← bind_pure (modify _), yields_modify]
      obtain ⟨before, behind, joined, begins, ends⟩ :=
        ready.stands.spelled punct.text (by rw [isPunct]; rfl)
      rw [text_of_afterClosingAngle? split] at joined ends
      have width : '>'.utf8Size = 1 := rfl
      simp only [size_cons, width] at ends
      obtain ⟨first, rest, spelled⟩ := List.exists_cons_of_ne_nil (solid_punct left).2
      have positive := first.utf8Size_pos
      have filled : isBlank first = false := (solid_punct left).1 first (by simp [spelled])
      have remains : size left.text.toList = first.utf8Size + size rest := by
        rw [spelled, size_cons]
      have start := ready.behind
      have fits := ready.fits
      have lighter := Punct.weight_of_afterClosingAngle? split
      simp only [ParseState.room, isPunct, TokenKind.weight] at fits
      refine .pure ⟨⟨⟨⟨ready.place.whole, ready.place.cursor⟩, ⟨?_, fun _ => ?_,
        fun _ => ready.stands.closes goesOn, fun _ => ?_, ?_⟩, ready.ends, Nat.le_refl _, .inr ?_,
        ?_⟩, ?_, ?_, ?_, Nat.le_refl _, ?_⟩, ?_⟩
      · simp only
        omega
      · refine ⟨before ++ ['>'], first, rest ++ behind, ?_, ?_, filled⟩
        · simp [joined, spelled]
        · simp [begins, width]
      · simp only
        omega
      · rintro _ ⟨⟩
        refine ⟨before ++ ['>'], behind, by simp [joined], by simp [begins, width], ?_⟩
        simp only [size_append, size_cons, size_nil, width]
        omega
      · exact ⟨before, '>', left.text.toList ++ behind, by simp [joined], by simp [begins, width],
          by decide⟩
      · simp only [ParseState.room, TokenKind.weight]
        omega
      · simp only
        omega
      · simp only
        omega
      · simp [goesOn]
      all_goals
        simp only [ParseState.room, isPunct, TokenKind.weight]
        omega
  · exact yields_unexpected

/-- Type arguments or parameters are passed over. A closing angle bracket may leave the cursor
where it is, so both the depth and what the token holds bound what is left to do. -/
theorem skipAngles (sound : rules.Sound source limit) :
    Takes source limit rules.skipAngles := by
  intro bound state ready le
  unfold Rules.skipAngles
  refine (takes_expect state ready (Nat.le_refl _)).bind fun span next opened => ?_
  let measure (depth : Nat) (next : ParseState) : Nat :=
    min next.room (next.cursor.rest.length + depth)
  refine repeating_by measure (fun depth next => Consumes source bound state next ∧ 0 < depth)
    ⟨opened, Nat.one_pos⟩ (Nat.min_le_right ..) fun depth next held => ?_
  obtain ⟨held, deep⟩ := held
  -- Whatever is passed over, the reading is further on.
  have passing {α : Type} {step : Parse α} (takes : Yields step next fun _ behind =>
      Consumes source bound next behind) (depth' : Nat) (deep' : 0 < depth') :
      Yields (do let _ ← step; return (.inl depth' : Nat ⊕ Unit)) next fun answer behind =>
        Sum.elim (fun longer => (Consumes source bound state behind ∧ 0 < longer) ∧
            measure longer behind < measure depth next)
          (fun _ => Consumes source bound state behind) answer :=
    takes.bind fun _ behind passed => .pure ⟨⟨held.trans passed.follows, deep'⟩, by
      have less := passed.passed
      have heavy := TokenKind.weight_pos passed.goesOn
      have here : next.room = next.cursor.rest.length + next.token.kind.weight := rfl
      simp only [measure]
      omega⟩
  have group (opening closing : Punct) :=
    passing (sound.skipGroup opening closing next held.ready (by omega)) depth deep
  have pass (goesOn : next.token.kind.isEnd = false) :
      Yields pass next fun _ behind => Consumes source bound next behind :=
    (pass_yields held.ready goesOn).mono fun _ _ passed => passed.toConsumes
  rw [yields_kind]
  split
  · exact yields_unexpected
  · exact passing (sound.template.takes next held.ready (by omega)) depth deep
  · rename_i punct isPunct
    have goesOn : next.token.kind.isEnd = false := by rw [isPunct]; rfl
    split
    · refine (closeAngle_yields held.ready).bind fun _ behind closed => ?_
      obtain ⟨passed, lighter⟩ := closed
      split
      · exact .pure (held.trans passed)
      · have rest := passed.rest
        refine .pure ⟨⟨held.trans passed, by omega⟩, ?_⟩
        simp only [measure]
        omega
    · split
      · exact passing (pass goesOn) (depth + 1) (Nat.succ_pos depth)
      · exact group _ _
      · exact group _ _
      · exact group _ _
      all_goals first
        | exact yields_unexpected
        | exact passing (pass goesOn) depth deep
  · rename_i notEnd _ _
    have goesOn : next.token.kind.isEnd = false := by
      cases kind : next.token.kind with
      | endOfInput => exact absurd kind notEnd
      | _ => rfl
    exact passing (pass goesOn) depth deep

theorem skipTypeParams (sound : rules.Sound source limit) :
    Skips source limit rules.skipTypeParams := by
  intro bound state ready le
  unfold Rules.skipTypeParams
  rw [yields_at?]
  split
  · exact (sound.skipAngles state ready (by omega)).mono fun _ _ passed => passed.follows
  · exact .pure ready.follows

/-- A part of a type is passed over, at least a token of it where the type goes on. -/
theorem skipTypePart_yields (sound : rules.Sound source limit) (wanted : TypeState)
    (ready : Ready source bound state) (le : bound ≤ limit) :
    Yields (rules.skipTypePart wanted) state fun answer next =>
      Follows source bound state next ∧ (answer.isSome = true → next.left < state.left) := by
  unfold Rules.skipTypePart
  rw [yields_token]
  -- What is passed over is a token at least.
  have passing {step : Parse Unit} {value : Option TypeState}
      (takes : Yields step state fun _ next => Consumes source bound state next) :
      Yields (do step; return value) state fun answer next =>
        Follows source bound state next ∧ (answer.isSome = true → next.left < state.left) :=
    takes.bind fun _ _ passed => .pure ⟨passed.follows, fun _ => passed.left_lt⟩
  have pass (kind : TokenKind) (is : state.token.kind = kind) (goesOn : kind.isEnd = false) :
      Yields pass state fun _ next => Consumes source bound state next :=
    (pass_yields ready (by rw [is]; exact goesOn)).mono fun _ _ passed => passed.toConsumes
  have ended : Yields (pure none : Parse (Option TypeState)) state fun answer next =>
      Follows source bound state next ∧ (answer.isSome = true → next.left < state.left) :=
    .pure ⟨ready.follows, by rintro ⟨⟩⟩
  split <;> (rename_i is; try split) <;> first
    | exact ended
    | exact passing (pass _ is rfl)
    | exact passing (sound.skipGroup _ _ state ready (by omega))
    | exact passing (sound.skipAngles state ready (by omega))
    | exact (sound.template.takes state ready (by omega)).bind fun _ _ passed =>
        .pure ⟨passed.follows, fun _ => passed.left_lt⟩
    | skip
  -- What is left is a word where an operand has just ended.
  rename_i is _
  split
  · exact passing (pass _ is rfl)
  · exact ended

/-- A type is passed over. -/
theorem skipType (sound : rules.Sound source limit) : Skips source limit rules.skipType := by
  intro bound state ready le
  unfold Rules.skipType
  refine repeating_yields (fun _ next => Follows source bound state next) ready.follows
    fun wanted next follows => ?_
  refine (sound.skipTypePart_yields wanted follows.ready le).bind fun answer behind held => ?_
  obtain ⟨passed, smaller⟩ := held
  split
  · exact .pure ⟨follows.trans passed, smaller rfl⟩
  · exact .pure (follows.trans passed)

theorem skipAnnotation (sound : rules.Sound source limit) :
    Skips source limit rules.skipAnnotation := by
  refine skips_eat.bind fun eaten => ?_
  split
  · exact sound.skipType
  · exact skips_pure _

theorem skipTypes (sound : rules.Sound source limit) : Skips source limit rules.skipTypes := by
  intro bound state ready le
  unfold Rules.skipTypes
  refine repeating_yields (fun _ next => Follows source bound state next) ready.follows
    fun _ next follows => ?_
  refine (sound.skipType next follows.ready (by omega)).bind fun _ behind passed => ?_
  refine (eat_yields passed.ready).bind fun eaten last held => ?_
  rcases held with ⟨rfl, rfl⟩ | ⟨rfl, comma⟩
  · exact .pure (follows.trans passed)
  · have onwards := passed.consumes comma.toConsumes
    exact .pure ⟨follows.trans onwards.follows, onwards.left_lt⟩

end Rules.Sound

end StopMotion.Syntax
