import StopMotion.Proofs.Syntax.Plan
import StopMotion.Proofs.Syntax.Refusal
import StopMotion.Syntax.Grammar.Basic

/-!
# How a reading goes through its source

A reading is ready when its token stands where it says, just before the cursor and behind
everything passed so far, and what is left to read fits a bound. Every step of a rule leaves
the reading ready, further on or where it was. `Yields` says what a step answers without
running it, and that it is not given up: a repetition because each step of it
leaves less to read, a call of another rule because it comes behind a token. There is one
fact of this form for every step, and those about the rules of the grammar are put together
from them in the order of the rules' lines.
-/

namespace StopMotion.Syntax

open Text (OpensAt ClosesAt)

namespace Parse

variable {α β : Type} {step : Parse α} {more : α → Parse β} {state : ParseState}
  {holds : α → ParseState → Prop} {after : β → ParseState → Prop}

/-- Whatever a step answers from a state satisfies a condition, and if it answers nothing,
then not because it was given up. -/
def Yields (step : Parse α) (state : ParseState) (holds : α → ParseState → Prop) : Prop :=
  match step state with
  | .ok (value, next) => holds value next
  | .error error => error.isGivenUp = false

theorem yields_iff : Yields step state holds ↔
    (∀ value next, step state = .ok (value, next) → holds value next) ∧
      ∀ error, step state = .error error → error.isGivenUp = false := by
  unfold Yields
  split
  · rename_i run
    simp [run]
  · rename_i run
    simp [run]

/-- What a step that has run answered. -/
theorem Yields.of_run {value : α} {next : ParseState} (yields : Yields step state holds)
    (run : step state = .ok (value, next)) : holds value next :=
  (yields_iff.mp yields).1 value next run

/-- Why a step that has run answered nothing. -/
theorem Yields.of_error {error : SyntaxError} (yields : Yields step state holds)
    (run : step state = .error error) : error.isGivenUp = false :=
  (yields_iff.mp yields).2 error run

theorem Yields.mono {holds' : α → ParseState → Prop} (yields : Yields step state holds)
    (weaker : ∀ value next, holds value next → holds' value next) : Yields step state holds' :=
  yields_iff.mpr ⟨fun value next run => weaker value next (yields.of_run run),
    fun _ run => yields.of_error run⟩

theorem Yields.and {holds' : α → ParseState → Prop} (first : Yields step state holds)
    (second : Yields step state holds') :
    Yields step state fun value next => holds value next ∧ holds' value next :=
  yields_iff.mpr ⟨fun _ _ run => ⟨first.of_run run, second.of_run run⟩,
    fun _ run => first.of_error run⟩

theorem Yields.bind (first : Yields step state holds)
    (rest : ∀ value next, holds value next → Yields (more value) next after) :
    Yields (step >>= more) state after := by
  change match Except.bind (step state) (fun answer => more answer.1 answer.2) with
    | .ok (value, next) => after value next
    | .error error => error.isGivenUp = false
  cases answer : step state with
  | error error => exact first.of_error answer
  | ok answered => exact rest _ _ (first.of_run answer)

theorem Yields.map {change : α → β}
    (yields : Yields step state fun value next => after (change value) next) :
    Yields (change <$> step) state after := by
  change match Except.bind (step state) (fun answer => Except.ok (change answer.1, answer.2)) with
    | .ok (value, next) => after value next
    | .error error => error.isGivenUp = false
  cases answer : step state with
  | error error => exact yields.of_error answer
  | ok answered => exact yields.of_run answer

theorem Yields.pure {value : α} (held : holds value state) :
    Yields (pure value : Parse α) state holds := held

theorem yields_fail {span : Span} {cause : Cause} (refused : cause.isGivenUp = false) :
    Yields (fail span cause) state holds := refused

theorem yields_unexpected {wanted : Wanted} : Yields (unexpected wanted) state holds := rfl

/-- What would follow a refusal does not matter. -/
theorem yields_fail_bind {span : Span} {cause : Cause}
    (refused : cause.isGivenUp = false) :
    Yields (fail span cause >>= more) state after := refused

theorem yields_unexpected_bind {wanted : Wanted} :
    Yields (unexpected wanted >>= more) state after := rfl

/-! ## Steps that look at the state -/

@[simp] theorem yields_token {more : Token → Parse β} :
    Yields (token >>= more) state after ↔ Yields (more state.token) state after := Iff.rfl

@[simp] theorem yields_kind {more : TokenKind → Parse β} :
    Yields (kind >>= more) state after ↔ Yields (more state.token.kind) state after := Iff.rfl

@[simp] theorem yields_here {more : Nat → Parse β} :
    Yields (here >>= more) state after ↔ Yields (more state.token.span.start) state after := Iff.rfl

@[simp] theorem yields_spanFrom {start : Nat} {more : Span → Parse β} :
    Yields (spanFrom start >>= more) state after ↔
      Yields (more ⟨start, state.lastEnd⟩) state after := Iff.rfl

@[simp] theorem yields_at? {punct : Punct} {more : Bool → Parse β} :
    Yields (at? punct >>= more) state after ↔
      Yields (more (state.token.kind.isPunct punct)) state after := Iff.rfl

@[simp] theorem yields_atOneOf? {puncts : List Punct} {more : Bool → Parse β} :
    Yields (atOneOf? puncts >>= more) state after ↔
      Yields (more (state.token.kind.isOneOf puncts)) state after := Iff.rfl

@[simp] theorem yields_atWord? {word : String} {more : Bool → Parse β} :
    Yields (atWord? word >>= more) state after ↔
      Yields (more (state.token.kind.isWord word)) state after := Iff.rfl

@[simp] theorem yields_atEnd? {more : Bool → Parse β} :
    Yields (atEnd? >>= more) state after ↔
      Yields (more state.token.kind.isEnd) state after := Iff.rfl

@[simp] theorem yields_afterNewline? {more : Bool → Parse β} :
    Yields (afterNewline? >>= more) state after ↔
      Yields (more state.token.afterNewline) state after := Iff.rfl

@[simp] theorem yields_atBinding? {more : Bool → Parse β} :
    Yields (atBinding? >>= more) state after ↔
      Yields (more (state.token.kind.word?.any canBind)) state after := Iff.rfl

@[simp] theorem yields_get {more : ParseState → Parse β} :
    Yields (get >>= more) state after ↔ Yields (more state) state after := Iff.rfl

@[simp] theorem yields_set {next : ParseState} {more : PUnit → Parse β} :
    Yields (set next >>= more) state after ↔ Yields (more ⟨⟩) next after := Iff.rfl

@[simp] theorem yields_modify {change : ParseState → ParseState} {more : PUnit → Parse β} :
    Yields (modify change >>= more) state after ↔ Yields (more ⟨⟩) (change state) after := Iff.rfl

@[simp] theorem yields_pure {value : α} {more : α → Parse β} :
    Yields (Pure.pure value >>= more) state after ↔ Yields (more value) state after := Iff.rfl

end Parse

/-! ## How much is left to read -/

namespace ParseState

/-- The number of tokens that can be passed over one by one from here on, at most. -/
def room (state : ParseState) : Nat :=
  state.cursor.rest.length + state.token.kind.weight

/-- What is left to read, with one more for a token that is not the end. -/
def left (state : ParseState) : Nat :=
  state.cursor.rest.length + if state.token.kind.isEnd then 0 else 1

theorem left_le_room (state : ParseState) : state.left ≤ state.room := by
  unfold left room
  split
  · exact Nat.le_add_right _ _
  · rename_i goesOn
    exact Nat.add_le_add_left (TokenKind.weight_pos (by simpa using goesOn)) _

theorem left_le (state : ParseState) : state.left ≤ state.cursor.rest.length + 1 := by
  unfold left
  split <;> omega

theorem left_eq {state : ParseState} (goesOn : state.token.kind.isEnd = false) :
    state.left = state.cursor.rest.length + 1 := by
  simp [left, goesOn]

end ParseState

/-! ## Where a reading stands -/

/-- The cursor of a reading of `source` is a place in it. -/
structure ParseState.In (state : ParseState) (source : List Char) : Prop where
  whole : state.source = source
  cursor : state.cursor.In source

/-- What is left of the source from a place in it is what the cursor holds. -/
theorem ParseState.In.rest?_eq {source : List Char} {state : ParseState}
    (place : state.In source) :
    Text.rest? state.cursor.pos state.source = some state.cursor.rest := by
  obtain ⟨before, joined, bytes⟩ := place.cursor
  rw [place.whole, joined, ← bytes]
  exact Text.rest?_append before state.cursor.rest

/-- A reading stands in its source: its token where it says, just before the cursor and
behind what was passed. What is left to read fits the bound three times: a call that passes
nothing over costs one, a call behind a token no more than three. -/
structure Ready (source : List Char) (bound : Nat) (state : ParseState) : Prop where
  place : state.In source
  stands : state.token.Stands source
  ends : state.token.span.stop = state.cursor.pos
  behind : state.lastEnd ≤ state.token.span.start
  closes : state.lastEnd = 0 ∨ ClosesAt source state.lastEnd
  fits : 3 * state.room < bound

/-- A later state of a reading, or the same one. -/
structure Follows (source : List Char) (bound : Nat) (first second : ParseState) : Prop where
  ready : Ready source bound second
  lastEnd : first.lastEnd ≤ second.lastEnd
  start : first.token.span.start ≤ second.token.span.start
  atEnd : first.token.kind.isEnd = true → second.token.kind.isEnd = true
  rest : second.cursor.rest.length ≤ first.cursor.rest.length
  room : second.room ≤ first.room

/-- A later state of a reading behind some character of the token. -/
structure Consumes (source : List Char) (bound : Nat) (first second : ParseState) : Prop
    extends Follows source bound first second where
  goesOn : first.token.kind.isEnd = false
  moved : first.token.span.start < second.lastEnd
  passed : second.room ≤ first.cursor.rest.length
  fits : 3 * second.room + 3 < bound

variable {source : List Char} {bound bound' bound'' : Nat} {first second third state : ParseState}

/-- What is left to read may fit another bound. -/
theorem Ready.rebound (ready : Ready source bound state) (fits : 3 * state.room < bound') :
    Ready source bound' state :=
  { ready with fits }

theorem Ready.follows (ready : Ready source bound state) : Follows source bound state state :=
  ⟨ready, Nat.le_refl _, Nat.le_refl _, id, Nat.le_refl _, Nat.le_refl _⟩

/-- A later state fits every bound that an earlier one fits. -/
theorem Follows.trans (before : Follows source bound first second)
    (behind : Follows source bound' second third) : Follows source bound first third where
  ready := behind.ready.rebound (by
    have := behind.room
    have := before.ready.fits
    omega)
  lastEnd := Nat.le_trans before.lastEnd behind.lastEnd
  start := Nat.le_trans before.start behind.start
  atEnd atEnd := behind.atEnd (before.atEnd atEnd)
  rest := Nat.le_trans behind.rest before.rest
  room := Nat.le_trans behind.room before.room

theorem Consumes.follows (consumes : Consumes source bound first second) :
    Follows source bound first second :=
  consumes.toFollows

theorem Consumes.trans (before : Consumes source bound first second)
    (behind : Follows source bound' second third) : Consumes source bound first third where
  toFollows := before.follows.trans behind
  goesOn := before.goesOn
  moved := Nat.lt_of_lt_of_le before.moved behind.lastEnd
  passed := Nat.le_trans behind.room before.passed
  fits := by
    have := before.fits
    have := behind.room
    omega

theorem Follows.goesOn_of_consumes (before : Follows source bound first second)
    (behind : Consumes source bound' second third) : first.token.kind.isEnd = false := by
  cases atEnd : first.token.kind.isEnd with
  | false => rfl
  | true => rw [← behind.goesOn]; exact (before.atEnd atEnd).symm

/-- Passing over a token leaves less to read. -/
theorem Consumes.room_lt (consumes : Consumes source bound first second) :
    second.room < first.room := by
  have passed := consumes.passed
  have filled := TokenKind.weight_pos consumes.goesOn
  have here : first.room = first.cursor.rest.length + first.token.kind.weight := rfl
  omega

theorem Follows.consumes (before : Follows source bound first second)
    (behind : Consumes source bound' second third) : Consumes source bound first third where
  toFollows := before.trans behind.follows
  goesOn := before.goesOn_of_consumes behind
  moved := Nat.lt_of_le_of_lt before.start behind.moved
  passed := Nat.le_trans behind.passed before.rest
  fits := by
    have := before.ready.fits
    have := behind.room_lt
    omega

/-- Behind a token a reading fits a bound that is three less. -/
theorem Consumes.deeper (consumes : Consumes source bound first second) :
    Ready source (bound - 3) second :=
  consumes.ready.rebound (by
    have := consumes.fits
    omega)

theorem Consumes.left_lt (consumes : Consumes source bound first second) :
    second.left < first.left := by
  have := consumes.passed
  have := second.left_le_room
  have := ParseState.left_eq consumes.goesOn
  omega

/-- A reading that is ready behind some character of a token is later. -/
theorem Ready.consumes (ready : Ready source bound first) (goesOn : first.token.kind.isEnd = false)
    (readyBehind : Ready source bound' second) (moved : first.token.span.start < second.lastEnd)
    (passed : second.room ≤ first.cursor.rest.length) : Consumes source bound first second := by
  have before := ready.behind
  have behind := readyBehind.behind
  have fits := ready.fits
  have filled := TokenKind.weight_pos goesOn
  have here : first.room = first.cursor.rest.length + first.token.kind.weight := rfl
  have there : second.room = second.cursor.rest.length + second.token.kind.weight := rfl
  exact ⟨⟨readyBehind.rebound (by omega), by omega, by omega, by simp [goesOn], by omega, by omega⟩,
    goesOn, moved, passed, by omega⟩

/-- What was read since a token is snug. -/
theorem Consumes.snug (consumes : Consumes source bound first second)
    (ready : Ready source bound' first) :
    (Span.mk first.token.span.start second.lastEnd).Snug source where
  opens := ready.stands.opens consumes.goesOn
  closes := by
    rcases consumes.ready.closes with none | closes
    · have := consumes.moved
      omega
    · exact closes
  filled := consumes.moved

/-- A stretch that was read since a token, with what it encloses. -/
theorem Consumes.laid {role : Role} {inside : Plan} {low high : Nat}
    (consumes : Consumes source bound first second) (ready : Ready source bound' first)
    (plain : role.isBracketed = false) (within : inside.Laid source low high)
    (begins : first.token.span.start ≤ low) (ends : high ≤ second.lastEnd)
    (proper : role = .expr → ⟨first.token.span.start, second.lastEnd⟩ ∉ inside.exprs) :
    (Plan.one role ⟨first.token.span.start, second.lastEnd⟩ inside).Laid source
      first.token.span.start second.lastEnd := by
  rw [Plan.laid_one]
  refine ⟨Nat.le_refl _, Nat.le_refl _, consumes.snug ready, ?_, proper, ?_⟩
  · rw [Role.inner, plain]
    exact within.mono begins ends
  · rintro rfl
    cases plain

/-- The state behind the current token. -/
structure Passes (source : List Char) (bound : Nat) (first second : ParseState) : Prop
    extends Consumes source bound first second where
  stops : second.lastEnd = first.token.span.stop

/-- Stretches laid by one step and by a later one are laid one behind the other. -/
theorem laid_join {left right : Plan} {start between behind last : ParseState}
    (leftLaid : left.Laid source start.token.span.start between.lastEnd)
    (fromStart : Follows source bound start behind) (onwards : Follows source bound' between behind)
    (rightLaid : right.Laid source behind.token.span.start last.lastEnd)
    (follows : Follows source bound'' behind last) :
    (left ++ right).Laid source start.token.span.start last.lastEnd :=
  leftLaid.append rightLaid (Nat.le_trans onwards.lastEnd onwards.ready.behind) fromStart.start
    (Nat.le_trans onwards.lastEnd follows.lastEnd)

/-- What was read since a token, if anything was, lies between it and the place reached. -/
structure Covers (source : List Char) (bound : Nat) (first : ParseState) (plan : Plan)
    (next : ParseState) : Prop where
  follows : Follows source bound first next
  laid : plan.Laid source first.token.span.start next.lastEnd

/-- What was read since a token, at least one character, lies between it and the place
reached. -/
structure Spans (source : List Char) (bound : Nat) (first : ParseState) (plan : Plan)
    (next : ParseState) : Prop where
  consumes : Consumes source bound first next
  laid : plan.Laid source first.token.span.start next.lastEnd

/-- What was read since a token lies between it and the place reached, and no expression of
it takes up all that lies between. -/
structure Parts (source : List Char) (bound : Nat) (first : ParseState) (plan : Plan)
    (next : ParseState) : Prop extends Spans source bound first plan next where
  proper : ⟨first.token.span.start, next.lastEnd⟩ ∉ plan.exprs

variable {plan left right : Plan} {between behind last : ParseState}

theorem Follows.covers (follows : Follows source bound first second) :
    Covers source bound first .nil second :=
  ⟨follows, Plan.laid_nil⟩

theorem Consumes.parts (consumes : Consumes source bound first second) :
    Parts source bound first .nil second :=
  ⟨⟨consumes, Plan.laid_nil⟩, List.not_mem_nil⟩

theorem Consumes.spans (consumes : Consumes source bound first second) :
    Spans source bound first .nil second :=
  consumes.parts.toSpans

theorem Spans.covers (spans : Spans source bound first plan second) :
    Covers source bound first plan second := ⟨spans.consumes.follows, spans.laid⟩

theorem Spans.ready (spans : Spans source bound first plan second) : Ready source bound second :=
  spans.consumes.ready

theorem Spans.follows (spans : Spans source bound first plan second) :
    Follows source bound first second :=
  spans.consumes.follows

theorem Covers.ready (covers : Covers source bound first plan second) :
    Ready source bound second :=
  covers.follows.ready

/-- Reading on without an answer. -/
theorem Covers.trans (covers : Covers source bound first plan second)
    (onwards : Follows source bound' second third) : Covers source bound first plan third :=
  ⟨covers.follows.trans onwards, covers.laid.mono (Nat.le_refl _) onwards.lastEnd⟩

theorem Spans.trans (spans : Spans source bound first plan second)
    (onwards : Follows source bound' second third) : Spans source bound first plan third :=
  ⟨spans.consumes.trans onwards, spans.laid.mono (Nat.le_refl _) onwards.lastEnd⟩

/-- Passing over something behind what was read. -/
theorem Covers.passes (covers : Covers source bound first plan second)
    (consumes : Consumes source bound' second third) : Parts source bound first plan third where
  consumes := covers.follows.consumes consumes
  laid := (covers.trans consumes.follows).laid
  proper := covers.laid.not_mem_exprs
    (.inr (Nat.lt_of_le_of_lt covers.ready.behind consumes.moved))

theorem Spans.passes (spans : Spans source bound first plan second)
    (consumes : Consumes source bound' second third) : Parts source bound first plan third :=
  spans.covers.passes consumes

/-- What was read since a later token was read since an earlier one. -/
theorem Follows.covers_of (before : Follows source bound first second)
    (covers : Covers source bound' second plan third) : Covers source bound first plan third :=
  ⟨before.trans covers.follows, covers.laid.mono before.start (Nat.le_refl _)⟩

theorem Follows.spans_of (before : Follows source bound first second)
    (spans : Spans source bound' second plan third) : Spans source bound first plan third :=
  ⟨before.consumes spans.consumes, spans.laid.mono before.start (Nat.le_refl _)⟩

/-- What was read behind a token that was passed over. -/
theorem Consumes.parts_of (before : Consumes source bound first second)
    (covers : Covers source bound' second plan third) : Parts source bound first plan third where
  consumes := before.trans covers.follows
  laid := covers.laid.mono before.start (Nat.le_refl _)
  proper := covers.laid.not_mem_exprs
    (.inl (Nat.lt_of_lt_of_le before.moved before.ready.behind))

/-- What stands inside of a stretch that was read. -/
theorem Spans.enclosed {role : Role} {span : Span}
    (spans : Spans source bound first (.one role span plan) second) :
    Spans source bound first plan second := by
  obtain ⟨begins, ends, _, within, _⟩ := Plan.laid_one.mp spans.laid
  have inner := role.inner_le span
  exact ⟨spans.consumes, within.mono (by omega) (by omega)⟩

/-- What was read in two goes lies one behind the other. -/
theorem Covers.join (before : Covers source bound first left between)
    (onwards : Follows source bound' between behind)
    (after : Covers source bound'' behind right last) :
    Covers source bound first (left ++ right) last where
  follows := before.follows.trans (onwards.trans after.follows)
  laid := laid_join before.laid (before.follows.trans onwards) onwards after.laid after.follows

theorem Covers.join_spans (before : Covers source bound first left between)
    (onwards : Follows source bound' between behind)
    (after : Spans source bound'' behind right last) :
    Spans source bound first (left ++ right) last :=
  ⟨(before.follows.trans onwards).consumes after.consumes,
    (before.join onwards after.covers).laid⟩

theorem Spans.join (before : Spans source bound first left between)
    (onwards : Follows source bound' between behind)
    (after : Covers source bound'' behind right last) :
    Spans source bound first (left ++ right) last :=
  ⟨before.consumes.trans (onwards.trans after.follows), (before.covers.join onwards after).laid⟩

/-- Of two goes neither one takes up all that was read. -/
theorem Spans.join_spans (before : Spans source bound first left between)
    (onwards : Follows source bound' between behind)
    (after : Spans source bound'' behind right last) :
    Parts source bound first (left ++ right) last where
  toSpans := before.join onwards after.covers
  proper := by
    have edge := before.consumes.moved
    have lastEnd := onwards.lastEnd
    have begins := onwards.ready.behind
    have moved := after.consumes.moved
    rw [Plan.exprs_append, List.mem_append, not_or]
    exact ⟨before.laid.not_mem_exprs (.inr (by simp only; omega)),
      after.laid.not_mem_exprs (.inl (by simp only; omega))⟩

/-- What was read as one stretch that is not an expression. -/
theorem Spans.one {role : Role} (spans : Spans source bound first plan second)
    (ready : Ready source bound' first) (plain : (role.isBracketed || role == .expr) = false) :
    Spans source bound first (.one role ⟨first.token.span.start, second.lastEnd⟩ plan) second := by
  rw [Bool.or_eq_false_iff] at plain
  refine ⟨spans.consumes, spans.consumes.laid ready plain.1 spans.laid (Nat.le_refl _)
    (Nat.le_refl _) ?_⟩
  rintro rfl
  exact absurd plain.2 (by decide)

/-- What was read as one expression. -/
theorem Parts.expr (parts : Parts source bound first plan second)
    (ready : Ready source bound' first) :
    Spans source bound first (.one .expr ⟨first.token.span.start, second.lastEnd⟩ plan) second :=
  ⟨parts.consumes, parts.consumes.laid ready rfl parts.laid (Nat.le_refl _) (Nat.le_refl _)
    fun _ => parts.proper⟩

/-- What was read as one stretch that is not an expression, with no expression in it that
takes up all of it. -/
theorem Parts.one {role : Role} (parts : Parts source bound first plan second)
    (ready : Ready source bound' first) (plain : (role.isBracketed || role == .expr) = false) :
    Parts source bound first (.one role ⟨first.token.span.start, second.lastEnd⟩ plan) second where
  toSpans := parts.toSpans.one ready plain
  proper := by
    rw [Bool.or_eq_false_iff] at plain
    rw [Plan.exprs_one_of_ne (by simpa using plain.2)]
    exact parts.proper

/-- The span of a token that is passed over. -/
theorem Passes.span_eq (passed : Passes source bound first second) :
    (⟨first.token.span.start, second.lastEnd⟩ : Span) = first.token.span := by
  rw [passed.stops]

/-- A token that is passed over, as a stretch. -/
theorem Passes.spans_token {role : Role} (passed : Passes source bound first second)
    (ready : Ready source bound' first) (plain : role.isBracketed = false) :
    Spans source bound first (.one role first.token.span .nil) second := by
  refine ⟨passed.toConsumes, ?_⟩
  rw [← passed.span_eq]
  exact passed.toConsumes.laid ready plain Plan.laid_nil (Nat.le_refl _) (Nat.le_refl _)
    fun _ => List.not_mem_nil

/-- A token that is passed over, as a key. -/
theorem Passes.spans_key (passed : Passes source bound first second)
    (ready : Ready source bound' first) :
    Spans source bound first (.key first.token.span .nil) second := by
  refine ⟨passed.toConsumes, ⟨Nat.le_refl _, Nat.le_of_eq passed.stops.symm, ?_⟩, trivial⟩
  rw [← passed.span_eq]
  exact passed.toConsumes.snug ready

/-- Whether `yield` is an operator does not matter for where a reading stands. -/
theorem Ready.withGenerator (ready : Ready source bound state) (isGenerator : Bool) :
    Ready source bound { state with inGenerator := isGenerator } :=
  ⟨⟨ready.place.whole, ready.place.cursor⟩, ready.stands, ready.ends, ready.behind, ready.closes,
    ready.fits⟩

namespace Parse

variable {α β σ : Type} {limit limit' : Nat}

/-- A step may move a reading on, if what is left to read fits the limit. -/
def Skips (source : List Char) (limit : Nat) (step : Parse α) : Prop :=
  ∀ ⦃bound : Nat⦄ (state : ParseState), Ready source bound state → bound ≤ limit →
      Yields step state fun _ next => Follows source bound state next

/-- A step moves a reading on. -/
def Takes (source : List Char) (limit : Nat) (step : Parse α) : Prop :=
  ∀ ⦃bound : Nat⦄ (state : ParseState), Ready source bound state → bound ≤ limit →
      Yields step state fun _ next => Consumes source bound state next

/-- A step moves a reading on, and the stretches of what it answers lie in what it passed. -/
def Lays (source : List Char) (limit : Nat) (plan : α → Plan) (step : Parse α) : Prop :=
  ∀ ⦃bound : Nat⦄ (state : ParseState), Ready source bound state → bound ≤ limit →
      Yields step state fun value next => Spans source bound state (plan value) next

theorem Lays.takes {plan : α → Plan} {step : Parse α} (lays : Lays source limit plan step) :
    Takes source limit step :=
  fun _ state ready le => (lays state ready le).mono fun _ _ laid => laid.1

/-- What fits a lower limit fits a higher one. -/
theorem Lays.mono {plan : α → Plan} {step : Parse α} (lays : Lays source limit' plan step)
    (le : limit ≤ limit') : Lays source limit plan step :=
  fun _ state ready lower => lays state ready (Nat.le_trans lower le)

theorem Skips.bind {step : Parse α} {more : α → Parse β} (first : Skips source limit step)
    (rest : ∀ value, Skips source limit (more value)) : Skips source limit (step >>= more) :=
  fun _ state ready le => (first state ready le).bind fun value next follows =>
    (rest value next follows.ready le).mono fun _ _ behind => follows.trans behind

theorem skips_pure (value : α) : Skips source limit (pure value) :=
  fun _ _ ready _ => .pure ready.follows

end Parse

end StopMotion.Syntax
