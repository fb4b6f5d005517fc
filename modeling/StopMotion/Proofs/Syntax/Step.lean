import StopMotion.Proofs.Syntax.Reading

/-!
# What each step of a reading does

Passing over tokens, looking ahead, reading on at the cursor and repeating, each with what it
leaves of a reading that is ready, and `Rules.Sound`, which says of the rules that call each
other what their own proofs need of them.
-/

namespace StopMotion.Syntax

open Text (OpensAt ClosesAt)

variable {source : List Char} {bound bound' : Nat} {first second third state : ParseState}
  {plan left right : Plan} {between behind last : ParseState}

namespace Parse

variable {α β σ : Type} {limit : Nat}

/-! ## Passing over a token -/

/-- A way of reading moves the cursor of a place in the source, if it settles. -/
theorem yields_reading {read : Cursor → Reading (α × Cursor)} {more : α → Parse β}
    {after : β → ParseState → Prop} (place : state.In source)
    (settles : Settles (read state.cursor))
    (rest : ∀ value cursor, read state.cursor = .ok (value, cursor) →
      Yields (more value) { state with cursor } after) :
    Yields (reading read >>= more) state after := by
  have answers : Yields (reading read) state fun value next =>
      ∃ cursor, read state.cursor = .ok (value, cursor) ∧ next = { state with cursor } := by
    unfold Yields reading
    rw [place.rest?_eq]
    cases answer : read state.cursor with
    | error error =>
        simp only [answer]
        exact settles error answer
    | ok answered =>
        simp only [answer]
        exact ⟨_, rfl, rfl⟩
  refine answers.bind fun value next held => ?_
  obtain ⟨cursor, answer, rfl⟩ := held
  exact rest value cursor answer

theorem yields_place {more : Cursor → Parse β} {after : β → ParseState → Prop}
    (inSource : state.In source) (rest : Yields (more state.cursor) state after) :
    Yields (place >>= more) state after :=
  yields_reading inSource (settles_ok _) fun _ _ read => by
    cases read
    exact rest

/-- Passing over a token that is there. -/
theorem advance_yields (ready : Ready source bound state)
    (goesOn : state.token.kind.isEnd = false) :
    Yields advance state fun passed next =>
      passed = state.token ∧ Passes source bound state next := by
  unfold advance
  rw [yields_token]
  refine yields_reading ready.place settles_readToken fun nextToken cursor tokenRead => ?_
  rw [yields_modify]
  have read := read_readToken ready.place.cursor tokenRead
  have filled := ready.stands.filled goesOn
  have shorter := read.shorter
  have behind := read.behind
  rw [← ready.ends] at behind
  let next : ParseState :=
    { state with cursor, token := nextToken, lastEnd := state.token.span.stop }
  have nextReady : Ready source (3 * next.room + 1) next :=
    ⟨⟨ready.place.whole, read.place⟩, read.stands, read.ends, behind,
      .inr (ready.stands.closes goesOn),
      Nat.lt_succ_self _⟩
  exact .pure ⟨rfl, ready.consumes goesOn nextReady filled shorter, rfl⟩

/-- Passing over a token, the end included, leaves a place in the source. -/
theorem advance_settles (place : state.In source) :
    Yields advance state fun passed behind =>
      behind.In source ∧ advance state = .ok (passed, behind) := by
  have settles : Yields advance state fun _ behind => behind.In source := by
    unfold advance
    rw [yields_token]
    refine yields_reading place settles_readToken fun _ _ read => ?_
    rw [yields_modify]
    exact .pure ⟨place.whole, (read_readToken place.cursor read).place⟩
  exact yields_iff.mpr ⟨fun _ _ run => ⟨settles.of_run run, run⟩, fun _ => settles.of_error⟩

theorem pass_yields (ready : Ready source bound state) (goesOn : state.token.kind.isEnd = false) :
    Yields pass state fun _ next => Passes source bound state next :=
  (advance_yields ready goesOn).bind fun _ _ passed => .pure passed.2

/-- A token that is a punctuator is not the end. -/
theorem goesOn_of_isPunct {kind : TokenKind} {punct : Punct} (isPunct : kind.isPunct punct = true) :
    kind.isEnd = false := by
  cases kind <;> first | rfl | cases isPunct

theorem goesOn_of_isWord {kind : TokenKind} {word : String} (isWord : kind.isWord word = true) :
    kind.isEnd = false := by
  cases kind <;> first | rfl | cases isWord

theorem goesOn_of_word? {kind : TokenKind} {accepts : String → Bool}
    (isWord : kind.word?.any accepts = true) : kind.isEnd = false := by
  cases kind <;> first | rfl | cases isWord

theorem goesOn_of_word?_eq {kind : TokenKind} {word : String} (is : kind.word? = some word) :
    kind.isEnd = false := by
  cases kind <;> first | rfl | cases is

theorem goesOn_of_eq {kind kind' : TokenKind} (is : kind = kind')
    (goesOn : kind'.isEnd = false) : kind.isEnd = false := by
  rw [is]
  exact goesOn

/-- What passing over an optional token leaves, and why it was left. -/
theorem eat_yields_at {punct : Punct} (ready : Ready source bound state) :
    Yields (eat punct) state fun eaten next =>
      (eaten = false ∧ next = state ∧ state.token.kind.isPunct punct = false) ∨
        (eaten = true ∧ Passes source bound state next) := by
  unfold eat
  rw [yields_at?]
  split
  · rename_i here
    exact (pass_yields ready (goesOn_of_isPunct here)).bind fun _ _ passed =>
      .pure (.inr ⟨rfl, passed⟩)
  · rename_i other
    exact .pure (.inl ⟨rfl, rfl, by simpa using other⟩)

/-- What passing over an optional token leaves. -/
theorem eat_yields {punct : Punct} (ready : Ready source bound state) :
    Yields (eat punct) state fun eaten next =>
      (eaten = false ∧ next = state) ∨ (eaten = true ∧ Passes source bound state next) :=
  (eat_yields_at ready).mono fun _ _ held => held.imp_left fun held => ⟨held.1, held.2.1⟩

theorem eatWord_yields {word : String} (ready : Ready source bound state) :
    Yields (eatWord word) state fun eaten next =>
      (eaten = false ∧ next = state) ∨ (eaten = true ∧ Passes source bound state next) := by
  unfold eatWord
  rw [yields_atWord?]
  split
  · rename_i here
    exact (pass_yields ready (goesOn_of_isWord here)).bind fun _ _ passed =>
      .pure (.inr ⟨rfl, passed⟩)
  · exact .pure (.inl ⟨rfl, rfl⟩)

theorem expect_yields {punct : Punct} (ready : Ready source bound state) :
    Yields (expect punct) state fun span next =>
      span = state.token.span ∧ state.token.kind.isPunct punct = true ∧
        Passes source bound state next := by
  unfold expect
  rw [yields_at?]
  split
  · rename_i here
    exact (advance_yields ready (goesOn_of_isPunct here)).bind fun passed _ held => by
      obtain ⟨rfl, passed⟩ := held
      exact .pure ⟨rfl, here, passed⟩
  · exact yields_unexpected

theorem expectWord_yields {word : String} (ready : Ready source bound state) :
    Yields (expectWord word) state fun span next =>
      span = state.token.span ∧ Passes source bound state next := by
  unfold expectWord
  rw [yields_atWord?]
  split
  · rename_i here
    exact (advance_yields ready (goesOn_of_isWord here)).bind fun passed _ held => by
      obtain ⟨rfl, passed⟩ := held
      exact .pure ⟨rfl, passed⟩
  · exact yields_unexpected

theorem skips_eat {punct : Punct} : Skips source limit (eat punct) :=
  fun _ state ready _ => (eat_yields ready).mono fun _ _ => by
    rintro (⟨_, rfl⟩ | ⟨_, passed⟩)
    · exact ready.follows
    · exact passed.follows

theorem skips_eatWord {word : String} : Skips source limit (eatWord word) :=
  fun _ state ready _ => (eatWord_yields ready).mono fun _ _ => by
    rintro (⟨_, rfl⟩ | ⟨_, passed⟩)
    · exact ready.follows
    · exact passed.follows

theorem takes_expect {punct : Punct} : Takes source limit (expect punct) :=
  fun _ _ ready _ => (expect_yields ready).mono fun _ _ held => held.2.2.toConsumes

theorem takes_expectWord {word : String} : Takes source limit (expectWord word) :=
  fun _ _ ready _ => (expectWord_yields ready).mono fun _ _ held => held.2.toConsumes

/-- A name is the token passed. -/
theorem anyName_yields (ready : Ready source bound state) :
    Yields anyName state fun name next =>
      name.span = state.token.span ∧ Passes source bound state next := by
  unfold anyName
  rw [yields_token]
  split
  · rename_i text isWord
    refine (pass_yields ready (by rw [isWord]; rfl)).bind fun _ _ passed => .pure ⟨rfl, passed⟩
  · exact yields_unexpected

theorem bindingName_yields (ready : Ready source bound state) :
    Yields bindingName state fun name next =>
      name.span = state.token.span ∧ Passes source bound state next := by
  unfold bindingName
  rw [yields_atBinding?]
  split
  · exact anyName_yields ready
  · exact yields_unexpected

theorem takes_anyName : Takes source limit anyName :=
  fun _ _ ready _ => (anyName_yields ready).mono fun _ _ held => held.2.toConsumes

theorem takes_bindingName : Takes source limit bindingName :=
  fun _ _ ready _ => (bindingName_yields ready).mono fun _ _ held => held.2.toConsumes

theorem takes_stringLiteral : Takes source limit stringLiteral := by
  intro bound state ready _
  unfold stringLiteral
  rw [yields_kind]
  split
  · rename_i value isString
    exact (pass_yields ready (by rw [isString]; rfl)).bind fun _ _ passed => .pure passed.toConsumes
  · exact yields_unexpected

theorem skips_semicolon : Skips source limit semicolon := by
  intro bound state ready _
  refine (eat_yields ready).bind fun eaten next held => ?_
  rcases held with ⟨rfl, rfl⟩ | ⟨rfl, passed⟩
  · simp only [Bool.false_eq_true, if_false, yields_at?, yields_atEnd?, yields_afterNewline?]
    split
    · exact .pure ready.follows
    · exact yields_unexpected
  · exact .pure passed.follows

/-! ## Looking ahead -/

/-- A look at the next token tells what passing over this one leads to. -/
theorem peek_yields (place : state.In source) :
    Yields peek state fun token next =>
      next = state ∧ ∃ passed behind,
        advance state = .ok (passed, behind) ∧ behind.token = token := by
  unfold peek
  rw [yields_get]
  refine (advance_settles place).bind fun passed behind held => ?_
  rw [yields_token, yields_set]
  exact .pure ⟨rfl, passed, behind, held.2, rfl⟩

theorem yields_peek {more : Token → Parse β} {after : β → ParseState → Prop}
    (place : state.In source) (rest : ∀ token, Yields (more token) state after) :
    Yields (peek >>= more) state after :=
  (peek_yields place).bind fun token next held => by
    obtain ⟨rfl, _⟩ := held
    exact rest token

/-- A step that is undone, with its failure, unless it answers something. -/
theorem speculate_yields {step : Parse (Option α)} {holds : α → ParseState → Prop}
    (yields : Yields step state fun answer next =>
      ∀ value, answer = some value → holds value next) :
    Yields (speculate step) state fun answer next =>
      (answer = none ∧ next = state) ∨ ∃ value, answer = some value ∧ holds value next := by
  unfold Yields speculate
  cases run : step state with
  | error error =>
      have settled : error.isGivenUp = false := yields.of_error run
      simp [settled]
  | ok answered =>
      obtain ⟨answer, next⟩ := answered
      cases answer with
      | none => exact .inl ⟨rfl, rfl⟩
      | some value => exact .inr ⟨value, rfl, yields.of_run run value rfl⟩

theorem foresee_yields {step : Parse Bool} {holds : Bool → ParseState → Prop}
    (yields : Yields step state holds) : Yields (foresee step) state
        fun _ next => next = state := by
  unfold Yields foresee
  cases run : step state with
  | error error =>
      have settled : error.isGivenUp = false := yields.of_error run
      simp [settled]
  | ok => rfl

/-! ## Reading at the cursor -/

/-- Reading on in the ordinary way makes a reading ready. -/
theorem resume_yields {regexMayFollow : Bool} (place : state.In source)
    (closes : ClosesAt source state.cursor.pos)
    (fits : 3 * state.cursor.rest.length < bound) :
    Yields (resume regexMayFollow) state fun _ next => Ready source bound next ∧
      next.lastEnd = state.cursor.pos ∧ next.room ≤ state.cursor.rest.length := by
  unfold resume
  rw [yields_modify]
  refine yields_reading ⟨place.whole, place.cursor⟩ settles_readToken fun token cursor read => ?_
  have read := read_readToken place.cursor read
  have shorter : cursor.rest.length + token.kind.weight ≤ state.cursor.rest.length := read.shorter
  rw [← bind_pure (modify _), yields_modify]
  refine .pure ⟨⟨⟨place.whole, read.place⟩, read.stands, read.ends, read.behind, .inr closes, ?_⟩,
    rfl, shorter⟩
  exact Nat.lt_of_le_of_lt (Nat.mul_le_mul_left 3 shorter) fits

/-! ## The operator `yield` -/

theorem lays_withGenerator {plan : α → Plan} {isGenerator : Bool} {step : Parse α}
    (lays : Lays source limit plan step) :
    Lays source limit plan (withGenerator isGenerator step) := by
  intro bound state ready le
  unfold withGenerator
  rw [yields_get, yields_modify]
  refine (lays _ (ready.withGenerator isGenerator) le).bind fun value next held => ?_
  rw [yields_modify]
  obtain ⟨⟨⟨nextReady, lastEnd, start, atEnd, rest, room⟩,
    goesOn, moved, passed, fits⟩, laid⟩ := held
  exact .pure ⟨⟨⟨nextReady.withGenerator _, lastEnd, start, atEnd, rest, room⟩, goesOn, moved,
    passed, fits⟩, laid⟩

/-! ## Repetition -/

/-- A repetition keeps what each step of it keeps, and it ends: each step that does not end it
makes a measure smaller, which is no more than what is left to read at the start. -/
theorem repeating_by {start : σ} {step : σ → Parse (σ ⊕ α)} (measure : σ → ParseState → Nat)
    (keeps : σ → ParseState → Prop) {holds : α → ParseState → Prop} (held : keeps start state)
    (few : measure start state ≤ state.cursor.rest.length + 1)
    (each : ∀ soFar state, keeps soFar state → Yields (step soFar) state fun answer next =>
      Sum.elim (fun longer => keeps longer next ∧ measure longer next < measure soFar state)
        (holds · next) answer) :
    Yields (repeating start step) state holds := by
  have bounded (count : Nat) (soFar : σ) (state : ParseState) (held : keeps soFar state)
      (enough : measure soFar state < count) :
      Yields (repeatAtMost step count soFar) state holds := by
    induction count generalizing soFar state with
    | zero => exact absurd enough (Nat.not_lt_zero _)
    | succ count inductionHypothesis =>
        refine (each soFar state held).bind fun answer next answered => ?_
        cases answer with
        | inl longer =>
            obtain ⟨held, smaller⟩ := answered
            exact inductionHypothesis longer next held (by omega)
        | inr result => exact .pure answered
  exact bounded _ start state held (Nat.lt_succ_of_le few)

/-- A repetition whose steps pass over a token each, but for the last one. -/
theorem repeating_yields {start : σ} {step : σ → Parse (σ ⊕ α)}
    (keeps : σ → ParseState → Prop) {holds : α → ParseState → Prop} (held : keeps start state)
    (each : ∀ soFar state, keeps soFar state → Yields (step soFar) state fun answer next =>
      Sum.elim (fun longer => keeps longer next ∧ next.left < state.left) (holds · next) answer) :
    Yields (repeating start step) state holds :=
  repeating_by (fun _ state => state.left) keeps held state.left_le each

/-- What follows a repetition. -/
theorem repeating_bind {start : σ} {step : σ → Parse (σ ⊕ α)} {more : α → Parse β}
    {after : β → ParseState → Prop} (keeps : σ → ParseState → Prop) (holds : α → ParseState → Prop)
    (held : keeps start state)
    (each : ∀ soFar state, keeps soFar state → Yields (step soFar) state fun answer next =>
      Sum.elim (fun longer => keeps longer next ∧ next.left < state.left) (holds · next) answer)
    (rest : ∀ value next, holds value next → Yields (more value) next after) :
    Yields (repeating start step >>= more) state after :=
  (repeating_yields keeps held each).bind rest

end Parse

/-- The stretches of some things, one behind the other. -/
def Plan.all {α : Type} (plan : α → Plan) : List α → Plan
  | [] => .nil
  | first :: rest => plan first ++ all plan rest

namespace Plan

variable {α : Type}

theorem all_append (plan : α → Plan) (left right : List α) :
    all plan (left ++ right) = all plan left ++ all plan right := by
  induction left with
  | nil => rfl
  | cons first rest inductionHypothesis =>
      simp only [List.cons_append, all, inductionHypothesis, append_assoc]

@[simp] theorem all_nil (plan : α → Plan) : all plan [] = nil := rfl

@[simp] theorem all_singleton (plan : α → Plan) (value : α) : all plan [value] = plan value :=
  append_nil _

/-- A thing put before those collected so far stands behind them in the end. -/
@[simp] theorem all_reverse_cons (plan : α → Plan) (value : α) (values : List α) :
    all plan (value :: values).reverse = all plan values.reverse ++ plan value := by
  rw [List.reverse_cons, all_append, all_singleton]

/-- The stretches of an optional thing. -/
def option (plan : α → Plan) : Option α → Plan
  | none => .nil
  | some value => plan value

end Plan

@[simp] theorem Node.plan_ofList {c : Category} (nodes : List (Node c)) :
    (Node.ofList nodes).plan = Plan.all Node.plan nodes := by
  induction nodes with
  | nil => rfl
  | cons head tail inductionHypothesis =>
      exact congrArg (head.plan ++ ·) inductionHypothesis

@[simp] theorem Node.plan_ofOption {c : Category} (node : Option (Node c)) :
    (Node.ofOption node).plan = Plan.option Node.plan node := by
  cases node <;> rfl

namespace Parse

variable {α β : Type} {limit : Nat}

theorem Takes.lays {step : Parse α} (takes : Takes source limit step) :
    Lays source limit (fun _ => .nil) step :=
  fun _ state ready le => (takes state ready le).mono fun _ _ consumes => consumes.spans

/-! ## Optional answers -/

section Optional

variable {plan : α → Plan} {step : Parse α} {more : Option α → Parse β}
  {after : β → ParseState → Prop}

theorem Lays.bind_some (lays : Lays source limit plan step) (ready : Ready source bound state)
    (le : bound ≤ limit)
    (rest : ∀ value next, Covers source bound state (.option plan value) next →
      Yields (more value) next after) :
    Yields (some <$> step >>= more) state after := by
  have covers : Yields (some <$> step) state fun value next =>
      Covers source bound state (.option plan value) next :=
    Yields.map ((lays state ready le).mono fun _ _ spans => spans.covers)
  exact covers.bind rest

/-- What follows an optional punctuator. -/
theorem Lays.bind_eat (lays : Lays source limit plan step) {punct : Punct}
    (ready : Ready source bound state)
    (le : bound ≤ limit + 3)
    (rest : ∀ value next, Covers source bound state (.option plan value) next →
      Yields (more value) next after) :
    Yields (do
      let value ← if ← eat punct then some <$> step else pure none
      more value) state after := by
  refine (eat_yields ready).bind fun eaten next held => ?_
  rcases held with ⟨rfl, rfl⟩ | ⟨rfl, passed⟩
  · exact rest none next ready.follows.covers
  · exact lays.bind_some passed.deeper (by omega) fun value last covers =>
      rest value last (passed.follows.covers_of covers)

/-- What follows an optional word. -/
theorem Lays.bind_eatWord (lays : Lays source limit plan step) {word : String}
    (ready : Ready source bound state)
    (le : bound ≤ limit + 3)
    (rest : ∀ value next, Covers source bound state (.option plan value) next →
      Yields (more value) next after) :
    Yields (do
      let value ← if ← eatWord word then some <$> step else pure none
      more value) state after := by
  refine (eatWord_yields ready).bind fun eaten next held => ?_
  rcases held with ⟨rfl, rfl⟩ | ⟨rfl, passed⟩
  · exact rest none next ready.follows.covers
  · exact lays.bind_some passed.deeper (by omega) fun value last covers =>
      rest value last (passed.follows.covers_of covers)

/-- What is left out where a condition holds. -/
theorem Lays.bind_unless (lays : Lays source limit plan step) {isLeftOut : Bool}
    (ready : Ready source bound state)
    (le : bound ≤ limit)
    (rest : ∀ value next, Covers source bound state (.option plan value) next →
      Yields (more value) next after) :
    Yields (do
      let value ← if isLeftOut then pure none else some <$> step
      more value) state after := by
  cases isLeftOut with
  | true => exact rest none state ready.follows.covers
  | false => exact lays.bind_some ready le rest

end Optional

/-! ## Many items -/

/-- Items are laid one behind the other, up to where they stop. -/
theorem many_yields {plan : α → Plan} {stop : Parse Bool} {item : Parse α}
    {stopped : ParseState → ParseState → Prop} (ready : Ready source bound state)
    (stops : ∀ state, Ready source bound state → Yields stop state fun answer next =>
      (answer = false ∧ next = state) ∨ (answer = true ∧ stopped state next))
    (lays : Lays source limit plan item)
    (le : bound ≤ limit) :
    Yields (many stop item) state fun items next => ∃ last,
      Covers source bound state (.all plan items) last ∧ stopped last next := by
  unfold many
  refine repeating_yields
    (fun (items : List α) last => Covers source bound state (.all plan items.reverse) last)
    ready.follows.covers fun items last covers => ?_
  refine (stops last covers.ready).bind fun answer next held => ?_
  rcases held with ⟨rfl, rfl⟩ | ⟨rfl, stopped⟩
  · refine (lays next covers.ready le).bind fun value behind spans => ?_
    refine .pure ⟨(?_ : Covers ..), spans.consumes.left_lt⟩
    rw [Plan.all_reverse_cons]
    exact covers.join covers.ready.follows spans.covers
  · exact .pure ⟨last, covers, stopped⟩

/-- Items up to a closing punctuator, which is passed over. -/
theorem many_eat_yields {plan : α → Plan} {close : Punct} {item : Parse α}
    (ready : Ready source bound state) (lays : Lays source limit plan item)
    (le : bound ≤ limit) :
    Yields (many (eat close) item) state fun items next => ∃ last,
      Covers source bound state (.all plan items) last ∧ Passes source bound last next :=
  many_yields ready (fun _ => eat_yields) lays le

/-- Items separated by commas, up to a closing punctuator. -/
theorem commaList_yields {plan : α → Plan} {close : Punct} {item : Parse α}
    (ready : Ready source bound state) (lays : Lays source limit plan item)
    (le : bound ≤ limit) :
    Yields (commaList close item) state fun items next =>
      Spans source bound state (.all plan items) next := by
  have separated : Lays source limit plan (do
      let value ← item
      unless ← at? close do
        let _ ← expect .comma
      return value) := by
    intro bound state ready le
    refine (lays state ready le).bind fun value next spans => ?_
    rw [yields_at?]
    split
    · exact .pure spans
    · exact (takes_expect next spans.ready (Nat.le_refl _)).bind fun _ behind comma =>
        .pure (spans.trans comma.follows)
  refine (many_eat_yields ready separated le).mono fun items next held => ?_
  obtain ⟨last, covers, passed⟩ := held
  exact (covers.passes passed.toConsumes).toSpans

end Parse

/-! ## The rules that call each other -/

/-- What an element read from the `<` at `start` leaves: a place behind its end. -/
structure Reaches (source : List Char) (start : Nat) (before : ParseState) (plan : Plan)
    (after : ParseState) : Prop where
  place : after.In source
  onwards : before.cursor.pos ≤ after.cursor.pos
  closes : ClosesAt source after.cursor.pos
  laid : plan.Laid source start after.cursor.pos
  shorter : after.cursor.rest.length < before.cursor.rest.length

/-- Rules whose answers are laid in what they pass, and that are not given up where what is
left to read fits the limit of their depth. A statement is read by an expression and this by
a construction without a token between them. An element is read at the cursor, which stands
behind its `<`. -/
structure Rules.Sound (source : List Char) (limit : Nat) (rules : Rules) : Prop where
  statement : Parse.Lays source (limit - 2) Node.plan rules.statement
  assignment (noIn : Bool) : Parse.Lays source (limit - 1) Node.plan (rules.assignment noIn)
  binary (least : Nat) (noIn : Bool) :
    Parse.Lays source (limit - 1) Node.plan (rules.binary least noIn)
  unary : Parse.Lays source (limit - 1) Node.plan rules.unary
  access : Parse.Lays source (limit - 1) Node.plan rules.access
  construction : Parse.Lays source limit Node.plan rules.construction
  target : Parse.Lays source (limit - 1) Node.plan rules.target
  element (start : Nat) (state : ParseState) (place : state.In source)
      (opens : OpensAt source start) (behind : start < state.cursor.pos)
      (fits : 3 * state.cursor.rest.length < limit) :
    Parse.Yields (rules.element start) state fun value next =>
      Reaches source start state value.plan next

end StopMotion.Syntax
