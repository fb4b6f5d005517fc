import StopMotion.Proofs.Syntax.Rejection.Token

/-!
# Where a step is refused

A reading stands firm where its token was read just before the cursor. A step that starts from
there is refused at a place of the source, or it leaves the reading firm. `Tells` says this of a
step whatever it answers, so it passes from the steps of a rule to the rule.
-/

namespace StopMotion.Syntax

open Text (EdgeAt ClosesAt)

variable {source : List Char} {low lower : Nat} {state : ParseState}

/-- A reading stands in its source, its token at `low` or behind it. What was passed ends with a
character that is not blank, unless the end of the source was. -/
structure Firm (source : List Char) (low : Nat) (state : ParseState) : Prop where
  whole : state.source = source
  token : state.token.Before source low state.cursor
  behind : state.lastEnd ≤ state.token.span.start
  closes : state.token.kind.isEnd = false → state.lastEnd = 0 ∨ ClosesAt source state.lastEnd

namespace Firm

theorem place (firm : Firm source low state) : state.In source := ⟨firm.whole, firm.token.place⟩

theorem cuts (firm : Firm source low state) : state.token.span.Cuts source := firm.token.cuts

theorem mono (firm : Firm source low state) (le : lower ≤ low) : Firm source lower state :=
  { firm with token := firm.token.mono le }

/-- Where the token is not the end, all that is left may be read. -/
theorem ready (firm : Firm source low state) (goesOn : state.token.kind.isEnd = false) :
    Ready source (3 * state.room + 1) state :=
  ⟨firm.place, firm.token.stands, firm.token.ends, firm.behind, firm.closes goesOn,
    Nat.lt_succ_self _⟩

/-- A reading that is ready stands firm before a token that is not the end. -/
theorem of_ready {bound : Nat} (ready : Ready source bound state)
    (goesOn : state.token.kind.isEnd = false) (le : low ≤ state.token.span.start) :
    Firm source low state :=
  ⟨ready.place.whole, ⟨ready.place.cursor, ready.stands, (ready.stands.opens goesOn).edgeAt,
    ready.ends, le, fun atEnd => absurd (goesOn.symm.trans atEnd) (by decide)⟩, ready.behind,
    fun _ => ready.closes⟩

/-- Whether `yield` is an operator does not matter for where a reading stands. -/
theorem withGenerator (firm : Firm source low state) (isGenerator : Bool) :
    Firm source low { state with inGenerator := isGenerator } :=
  ⟨firm.whole, firm.token, firm.behind, firm.closes⟩

end Firm

namespace Parse

variable {α β σ : Type} {step : Parse α} {more : α → Parse β}
  {holds : α → ParseState → Prop} {after : β → ParseState → Prop}

/-- What a step answers from a state satisfies a condition, or the step is refused at a place of
the source. -/
def TellsAt (source : List Char) (step : Parse α) (state : ParseState)
    (holds : α → ParseState → Prop) : Prop :=
  match step state with
  | .ok (value, next) => holds value next
  | .error error => error.Placed source

theorem tellsAt_iff : TellsAt source step state holds ↔
    (∀ value next, step state = .ok (value, next) → holds value next) ∧
      ∀ error, step state = .error error → error.Placed source := by
  unfold TellsAt
  split
  · rename_i run
    simp [run]
  · rename_i run
    simp [run]

namespace TellsAt

theorem of_run {value : α} {next : ParseState} (tells : TellsAt source step state holds)
    (run : step state = .ok (value, next)) : holds value next :=
  (tellsAt_iff.mp tells).1 value next run

theorem of_error {error : SyntaxError} (tells : TellsAt source step state holds)
    (run : step state = .error error) : error.Placed source :=
  (tellsAt_iff.mp tells).2 error run

theorem mono {holds' : α → ParseState → Prop} (tells : TellsAt source step state holds)
    (weaker : ∀ value next, step state = .ok (value, next) → holds value next →
      holds' value next) : TellsAt source step state holds' :=
  tellsAt_iff.mpr ⟨fun value next run => weaker value next run (tells.of_run run),
    fun _ run => tells.of_error run⟩

theorem bind (first : TellsAt source step state holds)
    (rest : ∀ value next, holds value next → TellsAt source (more value) next after) :
    TellsAt source (step >>= more) state after := by
  change match Except.bind (step state) (fun answer => more answer.1 answer.2) with
    | .ok (value, next) => after value next
    | .error error => error.Placed source
  cases answer : step state with
  | error error => exact first.of_error answer
  | ok answered => exact rest _ _ (first.of_run answer)

theorem pure {value : α} (held : holds value state) :
    TellsAt source (pure value : Parse α) state holds := held

theorem fail {span : Span} {cause : Cause} (cuts : span.Cuts source) :
    TellsAt source (fail span cause) state holds := .inl cuts

/-- What must hold, or a stretch of the source is refused. -/
theorem guarded {condition : Prop} [Decidable condition] {span : Span} {cause : Cause}
    {more : PUnit → Parse β} (cuts : span.Cuts source)
    (rest : condition → TellsAt source (more ⟨⟩) state after) :
    TellsAt source (if condition then more ⟨⟩ else Parse.fail span cause >>= more) state after := by
  split
  · exact rest ‹_›
  · exact .inl cuts

/-- A look at the state leaves it. -/
theorem look {see : ParseState → α} (rest : TellsAt source (more (see state)) state after) :
    TellsAt source ((fun state => .ok (see state, state) : Parse α) >>= more) state after := rest

/-- A change of the state. -/
theorem modify {change : ParseState → ParseState} {more : PUnit → Parse β}
    (rest : TellsAt source (more ⟨⟩) (change state) after) :
    TellsAt source (modify change >>= more) state after := rest

/-- A way of reading at the cursor of a place in the source. -/
theorem reading {read : Cursor → Reading (α × Cursor)} (place : state.In source)
    (points : Points source (read state.cursor))
    (rest : ∀ value cursor, read state.cursor = .ok (value, cursor) →
      TellsAt source (more value) { state with cursor } after) :
    TellsAt source (reading read >>= more) state after := by
  have answers : TellsAt source (Parse.reading read) state fun value next =>
      ∃ cursor, read state.cursor = .ok (value, cursor) ∧ next = { state with cursor } := by
    unfold TellsAt Parse.reading
    rw [place.rest?_eq]
    cases answer : read state.cursor with
    | error error =>
        simp only [answer]
        exact points error answer
    | ok answered =>
        simp only [answer]
        exact ⟨_, rfl, rfl⟩
  refine answers.bind fun value next held => ?_
  obtain ⟨cursor, answer, rfl⟩ := held
  exact rest value cursor answer

theorem place {more : Cursor → Parse β} (inSource : state.In source)
    (rest : TellsAt source (more state.cursor) state after) :
    TellsAt source (place >>= more) state after :=
  reading inSource (points_ok _) fun _ _ read => by
    cases read
    exact rest

end TellsAt

/-! ## Steps that keep a reading firm -/

/-- From a reading that stands firm a step is refused at a place of the source, or it leaves the
reading firm. -/
def Tells (source : List Char) (low : Nat) (step : Parse α) : Prop :=
  ∀ state, Firm source low state → TellsAt source step state fun _ next => Firm source low next

namespace Tells

theorem bind (first : Tells source low step) (rest : ∀ value, Tells source low (more value)) :
    Tells source low (step >>= more) :=
  fun state firm => (first state firm).bind fun value next => rest value next

theorem pure {value : α} : Tells source low (pure value : Parse α) :=
  fun _ firm => firm

theorem map {change : α → β} (first : Tells source low step) :
    Tells source low (change <$> step) := by
  rw [← bind_pure_comp]
  exact first.bind fun _ => pure

theorem ite {condition : Prop} [Decidable condition] {step' : Parse α}
    (yes : Tells source low step) (no : Tells source low step') :
    Tells source low (if condition then step else step') := by
  split
  · exact yes
  · exact no

theorem unexpected {wanted : Wanted} : Tells source low (unexpected wanted : Parse α) :=
  fun _ firm => .inl firm.cuts

/-- A look at the state leaves it. -/
theorem look {see : ParseState → α} (rest : ∀ value, Tells source low (more value)) :
    Tells source low ((fun state => .ok (see state, state) : Parse α) >>= more) :=
  fun state firm => rest (see state) state firm

/-- The span of the token, for a refusal of it. -/
theorem token {more : Token → Parse β}
    (rest : ∀ current : Token, current.span.Cuts source → Tells source low (more current)) :
    Tells source low (Parse.token >>= more) :=
  fun state firm => rest state.token firm.cuts state firm

theorem fail {span : Span} {cause : Cause} (cuts : span.Cuts source) :
    Tells source low (fail span cause : Parse α) :=
  fun _ _ => .fail cuts

/-- A step whose answer is given the span that was read. -/
theorem spanned {start : Nat} {make : α → Span → β} (first : Tells source low step) :
    Tells source low (do return make (← step) (← spanFrom start)) :=
  first.bind fun _ => look fun _ => pure

/-! ## Passing over a token -/

/-- Behind the end of the source there is the end again, so what is passed before a token that is
not the end has an end of its own. -/
theorem advance : Tells source low advance := by
  intro state firm
  refine .look (.reading firm.place (points_readToken firm.token.place) fun next cursor read => ?_)
  have before := before_readToken firm.token.place read
  have ends := firm.token.ends
  refine .modify (.pure ⟨firm.whole, before.mono firm.token.le, ?_, fun goesOn => .inr ?_⟩)
  · change state.token.span.stop ≤ next.span.start
    rw [ends]
    exact before.behind
  · change ClosesAt source state.token.span.stop
    refine firm.token.stands.closes ?_
    cases atEnd : state.token.kind.isEnd with
    | false => rfl
    | true =>
        have shorter := (read_readToken firm.token.place read).shorter
        have filled : 0 < next.kind.weight := TokenKind.weight_pos goesOn
        rw [firm.token.exhausted atEnd, List.length_nil] at shorter
        omega

theorem pass : Tells source low pass := advance.bind fun _ => pure

/-- A look at the token behind the current one leaves the reading where it was. -/
theorem tellsAt_peek (firm : Firm source low state) :
    TellsAt source Parse.peek state fun _ next => next = state :=
  .look ((advance _ firm).bind fun _ _ _ => rfl)

theorem peek : Tells source low peek :=
  fun _ firm => (tellsAt_peek firm).mono fun _ _ _ same => same ▸ firm

theorem eat {punct : Punct} : Tells source low (eat punct) :=
  look fun _ => .ite (pass.bind fun _ => pure) pure

theorem eatWord {word : String} : Tells source low (eatWord word) :=
  look fun _ => .ite (pass.bind fun _ => pure) pure

theorem expect {punct : Punct} : Tells source low (expect punct) :=
  look fun _ => .ite (advance.bind fun _ => pure) unexpected

theorem expectWord {word : String} : Tells source low (expectWord word) :=
  look fun _ => .ite (advance.bind fun _ => pure) unexpected

theorem semicolon : Tells source low semicolon :=
  eat.bind fun _ => .ite pure (look fun _ => look fun _ => look fun _ => .ite pure unexpected)

theorem stringLiteral : Tells source low stringLiteral := by
  refine look fun kind => ?_
  split
  · exact pass.bind fun _ => pure
  · exact unexpected

theorem anyName : Tells source low anyName := by
  refine look fun current => ?_
  split
  · exact pass.bind fun _ => pure
  · exact unexpected

theorem bindingName : Tells source low bindingName :=
  look fun _ => .ite anyName unexpected

/-! ## Reading at the cursor -/

end Tells

/-- Reading on in the ordinary way leaves a reading firm. -/
theorem tellsAt_resume {regexMayFollow : Bool} (place : state.In source)
    (closes : ClosesAt source state.cursor.pos) (le : low ≤ state.cursor.pos) :
    TellsAt source (resume regexMayFollow) state fun _ next => Firm source low next := by
  refine .modify (.reading ⟨place.whole, place.cursor⟩ (points_readToken place.cursor)
    fun next cursor read => ?_)
  have before := before_readToken place.cursor read
  exact ⟨place.whole, before.mono le, before.behind, fun _ => .inr closes⟩

namespace Tells

/-! ## Looking ahead -/

theorem speculate {step : Parse (Option α)} (tells : Tells source low step) :
    Tells source low (speculate step) := by
  intro state firm
  unfold TellsAt Parse.speculate
  cases run : step state with
  | error error =>
      dsimp only
      by_cases givenUp : error.isGivenUp = true
      · rw [if_pos givenUp]
        exact (tells state firm).of_error run
      · rw [if_neg givenUp]
        exact firm
  | ok answered =>
      obtain ⟨answer, next⟩ := answered
      cases answer with
      | none => exact firm
      | some value => exact (tells state firm).of_run run

theorem foresee {step : Parse Bool} (tells : Tells source low step) :
    Tells source low (foresee step) := by
  intro state firm
  unfold TellsAt Parse.foresee
  cases run : step state with
  | error error =>
      dsimp only
      by_cases givenUp : error.isGivenUp = true
      · rw [if_pos givenUp]
        exact (tells state firm).of_error run
      · rw [if_neg givenUp]
        exact firm
  | ok => exact firm

theorem withGenerator {isGenerator : Bool} (tells : Tells source low step) :
    Tells source low (withGenerator isGenerator step) := by
  intro state firm
  refine .look (.modify (TellsAt.bind (tells _ (firm.withGenerator isGenerator)) ?_))
  exact fun _ _ firm => .modify (.pure (firm.withGenerator _))

end Tells

/-! ## Repetition -/

/-- A repetition keeps what each step of it keeps. -/
theorem tellsAt_repeating {start : σ} {step : σ → Parse (σ ⊕ α)} (keeps : σ → ParseState → Prop)
    (held : keeps start state)
    (cuts : ∀ soFar state, keeps soFar state → state.token.span.Cuts source)
    (each : ∀ soFar state, keeps soFar state → TellsAt source (step soFar) state fun answer next =>
      Sum.elim (keeps · next) (holds · next) answer) :
    TellsAt source (repeating start step) state holds := by
  have bounded (count : Nat) (soFar : σ) (state : ParseState) (held : keeps soFar state) :
      TellsAt source (repeatAtMost step count soFar) state holds := by
    induction count generalizing soFar state with
    | zero => exact .look (.fail (cuts soFar state held))
    | succ count inductionHypothesis =>
        refine (each soFar state held).bind fun answer next answered => ?_
        cases answer with
        | inl longer => exact inductionHypothesis longer next answered
        | inr result => exact answered
  exact .look (bounded _ start state held)

namespace Tells

theorem repeating {start : σ} {step : σ → Parse (σ ⊕ α)}
    (each : ∀ soFar, Tells source low (step soFar)) : Tells source low (repeating start step) :=
  fun _ firm => tellsAt_repeating (fun _ => Firm source low) firm (fun _ _ firm => firm.cuts)
    fun soFar _ firm => (each soFar _ firm).mono fun answer _ _ firm => by
      cases answer <;> exact firm

theorem many {stop : Parse Bool} (stops : Tells source low stop) (item : Tells source low step) :
    Tells source low (many stop step) :=
  .repeating fun _ => stops.bind fun _ => .ite pure (item.bind fun _ => pure)

theorem commaList {close : Punct} (item : Tells source low step) :
    Tells source low (commaList close step) :=
  .many eat (item.bind fun _ => look fun _ => .ite pure (expect.bind fun _ => pure))

end Tells

end Parse

/-! ## The rules that call each other -/

/-- Between the brackets of an element only the cursor says how far a reading has come. -/
structure Stays (source : List Char) (low : Nat) (state : ParseState) : Prop where
  place : state.In source
  cuts : state.token.span.Cuts source
  le : low ≤ state.cursor.pos

theorem Firm.stays (firm : Firm source low state) : Stays source low state :=
  ⟨firm.place, firm.cuts, firm.token.le⟩

/-- Rules that are refused at places of the source only. An element is read at the cursor, which
stands behind its `<`. -/
structure Rules.Tell (source : List Char) (rules : Rules) : Prop where
  statement {low : Nat} : Parse.Tells source low rules.statement
  assignment {low : Nat} (noIn : Bool) : Parse.Tells source low (rules.assignment noIn)
  binary {low : Nat} (least : Nat) (noIn : Bool) : Parse.Tells source low (rules.binary least noIn)
  unary {low : Nat} : Parse.Tells source low rules.unary
  access {low : Nat} : Parse.Tells source low rules.access
  construction {low : Nat} : Parse.Tells source low rules.construction
  target {low : Nat} : Parse.Tells source low rules.target
  element {low start : Nat} {state : ParseState} (stays : Stays source low state)
      (opens : Span.Cuts source ⟨start, start + 1⟩) :
    Parse.TellsAt source (rules.element start) state fun _ next =>
      Stays source low next ∧ ClosesAt source next.cursor.pos

end StopMotion.Syntax
