import StopMotion.Proofs.Syntax.Step

/-!
# Running a reading on a known text

`Yields` says what a step leaves if it answers at all. `Runs` says that a step does answer, and
what: it is for texts whose tokens are known. A reading `Sees` its token and the text behind it,
and a text `Spells` its next token, wherever it stands; one fact for every step tells what it
answers on such a text.
-/

namespace StopMotion.Syntax

/-! ## Texts that spell tokens -/

/-- The kind of the token that a reading answers, whether a line ended before it, and the text
behind it. -/
def seen? (reading : Reading (Token × Cursor)) : Option (TokenKind × Bool × List Char) :=
  match reading with
  | .ok (token, cursor) => some (token.kind, token.afterNewline, cursor.rest)
  | .error _ => none

/-- A text begins with an ordinary token, wherever it stands and whatever stands before it. -/
def Spells (text : List Char) (kind : TokenKind) (newline : Bool) (rest : List Char) : Prop :=
  ∀ regexMayFollow pos,
    seen? (readToken regexMayFollow ⟨text, pos⟩) = some (kind, newline, rest)

/-- A text begins with an ordinary token behind another one, wherever it stands. -/
def SpellsAfter (before : TokenKind) (text : List Char) (kind : TokenKind) (newline : Bool)
    (rest : List Char) : Prop :=
  ∀ pos, seen? (readToken before.regexMayFollow ⟨text, pos⟩) = some (kind, newline, rest)

/-- A text inside a tag begins with a token, wherever it stands. -/
def SpellsInTag (text : List Char) (kind : TokenKind) (newline : Bool) (rest : List Char) :
    Prop :=
  ∀ pos, seen? (readTagToken ⟨text, pos⟩) = some (kind, newline, rest)

/-- Between tags a text begins with text up to the next tag or container. -/
def SpellsText (text : List Char) (value : String) (rest : List Char) : Prop :=
  ∀ pos, ((readText ⟨text, pos⟩).1.map (·.1), (readText ⟨text, pos⟩).2.rest) = (some value, rest)

/-- A part of a text that is read as one: an ordinary token, a token inside a tag, the text
between tags, or a character that only says what comes next. A token says whether a line ends
before it. -/
inductive Piece where
  | token (spelling : String) (kind : TokenKind) (newline : Bool)
  | inTag (spelling : String) (kind : TokenKind) (newline : Bool)
  | between (spelling : String)
  | sign (c : Char)

namespace Piece

/-- The characters of a piece. -/
def spelling : Piece → String
  | token spelling .. | inTag spelling .. | between spelling => spelling
  | sign c => String.singleton c

/-- A piece is what is read first of a text, with the rest behind it. -/
def Heads : Piece → List Char → List Char → Prop
  | token _ kind newline, text, rest => Spells text kind newline rest
  | inTag _ kind newline, text, rest => SpellsInTag text kind newline rest
  | between spelling, text, rest => SpellsText text spelling rest
  | sign c, text, rest => text = c :: rest

/-- Pieces one behind the other, as a text. -/
def text (pieces : List Piece) : String :=
  pieces.foldr (fun piece text => piece.spelling ++ text) ""

/-- Pieces one behind the other, and what is behind them. -/
def written (pieces : List Piece) (rest : List Char) : List Char :=
  pieces.foldr (fun piece text => piece.spelling.toList ++ text) rest

@[simp] theorem written_nil (rest : List Char) : written [] rest = rest := rfl

@[simp] theorem written_cons (piece : Piece) (pieces : List Piece) (rest : List Char) :
    written (piece :: pieces) rest = piece.spelling.toList ++ written pieces rest := rfl

theorem written_eq (pieces : List Piece) (rest : List Char) :
    written pieces rest = (text pieces).toList ++ rest := by
  induction pieces with
  | nil => rfl
  | cons piece pieces inductionHypothesis =>
      change piece.spelling.toList ++ written pieces rest = (piece.spelling ++ text pieces).toList ++ _
      rw [inductionHypothesis, String.toList_append, List.append_assoc]

theorem written_append (pieces others : List Piece) (rest : List Char) :
    written (pieces ++ others) rest = written pieces (written others rest) :=
  List.foldr_append

/-- A text is read as pieces, up to the rest of it. What is between two pieces is left open. -/
def ReadAs : List Piece → List Char → List Char → Prop
  | [], text, rest => text = rest
  | piece :: pieces, text, rest => ∃ middle, piece.Heads text middle ∧ ReadAs pieces middle rest

theorem readAs_append {pieces others : List Piece} {text rest : List Char} :
    ReadAs (pieces ++ others) text rest ↔
      ∃ middle, ReadAs pieces text middle ∧ ReadAs others middle rest := by
  induction pieces generalizing text with
  | nil =>
      constructor
      · intro read
        exact ⟨text, rfl, read⟩
      · rintro ⟨_, rfl, read⟩
        exact read
  | cons piece pieces inductionHypothesis =>
      constructor
      · rintro ⟨middle, heads, read⟩
        obtain ⟨behind, first, second⟩ := inductionHypothesis.mp read
        exact ⟨behind, ⟨middle, heads, first⟩, second⟩
      · rintro ⟨behind, ⟨middle, heads, first⟩, second⟩
        exact ⟨middle, heads, inductionHypothesis.mpr ⟨behind, first, second⟩⟩

/-- Every piece heads what is written from it on. -/
def Legible : List Piece → List Char → Prop
  | [], _ => True
  | piece :: pieces, rest =>
    piece.Heads (piece.spelling.toList ++ written pieces rest) (written pieces rest) ∧
      Legible pieces rest

theorem Legible.append {pieces others : List Piece} {rest : List Char}
    (first : Legible pieces (written others rest)) (second : Legible others rest) :
    Legible (pieces ++ others) rest := by
  induction pieces with
  | nil => exact second
  | cons piece pieces inductionHypothesis =>
      obtain ⟨heads, first⟩ := first
      refine ⟨?_, inductionHypothesis first⟩
      change piece.Heads (_ ++ written (pieces ++ others) rest) (written (pieces ++ others) rest)
      rw [written_append]
      exact heads

/-- What is written in legible pieces is read as those pieces. -/
theorem Legible.readAs {pieces : List Piece} {rest : List Char} (legible : Legible pieces rest) :
    ReadAs pieces (written pieces rest) rest := by
  induction pieces with
  | nil => rfl
  | cons piece pieces inductionHypothesis =>
      exact ⟨written pieces rest, legible.1, inductionHypothesis legible.2⟩

end Piece

theorem exists_of_seen? {reading : Reading (Token × Cursor)} {kind : TokenKind} {newline : Bool}
    {rest : List Char} (seen : seen? reading = some (kind, newline, rest)) :
    ∃ token cursor, reading = .ok (token, cursor) ∧ token.kind = kind ∧
      token.afterNewline = newline ∧ cursor.rest = rest := by
  unfold seen? at seen
  split at seen
  · rename_i token cursor
    simp only [Option.some.injEq, Prod.mk.injEq] at seen
    exact ⟨token, cursor, rfl, seen⟩
  · cases seen

/-- A token takes up some of the text. -/
theorem SpellsAfter.shorter {before : TokenKind} {text rest : List Char} {kind : TokenKind}
    {newline : Bool} (spells : SpellsAfter before text kind newline rest)
    (goesOn : kind.isEnd = false) : rest.length < text.length := by
  obtain ⟨token, cursor, read, rfl, -, rfl⟩ := exists_of_seen? (spells 0)
  have shorter := (read_readToken (Cursor.start_in text) read).shorter
  have filled := TokenKind.weight_pos goesOn
  change _ ≤ text.length at shorter
  omega

theorem Spells.after {before : TokenKind} {text rest : List Char} {kind : TokenKind}
    {newline : Bool} (spells : Spells text kind newline rest) :
    SpellsAfter before text kind newline rest := spells _

theorem Spells.shorter {text rest : List Char} {kind : TokenKind} {newline : Bool}
    (spells : Spells text kind newline rest) (goesOn : kind.isEnd = false) :
    rest.length < text.length :=
  (spells.after : SpellsAfter .endOfInput text kind newline rest).shorter goesOn

/-- A reading stands before some text of its source. -/
structure ParseState.Before (state : ParseState) (text : List Char) : Prop where
  place : state.In state.source
  rest : state.cursor.rest = text

/-- The cursor of a reading before some text. -/
theorem ParseState.Before.cursor_eq {state : ParseState} {text : List Char}
    (before : state.Before text) : state.cursor = ⟨text, state.cursor.pos⟩ := by
  rw [← before.rest]

/-- A reading may go on behind the first character of the text that it stands before. -/
theorem ParseState.Before.skip_one {state : ParseState} {c : Char} {text : List Char}
    (before : state.Before (c :: text)) :
    ParseState.Before { state with cursor := state.cursor.skip 1 } text := by
  refine ⟨⟨rfl, before.place.cursor.skip 1⟩, ?_⟩
  rw [before.cursor_eq]
  rfl

/-- A reading has come to a token, with some text behind it. -/
structure Sees (state : ParseState) (kind : TokenKind) (newline : Bool) (rest : List Char) : Prop
    extends state.Before rest where
  kind : state.token.kind = kind
  newline : state.token.afterNewline = newline

namespace Parse

variable {α β σ : Type} {step : Parse α} {more : α → Parse β} {state : ParseState}
  {holds : α → ParseState → Prop} {after : β → ParseState → Prop}

/-! ## Steps that answer -/

/-- A step answers something from a state, and that satisfies a condition. -/
def Runs (step : Parse α) (state : ParseState) (holds : α → ParseState → Prop) : Prop :=
  ∃ value next, step state = .ok (value, next) ∧ holds value next

theorem Runs.mono {holds' : α → ParseState → Prop} (runs : Runs step state holds)
    (weaker : ∀ value next, holds value next → holds' value next) : Runs step state holds' := by
  obtain ⟨value, next, run, held⟩ := runs
  exact ⟨value, next, run, weaker value next held⟩

theorem Runs.bind (first : Runs step state holds)
    (rest : ∀ value next, holds value next → Runs (more value) next after) :
    Runs (step >>= more) state after := by
  obtain ⟨value, next, run, held⟩ := first
  obtain ⟨answer, last, runs, satisfied⟩ := rest value next held
  refine ⟨answer, last, ?_, satisfied⟩
  change Except.bind (step state) (fun answer => more answer.1 answer.2) = _
  rw [run]
  exact runs

theorem Runs.pure {value : α} (held : holds value state) :
    Runs (pure value : Parse α) state holds :=
  ⟨value, state, rfl, held⟩

theorem Runs.map {change : α → β}
    (runs : Runs step state fun value next => after (change value) next) :
    Runs (change <$> step) state after := by
  rw [map_eq_pure_bind]
  exact runs.bind fun value next held => .pure held

/-- A step refuses the source from a state, and does not give it up. -/
def Refuses (step : Parse α) (state : ParseState) : Prop :=
  ∃ error, step state = .error error ∧ error.isGivenUp = false

theorem Refuses.bind (refuses : Refuses step state) : Refuses (step >>= more) state := by
  obtain ⟨error, refused, goesOn⟩ := refuses
  refine ⟨error, ?_, goesOn⟩
  change Except.bind (step state) _ = _
  rw [refused]
  rfl

/-- A step answers, and what comes behind it refuses. -/
theorem Runs.refuses (first : Runs step state holds)
    (rest : ∀ value next, holds value next → Refuses (more value) next) :
    Refuses (step >>= more) state := by
  obtain ⟨value, next, run, held⟩ := first
  obtain ⟨error, refused, goesOn⟩ := rest value next held
  refine ⟨error, ?_, goesOn⟩
  change Except.bind (step state) (fun answer => more answer.1 answer.2) = _
  rw [run]
  exact refused

@[simp] theorem runs_token {more : Token → Parse β} :
    Runs (token >>= more) state after ↔ Runs (more state.token) state after := Iff.rfl

@[simp] theorem runs_kind {more : TokenKind → Parse β} :
    Runs (kind >>= more) state after ↔ Runs (more state.token.kind) state after := Iff.rfl

@[simp] theorem runs_here {more : Nat → Parse β} :
    Runs (here >>= more) state after ↔ Runs (more state.token.span.start) state after := Iff.rfl

@[simp] theorem runs_spanFrom {start : Nat} {more : Span → Parse β} :
    Runs (spanFrom start >>= more) state after ↔ Runs (more ⟨start, state.lastEnd⟩) state after :=
  Iff.rfl

@[simp] theorem runs_at? {punct : Punct} {more : Bool → Parse β} :
    Runs (at? punct >>= more) state after ↔
      Runs (more (state.token.kind.isPunct punct)) state after := Iff.rfl

@[simp] theorem runs_atOneOf? {puncts : List Punct} {more : Bool → Parse β} :
    Runs (atOneOf? puncts >>= more) state after ↔
      Runs (more (state.token.kind.isOneOf puncts)) state after := Iff.rfl

@[simp] theorem runs_atWord? {word : String} {more : Bool → Parse β} :
    Runs (atWord? word >>= more) state after ↔
      Runs (more (state.token.kind.isWord word)) state after := Iff.rfl

@[simp] theorem runs_atEnd? {more : Bool → Parse β} :
    Runs (atEnd? >>= more) state after ↔ Runs (more state.token.kind.isEnd) state after := Iff.rfl

@[simp] theorem runs_afterNewline? {more : Bool → Parse β} :
    Runs (afterNewline? >>= more) state after ↔
      Runs (more state.token.afterNewline) state after := Iff.rfl

@[simp] theorem runs_atBinding? {more : Bool → Parse β} :
    Runs (atBinding? >>= more) state after ↔
      Runs (more (state.token.kind.word?.any canBind)) state after := Iff.rfl

@[simp] theorem runs_get {more : ParseState → Parse β} :
    Runs (get >>= more) state after ↔ Runs (more state) state after := Iff.rfl

@[simp] theorem runs_set {next : ParseState} {more : PUnit → Parse β} :
    Runs (set next >>= more) state after ↔ Runs (more ⟨⟩) next after := Iff.rfl

@[simp] theorem runs_modify {change : ParseState → ParseState} {more : PUnit → Parse β} :
    Runs (modify change >>= more) state after ↔ Runs (more ⟨⟩) (change state) after := Iff.rfl

@[simp] theorem runs_pure_bind {value : α} {more : α → Parse β} :
    Runs (Pure.pure value >>= more) state after ↔ Runs (more value) state after := Iff.rfl

@[simp] theorem runs_pure {value : α} :
    Runs (Pure.pure value : Parse α) state holds ↔ holds value state := by
  constructor
  · rintro ⟨_, _, run, held⟩
    cases run
    exact held
  · exact .pure

@[simp] theorem refuses_kind {more : TokenKind → Parse β} :
    Refuses (kind >>= more) state ↔ Refuses (more state.token.kind) state := Iff.rfl

@[simp] theorem refuses_here {more : Nat → Parse β} :
    Refuses (here >>= more) state ↔ Refuses (more state.token.span.start) state := Iff.rfl

@[simp] theorem refuses_get {more : ParseState → Parse β} :
    Refuses (get >>= more) state ↔ Refuses (more state) state := Iff.rfl

/-! ## Passing over tokens -/

variable {kind kind' : TokenKind} {newline newline' : Bool} {text text' : List Char}

/-- A way of reading is run on the text that is known to be there. -/
theorem reading_eq {read : Cursor → Reading (α × Cursor)} {value : α} {cursor : Cursor}
    (before : state.Before text) (answer : read state.cursor = .ok (value, cursor)) :
    reading read state = .ok (value, { state with cursor }) := by
  unfold reading
  rw [before.place.rest?_eq]
  simp only [answer]

/-- Passing over a token comes to the token that is spelled behind it. -/
theorem advance_after (sees : Sees state kind newline text)
    (spells : SpellsAfter kind text kind' newline' text') :
    Runs advance state fun passed next => passed = state.token ∧
      Sees next kind' newline' text' := by
  have spelled := spells state.cursor.pos
  rw [← sees.toBefore.cursor_eq, ← sees.kind] at spelled
  obtain ⟨token, cursor, read, isKind, isNewline, isRest⟩ := exists_of_seen? spelled
  have place := (read_readToken sees.place.cursor read).place
  refine ⟨state.token, { state with cursor, token, lastEnd := state.token.span.stop }, ?_, rfl,
    ⟨⟨rfl, place⟩, isRest⟩, isKind, isNewline⟩
  change Except.bind (reading (readToken state.token.kind.regexMayFollow) state) _ = _
  rw [reading_eq sees.toBefore read]
  rfl

theorem advance_runs (sees : Sees state kind newline text)
    (spells : Spells text kind' newline' text') :
    Runs advance state fun passed next => passed = state.token ∧
      Sees next kind' newline' text' :=
  advance_after sees spells.after

theorem pass_after (sees : Sees state kind newline text)
    (spells : SpellsAfter kind text kind' newline' text') :
    Runs pass state fun _ next => Sees next kind' newline' text' := by
  apply (advance_after sees spells).bind
  rintro _ next ⟨-, seesNext⟩
  exact .pure seesNext

theorem pass_runs (sees : Sees state kind newline text)
    (spells : Spells text kind' newline' text') :
    Runs pass state fun _ next => Sees next kind' newline' text' :=
  pass_after sees spells.after

/-- Looking behind a token leaves the reading where it is. -/
theorem peek_after (sees : Sees state kind newline text)
    (spells : SpellsAfter kind text kind' newline' text') :
    Runs peek state fun token next => (token.kind = kind' ∧ token.afterNewline = newline') ∧
      next = state := by
  unfold peek
  rw [runs_get]
  apply (advance_after sees spells).bind
  rintro _ next ⟨-, seesNext⟩
  rw [runs_token, runs_set]
  exact .pure ⟨⟨seesNext.kind, seesNext.newline⟩, rfl⟩

theorem peek_runs (sees : Sees state kind newline text)
    (spells : Spells text kind' newline' text') :
    Runs peek state fun token next => (token.kind = kind' ∧ token.afterNewline = newline') ∧
      next = state :=
  peek_after sees spells.after

theorem expect_after {punct : Punct} (sees : Sees state (.punct punct) newline text)
    (spells : SpellsAfter (.punct punct) text kind' newline' text') :
    Runs (expect punct) state fun _ next => Sees next kind' newline' text' := by
  have here : state.token.kind.isPunct punct = true := by
    rw [sees.kind]
    exact beq_self_eq_true punct
  unfold expect
  rw [runs_at?, if_pos here]
  apply (advance_after sees spells).bind
  rintro _ next ⟨-, seesNext⟩
  exact .pure seesNext

theorem expect_runs {punct : Punct} (sees : Sees state (.punct punct) newline text)
    (spells : Spells text kind' newline' text') :
    Runs (expect punct) state fun _ next => Sees next kind' newline' text' :=
  expect_after sees spells.after

theorem expectWord_runs {word : String} (sees : Sees state (.word word) newline text)
    (spells : Spells text kind' newline' text') :
    Runs (expectWord word) state fun _ next => Sees next kind' newline' text' := by
  have here : state.token.kind.isWord word = true := by
    rw [sees.kind]
    exact beq_self_eq_true (some word)
  unfold expectWord
  rw [runs_atWord?, if_pos here]
  apply (advance_runs sees spells).bind
  rintro _ next ⟨-, seesNext⟩
  exact .pure seesNext

/-- A punctuator that is there is passed over. -/
theorem eat_after {punct : Punct} (sees : Sees state (.punct punct) newline text)
    (spells : SpellsAfter (.punct punct) text kind' newline' text') :
    Runs (eat punct) state fun eaten next => eaten = true ∧ Sees next kind' newline' text' := by
  have here : state.token.kind.isPunct punct = true := by
    rw [sees.kind]
    exact beq_self_eq_true punct
  unfold eat
  rw [runs_at?, if_pos here]
  apply (pass_after sees spells).bind
  intro _ next seesNext
  exact .pure ⟨rfl, seesNext⟩

theorem eat_runs {punct : Punct} (sees : Sees state (.punct punct) newline text)
    (spells : Spells text kind' newline' text') :
    Runs (eat punct) state fun eaten next => eaten = true ∧ Sees next kind' newline' text' :=
  eat_after sees spells.after

/-- A punctuator that is not there is not passed over. -/
theorem eat_other {punct : Punct} (other : state.token.kind.isPunct punct = false) :
    Runs (eat punct) state fun eaten next => eaten = false ∧ next = state := by
  unfold eat
  rw [runs_at?, other]
  exact .pure ⟨rfl, rfl⟩

/-- A word that is there is passed over. -/
theorem eatWord_runs {word : String} (sees : Sees state (.word word) newline text)
    (spells : Spells text kind' newline' text') :
    Runs (eatWord word) state fun eaten next => eaten = true ∧ Sees next kind' newline' text' := by
  have here : state.token.kind.isWord word = true := by
    rw [sees.kind]
    exact beq_self_eq_true (some word)
  unfold eatWord
  rw [runs_atWord?, if_pos here]
  apply (pass_runs sees spells).bind
  intro _ next seesNext
  exact .pure ⟨rfl, seesNext⟩

/-- A word that is not there is not passed over. -/
theorem eatWord_other {word : String} (other : state.token.kind.isWord word = false) :
    Runs (eatWord word) state fun eaten next => eaten = false ∧ next = state := by
  unfold eatWord
  rw [runs_atWord?, other]
  exact .pure ⟨rfl, rfl⟩

theorem anyName_after {word : String} (sees : Sees state (.word word) newline text)
    (spells : SpellsAfter (.word word) text kind' newline' text') :
    Runs anyName state fun name next => name = ⟨word, state.token.span⟩ ∧
      Sees next kind' newline' text' := by
  unfold anyName
  rw [runs_token]
  simp only [sees.kind]
  apply (pass_after sees spells).bind
  intro _ next seesNext
  exact .pure ⟨rfl, seesNext⟩

theorem anyName_runs {word : String} (sees : Sees state (.word word) newline text)
    (spells : Spells text kind' newline' text') :
    Runs anyName state fun name next => name = ⟨word, state.token.span⟩ ∧
      Sees next kind' newline' text' :=
  anyName_after sees spells.after

theorem bindingName_runs {word : String} (sees : Sees state (.word word) newline text)
    (binds : canBind word = true)
    (spells : Spells text kind' newline' text') :
    Runs bindingName state fun name next => name = ⟨word, state.token.span⟩ ∧
      Sees next kind' newline' text' := by
  have here : state.token.kind.word?.any canBind = true := by
    rw [sees.kind]
    exact binds
  unfold bindingName
  rw [runs_atBinding?, if_pos here]
  exact anyName_runs sees spells

theorem stringLiteral_runs {value : String} (sees : Sees state (.string value) newline text)
    (spells : Spells text kind' newline' text') :
    Runs stringLiteral state fun answer next => answer = value ∧
      Sees next kind' newline' text' := by
  unfold stringLiteral
  rw [runs_kind]
  simp only [sees.kind]
  apply (pass_runs sees spells).bind
  intro _ next seesNext
  exact .pure ⟨rfl, seesNext⟩

theorem semicolon_runs (sees : Sees state (.punct .semicolon) newline text)
    (spells : Spells text kind' newline' text') :
    Runs semicolon state fun _ next => Sees next kind' newline' text' := by
  unfold semicolon
  apply (eat_runs sees spells).bind
  rintro _ next ⟨rfl, seesNext⟩
  exact .pure seesNext

/-- Reading on at the cursor comes to the token that is spelled there. -/
theorem resume_runs {regexMayFollow : Bool} (before : state.Before text)
    (spells : Spells text kind newline text') :
    Runs (resume regexMayFollow) state fun _ next => Sees next kind newline text' := by
  have spelled := spells regexMayFollow state.cursor.pos
  rw [← before.cursor_eq] at spelled
  obtain ⟨token, cursor, read, isKind, isNewline, isRest⟩ := exists_of_seen? spelled
  have place := (read_readToken before.place.cursor read).place
  refine ⟨⟨⟩, { state with cursor, token, lastEnd := state.cursor.pos }, ?_,
    ⟨⟨rfl, place⟩, isRest⟩, isKind, isNewline⟩
  have behind : { state with lastEnd := state.cursor.pos : ParseState }.Before text :=
    ⟨⟨rfl, before.place.cursor⟩, before.rest⟩
  change Except.bind (reading (readToken regexMayFollow) { state with lastEnd := state.cursor.pos })
    _ = _
  rw [reading_eq behind read]
  rfl

/-! ## Trying and repeating -/

/-- A step that refuses what it meets is undone. -/
theorem speculate_refused {step : Parse (Option α)} (refuses : Refuses step state) :
    Runs (speculate step) state fun value next => value = none ∧ next = state := by
  obtain ⟨error, refused, goesOn⟩ := refuses
  refine ⟨none, state, ?_, rfl, rfl⟩
  simp [speculate, refused, goesOn]

/-- A step that answers something is not undone. -/
theorem speculate_some {step : Parse (Option α)} {value : α} {seen : ParseState → Prop}
    (runs : Runs step state fun answer next => answer = some value ∧ seen next) :
    Runs (speculate step) state fun answer next => answer = some value ∧ seen next := by
  obtain ⟨_, next, run, rfl, isSeen⟩ := runs
  exact ⟨some value, next, by simp [speculate, run], rfl, isSeen⟩

/-- Looking ahead answers and leaves the reading where it is. -/
theorem foresee_runs {step : Parse Bool} {answer : Bool}
    (runs : Runs step state fun value _ => value = answer) :
    Runs (foresee step) state fun value next => value = answer ∧ next = state := by
  obtain ⟨value, next, run, rfl⟩ := runs
  refine ⟨value, state, ?_, rfl, rfl⟩
  simp [foresee, run]

/-- A repetition that ends within some steps ends within more. -/
theorem repeatAtMost_runs {step : σ → Parse (σ ⊕ α)} {few many : Nat} {soFar : σ}
    (runs : Runs (repeatAtMost step few soFar) state holds) (le : few ≤ many) :
    Runs (repeatAtMost step many soFar) state holds := by
  induction few generalizing many soFar state with
  | zero =>
      obtain ⟨_, _, run, _⟩ := runs
      cases run
  | succ few inductionHypothesis =>
      obtain ⟨many, rfl⟩ : ∃ more, many = more + 1 := ⟨many - 1, by omega⟩
      obtain ⟨value, next, run, held⟩ := runs
      change Except.bind (step soFar state) _ = _ at run
      cases stepRun : step soFar state with
      | error error =>
          rw [stepRun] at run
          cases run
      | ok answered =>
          obtain ⟨answer, behind⟩ := answered
          rw [stepRun] at run
          unfold Runs
          change ∃ value next, Except.bind (step soFar state) _ = _ ∧ _
          rw [stepRun]
          cases answer with
          | inl soFar => exact inductionHypothesis ⟨value, next, run, held⟩ (by omega)
          | inr result => exact ⟨value, next, run, held⟩

/-- A repetition ends, if it ends within as many steps as there are characters left and one. -/
theorem repeating_runs {start : σ} {step : σ → Parse (σ ⊕ α)} (few : Nat)
    (le : few ≤ state.cursor.rest.length + 2)
    (runs : Runs (repeatAtMost step few start) state holds) :
    Runs (repeating start step) state holds := by
  unfold repeating
  rw [runs_get]
  exact repeatAtMost_runs runs le

/-- A repetition goes on from what its first step answers. -/
theorem repeatAtMost_succ {step : σ → Parse (σ ⊕ α)} {few : Nat} {soFar : σ}
    (runs : Runs (step soFar) state fun answer next =>
      match answer with
      | .inl soFar => Runs (repeatAtMost step few soFar) next holds
      | .inr value => holds value next) :
    Runs (repeatAtMost step (few + 1) soFar) state holds := by
  apply runs.bind
  rintro (more | value) next held
  · exact held
  · exact .pure held

/-- A repetition whose first step ends it. -/
theorem repeating_once {start : σ} {step : σ → Parse (σ ⊕ α)}
    (runs : Runs (step start) state fun answer next => ∃ value, answer = .inr value ∧
      holds value next) :
    Runs (repeating start step) state holds := by
  apply repeating_runs 1 (by omega)
  apply repeatAtMost_succ
  apply runs.mono
  rintro _ next ⟨value, rfl, held⟩
  exact held

section Many

variable {stop : Parse Bool} {item : Parse α} {few : Nat} {soFar : List α}
  {ends : List α → ParseState → Prop}

/-- The items up to where `stop` says that there are no more, `few` rounds at most, behind those
collected so far. -/
def manyAtMost (stop : Parse Bool) (item : Parse α) (few : Nat) (soFar : List α) :
    Parse (List α) :=
  repeatAtMost (fun items => do
    if ← stop then
      return .inr items.reverse
    else
      return .inl ((← item) :: items)) few soFar

theorem many_runs (few : Nat) (le : few ≤ state.cursor.rest.length + 2)
    (runs : Runs (manyAtMost stop item few []) state ends) : Runs (many stop item) state ends :=
  repeating_runs few le runs

/-- One more item, and the others. -/
theorem manyAtMost_more
    (goesOn : Runs stop state fun stopped next => stopped = false ∧ next = state)
    (first : Runs item state fun value next =>
      Runs (manyAtMost stop item few (value :: soFar)) next ends) :
    Runs (manyAtMost stop item (few + 1) soFar) state ends := by
  apply repeatAtMost_succ
  apply goesOn.bind
  rintro _ _ ⟨rfl, rfl⟩
  apply first.bind
  intro value next others
  exact .pure others

/-- No more items. -/
theorem manyAtMost_done
    (stops : Runs stop state fun stopped next => stopped = true ∧ ends soFar.reverse next) :
    Runs (manyAtMost stop item (few + 1) soFar) state ends := by
  apply repeatAtMost_succ
  apply stops.bind
  rintro _ next ⟨rfl, held⟩
  exact .pure held

/-- An item with the comma behind it. -/
def listed (close : Punct) (item : Parse α) : Parse α := do
  let value ← item
  unless ← at? close do
    let _ ← expect .comma
  return value

theorem commaList_eq (close : Punct) (item : Parse α) :
    commaList close item = many (eat close) (listed close item) := rfl

theorem listed_comma {close : Punct} {holds : α → Prop} (other : (Punct.comma == close) = false)
    (runs : Runs item state fun value next => holds value ∧ Sees next (.punct .comma) newline text)
    (spells : Spells text kind' newline' text') :
    Runs (listed close item) state fun value next =>
      holds value ∧ Sees next kind' newline' text' := by
  unfold listed
  apply runs.bind
  rintro value next ⟨held, sees⟩
  have goesOn : next.token.kind.isPunct close = false := by
    rw [sees.kind]
    exact other
  simp only [runs_at?, goesOn, Bool.false_eq_true, if_false]
  apply (expect_runs sees spells).bind
  intro _ after seesAfter
  exact .pure ⟨held, seesAfter⟩

theorem listed_last {close : Punct} {holds : α → Prop}
    (runs : Runs item state fun value next => holds value ∧ Sees next (.punct close) newline text) :
    Runs (listed close item) state fun value next =>
      holds value ∧ Sees next (.punct close) newline text := by
  unfold listed
  apply runs.bind
  rintro value next ⟨held, sees⟩
  have last : next.token.kind.isPunct close = true := by
    rw [sees.kind]
    exact beq_self_eq_true close
  simp only [runs_at?, last, if_true]
  exact .pure ⟨held, sees⟩

end Many

theorem withGenerator_runs {isGenerator : Bool}
    (runs : Runs step { state with inGenerator := isGenerator } fun value next =>
      holds value { next with inGenerator := state.inGenerator }) :
    Runs (withGenerator isGenerator step) state holds := by
  unfold withGenerator
  rw [runs_get, runs_modify]
  apply runs.bind
  intro value next held
  rw [runs_modify]
  exact .pure held

end Parse

/-- Whether `yield` is an operator does not matter to what a reading sees. -/
theorem Sees.withGenerator {state : ParseState} {kind : TokenKind} {newline : Bool}
    {rest : List Char} (sees : Sees state kind newline rest) (isGenerator : Bool) :
    Sees { state with inGenerator := isGenerator } kind newline rest :=
  ⟨⟨⟨rfl, sees.place.cursor⟩, sees.rest⟩, sees.kind, sees.newline⟩

end StopMotion.Syntax
