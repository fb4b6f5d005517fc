import StopMotion.Proofs.Syntax.Grammar

/-!
# Reading a source comes to an end

Reading could fail to end in two ways, a repetition or a nest of calls that passes nothing
over, and it could break down by reading on at an offset where no character begins. All three
are refusals of their own here, so that a reading which is refused for what it read, or
answers, did none of them on any of its ways, those it undid included. What carries this is
that every rule leaves less to read than it found; the loops of the grammar are listed with
the rules that call each other.
-/

namespace StopMotion.Syntax

open Text (OpensAt)

variable {source : List Char}

/-! ## Tokens -/

/-- A token that is not the end takes up whole characters. -/
theorem Token.Stands.cuts {token : Token} (stands : token.Stands source)
    (goesOn : token.kind.isEnd = false) : token.span.Cuts source :=
  Span.Snug.cuts ⟨stands.opens goesOn, stands.closes goesOn, stands.filled goesOn⟩

/-- The end of a source is a place in it. -/
theorem cuts_point_size (source : List Char) : Span.Cuts source (.point (Text.size source)) :=
  ⟨source, [], [], by simp, rfl, rfl, fun _ _ => rfl⟩

/-- A token that was read takes up whole characters, also at the end. -/
theorem Token.Read.cuts {before after : Cursor} {token : Token}
    (read : token.Read source before after) : token.span.Cuts source := by
  cases isEnd : token.kind.isEnd with
  | false => exact read.stands.cuts isEnd
  | true =>
      rw [read.atEnd isEnd]
      exact cuts_point_size source

/-- A way of reading a token settles at a place of a source. It goes on by whole characters, by
at least one unless it comes to the end, and leaves a place. -/
def ReadsOn (source : List Char) (read : Cursor → Reading (Token × Cursor)) (cursor : Cursor) :
    Prop :=
  Settles (read cursor) ∧ ∀ token after, read cursor = .ok (token, after) →
    after.In source ∧ after.rest.length ≤ cursor.rest.length ∧
      (token.kind.isEnd = false → after.rest.length < cursor.rest.length ∧
        (Text.cut? source token.span.start token.span.stop).isSome = true)

/-- A token read from a source leaves less to read unless it is the end. -/
theorem Token.Read.readsOn {before after : Cursor} {token : Token}
    (read : token.Read source before after) :
    after.In source ∧ after.rest.length ≤ before.rest.length ∧
      (token.kind.isEnd = false → after.rest.length < before.rest.length ∧
        (Text.cut? source token.span.start token.span.stop).isSome = true) := by
  have shorter := read.shorter
  refine ⟨read.place, by omega, fun goesOn => ⟨?_, (read.stands.cuts goesOn).isSome_cut?⟩⟩
  have filled := TokenKind.weight_pos goesOn
  omega

theorem readsOn_readToken {cursor : Cursor} (regexMayFollow : Bool) (place : cursor.In source) :
    ReadsOn source (readToken regexMayFollow) cursor :=
  ⟨settles_readToken, fun _ _ read => (read_readToken place read).readsOn⟩

theorem readsOn_readTagToken {cursor : Cursor} (place : cursor.In source) :
    ReadsOn source readTagToken cursor :=
  ⟨settles_readTagToken, fun _ _ read => (read_readTagToken place read).readsOn⟩

/-- A template chunk goes on behind the character at `start`. -/
theorem readsOn_readChunk {cursor : Cursor} {start : Nat} (afterNewline : Bool)
    (place : cursor.In source) (opens : OpensAt source start) (before : start < cursor.pos) :
    ReadsOn source (readChunk start afterNewline) cursor := by
  refine ⟨settles_readChunk, fun token after read => ?_⟩
  obtain ⟨behind, stands, _, shorter⟩ := stands_readChunk place opens before read
  refine ⟨behind, by omega, fun goesOn => ⟨?_, (stands.cuts goesOn).isSome_cut?⟩⟩
  have filled := TokenKind.weight_pos goesOn
  omega

/-! ## Rules -/

open Parse in
/-- What the rules pass over where what is left to read fits a limit: none of them is given up,
and each leaves less to read than it found, or goes back to where it began. -/
structure Rules.PassOver (source : List Char) (limit : Nat) (rules : Rules) : Prop where
  statement : Takes source (limit - 2) rules.statement
  assignment (noIn : Bool) : Takes source (limit - 1) (rules.assignment noIn)
  binary (least : Nat) (noIn : Bool) : Takes source (limit - 1) (rules.binary least noIn)
  unary : Takes source (limit - 1) rules.unary
  access : Takes source (limit - 1) rules.access
  construction : Takes source limit rules.construction
  target : Takes source (limit - 1) rules.target
  block : Takes source limit rules.block
  classMembers : Takes source limit rules.classMembers
  template : Takes source limit rules.template
  skipGroup (opening closing : Punct) : Takes source limit (rules.skipGroup opening closing)
  skipAngles : Takes source limit rules.skipAngles
  skipType : Skips source limit rules.skipType
  typeArguments {bound : Nat} {state : ParseState} (ready : Ready source bound state)
      (fits : bound ≤ limit) :
    Yields rules.eatTypeArguments state fun eaten next =>
      (eaten = false ∧ next = state) ∨ (eaten = true ∧ Consumes source bound state next)
  arrow (noIn : Bool) {bound : Nat} {state : ParseState} (ready : Ready source bound state)
      (fits : bound ≤ limit) :
    Yields (rules.arrow? noIn) state fun answer next =>
      (answer = none ∧ next = state) ∨
        (answer.isSome = true ∧ Consumes source bound state next)
  element (start : Nat) {state : ParseState} (place : state.In source)
      (opens : OpensAt source start) (behind : start < state.cursor.pos)
      (fits : 3 * state.cursor.rest.length < limit) :
    Yields (rules.element start) state fun _ next =>
      next.In source ∧ next.cursor.rest.length < state.cursor.rest.length
  children (start : Nat) (opened : String) {state : ParseState} (place : state.In source)
      (fits : 3 * state.cursor.rest.length ≤ limit) :
    Yields (rules.children start opened) state fun _ next =>
      next.In source ∧ next.cursor.rest.length < state.cursor.rest.length

/-- Rules that lay what they answer pass it over. -/
theorem Rules.Sound.passOver {limit : Nat} {rules : Rules} (sound : rules.Sound source limit) :
    rules.PassOver source limit where
  statement := sound.statement.takes
  assignment noIn := (sound.assignment noIn).takes
  binary least noIn := (sound.binary least noIn).takes
  unary := sound.unary.takes
  access := sound.access.takes
  construction := sound.construction.takes
  target := sound.target.takes
  block := sound.block.takes
  classMembers _ _ ready fits :=
    (sound.classMembers_yields ready fits).mono fun _ _ spans => spans.consumes
  template := sound.template.takes
  skipGroup := sound.skipGroup
  skipAngles := sound.skipAngles
  skipType := sound.skipType
  typeArguments := sound.eatTypeArguments_yields
  arrow noIn _ _ ready fits := by
    refine (sound.arrow?_yields noIn ready fits).mono fun answer next held => ?_
    rcases held with stayed | ⟨_, rfl, spans⟩
    · exact .inl stayed
    · exact .inr ⟨rfl, spans.consumes⟩
  element start state place opens behind fits :=
    (sound.element start state place opens behind fits).mono fun _ _ reaches =>
      ⟨reaches.place, reaches.shorter⟩
  children _ _ _ place fits :=
    (sound.children_yields place fits).mono fun _ _ held => ⟨held.1, held.2.2.1⟩

/-! ## A source -/

/-- How the reading of a source goes on to its end. -/
structure ReadsToEnd (source : List Char) : Prop where
  /-- It answers a module, or it is refused, and then not because a repetition or a nest of
  calls was too long or because it was to read on where no character of the source begins. -/
  ends : (∃ module, parse source = .ok module) ∨ ∃ error, parse source = .error error ∧
    error.cause ≠ .nestedTooDeeply ∧ error.cause ≠ .strayed
  /-- Behind its first token a reading is ready, with what is left fitting the depth it has. -/
  begins {first : Token} {cursor : Cursor}
      (read : readToken true (Cursor.start source) = .ok (first, cursor)) :
    Ready source (3 * source.length + 1) ⟨source, cursor, first, 0, false⟩
  /-- The rules of every depth pass over what they read. -/
  rules (depth : Nat) : (Rules.ofDepth depth).PassOver source depth
  token {cursor : Cursor} (regexMayFollow : Bool) (place : cursor.In source) :
    ReadsOn source (readToken regexMayFollow) cursor
  tagToken {cursor : Cursor} (place : cursor.In source) : ReadsOn source readTagToken cursor
  chunk {cursor : Cursor} {start : Nat} (afterNewline : Bool) (place : cursor.In source)
      (opens : OpensAt source start) (before : start < cursor.pos) :
    ReadsOn source (readChunk start afterNewline) cursor
  text {cursor : Cursor} (place : cursor.In source) : (readText cursor).2.In source ∧
    ∀ value span, (readText cursor).1 = some (value, span) →
      (readText cursor).2.rest.length < cursor.rest.length ∧
        (Text.cut? source span.start span.stop).isSome = true

/-- Every source is read to its end. -/
theorem readsToEnd (source : List Char) : ReadsToEnd source where
  ends := by
    cases answer : parse source with
    | ok module => exact .inl ⟨module, rfl⟩
    | error error =>
        have refused := settles_parse error answer
        refine .inr ⟨error, rfl, fun deep => ?_, fun off => ?_⟩
        · rw [SyntaxError.isGivenUp, deep] at refused
          cases refused
        · rw [SyntaxError.isGivenUp, off] at refused
          cases refused
  begins := Parse.ready_start
  rules depth := (Rules.sound_ofDepth depth).passOver
  token := readsOn_readToken
  tagToken := readsOn_readTagToken
  chunk := readsOn_readChunk
  text {cursor} place := by
    obtain ⟨taken, reads, isText⟩ := reads_readText cursor
    refine ⟨place.reads reads, fun value span found => ?_⟩
    obtain ⟨rfl, filled⟩ := isText value span found
    have lengths := reads.length_rest
    have longer := List.length_pos_iff.mpr filled
    exact ⟨by omega, (reads.cuts place).isSome_cut?⟩

end StopMotion.Syntax
