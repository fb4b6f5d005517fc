import StopMotion.Proofs.Syntax.Grammar.Function
import StopMotion.Syntax.Grammar.Jsx

/-!
# Layout of JSX elements

Between the brackets of an element only the cursor says how far a reading has come. A token
of a tag stands just before the cursor, as the current token does elsewhere, and what is
read lies between the places where the cursor was and where it is.
-/

namespace StopMotion.Syntax

open Text (OpensAt ClosesAt)

variable {source : List Char} {state next : ParseState}

/-- A token of a tag stands at `low` or behind it, just before the cursor, and all that it
holds and that is left is a few characters. -/
structure Tagged (source : List Char) (low few : Nat) (state : ParseState) (token : Token) :
    Prop where
  place : state.In source
  stands : token.Stands source
  ends : token.span.stop = state.cursor.pos
  behind : low ≤ token.span.start
  shorter : state.cursor.rest.length + token.kind.weight ≤ few

variable {low low' few few' : Nat} {token : Token}

/-- A token that is not the end takes up at least one character. -/
theorem Tagged.moved (tagged : Tagged source low few state token)
    (goesOn : token.kind.isEnd = false) : low < state.cursor.pos := by
  have behind := tagged.behind
  have filled := tagged.stands.filled goesOn
  have ends := tagged.ends
  omega

theorem Tagged.rest_lt (tagged : Tagged source low few state token)
    (goesOn : token.kind.isEnd = false) : state.cursor.rest.length < few :=
  Nat.lt_of_lt_of_le (Nat.lt_add_of_pos_right (TokenKind.weight_pos goesOn)) tagged.shorter

theorem Tagged.le (tagged : Tagged source low few state token) : low ≤ state.cursor.pos := by
  have behind := tagged.behind
  have ordered := tagged.stands.ordered
  have ends := tagged.ends
  omega

theorem Tagged.rest_le (tagged : Tagged source low few state token) :
    state.cursor.rest.length ≤ few :=
  Nat.le_trans (Nat.le_add_right _ _) tagged.shorter

/-- Behind a token that is not the end the cursor stands at an edge. -/
theorem Tagged.closes (tagged : Tagged source low few state token)
    (goesOn : token.kind.isEnd = false) : ClosesAt source state.cursor.pos := by
  rw [← tagged.ends]
  exact tagged.stands.closes goesOn

theorem Tagged.mono (tagged : Tagged source low few state token) (lower : low' ≤ low)
    (more : few ≤ few') : Tagged source low' few' state token :=
  { tagged with
    behind := Nat.le_trans lower tagged.behind
    shorter := Nat.le_trans tagged.shorter more }

namespace Rules

open Parse

theorem tagToken_yields (place : state.In source) :
    Yields tagToken state fun token next =>
      Tagged source state.cursor.pos state.cursor.rest.length next token := by
  unfold tagToken
  rw [← bind_pure (reading _)]
  refine yields_reading place settles_readTagToken fun token cursor read => ?_
  have read := read_readTagToken place.cursor read
  exact .pure ⟨⟨place.whole, read.place⟩, read.stands, read.ends, read.behind, read.shorter⟩

@[simp] theorem yields_cursorPos {β : Type} {more : Nat → Parse β}
    {after : β → ParseState → Prop} :
    Yields (cursorPos >>= more) state after ↔ Yields (more state.cursor.pos) state after := Iff.rfl

/-- A word inside a tag. -/
theorem tagWord_yields {cause : Cause} (place : state.In source)
    (refused : cause.isGivenUp = false) :
    Yields (tagWord cause) state fun found next => ∃ token : Token, token.span = found.span ∧
      token.kind.isEnd = false ∧
        Tagged source state.cursor.pos state.cursor.rest.length next token := by
  refine (tagToken_yields place).bind fun token next tagged => ?_
  split
  · rename_i text is
    exact .pure ⟨token, rfl, goesOn_of_eq is rfl, tagged⟩
  · exact yields_fail refused

/-- The token behind a tag name stands behind it. -/
theorem tagMembers_yields {first : Name} {current : Token}
    (tagged : Tagged source low few state current) :
    Yields (tagMembers first current) state fun answer next =>
      Tagged source low few next answer.2 := by
  unfold tagMembers
  refine repeating_by (fun _ next => next.cursor.rest.length)
    (fun soFar next => Tagged source low few next soFar.2) tagged (Nat.le_succ _)
    fun soFar state tagged => ?_
  obtain ⟨parts, current⟩ := soFar
  simp only
  split
  · refine (tagWord_yields tagged.place rfl).bind fun part next held => ?_
    obtain ⟨token, _, goesOn, partTagged⟩ := held
    refine (tagToken_yields partTagged.place).bind fun token last tokenTagged => ?_
    have shorter := partTagged.rest_lt goesOn
    have onwards := tokenTagged.rest_le
    have before := tagged.rest_le
    exact .pure ⟨tokenTagged.mono (Nat.le_trans tagged.le partTagged.le) (by omega),
      Nat.lt_of_le_of_lt onwards shorter⟩
  · exact .pure tagged

theorem tagName_yields {current : Token} (tagged : Tagged source low few state current) :
    Yields (tagName current) state fun answer next =>
      Tagged source low state.cursor.rest.length next answer.2 := by
  unfold tagName
  split
  · refine (tagToken_yields tagged.place).bind fun found next foundTagged => ?_
    have onwards := foundTagged.mono tagged.le (Nat.le_refl _)
    split
    · exact (tagMembers_yields onwards).bind fun _ _ held => .pure held
    · split
      · refine (tagWord_yields onwards.place rfl).bind fun second behind held => ?_
        obtain ⟨token, _, _, secondTagged⟩ := held
        refine (tagToken_yields secondTagged.place).bind fun token last tokenTagged => ?_
        exact .pure (tokenTagged.mono (Nat.le_trans onwards.le secondTagged.le)
          (Nat.le_trans secondTagged.rest_le onwards.rest_le))
      · exact .pure onwards
  · exact yields_fail rfl

end Rules

namespace Rules.Sound

open Parse

variable {limit bound : Nat} {rules : Rules}

/-- An expression in braces is laid before the closing brace, which is the current token. -/
theorem container_yields (sound : rules.Sound source limit) (ready : Ready source bound state)
    (le : bound ≤ limit - 1) :
    Yields rules.container state fun value next => Follows source bound state next ∧
      next.token.kind.isPunct .closeBrace = true ∧
      (Plan.option Node.plan value).Laid source state.token.span.start next.lastEnd := by
  unfold Rules.container
  rw [yields_at?]
  split
  · rename_i close
    exact .pure ⟨ready.follows, close, Plan.laid_nil⟩
  · refine (sound.expression false state ready (by omega)).bind fun value next held => ?_
    obtain ⟨consumes, laid⟩ := held
    rw [yields_at?]
    split
    · rename_i close
      exact .pure ⟨consumes.follows, close, laid⟩
    · exact yields_unexpected_bind

/-- The operand of a spread is laid before the closing brace, which is the current token. -/
theorem spreadOperand_yields (sound : rules.Sound source limit) (ready : Ready source bound state)
    (le : bound ≤ limit - 1) :
    Yields rules.spreadOperand state fun value next => Follows source bound state next ∧
      next.token.kind.isPunct .closeBrace = true ∧
      value.plan.Laid source state.token.span.start next.lastEnd := by
  refine (takes_expect state ready (Nat.le_refl _)).bind fun _ inside dots => ?_
  refine (sound.assignment false inside dots.ready (by omega)).bind fun value next held => ?_
  obtain ⟨consumes, laid⟩ := held
  rw [yields_at?]
  split
  · rename_i close
    exact .pure ⟨dots.follows.trans consumes.follows, close, laid.mono dots.start (Nat.le_refl _)⟩
  · exact yields_unexpected_bind

end Rules.Sound

/-- What was read between braces lies between the places of the cursor behind the opening
and behind the closing brace. -/
theorem reaches_of_braces {before inside : ParseState} {plan : Plan} {bound : Nat}
    (ready : Ready source bound inside) (resumed : inside.lastEnd = before.cursor.pos)
    (shorter : inside.room ≤ before.cursor.rest.length)
    (follows : Follows source bound inside next)
    (close : next.token.kind.isPunct .closeBrace = true)
    (laid : plan.Laid source inside.token.span.start next.lastEnd) :
    Reaches source before.cursor.pos before plan next := by
  have goesOn := Parse.goesOn_of_isPunct close
  have ends := follows.ready.ends
  have filled := follows.ready.stands.filled goesOn
  have behind := follows.ready.behind
  have first := ready.behind
  have order := follows.lastEnd
  have heavy := TokenKind.weight_pos goesOn
  have room := follows.room
  have there : next.room = next.cursor.rest.length + next.token.kind.weight := rfl
  refine ⟨follows.ready.place, by omega, ?_, laid.mono (by omega) (by omega), by omega⟩
  rw [← ends]
  exact follows.ready.stands.closes goesOn

namespace Rules.Sound

open Parse

variable {limit bound : Nat} {rules : Rules}

/-! ## Attributes -/

/-- What a value encloses stands inside the attribute it makes. -/
theorem attributeValue_yields (sound : rules.Sound source limit) {name : String}
    (place : state.In source) (fits : 3 * state.cursor.rest.length ≤ limit) :
    Yields (rules.attributeValue name) state fun make next => ∃ inside,
      Reaches source state.cursor.pos state inside next ∧
      ∀ span, (make span).plan = .one .attribute span inside := by
  refine (tagToken_yields place).bind fun token behind tagged => ?_
  split
  · rename_i value is
    have goesOn := goesOn_of_eq is rfl
    exact .pure ⟨.nil, ⟨tagged.place, tagged.le, tagged.closes goesOn, Plan.laid_nil,
      tagged.rest_lt goesOn⟩, fun _ => rfl⟩
  · rename_i is
    have goesOn := goesOn_of_eq is rfl
    have shorter := tagged.rest_lt goesOn
    refine (resume_yields tagged.place (tagged.closes goesOn)
      (by omega : 3 * behind.cursor.rest.length < limit - 1)).bind fun _ inside resumed => ?_
    obtain ⟨ready, lastEnd, few⟩ := resumed
    refine (sound.container_yields ready (Nat.le_refl _)).bind fun value next held => ?_
    obtain ⟨follows, close, laid⟩ := held
    split
    · rename_i value
      refine .pure ⟨value.plan, ?_, fun _ => rfl⟩
      have reaches := reaches_of_braces ready lastEnd few follows close laid
      exact ⟨reaches.place, Nat.le_trans tagged.le reaches.onwards, reaches.closes,
        reaches.laid.mono tagged.le (Nat.le_refl _), Nat.lt_trans reaches.shorter shorter⟩
    · rw [yields_cursorPos]
      exact yields_fail rfl
  · rename_i is
    have goesOn := goesOn_of_eq is rfl
    have filled := tagged.stands.filled goesOn
    have ends := tagged.ends
    have shorter := tagged.rest_lt goesOn
    refine (sound.element token.span.start behind tagged.place (tagged.stands.opens goesOn)
      (by omega) (by omega)).bind fun value next reaches => ?_
    exact .pure ⟨value.plan, ⟨reaches.place, Nat.le_trans tagged.le reaches.onwards,
      reaches.closes, reaches.laid.mono tagged.behind (Nat.le_refl _),
      Nat.lt_trans reaches.shorter shorter⟩, fun _ => rfl⟩
  · exact yields_fail rfl

/-- An attribute is laid before the token behind it. -/
theorem namedAttribute_yields (sound : rules.Sound source limit) {first : Name} {word : Token}
    (tagged : Tagged source low few state word) (goesOn : word.kind.isEnd = false)
    (span : word.span = first.span) (fits : 3 * few ≤ limit) :
    Yields (rules.namedAttribute first) state fun answer next => ∃ high, low ≤ high ∧
      answer.1.plan.Laid source low high ∧
        Tagged source high state.cursor.rest.length next answer.2 := by
  have opens := tagged.stands.opens goesOn
  have filled := tagged.stands.filled goesOn
  have ends := tagged.ends
  have begins := tagged.behind
  have rest := tagged.rest_le
  rw [span] at opens filled ends begins
  have whole {stop : Nat} {inside : Plan} (longer : state.cursor.pos ≤ stop)
      (closes : ClosesAt source stop) (laid : inside.Laid source state.cursor.pos stop) :
      (Plan.one .attribute ⟨first.span.start, stop⟩ inside).Laid source low stop := by
    rw [Plan.laid_one]
    refine ⟨begins, Nat.le_refl _, ⟨opens, closes, by simp only; omega⟩, ?_,
      .other (by decide) (by decide)⟩
    exact laid.mono (by simp only [Role.inner, Role.isBracketed]; simp; omega) (Nat.le_refl _)
  have finish (name : String) (stop : Nat) (current : Token) (last : ParseState)
      (longer : state.cursor.pos ≤ stop) (closes : ClosesAt source stop)
      (behind : Tagged source stop state.cursor.rest.length last current) :
      Yields (do
          if current.kind.isPunct .assign then
            let value ← rules.attributeValue name
            let span := ⟨first.span.start, ← cursorPos⟩
            return (value span, ← tagToken)
          else
            return (Node.attrFlag ⟨first.span.start, stop⟩ name, current)) last
        fun answer next => ∃ high, low ≤ high ∧ answer.1.plan.Laid source low high ∧
          Tagged source high state.cursor.rest.length next answer.2 := by
    split
    · have few := behind.rest_le
      refine (sound.attributeValue_yields behind.place (by omega)).bind fun make next held => ?_
      obtain ⟨inside, reaches, plan⟩ := held
      rw [yields_cursorPos]
      refine (tagToken_yields reaches.place).bind fun token after tokenTagged => ?_
      have onwards := Nat.le_trans longer (Nat.le_trans behind.le reaches.onwards)
      have shorter := reaches.shorter
      refine .pure ⟨next.cursor.pos, by omega, ?_, tokenTagged.mono (Nat.le_refl _) (by omega)⟩
      rw [plan]
      exact whole onwards reaches.closes
        (reaches.laid.mono (Nat.le_trans longer behind.le) (Nat.le_refl _))
    · exact .pure ⟨stop, by omega, whole longer closes Plan.laid_nil, behind⟩
  have closes := tagged.closes goesOn
  refine (tagToken_yields tagged.place).bind fun next behind nextTagged => ?_
  split
  · refine (tagWord_yields nextTagged.place rfl).bind fun second inside held => ?_
    obtain ⟨token, same, secondGoesOn, secondTagged⟩ := held
    refine (tagToken_yields secondTagged.place).bind fun current last currentTagged => ?_
    have stop : second.span.stop = inside.cursor.pos := by rw [← same, secondTagged.ends]
    refine finish _ second.span.stop current last ?_ ?_ ?_
    · rw [stop]
      exact Nat.le_trans nextTagged.le secondTagged.le
    · rw [stop]
      exact secondTagged.closes secondGoesOn
    · rw [stop]
      exact currentTagged.mono (Nat.le_refl _)
        (Nat.le_trans secondTagged.rest_le nextTagged.rest_le)
  · rw [← ends] at closes nextTagged
    exact finish _ first.span.stop next behind (Nat.le_of_eq ends.symm) closes nextTagged

/-- The attributes of a tag are laid before its last character. -/
theorem attributes_yields (sound : rules.Sound source limit) {start : Nat} {name : TagName}
    {first : Token} (tagged : Tagged source low few state first) (fits : 3 * few ≤ limit) :
    Yields (rules.attributes start name first) state fun answer next =>
      next.In source ∧ ClosesAt source next.cursor.pos ∧
        next.cursor.rest.length < few ∧ ∃ high, low ≤ high ∧ high < next.cursor.pos ∧
          (Plan.all Node.plan answer.1).Laid source low high := by
  unfold Rules.attributes
  -- A token of the tag counts, as the end of input would be read again and again.
  refine repeating_by
    (fun soFar next => next.cursor.rest.length + if soFar.2.kind.isEnd then 0 else 1)
    (fun soFar next => ∃ high, low ≤ high ∧
      (Plan.all Node.plan soFar.1.reverse).Laid source low high ∧
        Tagged source high few next soFar.2)
    ⟨low, Nat.le_refl _, Plan.laid_nil, tagged⟩ ?_ fun soFar state held => ?_
  · simp only
    split <;> omega
  obtain ⟨attributes, current⟩ := soFar
  obtain ⟨high, lower, laid, tagged⟩ := held
  have smaller {next : ParseState} {token : Token} {high rest : Nat}
      (tokenTagged : Tagged source high rest next token) (less : rest ≤ state.cursor.rest.length)
      (goesOn : current.kind.isEnd = false) :
      (next.cursor.rest.length + if token.kind.isEnd then 0 else 1) <
        state.cursor.rest.length + if current.kind.isEnd then 0 else 1 := by
    have one := token.kind.one_le_weight
    have shorter := tokenTagged.shorter
    simp only [goesOn, Bool.false_eq_true, if_false]
    omega
  have rest := tagged.rest_le
  simp only
  split
  · refine (tagToken_yields tagged.place).bind fun close next closeTagged => ?_
    split
    · rename_i isGreater
      have goesOn := goesOn_of_isPunct isGreater
      refine .pure ⟨closeTagged.place, closeTagged.closes goesOn,
        Nat.lt_of_lt_of_le (closeTagged.rest_lt goesOn) rest, high, lower, ?_, laid⟩
      exact Nat.lt_of_le_of_lt tagged.le (closeTagged.moved goesOn)
    · exact yields_fail_bind rfl
  · rename_i is
    have goesOn := goesOn_of_eq is rfl
    exact .pure ⟨tagged.place, tagged.closes goesOn, tagged.rest_lt goesOn, high, lower,
      tagged.moved goesOn, laid⟩
  · rename_i text is
    have goesOn := goesOn_of_eq is rfl
    have span : current.span = (Name.mk text current.span).span := rfl
    refine (sound.namedAttribute_yields tagged goesOn span fits).bind fun answer next held => ?_
    obtain ⟨stop, onwards, valueLaid, nextTagged⟩ := held
    refine .pure ⟨⟨stop, Nat.le_trans lower onwards, ?_, nextTagged.mono (Nat.le_refl _) rest⟩,
      smaller nextTagged (Nat.le_refl _) goesOn⟩
    rw [Plan.all_reverse_cons]
    exact laid.append valueLaid (Nat.le_refl _) lower onwards
  · rename_i is
    have goesOn := goesOn_of_eq is rfl
    have moved := tagged.moved goesOn
    have shorter := tagged.rest_lt goesOn
    refine (resume_yields tagged.place (tagged.closes goesOn)
      (by omega : 3 * state.cursor.rest.length < limit - 1)).bind fun _ inside resumed => ?_
    obtain ⟨ready, lastEnd, room⟩ := resumed
    refine (sound.spreadOperand_yields ready (Nat.le_refl _)).bind fun operand next held => ?_
    obtain ⟨follows, close, operandLaid⟩ := held
    have reaches := reaches_of_braces ready lastEnd room follows close operandLaid
    rw [yields_cursorPos]
    refine (tagToken_yields reaches.place).bind fun token after tokenTagged => ?_
    have onwards := reaches.onwards
    have less := reaches.shorter
    have begins : high ≤ current.span.start := tagged.behind
    have filled : current.span.start < current.span.stop := tagged.stands.filled goesOn
    have ends : current.span.stop = state.cursor.pos := tagged.ends
    refine .pure ⟨⟨next.cursor.pos, by omega, ?_, tokenTagged.mono (Nat.le_refl _) (by omega)⟩,
      smaller tokenTagged (by omega) goesOn⟩
    rw [Plan.all_reverse_cons]
    have whole : (Plan.one .attribute ⟨current.span.start, next.cursor.pos⟩ operand.plan).Laid
        source current.span.start next.cursor.pos := by
      refine Plan.laid_one.mpr ⟨Nat.le_refl _, Nat.le_refl _,
        ⟨tagged.stands.opens goesOn, reaches.closes, by simp only; omega⟩, ?_,
        .other (by decide) (by decide)⟩
      refine reaches.laid.mono ?_ (Nat.le_refl _)
      change current.span.start ≤ state.cursor.pos
      omega
    exact laid.append whole begins (by omega) (by omega)
  · exact yields_fail rfl
  · exact yields_fail rfl

end Rules.Sound

/-! ## Children -/

namespace Rules

open Parse

/-- A closing tag moves the cursor on, to an edge. -/
theorem closingTag_yields {opened : String} (place : state.In source) :
    Yields (closingTag opened) state fun _ next => state.cursor.pos < next.cursor.pos ∧
      Reaches source state.cursor.pos state .nil next := by
  have finish (first next : Token) (closed : String) (last : ParseState)
      (tagged : Tagged source state.cursor.pos state.cursor.rest.length last next) :
      Yields (do
          unless next.kind.isPunct .greater do
            fail next.span .expectedClosingTagEnd
          unless closed = opened do
            fail ⟨first.span.start, next.span.start⟩ (.mismatchedTag opened closed)) last
        fun _ next => state.cursor.pos < next.cursor.pos ∧
          Reaches source state.cursor.pos state .nil next := by
    by_cases isGreater : next.kind.isPunct .greater = true
    · have goesOn := goesOn_of_isPunct isGreater
      rw [if_pos isGreater]
      split
      · exact .pure ⟨tagged.moved goesOn, tagged.place, tagged.le, tagged.closes goesOn,
          Plan.laid_nil, tagged.rest_lt goesOn⟩
      · exact yields_fail rfl
    · rw [if_neg isGreater]
      exact yields_fail_bind rfl
  refine (tagToken_yields place).bind fun first next firstTagged => ?_
  split
  · exact finish first first "" next firstTagged
  · refine (tagName_yields firstTagged).bind fun answer last tagged => ?_
    exact finish first answer.2 answer.1.text last
      (tagged.mono (Nat.le_refl _) firstTagged.rest_le)

end Rules

/-- What was read from behind a character lies behind the place before it. -/
theorem Reaches.from_before {before inside : ParseState} {start : Nat} {plan : Plan}
    (reaches : Reaches source start inside plan next)
    (moved : before.cursor.pos < inside.cursor.pos) (begins : before.cursor.pos ≤ start)
    (less : inside.cursor.rest.length < before.cursor.rest.length) :
    before.cursor.pos < next.cursor.pos ∧ Reaches source before.cursor.pos before plan next := by
  have onwards := reaches.onwards
  have shorter := reaches.shorter
  exact ⟨by omega, reaches.place, by omega, reaches.closes,
    reaches.laid.mono begins (Nat.le_refl _), by omega⟩

namespace Rules.Sound

open Parse

variable {limit bound : Nat} {rules : Rules}

/-- A child is read where a brace or an angle bracket stands. -/
theorem child_yields (sound : rules.Sound source limit) {start : Nat} {opened : String}
    (inSource : state.In source) (fits : 3 * state.cursor.rest.length ≤ limit)
    (begins : ∀ c rest, state.cursor.rest = c :: rest → c = '\x7b' ∨ c = '<') :
    Yields (rules.child start opened) state fun answer next =>
      state.cursor.pos < next.cursor.pos ∧
        Reaches source state.cursor.pos state (Plan.option Node.plan answer) next := by
  unfold Rules.child
  refine yields_place inSource ?_
  have place := inSource.cursor
  split
  · exact yields_fail rfl
  · rename_i c rest isNext
    have filled : Text.isBlank c = false := by
      rcases begins c rest isNext with rfl | rfl <;> rfl
    have opens := place.opensAt isNext filled
    have reads := state.cursor.reads_skip 1
    rw [isNext] at reads
    have inner := place.reads reads
    have last : (List.take 1 (c :: rest)).getLast? = some c := by simp
    have closes := place.closesAt reads last filled
    have moved : state.cursor.pos < (state.cursor.skip 1).pos := by
      have bytes := reads.2
      have positive := c.utf8Size_pos
      simp only [List.take_succ_cons, List.take_zero, Text.size_cons, Text.size_nil] at bytes
      omega
    have less : (state.cursor.skip 1).rest.length < state.cursor.rest.length := by
      have lengths : _ = state.cursor.rest.length := reads.length_rest
      simp only [List.take_succ_cons, List.take_zero, List.length_singleton] at lengths
      omega
    let before : ParseState := { state with cursor := state.cursor.skip 1 }
    have behind : before.In source := ⟨inSource.whole, inner⟩
    rw [yields_modify]
    split
    · refine (resume_yields behind closes
        (by omega : 3 * (state.cursor.skip 1).rest.length < limit - 1)).bind
          fun _ inside resumed => ?_
      obtain ⟨ready, lastEnd, room⟩ := resumed
      rw [yields_at?]
      split
      · refine (sound.spreadOperand_yields ready (Nat.le_refl _)).bind fun operand next held => ?_
        obtain ⟨follows, close, laid⟩ := held
        have reaches : Reaches source before.cursor.pos before operand.plan next :=
          reaches_of_braces ready lastEnd room follows close laid
        exact .pure (reaches.from_before moved (Nat.le_of_lt moved) less)
      · refine (sound.container_yields ready (Nat.le_refl _)).bind fun value next held => ?_
        obtain ⟨follows, close, laid⟩ := held
        have reaches : Reaches source before.cursor.pos before (.option Node.plan value) next :=
          reaches_of_braces ready lastEnd room follows close laid
        obtain ⟨onwards, reaches⟩ := reaches.from_before moved (Nat.le_of_lt moved) less
        have within := reaches.laid
        rw [← Node.plan_ofOption] at within
        rw [yields_cursorPos]
        refine .pure ⟨onwards, reaches.place, reaches.onwards, reaches.closes, ?_, reaches.shorter⟩
        exact Plan.laid_one.mpr ⟨Nat.le_refl _, Nat.le_refl _, ⟨opens, reaches.closes, onwards⟩,
          within, .other (by decide) (by decide)⟩
    · rw [yields_get]
      refine (tagToken_yields behind).bind fun token next tagged => ?_
      split
      · refine (closingTag_yields tagged.place).bind fun _ last held => ?_
        obtain ⟨_, reaches⟩ := held
        have le := tagged.le
        have rest := tagged.rest_le
        exact .pure (reaches.from_before (Nat.lt_of_lt_of_le moved le)
          (Nat.le_trans (Nat.le_of_lt moved) le) (Nat.lt_of_le_of_lt rest less))
      · rw [yields_modify]
        have few : 3 * (state.cursor.skip 1).rest.length < limit := by omega
        let there : ParseState := { next with cursor := state.cursor.skip 1 }
        refine (sound.element state.cursor.pos there ⟨tagged.place.whole, inner⟩ opens moved
          few).bind fun value last reaches => ?_
        exact .pure (reaches.from_before moved (Nat.le_refl _) less)

/-- Text among children is laid behind those before it. -/
theorem laid_withText {cursor : Cursor} {children : List (Node .child)} {low : Nat}
    (place : cursor.In source) (onwards : low ≤ cursor.pos)
    (laid : (Plan.all Node.plan children.reverse).Laid source low cursor.pos) :
    (Plan.all Node.plan (match (readText cursor).1 with
      | some (value, span) => Node.childText span value :: children
      | none => children).reverse).Laid source low (readText cursor).2.pos := by
  obtain ⟨taken, reads, isText⟩ := reads_readText cursor
  have behind := reads.le
  split
  · rename_i value span text
    obtain ⟨rfl, filled⟩ := isText value span text
    have cuts := reads.cuts place
    have longer : cursor.pos < (readText cursor).2.pos := by
      have bytes := reads.2
      have := mt Text.size_eq_zero.mp filled
      omega
    have textLaid : (Node.childText ⟨cursor.pos, (readText cursor).2.pos⟩ value).plan.Laid source
        cursor.pos (readText cursor).2.pos :=
      ⟨⟨Nat.le_refl _, Nat.le_refl _, longer, cuts⟩, trivial⟩
    rw [Plan.all_reverse_cons]
    exact laid.append textLaid (Nat.le_refl _) onwards behind
  · exact laid.mono (Nat.le_refl _) behind

/-- The children of an element are laid before the last character of its closing tag. -/
theorem children_yields (sound : rules.Sound source limit) {start : Nat} {opened : String}
    (place : state.In source) (fits : 3 * state.cursor.rest.length ≤ limit) :
    Yields (rules.children start opened) state fun children next =>
      next.In source ∧ ClosesAt source next.cursor.pos ∧
        next.cursor.rest.length < state.cursor.rest.length ∧
          ∃ high, state.cursor.pos ≤ high ∧ high < next.cursor.pos ∧
            (Plan.all Node.plan children).Laid source state.cursor.pos high := by
  unfold Rules.children
  refine repeating_by (fun _ last => last.cursor.rest.length)
    (fun children last => last.In source ∧ state.cursor.pos ≤ last.cursor.pos ∧
      last.cursor.rest.length ≤ state.cursor.rest.length ∧
      (Plan.all Node.plan children.reverse).Laid source state.cursor.pos last.cursor.pos)
    ⟨place, Nat.le_refl _, Nat.le_refl _, Plan.laid_nil⟩ (Nat.le_succ _)
    fun children last held => ?_
  obtain ⟨place, onwards, rest, laid⟩ := held
  obtain ⟨taken, reads, _⟩ := reads_readText last.cursor
  have textEnds := rest_readText last.cursor
  have textPlace := place.cursor.reads reads
  have textOnwards := reads.le
  have lengths := reads.length_rest
  have texted := laid_withText place.cursor onwards laid
  refine yields_reading place (settles_ok _) fun text after textRead => ?_
  have isText := Except.ok.inj textRead
  obtain rfl : (readText last.cursor).1 = text := congrArg Prod.fst isText
  obtain rfl : (readText last.cursor).2 = after := congrArg Prod.snd isText
  refine Yields.bind (sound.child_yields ⟨place.whole, textPlace⟩ (by simp only; omega) textEnds)
    fun answer next held => ?_
  obtain ⟨moved, reaches⟩ := held
  have shorter := reaches.shorter
  simp only at moved reaches shorter
  split
  · rename_i child
    refine .pure ⟨⟨reaches.place, by omega, by omega, ?_⟩, by omega⟩
    rw [Plan.all_reverse_cons]
    exact texted.append reaches.laid (Nat.le_refl _) (by omega) (by omega)
  · exact .pure ⟨reaches.place, reaches.closes, by omega, _, Nat.le_trans onwards textOnwards,
      moved, texted⟩

/-! ## Elements -/

/-- An element is laid behind the place where its `<` stands. -/
theorem jsxElement (sound : rules.Sound source limit) (start : Nat) (state : ParseState)
    (place : state.In source) (opens : OpensAt source start)
    (behind : start < state.cursor.pos) (fits : 3 * state.cursor.rest.length ≤ limit) :
    Yields (rules.jsxElement start) state fun value next =>
      Reaches source start state value.plan next := by
  have whole {name : Option TagName} {low high : Nat} {last : ParseState}
      (attributes : List (Node .jsxAttribute)) (children : List (Node .child))
      (closes : ClosesAt source last.cursor.pos) (place : last.In source)
      (shorter : last.cursor.rest.length < state.cursor.rest.length)
      (begins : start < low) (longer : state.cursor.pos ≤ low) (onwards : low ≤ high)
      (ends : high < last.cursor.pos)
      (laid : (Plan.all Node.plan attributes ++ Plan.all Node.plan children).Laid source
        low high) :
      Reaches source start state (Node.tag ⟨start, last.cursor.pos⟩ name (.ofList attributes)
        (.ofList children)).plan last := by
    refine ⟨place, by omega, closes, ?_, shorter⟩
    rw [← Node.plan_ofList, ← Node.plan_ofList] at laid
    exact Plan.laid_one.mpr ⟨Nat.le_refl _, Nat.le_refl _, ⟨opens, closes, by simp only; omega⟩,
      laid.mono begins (Nat.le_sub_one_of_lt ends), .other (by decide) (by decide)⟩
  refine (tagToken_yields place).bind fun first next tagged => ?_
  have le := tagged.le
  have rest := tagged.rest_le
  split
  · refine (sound.children_yields tagged.place (by omega)).bind fun children last held => ?_
    obtain ⟨place, closes, shorter, high, onwards, ends, laid⟩ := held
    rw [yields_cursorPos]
    refine .pure (whole [] children closes place (by omega) (by omega) le onwards ends ?_)
    exact laid
  · refine (tagName_yields tagged).bind fun answer inside nameTagged => ?_
    refine (sound.attributes_yields nameTagged (by omega)).bind fun attributes last held => ?_
    obtain ⟨attributes, isClosed⟩ := attributes
    obtain ⟨place, closes, shorter, high, onwards, ends, laid⟩ := held
    dsimp only
    split
    · rw [yields_pure, yields_cursorPos]
      refine .pure (whole attributes [] closes place (by omega) behind (Nat.le_refl _) onwards
        ends ?_)
      rwa [Plan.all_nil, Plan.append_nil]
    · refine (sound.children_yields place (by omega)).bind fun children last held => ?_
      obtain ⟨place, closes, less, childHigh, longer, childEnds, childLaid⟩ := held
      rw [yields_cursorPos]
      refine .pure (whole attributes children closes place (by omega) behind (Nat.le_refl _)
        (by omega) childEnds ?_)
      exact laid.append childLaid (by omega) (by omega) (by omega)

/-- An element as an expression is laid. -/
theorem jsxExpr_yields (sound : rules.Sound source limit) (ready : Ready source bound state)
    (goesOn : state.token.kind.isEnd = false) (le : bound ≤ limit) :
    Yields rules.jsxExpr state fun value next => Spans source bound state value.plan next := by
  have opens := ready.stands.opens goesOn
  have filled := ready.stands.filled goesOn
  have ends := ready.ends
  have fits := ready.fits
  have heavy := TokenKind.weight_pos goesOn
  have here : state.room = state.cursor.rest.length + state.token.kind.weight := rfl
  unfold Rules.jsxExpr
  rw [yields_here]
  refine (sound.jsxElement state.token.span.start state ready.place opens (by omega)
    (by omega)).bind fun value behind reaches => ?_
  have shorter := reaches.shorter
  rw [yields_cursorPos]
  refine (resume_yields reaches.place reaches.closes
    (by omega : 3 * behind.cursor.rest.length < bound)).bind fun _ next resumed => ?_
  obtain ⟨nextReady, lastEnd, room⟩ := resumed
  have onwards := reaches.onwards
  have whole := ready.consumes goesOn nextReady (by omega) (by omega)
  rw [← lastEnd]
  refine .pure ⟨whole, whole.laid ready rfl ?_ (Nat.le_refl _) (Nat.le_refl _) fun _ => ?_⟩
  · rw [lastEnd]
    exact reaches.laid
  · cases value with
    | tag => exact Plan.not_mem_exprs_of_laid_one reaches.laid rfl (Nat.le_refl _)

end Rules.Sound

end StopMotion.Syntax
