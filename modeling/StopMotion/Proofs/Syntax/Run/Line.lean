import StopMotion.Proofs.Syntax.Run

/-!
# Lines of tokens

A text that begins with tokens of known kinds on one line, and a reading that has come to the
first of them. The steps over one token of a known text, with the rest of the line behind it.
-/

namespace StopMotion.Syntax

/-! ## Lines -/

/-- Behind a token a text begins with tokens of some kinds on one line, and the rest is behind
them. -/
def SpellsAll : TokenKind → List TokenKind → List Char → List Char → Prop
  | _, [], text, rest => text = rest
  | before, kind :: kinds, text, rest =>
    ∃ middle, SpellsAfter before text kind false middle ∧ SpellsAll kind kinds middle rest

variable {before : TokenKind}

theorem spellsAll_append {kinds others : List TokenKind} {text rest : List Char} :
    SpellsAll before (kinds ++ others) text rest ↔
      ∃ middle, SpellsAll before kinds text middle ∧
        SpellsAll (kinds.getLastD before) others middle rest := by
  induction kinds generalizing before text with
  | nil => simp [SpellsAll]
  | cons kind kinds inductionHypothesis =>
      rw [List.getLastD_cons]
      constructor
      · rintro ⟨behind, spells, others⟩
        obtain ⟨middle, first, second⟩ := inductionHypothesis.mp others
        exact ⟨middle, ⟨behind, spells, first⟩, second⟩
      · rintro ⟨middle, ⟨behind, spells, first⟩, second⟩
        exact ⟨behind, spells, inductionHypothesis.mpr ⟨middle, first, second⟩⟩

theorem SpellsAfter.length_le {text rest : List Char} {kind : TokenKind} {newline : Bool}
    (spells : SpellsAfter before text kind newline rest) : rest.length ≤ text.length := by
  obtain ⟨token, cursor, read, rfl, -, rfl⟩ := exists_of_seen? (spells 0)
  have shorter := (read_readToken (Cursor.start_in text) read).shorter
  change _ ≤ text.length at shorter
  omega

theorem Spells.length_le {text rest : List Char} {kind : TokenKind} {newline : Bool}
    (spells : Spells text kind newline rest) : rest.length ≤ text.length :=
  (spells.after : SpellsAfter .endOfInput text kind newline rest).length_le

theorem SpellsInTag.length_le {text rest : List Char} {kind : TokenKind} {newline : Bool}
    (spells : SpellsInTag text kind newline rest) : rest.length ≤ text.length := by
  obtain ⟨token, cursor, read, rfl, -, rfl⟩ := exists_of_seen? (spells 0)
  have shorter := (read_readTagToken (Cursor.start_in text) read).shorter
  change _ ≤ text.length at shorter
  omega

theorem SpellsAll.length_le {kinds : List TokenKind} {text rest : List Char}
    (spells : SpellsAll before kinds text rest) : rest.length ≤ text.length := by
  induction kinds generalizing before text with
  | nil =>
      cases spells
      exact Nat.le_refl _
  | cons kind kinds inductionHypothesis =>
      obtain ⟨middle, first, others⟩ := spells
      exact Nat.le_trans (inductionHypothesis others) first.length_le

/-- A token that is not the end takes up some of the text. -/
theorem SpellsAll.shorter {kinds : List TokenKind} {kind : TokenKind} {text rest : List Char}
    (spells : SpellsAll before kinds text rest) (member : kind ∈ kinds)
    (goesOn : kind.isEnd = false) : rest.length < text.length := by
  obtain ⟨front, behind, rfl⟩ := List.append_of_mem member
  obtain ⟨_, first, middle, second, others⟩ := spellsAll_append.mp spells
  exact Nat.lt_of_le_of_lt others.length_le
    (Nat.lt_of_lt_of_le (second.shorter goesOn) first.length_le)

/-- A reading has come to the first of some tokens, with the others behind it. -/
def Stands (state : ParseState) : List TokenKind → List Char → Prop
  | [], _ => False
  | kind :: kinds, rest =>
    ∃ newline text, Sees state kind newline text ∧ SpellsAll kind kinds text rest

theorem Stands.kind {state : ParseState} {kind : TokenKind} {kinds : List TokenKind}
    {rest : List Char} (stands : Stands state (kind :: kinds) rest) : state.token.kind = kind := by
  obtain ⟨newline, text, sees, -⟩ := stands
  exact sees.kind

/-- A reading before a line of tokens has come to the first part of the line. -/
theorem Stands.split {state : ParseState} {kinds others : List TokenKind} {last : TokenKind}
    {rest : List Char} (stands : Stands state (kinds ++ last :: others) rest) :
    ∃ middle, Stands state (kinds ++ [last]) middle ∧ SpellsAll last others middle rest := by
  cases kinds with
  | nil =>
      obtain ⟨newline, text, sees, spells⟩ := stands
      exact ⟨text, ⟨newline, text, sees, rfl⟩, spells⟩
  | cons kind kinds =>
      obtain ⟨newline, text, sees, spells⟩ := stands
      obtain ⟨between, first, middle, spellsLast, second⟩ := spellsAll_append.mp spells
      exact ⟨middle, ⟨newline, text, sees, spellsAll_append.mpr
        ⟨between, first, middle, spellsLast, rfl⟩⟩, second⟩

theorem Stands.one {state : ParseState} {kind : TokenKind} {rest : List Char}
    (stands : Stands state [kind] rest) : ∃ newline, Sees state kind newline rest := by
  obtain ⟨newline, text, sees, rfl⟩ := stands
  exact ⟨newline, sees⟩

theorem Sees.stands {state : ParseState} {kind : TokenKind} {newline : Bool} {text rest : List Char}
    {kinds : List TokenKind} (sees : Sees state kind newline text)
    (spells : SpellsAll kind kinds text rest) : Stands state (kind :: kinds) rest :=
  ⟨newline, text, sees, spells⟩

namespace Parse

variable {state : ParseState} {kind kind' : TokenKind} {kinds : List TokenKind} {rest : List Char}

/-- Passing over the first of some tokens comes to the second one. -/
theorem pass_stands (stands : Stands state (kind :: kind' :: kinds) rest) :
    Runs pass state fun _ next => Stands next (kind' :: kinds) rest := by
  obtain ⟨newline, text, sees, middle, spells, others⟩ := stands
  apply (pass_after sees spells).mono
  intro _ next seesNext
  exact seesNext.stands others

theorem expect_stands {punct : Punct}
    (stands : Stands state (.punct punct :: kind' :: kinds) rest) :
    Runs (expect punct) state fun _ next => Stands next (kind' :: kinds) rest := by
  obtain ⟨newline, text, sees, middle, spells, others⟩ := stands
  apply (expect_after sees spells).mono
  intro _ next seesNext
  exact seesNext.stands others

theorem eat_stands {punct : Punct} (stands : Stands state (.punct punct :: kind' :: kinds) rest) :
    Runs (eat punct) state fun eaten next => eaten = true ∧ Stands next (kind' :: kinds) rest := by
  obtain ⟨newline, text, sees, middle, spells, others⟩ := stands
  apply (eat_after sees spells).mono
  rintro _ next ⟨rfl, seesNext⟩
  exact ⟨rfl, seesNext.stands others⟩

/-- A punctuator that is not the first of some tokens is not passed over. -/
theorem eat_stands_other {punct : Punct} (stands : Stands state (kind :: kinds) rest)
    (other : kind.isPunct punct = false) :
    Runs (eat punct) state fun eaten next => eaten = false ∧ next = state :=
  eat_other (by rw [stands.kind]; exact other)

theorem anyName_stands {word : String} (stands : Stands state (.word word :: kind' :: kinds) rest) :
    Runs anyName state fun name next => name.text = word ∧ Stands next (kind' :: kinds) rest := by
  obtain ⟨newline, text, sees, middle, spells, others⟩ := stands
  apply (anyName_after sees spells).mono
  rintro _ next ⟨rfl, seesNext⟩
  exact ⟨rfl, seesNext.stands others⟩

/-- What stands behind the answer of a step, without the line ends before it. -/
theorem Runs.stands {α : Type} {step : Parse α} {holds : α → Prop} {newline : Bool}
    (runs : Runs step state fun value next => holds value ∧ Sees next kind newline rest) :
    Runs step state fun value next => holds value ∧ Stands next [kind] rest :=
  runs.mono fun _ _ answered => ⟨answered.1, answered.2.stands rfl⟩

@[simp] theorem refuses_at? {α : Type} {punct : Punct} {more : Bool → Parse α} :
    Refuses (at? punct >>= more) state ↔ Refuses (more (state.token.kind.isPunct punct)) state :=
  Iff.rfl

/-- A punctuator that is not there is missed. -/
theorem expect_refuses {punct : Punct} (other : state.token.kind.isPunct punct = false) :
    Refuses (expect punct) state := by
  unfold expect
  rw [refuses_at?, other]
  exact ⟨_, rfl, rfl⟩

theorem peek_stands (stands : Stands state (kind :: kind' :: kinds) rest) :
    Runs peek state fun token next => (token.kind = kind' ∧ token.afterNewline = false) ∧
      next = state := by
  obtain ⟨newline, text, sees, middle, spells, others⟩ := stands
  exact peek_after sees spells

end Parse

end StopMotion.Syntax
