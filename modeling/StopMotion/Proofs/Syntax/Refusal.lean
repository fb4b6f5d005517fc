import StopMotion.Proofs.Syntax.Token
import StopMotion.Syntax.Target

/-!
# Why tokens and targets are refused

Reading a token goes through the source once, and reading an expression again as a target
goes through the expression once. Neither has a bound to run into: a refusal is always one
of what was read.
-/

namespace StopMotion.Syntax

/-- A reading ends with an answer, or it is refused for what was read and not given up at a
bound. -/
def Settles {α : Type} (reading : Reading α) : Prop :=
  ∀ error, reading = .error error → error.isGivenUp = false

variable {α β : Type}

theorem settles_ok (value : α) : Settles (.ok value) := by
  rintro _ ⟨⟩

theorem settles_refuse {start stop : Nat} {cause : Cause} (refused : cause.isGivenUp = false) :
    Settles (refuse start stop cause : Reading α) := by
  rintro _ ⟨⟩
  exact refused

/-- A refusal that is passed on. -/
theorem Settles.error {reading : Reading α} {error : SyntaxError} (settles : Settles reading)
    (refused : reading = .error error) : Settles (.error error : Reading β) := by
  rintro _ ⟨⟩
  exact settles error refused

theorem Settles.bind_ok {reading : Reading α} {more : α → Reading β} (settles : Settles reading)
    (rest : ∀ value, reading = .ok value → Settles (more value)) : Settles (reading >>= more) := by
  cases answer : reading with
  | error error => exact settles.error answer
  | ok value => exact rest value answer

theorem Settles.bind {reading : Reading α} {more : α → Reading β} (settles : Settles reading)
    (rest : ∀ value, Settles (more value)) : Settles (reading >>= more) :=
  settles.bind_ok fun value _ => rest value

theorem Settles.ite {condition : Prop} [Decidable condition] {first second : Reading α}
    (left : Settles first) (right : Settles second) :
    Settles (if condition then first else second) := by
  by_cases held : condition
  · rwa [if_pos held]
  · rwa [if_neg held]

/-! ## Blanks and numbers -/

theorem settles_skipTrivia {state : Trivia} {newline : Bool} {pos : Nat} {text : List Char} :
    Settles (skipTrivia state newline pos text) := by
  fun_induction skipTrivia state newline pos text with
  | case1 => exact settles_refuse rfl
  | case2 => exact settles_ok _
  | case13 => exact settles_ok _
  | _ => assumption

theorem settles_scanRadix {radix start : Nat} {cursor : Cursor} :
    Settles (scanRadix radix start cursor) := by
  simp only [scanRadix]
  split
  · exact settles_refuse rfl
  · exact settles_ok _

theorem settles_scanExponent {cursor : Cursor} : Settles (scanExponent cursor) := by
  unfold scanExponent
  split
  · split
    · simp only
      split
      · exact settles_refuse rfl
      · exact settles_ok _
    · exact settles_ok _
  · exact settles_ok _

theorem settles_scanDecimal {cursor : Cursor} : Settles (scanDecimal cursor) := by
  unfold scanDecimal
  dsimp only
  refine settles_scanExponent.bind fun exponent => ?_
  split
  · exact settles_refuse rfl
  · split
    · exact settles_ok _
    · exact settles_refuse rfl

theorem settles_scanNumber {cursor : Cursor} : Settles (scanNumber cursor) := by
  unfold scanNumber
  split
  · split
    · exact settles_scanRadix
    · exact settles_scanDecimal
  · exact settles_scanDecimal

/-! ## Strings, templates and regular expressions -/

/-- Hexadecimal digits that are read or refused. -/
theorem settles_hex {spelling? : Option (List Char)} {answer : List Char → Nat → α}
    {tooShort noNumber : Reading α} (short : Settles tooShort) (none : Settles noNumber) :
    Settles (match spelling? with
      | .none => tooShort
      | some spelling =>
        match hexNumber? spelling with
        | .none => noNumber
        | some code => .ok (answer spelling code)) := by
  split
  · exact short
  · split
    · exact none
    · exact settles_ok _

theorem settles_readEscape {start pos : Nat} {text : List Char} :
    Settles (readEscape start pos text) := by
  unfold readEscape
  split
  · exact settles_refuse rfl
  · rename_i rest
    dsimp only
    -- The characters that stand for one character come first.
    repeat refine .ite (settles_ok _) ?_
    refine .ite ?_ (.ite ?_ (settles_ok _))
    · exact settles_hex (settles_refuse rfl) (settles_refuse rfl)
    · split
      · refine .ite (settles_refuse rfl) ?_
        split
        · exact settles_refuse rfl
        · exact settles_ok _
      · exact settles_hex (settles_refuse rfl) (settles_refuse rfl)

theorem settles_scanString {quote : Char} {start skip pos : Nat} {read text : List Char} :
    Settles (scanString quote start skip pos read text) := by
  fun_induction scanString quote start skip pos read text with
  | case1 | case3 => exact settles_refuse rfl
  | case4 => exact settles_readEscape.error ‹_›
  | case6 => exact settles_ok _
  | _ => assumption

theorem settles_scanChunk {start skip pos : Nat} {read text : List Char} :
    Settles (scanChunk start skip pos read text) := by
  fun_induction scanChunk start skip pos read text with
  | case1 => exact settles_refuse rfl
  | case3 | case4 => exact settles_ok _
  | case5 => exact settles_readEscape.error ‹_›
  | _ => assumption

theorem settles_scanRegex {start pos : Nat} {escaped inClass : Bool} {text : List Char} :
    Settles (scanRegex start escaped inClass pos text) := by
  fun_induction scanRegex start escaped inClass pos text with
  | case1 | case3 => exact settles_refuse rfl
  | case7 => exact settles_ok _
  | _ => assumption

/-! ## Tokens -/

theorem settles_readChunk {start : Nat} {afterNewline : Bool} {cursor : Cursor} :
    Settles (readChunk start afterNewline cursor) :=
  settles_scanChunk.bind fun _ => settles_ok _

theorem settles_readKind {regexMayFollow : Bool} {cursor : Cursor} {c : Char}
    {rest : List Char} : Settles (readKind regexMayFollow cursor c rest) := by
  unfold readKind
  simp only
  split
  · exact settles_ok _
  split
  · exact settles_ok _
  split
  · exact settles_scanNumber.bind fun _ => settles_ok _
  split
  · exact settles_scanString.bind fun _ => settles_ok _
  split
  · exact settles_scanChunk.bind fun _ => settles_ok _
  split
  · exact settles_scanRegex.bind fun _ => settles_ok _
  split
  · exact settles_refuse rfl
  · split
    · exact settles_ok _
    · exact settles_ok _
  · exact settles_ok _

theorem settles_readTagKind {cursor : Cursor} {c : Char} {rest : List Char} :
    Settles (readTagKind cursor c rest) := by
  unfold readTagKind
  split
  · exact settles_ok _
  split
  · simp only
    split
    · exact settles_refuse rfl
    · exact settles_ok _
  · split
    · exact settles_ok _
    · exact settles_refuse rfl

/-- A token behind blanks settles if its kind does. -/
theorem settles_token {kindAt : Cursor → Char → List Char → Reading (TokenKind × Cursor)}
    {cursor : Cursor} (kinds : ∀ cursor c rest, Settles (kindAt cursor c rest)) :
    Settles (do
      let (afterNewline, cursor) ← skipTrivia .blank false cursor.pos cursor.rest
      match cursor.rest with
      | [] => .ok ((⟨.endOfInput, cursor.since cursor.pos, afterNewline⟩ : Token), cursor)
      | c :: rest =>
        let (kind, after) ← kindAt cursor c rest
        .ok (⟨kind, after.since cursor.pos, afterNewline⟩, after)) := by
  refine settles_skipTrivia.bind fun trivia => ?_
  obtain ⟨newline, after⟩ := trivia
  simp only
  split
  · exact settles_ok _
  · exact (kinds _ _ _).bind fun _ => settles_ok _

theorem settles_readToken {regexMayFollow : Bool} {cursor : Cursor} :
    Settles (readToken regexMayFollow cursor) :=
  settles_token fun _ _ _ => settles_readKind

theorem settles_readTagToken {cursor : Cursor} : Settles (readTagToken cursor) :=
  settles_token fun _ _ _ => settles_readTagKind

/-! ## Targets -/

/-- Reading a node again as a target settles. -/
theorem Node.settles_asTarget {c : Category} (node : Node c) : Settles node.asTarget := by
  fun_induction Node.asTarget node with
  | case2 => exact Settles.bind ‹_› fun _ => Settles.bind ‹_› fun _ => settles_ok _
  | _ => first
    | exact settles_ok _
    | exact settles_refuse rfl
    | exact Settles.bind ‹_› fun _ => settles_ok _
    | assumption

theorem Node.settles_asSimpleTarget (expr : Expr) : Settles expr.asSimpleTarget := by
  unfold asSimpleTarget
  split
  · exact expr.settles_asTarget
  · exact settles_refuse rfl

end StopMotion.Syntax
