import StopMotion.Syntax.Token.Lexer
import StopMotion.Text.Quoted

/-!
# Reading back a quoted string

The lexer of a module reads a string in its JSON form back as the string. Whatever the string
holds, its quoted form has no bare quote, no bare backslash and no line end in it; an escape
names the character that it stands for.
-/

namespace StopMotion.Text

/-- A character that stands for itself between quotes, or the escape of the character: a backslash
and what is behind it. -/
theorem escaped_cases (c : Char) :
    (escaped c = [c] ∧ c ≠ '"' ∧ c ≠ '\\' ∧ c ≠ '\n' ∧ c ≠ '\r') ∨
      (∃ letter, escaped c = ['\\', letter] ∧
        (c, letter) ∈ [('"', '"'), ('\\', '\\'), ('\x08', 'b'), ('\x0c', 'f'), ('\n', 'n'),
          ('\r', 'r'), ('\t', 't')]) ∨
      (c.toNat < 32 ∧
        escaped c = ['\\', 'u', '0', '0', hexDigit (c.toNat / 16), hexDigit (c.toNat % 16)]) := by
  unfold escaped
  split
  case h_8 quote backslash _ _ lineFeed carriageReturn _ =>
    by_cases isControl : c.toNat < 32
    · rw [if_pos isControl]
      exact .inr (.inr ⟨isControl, rfl⟩)
    · rw [if_neg isControl]
      exact .inl ⟨rfl, quote, backslash, lineFeed, carriageReturn⟩
  all_goals exact .inr (.inl ⟨_, rfl, by simp⟩)

end StopMotion.Text

namespace StopMotion.Syntax

open Text (escaped escaped_cases hexDigit)

/-- The four hexadecimal digits of a control character spell its number, a byte each. -/
theorem spells_control {code : Nat} (isControl : code < 32) :
    hexNumber? ['0', '0', hexDigit (code / 16), hexDigit (code % 16)] = some code ∧
      Text.size ['0', '0', hexDigit (code / 16), hexDigit (code % 16)] = 4 := by
  have all : ∀ code < 32,
      hexNumber? ['0', '0', hexDigit (code / 16), hexDigit (code % 16)] = some code ∧
        Text.size ['0', '0', hexDigit (code / 16), hexDigit (code % 16)] = 4 := by
    decide
  exact all code isControl

/-- The escape of a control character is read as that character. -/
theorem readEscape_control (start pos : Nat) {c : Char} (isControl : c.toNat < 32)
    (rest : List Char) :
    readEscape start pos
        ('u' :: '0' :: '0' :: hexDigit (c.toNat / 16) :: hexDigit (c.toNat % 16) :: rest) =
      .ok ⟨some c, 5⟩ := by
  obtain ⟨spelled, bytes⟩ := spells_control isControl
  have cut : Text.cut? ('0' :: '0' :: hexDigit (c.toNat / 16) :: hexDigit (c.toNat % 16) :: rest)
      0 4 = some ['0', '0', hexDigit (c.toNat / 16), hexDigit (c.toNat % 16)] := by
    have split := Text.splitAt?_append
      ['0', '0', hexDigit (c.toNat / 16), hexDigit (c.toNat % 16)] rest
    rw [bytes] at split
    change (Text.splitAt? 4 _).map (·.1) = _
    exact congrArg (Option.map (·.1)) split
  have same : charOf c.toNat = c := by
    rw [charOf, if_pos (.inl (by omega)), Char.ofNat_toNat]
  simp [readEscape, cut, spelled, same, endsLine]

/-- An escape is read as the character that it stands for. -/
theorem readEscape_escaped (start pos : Nat) {c : Char} {behind : List Char}
    (isEscape : escaped c = '\\' :: behind) (rest : List Char) (other : behind ≠ []) :
    readEscape start pos (behind ++ rest) = .ok ⟨some c, behind.length⟩ := by
  rcases escaped_cases c with ⟨plain, -⟩ | ⟨letter, named, listed⟩ | ⟨isControl, spelled⟩
  · rw [plain] at isEscape
    cases isEscape
    exact absurd rfl other
  · rw [named] at isEscape
    cases isEscape
    simp only [List.mem_cons, Prod.mk.injEq, List.not_mem_nil, or_false] at listed
    rcases listed with ⟨rfl, rfl⟩ | ⟨rfl, rfl⟩ | ⟨rfl, rfl⟩ | ⟨rfl, rfl⟩ | ⟨rfl, rfl⟩ | ⟨rfl, rfl⟩ |
      ⟨rfl, rfl⟩ <;> rfl
  · rw [spelled] at isEscape
    cases isEscape
    exact readEscape_control start pos isControl rest

/-- The characters of an escape are passed over. -/
theorem scanString_skip (quote : Char) (start pos : Nat) (read skipped rest : List Char) :
    scanString quote start skipped.length pos read (skipped ++ rest) =
      scanString quote start 0 (pos + Text.size skipped) read rest := by
  induction skipped generalizing pos with
  | nil => rfl
  | cons c skipped inductionHypothesis =>
      simp only [List.length_cons, List.cons_append, scanString, Text.size_cons]
      rw [inductionHypothesis, Nat.add_assoc]

/-- What stands for a character between quotes is read as the character. -/
theorem scanString_escaped (start pos : Nat) (read : List Char) (c : Char) (rest : List Char) :
    scanString '"' start 0 pos read (escaped c ++ rest) =
      scanString '"' start 0 (pos + Text.size (escaped c)) (c :: read) rest := by
  have escape : ∀ behind, escaped c = '\\' :: behind → behind ≠ [] →
      scanString '"' start 0 pos read (escaped c ++ rest) =
        scanString '"' start 0 (pos + Text.size (escaped c)) (c :: read) rest := by
    intro behind isEscape other
    have decoded := readEscape_escaped start (pos + 1) isEscape rest other
    rw [isEscape, List.cons_append, scanString]
    simp only [decoded, Option.toList_some, List.cons_append, List.nil_append]
    rw [scanString_skip]
    simp [Text.size, Nat.add_assoc]
    rfl
  rcases escaped_cases c with ⟨plain, quote, backslash, lineFeed, carriageReturn⟩ |
    ⟨letter, named, -⟩ | ⟨-, spelled⟩
  · rw [plain]
    simp [scanString, quote, backslash, lineFeed, carriageReturn]
  · exact escape _ named (by simp)
  · exact escape _ spelled (by simp)

/-- A string between quotes is read back. -/
theorem scanString_quoted (start pos : Nat) (read text rest : List Char) :
    scanString '"' start 0 pos read (text.flatMap escaped ++ '"' :: rest) =
      .ok (String.ofList (read.reverse ++ text),
        ⟨rest, pos + Text.size (text.flatMap escaped) + 1⟩) := by
  induction text generalizing pos read with
  | nil => simp [scanString]; rfl
  | cons c text inductionHypothesis =>
      rw [List.flatMap_cons, List.append_assoc, scanString_escaped, inductionHypothesis]
      simp [Nat.add_assoc]

end StopMotion.Syntax
