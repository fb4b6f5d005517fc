import StopMotion.Proofs.Repair.Pass
import StopMotion.Proofs.Text.Quoted

/-!
# Passes over a quoted string

A string in its JSON form is left as it is where a value stands before a closing brace. It may hold
any quotes: those of its own kind are escaped, and the others are inside a literal. The empty
string is an empty literal.
-/

namespace StopMotion.Repair

open Text (escaped escaped_cases hexDigit size)

/-! ## Quoted strings -/

/-- A character that stands for itself in the body of a literal between double quotes. -/
def Bare (c : Char) : Prop := c ≠ '\\' ∧ c ≠ '\n' ∧ c ≠ '\r' ∧ c ≠ '"'

instance : DecidablePred Bare :=
  fun c => inferInstanceAs (Decidable (c ≠ '\\' ∧ c ≠ '\n' ∧ c ≠ '\r' ∧ c ≠ '"'))

theorem bodyLength?_bare {bare : List Char} (all : ∀ c ∈ bare, Bare c) (rest : List Char) :
    bodyLength? '"' false (bare ++ rest) = (bodyLength? '"' false rest).map (· + bare.length) := by
  induction bare with
  | nil => simp
  | cons c bare inductionHypothesis =>
      obtain ⟨backslash, lineFeed, carriageReturn, quote⟩ := all c List.mem_cons_self
      have later := inductionHypothesis fun d member => all d (List.mem_cons_of_mem _ member)
      simp [bodyLength?, backslash, lineFeed, carriageReturn, quote, later, Function.comp_def]
      rfl

theorem bare_hexDigit {value : Nat} (isDigit : value < 16) : Bare (hexDigit value) := by
  have all : ∀ value < 16, Bare (hexDigit value) := by
    decide
  exact all value isDigit

/-- What stands for a character between quotes does not close the literal. -/
theorem bodyLength?_escaped (c : Char) (rest : List Char) :
    bodyLength? '"' false (escaped c ++ rest) =
      (bodyLength? '"' false rest).map (· + (escaped c).length) := by
  have escape (letter : Char) {behind : List Char} (all : ∀ d ∈ behind, Bare d) :
      bodyLength? '"' false ('\\' :: letter :: behind ++ rest) =
        (bodyLength? '"' false rest).map (· + ('\\' :: letter :: behind).length) := by
    change ((bodyLength? '"' false (behind ++ rest)).map (· + 1)).map (· + 1) = _
    rw [bodyLength?_bare all, Option.map_map, Option.map_map]
    rfl
  rcases escaped_cases c with ⟨plain, quote, backslash, lineFeed, carriageReturn⟩ |
    ⟨letter, named, -⟩ | ⟨isControl, spelled⟩
  · rw [plain]
    exact bodyLength?_bare (by simp [Bare, quote, backslash, lineFeed, carriageReturn]) rest
  · rw [named]
    exact escape letter (by simp)
  · have first : Bare (hexDigit (c.toNat / 16)) := bare_hexDigit (by omega)
    have second : Bare (hexDigit (c.toNat % 16)) := bare_hexDigit (by omega)
    have zero : Bare '0' := by decide
    rw [spelled]
    exact escape 'u' (by simp [zero, first, second])

/-- A quoted string closes at its last quote. -/
theorem bodyLength?_quoted (text rest : List Char) :
    bodyLength? '"' false (text.flatMap escaped ++ '"' :: rest) =
      some (text.flatMap escaped).length := by
  induction text with
  | nil => rfl
  | cons c text inductionHypothesis =>
      rw [List.flatMap_cons, List.append_assoc, bodyLength?_escaped, inductionHypothesis,
        List.length_append, Option.map_some, Nat.add_comm]

/-- What stands for a character does not begin with a quote. -/
theorem takeWhile_quote_escaped (c : Char) (rest : List Char) :
    (escaped c ++ rest).takeWhile (· == '"') = [] := by
  rcases escaped_cases c with ⟨plain, quote, -⟩ | ⟨letter, named, -⟩ | ⟨-, spelled⟩
  · rw [plain]
    simp [quote]
  · rw [named]
    rfl
  · rw [spelled]
    rfl

/-- A quoted string before a brace is left as it is. -/
theorem valueString_quoted (offset : Nat) (text rest : List Char) :
    valueString '"' offset (text.flatMap escaped ++ '"' :: '\x7d' :: rest) =
      ((text.flatMap escaped).length + 1, []) := by
  cases text with
  | nil => rfl
  | cons c text =>
      have single : ((c :: text).flatMap escaped ++ '"' :: '\x7d' :: rest).takeWhile
          (· == '"') = [] := by
        rw [List.flatMap_cons, List.append_assoc]
        exact takeWhile_quote_escaped c _
      have closes := bodyLength?_quoted (c :: text) ('\x7d' :: rest)
      have behind : ((c :: text).flatMap escaped ++ '"' :: '\x7d' :: rest).drop
          (((c :: text).flatMap escaped).length + 1) = '\x7d' :: rest :=
        List.drop_length_add_append 1
      unfold valueString
      simp only [single, List.length_singleton, Nat.sub_self, List.drop_zero, true_or, if_true,
        closes, behind]
      rw [Nat.add_comm _ 1]
      rfl

/-- A quoted string as the first thing within a brace is left as it is, and so is what follows its
closing brace if no quote stands twice there. -/
theorem scan_label (depth : Nat) (offset : Nat) (text : List Char) {behind : List Char}
    (single : ('\x7d' :: behind).IsChain Apart) :
    scan 0 [.code depth] (.punct '\x7b') offset
      ('"' :: (text.flatMap escaped ++ '"' :: '\x7d' :: behind)) = [] := by
  have found : step [.code depth] (.punct '\x7b') offset '"'
      (text.flatMap escaped ++ '"' :: '\x7d' :: behind) =
        ⟨(text.flatMap escaped).length + 1, [.code depth], .operand, []⟩ := by
    have value := valueString_quoted offset text behind
    change (⟨(valueString '"' offset _).1, _, _, (valueString '"' offset _).2⟩ : Step) = _
    rw [value]
  have later : (text.flatMap escaped ++ '"' :: '\x7d' :: behind).drop
      ((text.flatMap escaped).length + 1) = '\x7d' :: behind :=
    List.drop_length_add_append 1
  rw [scan, found, List.nil_append, scan_skip, later]
  obtain ⟨result, thins⟩ := (steps_scan [.code depth] .operand _ ('\x7d' :: behind)).thins
  exact thins.eq_nil_of_isChain single

end StopMotion.Repair
