import StopMotion.Frame.ClosedForm
import StopMotion.Frame.Substitution
import StopMotion.Proofs.Text.Edit

/-!
# What formulas say

A formula says the counter, numbers, operators and a few functions of `Math`. Everything
else in its text is text that it was given.
-/

namespace StopMotion.Frame

open StopMotion.Syntax StopMotion.State

/-- The fixed parts of the expressions that are put into a source. -/
def signs : List String :=
  ["(", ")", "()", ")()", ", ", " ", "!", " ? ", " : ", "Math.floor(", "Math.sin(", "Math.min(",
    "Math.max(", "undefined", "0", "new Date(", "new Date(0)", "Array.from(\x7b length: ",
    " \x7d, (_, ", ") => (\x7b\n", "  ", ",\n", "\x7d))", "\x7b\x7d"]

/-- The words of the expressions that are put into a source, with some names. A property's key
is followed by a colon, so it reads nothing. -/
inductive Says (source : List Char) (names : String → Prop) : String → Prop where
  | sign {text : String} (fixed : text ∈ signs) : Says source names text
  | operator (op : BinaryOp) : Says source names op.text
  | number (value : Float) : Says source names (Number.compact value)
  | count (value : Nat) : Says source names (toString value)
  | indent (offset : Nat) : Says source names (Text.indentAt source offset)
  | key (name : String) : Says source names (propertyKey name ++ ": ")
  | name {text : String} (named : names text) : Says source names text

variable {source : List Char} {copies : Span → Prop} {names : String → Prop}

/-- A text that is woven from stretches of the source and from these words. -/
def Worded (source : List Char) (copies : Span → Prop) (names : String → Prop)
    (text : String) : Prop :=
  Woven source copies (Says source names) text.toList

namespace Worded

/-- Two texts in a row. -/
theorem join {first second : String} (before : Worded source copies names first)
    (behind : Worded source copies names second) :
    Worded source copies names (first ++ second) :=
  Woven.join before behind

/-- A text without the blanks at its ends. -/
theorem trimmed {text : String} (worded : Worded source copies names text) :
    Worded source copies names (String.ofList (Text.trim text.toList)) := by
  rw [Worded, String.toList_ofList]
  exact Woven.trimmed worded

theorem said {text : String} (spoken : Says source names text) :
    Worded source copies names text :=
  Woven.said spoken

/-- A fixed part. -/
theorem sign {text : String} (fixed : text ∈ signs) : Worded source copies names text :=
  .said (.sign fixed)

theorem number (value : Float) : Worded source copies names (Number.compact value) :=
  .said (.number value)

theorem name {text : String} (named : names text) : Worded source copies names text :=
  .said (.name named)

/-- More may be copied and named. -/
theorem mono {copies' : Span → Prop} {names' : String → Prop} {text : String}
    (worded : Worded source copies names text) (moreCopies : ∀ span, copies span → copies' span)
    (moreNames : ∀ name, names name → names' name) : Worded source copies' names' text := by
  apply Woven.mono worded moreCopies
  intro word spoken
  cases spoken with
  | sign fixed => exact .sign fixed
  | operator op => exact .operator op
  | number value => exact .number value
  | count value => exact .count value
  | indent offset => exact .indent offset
  | key name => exact .key name
  | name named => exact .name (moreNames _ named)

/-- A text between two fixed parts. -/
theorem between {opening text closing : String} (opens : opening ∈ signs)
    (worded : Worded source copies names text) (closes : closing ∈ signs) :
    Worded source copies names (opening ++ text ++ closing) :=
  ((sign opens).join worded).join (sign closes)

end Worded

namespace Formula

/-- Whether all texts that a formula was given are woven. -/
def Given (holds : String → Prop) : Formula → Prop
  | given text => holds text
  | frame | number _ => True
  | binary _ left right => left.Given holds ∧ right.Given holds
  | conditional test consequent alternative =>
    test.Given holds ∧ consequent.Given holds ∧ alternative.Given holds
  | least first second | greatest first second => first.Given holds ∧ second.Given holds
  | not inner | paren inner | floor inner | sine inner => inner.Given holds

/-- A formula says what it was given, the counter and a few fixed words. -/
theorem worded_text {formula : Formula} {counter : String}
    (given : formula.Given (Worded source copies names)) (named : names counter) :
    Worded source copies names (formula.text counter) := by
  induction formula with
  | given text => exact given
  | frame => exact .name named
  | number value => exact .number value
  | binary op left right leftHypothesis rightHypothesis =>
      have space : Worded source copies names " " := .sign (by decide)
      exact ((((leftHypothesis given.1).join space).join (.said (.operator op))).join space).join
        (rightHypothesis given.2)
  | not inner inductionHypothesis =>
      exact (Worded.sign (by decide)).join (inductionHypothesis given)
  | conditional test consequent alternative testHypothesis firstHypothesis secondHypothesis =>
      exact ((((testHypothesis given.1).join (.sign (by decide))).join
        (firstHypothesis given.2.1)).join (.sign (by decide))).join (secondHypothesis given.2.2)
  | paren inner inductionHypothesis | floor inner inductionHypothesis
  | sine inner inductionHypothesis =>
      exact .between (by decide) (inductionHypothesis given) (by decide)
  | least first second firstHypothesis secondHypothesis
  | greatest first second firstHypothesis secondHypothesis =>
      exact (((Worded.sign (by decide)).join (firstHypothesis given.1)).join
        (.sign (by decide))).join (secondHypothesis given.2) |>.join (.sign (by decide))

/-- Source text as an operand is given the same text, without the blanks at its ends. -/
theorem given_operandOf {text : String} (worded : Worded source copies names text) :
    (operandOf text).Given (Worded source copies names) := by
  unfold operandOf
  dsimp only
  split <;> exact worded.trimmed

theorem given_operand {formula : Formula}
    (given : formula.Given (Worded source copies names)) :
    formula.operand.Given (Worded source copies names) := by
  unfold operand
  split
  · exact given_operandOf given
  · trivial
  · split <;> exact given

end Formula

/-! ## Closed forms -/

variable {start : Start} {rate perFrame : Float} {formula : Formula}

theorem given_advance (given : start.formula.Given (Worded source copies names)) :
    (advance start rate).Given (Worded source copies names) := by
  have distance : (if magnitude rate == 1.0 then Formula.frame
      else .binary .multiply .frame (.number (magnitude rate))).Given
        (Worded source copies names) := by
    split
    · trivial
    · exact ⟨trivial, trivial⟩
  unfold advance
  dsimp only
  split
  · exact distance
  · exact ⟨Formula.given_operand given, distance⟩

theorem given_flooredIf {isFloored : Bool}
    (given : formula.Given (Worded source copies names)) :
    (flooredIf isFloored formula).Given (Worded source copies names) := by
  unfold flooredIf
  split <;> exact given

/-- What is put for a first value is given whether or not that value is a number. -/
theorem given_ofValue (start : Start) (number : Float → Float) (formula : Formula)
    (given : formula.Given (Worded source copies names)) :
    (match start.value with
      | some value => Start.ofNumber (number value)
      | none => ⟨formula, none⟩).formula.Given (Worded source copies names) := by
  split
  · trivial
  · exact given

theorem given_boundedForm {step low high : Float}
    (given : start.formula.Given (Worded source copies names)) :
    (boundedForm start step low high perFrame).Given (Worded source copies names) := by
  unfold boundedForm
  dsimp only
  split
  · have offset := given_ofValue start (fun value => value - low)
      (.paren (.binary .subtract start.formula (.number low))) ⟨given, trivial⟩
    split
    · exact ⟨given_flooredIf (given_advance offset), trivial⟩
    · exact ⟨trivial, given_flooredIf (given_advance offset), trivial⟩
  · have offset := given_ofValue start (fun value => high - value)
      (.paren (.binary .subtract (.number high) start.formula)) ⟨trivial, given⟩
    exact ⟨trivial, given_flooredIf (given_advance offset), trivial⟩

theorem given_toggleForm (given : start.formula.Given (Worded source copies names)) :
    (toggleForm start perFrame).Given (Worded source copies names) := by
  have operand := Formula.given_operand given
  refine ⟨⟨⟨?_, trivial⟩, trivial⟩, operand, operand⟩
  split
  · trivial
  · exact ⟨trivial, trivial⟩

theorem given_oscillateForm {name : String} {amplitude : Float} :
    (oscillateForm name start amplitude).Given (Worded source copies names) := by
  have wave (angle : Formula) (turns : angle.Given (Worded source copies names)) :
      (Formula.binary .multiply (.number amplitude) (.sine angle)).Given
        (Worded source copies names) := ⟨trivial, turns⟩
  unfold oscillateForm
  dsimp only
  split
  · split
    · exact wave _ ⟨⟨trivial, trivial⟩, trivial⟩
    · exact ⟨trivial, wave _ ⟨⟨trivial, trivial⟩, trivial⟩⟩
  · exact wave _ ⟨⟨trivial, trivial⟩, trivial⟩

/-- The closed form of a scalar is given nothing but the start. -/
theorem given_scalarForm? {name : String} {motion : Motion}
    (given : start.formula.Given (Worded source copies names))
    (found : scalarForm? name start perFrame motion = some formula) :
    formula.Given (Worded source copies names) := by
  cases motion with
  | linear step =>
      cases found
      exact given_flooredIf (given_advance given)
  | wrap step modulus =>
      have moved : (flooredIf (movesByIntegers start.value step perFrame)
          (advance start (step * perFrame))).Given (Worded source copies names) :=
        given_flooredIf (given_advance given)
      simp only [scalarForm?] at found
      split at found <;> cases found
      · exact ⟨⟨⟨moved, trivial⟩, trivial⟩, trivial⟩
      · exact ⟨moved, trivial⟩
  | bounded =>
      cases found
      exact given_boundedForm given
  | clamped step limit =>
      simp only [scalarForm?] at found
      split at found <;> cases found <;> exact ⟨given_flooredIf (given_advance given), trivial⟩
  | toggle =>
      cases found
      exact given_toggleForm given
  | oscillate =>
      cases found
      exact given_oscillateForm
  | records => cases found

/-- The closed form of a field is given its first value, the index and the first values of
other fields. -/
theorem given_fieldForm {binding index initial : String} {motion : FieldMotion}
    {valueOf? : String → Option String} (named : names index)
    (given : Worded source copies names initial)
    (others : ∀ name value, valueOf? name = some value → Worded source copies names value) :
    (fieldForm binding index initial motion perFrame valueOf?).Given
      (Worded source copies names) := by
  have start : (Formula.given initial).Given (Worded source copies names) := given
  unfold fieldForm
  dsimp only
  split
  · exact ⟨Formula.given_operand start, ⟨⟨trivial, trivial⟩, .name named, trivial⟩, trivial⟩
  · split
    · exact given_advance start
    · split
      · rename_i velocity known
        refine ⟨Formula.given_operand start, ?_⟩
        have distance : (Formula.binary .multiply .frame (Formula.operandOf velocity)).Given
            (Worded source copies names) :=
          ⟨trivial, Formula.given_operandOf (others _ _ known)⟩
        split
        · exact distance
        · exact ⟨distance, trivial⟩
      · exact given_advance start
    · exact given_advance start

end StopMotion.Frame
