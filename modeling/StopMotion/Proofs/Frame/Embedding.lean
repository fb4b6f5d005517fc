import StopMotion.Frame.ClosedForm
import StopMotion.Proofs.Frame.Denotation
import StopMotion.Proofs.Number.Shape

/-!
# First values inside closed forms

The text of a formula is read as the formula's own tree, with what each text that it was given is
read as in its place: nothing around such a text binds into it. That takes parentheses where an
operator binds more tightly than what it joins. `operandOf` adds them to a text of unknown shape,
unless it takes the text for an operand; where it takes it for one rightly, every closed form but
one keeps a first value whole. The one is that of a value between two ends whose first value is no
number: it subtracts with the first value as it stands, which is right only for what binds more
tightly than a subtraction.
-/

namespace StopMotion.Frame

open Syntax Syntax.Rules
open State
open Number (IsMagnitude IsNumber)

variable {counter : String} {reads : String → Expr → Prop} {rank rank' : Nat} {formula : Formula}
  {start : Start} {rate perFrame : Float}

/-! ## Numbers -/

/-- What a number in generated source is read as: a number, or the name that stands for one that is
out of range, with a sign if it is negative. -/
inductive IsNumeral : Expr → Prop where
  | number {span : Span} {value : Float} : IsNumeral (.number span value)
  | word {span : Span} {name : Name} (known : name.text = "inf" ∨ name.text = "NaN") :
      IsNumeral (.name span name)
  | negative {span : Span} {inner : Expr} (isNumeral : IsNumeral inner) :
      IsNumeral (.unary span .minus inner)

theorem expresses_magnitude {text : String} (isMagnitude : IsMagnitude text.toList) :
    Expresses operandRank text IsNumeral := by
  have word {text : String} (known : text = "inf" ∨ text = "NaN") :
      Expresses operandRank text IsNumeral := by
    have named : Expresses operandRank text
        fun expr => ∃ span name, expr = .name span name ∧ name.text = text := by
      rcases known with rfl | rfl <;>
        exact ⟨_, isReading_name ⟨by decide, by decide⟩ (by decide) (by decide) (by decide)⟩
    apply named.mono
    rintro _ ⟨span, name, rfl, rfl⟩
    exact .word known
  generalize split : text.toList = chars at isMagnitude
  cases isMagnitude with
  | @decimal digits fraction filled areDigits areDigits' =>
      have spelled (c : Char) (rest : List Char) (ends : endsWord c = true) :
          Spells (text.toList ++ c :: rest) (.number (Number.nearest
            (Number.ofDigits (digits ++ fraction)) (-(fraction.length : Int)))) false
              (c :: rest) := by
        rw [split, List.append_assoc]
        exact spells_decimal filled areDigits areDigits' rest ends
      apply Expresses.mono ⟨_, isReading_number spelled⟩
      rintro _ ⟨span, rfl⟩
      exact .number
  | infinite => exact word (.inl (String.toList_inj.1 split))
  | notANumber => exact word (.inr (String.toList_inj.1 split))

/-- A magnitude begins with a character that a minus sign does not go on with. -/
theorem spells_minus_magnitude {text : String} (isMagnitude : IsMagnitude text.toList)
    (rest : List Char) :
    Spells ("-".toList ++ (text.toList ++ rest)) (.punct .minus) false (text.toList ++ rest) := by
  have begins : ∃ c others, text.toList = c :: others ∧ (c.isDigit = true ∨ c = 'i' ∨ c = 'N') := by
    generalize split : text.toList = chars at isMagnitude
    cases isMagnitude with
    | @decimal digits _ filled areDigits areDigits' =>
        obtain ⟨c, others, rfl⟩ := List.exists_cons_of_ne_nil filled
        exact ⟨c, _, rfl, .inl (List.all_eq_true.1 areDigits c List.mem_cons_self)⟩
    | infinite => exact ⟨_, _, rfl, .inr (.inl rfl)⟩
    | notANumber => exact ⟨_, _, rfl, .inr (.inr rfl)⟩
  obtain ⟨c, others, split, plain⟩ := begins
  rw [split, List.cons_append]
  refine spells_sign (by decide) _ (fun isDot => absurd isDot (by decide)) ?_
  rcases plain with digit | rfl | rfl
  · rcases cases_of_isDigit digit with rfl | rfl | rfl | rfl | rfl | rfl | rfl | rfl | rfl | rfl <;>
      decide
  · decide
  · decide

/-- A number in generated source is an operand. -/
theorem expresses_compact (value : Float) :
    Expresses operandRank (Number.compact value) IsNumeral := by
  obtain ⟨negative, magnitude, split, isMagnitude⟩ := Number.isNumber_compact value
  rw [← String.toList_ofList (l := magnitude)] at isMagnitude
  have plain := expresses_magnitude isMagnitude
  cases negative with
  | false =>
      rw [Number.signed, if_neg Bool.false_ne_true, ← String.toList_ofList (l := magnitude),
        String.toList_inj] at split
      rwa [split]
  | true =>
      have isSigned : Number.compact value = "-" ++ String.ofList magnitude := by
        rw [← String.toList_inj, split]
        simp [Number.signed]
      have negated : Expresses operandRank ("-" ++ String.ofList magnitude) fun expr =>
          ∃ span inner, expr = .unary span .minus inner ∧ IsNumeral inner :=
        .signed signs_minus (spells_minus_magnitude isMagnitude) plain
      rw [isSigned]
      apply negated.mono
      rintro _ ⟨span, inner, rfl, isNumeral⟩
      exact .negative isNumeral

/-! ## Trees -/

namespace Formula

/-- An expression is the tree of a formula, with expressions in the places of the texts that the
formula was given, of which `reads` tells what holds. -/
def Draws (counter : String) (reads : String → Expr → Prop) : Formula → Expr → Prop
  | given text, expr => reads text expr
  | frame, expr => ∃ span name, expr = .name span name ∧ name.text = counter
  | number _, expr => IsNumeral expr
  | binary op left right, expr => ∃ span one two, expr = .binary span op one two ∧
    left.Draws counter reads one ∧ right.Draws counter reads two
  | not operand, expr => ∃ span one, expr = .unary span .not one ∧ operand.Draws counter reads one
  | conditional test consequent alternative, expr => ∃ span one two three,
    expr = .conditional span one two three ∧ test.Draws counter reads one ∧
      consequent.Draws counter reads two ∧ alternative.Draws counter reads three
  | paren inner, expr => ∃ span one, expr = .paren span one ∧ inner.Draws counter reads one
  | floor argument, expr => ∃ span callee one, expr = .call span callee (.ofList [one]) false ∧
    callee.dotted? = some "Math.floor" ∧ argument.Draws counter reads one
  | sine argument, expr => ∃ span callee one, expr = .call span callee (.ofList [one]) false ∧
    callee.dotted? = some "Math.sin" ∧ argument.Draws counter reads one
  | least first second, expr => ∃ span callee one two,
    expr = .call span callee (.ofList [one, two]) false ∧ callee.dotted? = some "Math.min" ∧
      first.Draws counter reads one ∧ second.Draws counter reads two
  | greatest first second, expr => ∃ span callee one two,
    expr = .call span callee (.ofList [one, two]) false ∧ callee.dotted? = some "Math.max" ∧
      first.Draws counter reads one ∧ second.Draws counter reads two

/-- A text does not go on with an exclamation mark before it. -/
def TakesNot (text : String) : Prop :=
  ∃ c rest, text.toList = c :: rest ∧ c ∉ ['=', '!']

/-- Operators that formulas have: a slash stands behind the counter only. -/
def Joinable (op : BinaryOp) (left : Formula) : Prop :=
  op ∈ [BinaryOp.add, .subtract, .multiply, .remainder, .strictEqual] ∨
    op = .divide ∧ left = .frame

/-- A formula has parentheses where its operators need them, if it stands where operands of a rank
do. A text that it was given is read as an expression of the rank of its place. -/
def Fits (counter : String) (reads : String → Expr → Prop) : Nat → Formula → Prop
  | rank, given text => Expresses rank text (reads text)
  | rank, frame | rank, number _ => rank ≤ operandRank
  | rank, binary op left right => rank ≤ op.precedence ∧ Joinable op left ∧
    left.Fits counter reads op.precedence ∧ right.Fits counter reads (op.precedence + 1)
  | rank, not operand => rank ≤ operandRank ∧ TakesNot (operand.text counter) ∧
    operand.Fits counter reads operandRank
  | rank, conditional test consequent alternative => rank = 0 ∧ test.Fits counter reads 1 ∧
    consequent.Fits counter reads 1 ∧ (∃ operand, alternative = .not operand) ∧
      alternative.Fits counter reads operandRank
  | rank, paren inner | rank, floor inner | rank, sine inner =>
    rank ≤ operandRank ∧ inner.Fits counter reads 0
  | rank, least first second | rank, greatest first second =>
    rank ≤ operandRank ∧ first.Fits counter reads 0 ∧ second.Fits counter reads 0

theorem exists_joins {op : BinaryOp}
    (member : op ∈ [BinaryOp.add, .subtract, .multiply, .remainder, .strictEqual]) :
    ∃ punct, Joins punct op ∧ punct ≠ .slash := by
  simp only [List.mem_cons, List.not_mem_nil, or_false] at member
  rcases member with rfl | rfl | rfl | rfl | rfl
  · exact ⟨_, joins_add, by decide⟩
  · exact ⟨_, joins_subtract, by decide⟩
  · exact ⟨_, joins_multiply, by decide⟩
  · exact ⟨_, joins_remainder, by decide⟩
  · exact ⟨_, joins_strictEqual, by decide⟩

/-- What may stand where operators bind tightly may stand where they do not. -/
theorem Fits.loosen (fits : formula.Fits counter reads rank) (le : rank' ≤ rank) :
    formula.Fits counter reads rank' := by
  cases formula with
  | given => exact Expresses.loosen fits le
  | frame | number => exact Nat.le_trans le fits
  | binary | not | paren | floor | sine | least | greatest =>
      exact ⟨Nat.le_trans le fits.1, fits.2⟩
  | conditional =>
      obtain ⟨rfl, others⟩ := fits
      exact ⟨Nat.le_zero.1 le, others⟩

theorem fits_frame : Fits counter reads operandRank frame := Nat.le_refl operandRank

theorem fits_number (value : Float) : Fits counter reads operandRank (number value) :=
  Nat.le_refl operandRank

/-- An operator between operands that bind tightly enough. -/
theorem fits_binary (op : BinaryOp) {left right : Formula} (joinable : Joinable op left)
    (fitsLeft : left.Fits counter reads rank) (tight : op.precedence ≤ rank)
    (fitsRight : right.Fits counter reads rank') (tighter : op.precedence < rank') :
    (binary op left right).Fits counter reads op.precedence :=
  ⟨Nat.le_refl _, joinable, fitsLeft.loosen tight, fitsRight.loosen tighter⟩

theorem fits_sum {op : BinaryOp} {left right : Formula} (isSum : op = .add ∨ op = .subtract)
    (fitsLeft : left.Fits counter reads rank) (tight : 10 ≤ rank)
    (fitsRight : right.Fits counter reads rank') (tighter : 10 < rank') :
    (binary op left right).Fits counter reads 10 := by
  rcases isSum with rfl | rfl
  · exact fits_binary .add (.inl (by decide)) fitsLeft tight fitsRight tighter
  · exact fits_binary .subtract (.inl (by decide)) fitsLeft tight fitsRight tighter

theorem fits_product {op : BinaryOp} {left right : Formula}
    (isProduct : op = .multiply ∨ op = .remainder) (fitsLeft : left.Fits counter reads rank)
    (tight : 11 ≤ rank) (fitsRight : right.Fits counter reads rank') (tighter : 11 < rank') :
    (binary op left right).Fits counter reads 11 := by
  rcases isProduct with rfl | rfl
  · exact fits_binary .multiply (.inl (by decide)) fitsLeft tight fitsRight tighter
  · exact fits_binary .remainder (.inl (by decide)) fitsLeft tight fitsRight tighter

theorem fits_paren (fits : formula.Fits counter reads rank) :
    (paren formula).Fits counter reads operandRank :=
  ⟨Nat.le_refl _, fits.loosen (Nat.zero_le _)⟩

/-- A text that does not go on with an exclamation mark is negated by one. -/
theorem TakesNot.spells {text : String} (takes : TakesNot text) (rest : List Char) :
    Spells ("!".toList ++ (text.toList ++ rest)) (.punct .bang) false (text.toList ++ rest) := by
  obtain ⟨c, others, split, alone⟩ := takes
  rw [split, List.cons_append]
  exact spells_sign (by decide) _ (fun isDot => absurd isDot (by decide)) alone

end Formula

/-- A name that a frame counter can have: a slash behind it divides. -/
structure IsCounter (name : String) : Prop extends IsVariable name where
  divides : TokenKind.operandWords.contains name = false

/-- The counter is an operand. -/
theorem IsCounter.isReading (isCounter : IsCounter counter) :
    IsReading operandRank counter
      (fun expr => ∃ span name, expr = .name span name ∧ name.text = counter) [.word counter] :=
  isReading_name isCounter.word isCounter.binds isCounter.noYield isCounter.noAwait

namespace Formula

/-- The text of a formula that has parentheses where it needs them is read as its tree. -/
theorem Fits.expresses (isCounter : IsCounter counter) (fits : formula.Fits counter reads rank) :
    Expresses rank (formula.text counter) (formula.Draws counter reads) := by
  -- The second arm of a choice is read behind its sign, so that its operand counts as well.
  suffices both : Expresses rank (formula.text counter) (formula.Draws counter reads) ∧
      ∀ operand, formula = .not operand →
        Expresses operandRank (operand.text counter) (operand.Draws counter reads) from both.1
  induction formula generalizing rank with
  | given => exact ⟨fits, nofun⟩
  | frame => exact ⟨Expresses.loosen ⟨_, isCounter.isReading⟩ fits, nofun⟩
  | number value => exact ⟨(expresses_compact value).loosen fits, nofun⟩
  | binary op left right leftHypothesis rightHypothesis =>
      obtain ⟨le, joinable, fitsLeft, fitsRight⟩ := fits
      have two := (rightHypothesis fitsRight).1
      refine ⟨Expresses.loosen ?_ le, nofun⟩
      rcases joinable with member | ⟨rfl, rfl⟩
      · obtain ⟨punct, joins, noSlash⟩ := exists_joins member
        exact .binary joins noSlash (leftHypothesis fitsLeft).1 (Nat.le_refl _) two
          (Nat.lt_succ_self _)
      · exact .divide isCounter.word isCounter.binds isCounter.noYield isCounter.noAwait
          isCounter.divides two (Nat.lt_succ_self _)
  | not operand inductionHypothesis =>
      obtain ⟨le, takes, fits⟩ := fits
      have inner := (inductionHypothesis fits).1
      constructor
      · exact Expresses.loosen
          (.signed signs_not takes.spells inner) le
      · rintro _ ⟨⟩
        exact inner
  | conditional test first second testHypothesis firstHypothesis secondHypothesis =>
      obtain ⟨rfl, fitsTest, fitsFirst, ⟨operand, rfl⟩, fitsSecond⟩ := fits
      have inner := (secondHypothesis fitsSecond).2 operand rfl
      exact ⟨.choiceNot (testHypothesis fitsTest).1 (Nat.le_refl 1) (firstHypothesis fitsFirst).1
        (Nat.le_refl 1) fitsSecond.2.1.spells inner, nofun⟩
  | paren inner inductionHypothesis =>
      exact ⟨(inductionHypothesis fits.2).1.paren.loosen fits.1, nofun⟩
  | floor inner inductionHypothesis =>
      exact ⟨(IsFunction.floor.expresses (inductionHypothesis fits.2).1).loosen fits.1, nofun⟩
  | sine inner inductionHypothesis =>
      exact ⟨(IsFunction.sine.expresses (inductionHypothesis fits.2).1).loosen fits.1, nofun⟩
  | least first second firstHypothesis secondHypothesis =>
      exact ⟨(IsFunction.least.expressesTwo (firstHypothesis fits.2.1).1
        (secondHypothesis fits.2.2).1).loosen fits.1, nofun⟩
  | greatest first second firstHypothesis secondHypothesis =>
      exact ⟨(IsFunction.greatest.expressesTwo (firstHypothesis fits.2.1).1
        (secondHypothesis fits.2.2).1).loosen fits.1, nofun⟩

/-- So it is where a module declares a constant with it. -/
theorem Fits.parse (isCounter : IsCounter counter) (fits : formula.Fits counter reads rank) :
    ∃ module, parse ("const value = " ++ formula.text counter ++ ";").toList = .ok module ∧
      module.source = ("const value = " ++ formula.text counter ++ ";").toList ∧
        IsConstant (formula.Draws counter reads) module.body :=
  (fits.expresses isCounter).parse_constant

end Formula

/-! ## Operands -/

/-- A first value that stands whole wherever `operandOf` puts it: it is an expression, without
blanks around it, and an operand if its text is taken for one. -/
structure Embeds (reads : String → Expr → Prop) (text : String) : Prop where
  trimmed : Text.trim text.toList = text.toList
  whole : Expresses 0 text (reads text)
  operand : Formula.isOperand text.toList = true → Expresses operandRank text (reads text)

section Operand

open Formula

/-- A character of an operand is behind no exclamation mark that it could go on with. -/
theorem takesNot_of_isOperand {text : String} (isOperand : Formula.isOperand text.toList = true) :
    TakesNot text := by
  cases split : text.toList with
  | nil =>
      rw [split] at isOperand
      cases isOperand
  | cons c rest =>
      refine ⟨c, rest, split, ?_⟩
      rw [split, Formula.isOperand, Bool.or_eq_true, Bool.and_eq_true, List.all_cons,
        Bool.and_eq_true] at isOperand
      have plain : isSimple c = true ∨ c = '(' := by
        rcases isOperand with ⟨-, isSimple, -⟩ | isEnclosed
        · exact .inl isSimple
        · simp only [Formula.isEnclosed, List.head?_cons, Bool.and_eq_true, beq_iff_eq,
            Option.some.injEq] at isEnclosed
          exact .inr isEnclosed.1.1
      simp only [List.mem_cons, List.not_mem_nil, or_false, not_or]
      constructor <;>
      · rintro rfl
        exact absurd plain (by decide)

/-- A text in parentheses is negated by an exclamation mark. -/
theorem takesNot_paren (inner : Formula) : TakesNot ((Formula.paren inner).text counter) :=
  ⟨'(', (inner.text counter ++ ")").toList, by simp [Formula.text], by decide⟩

/-- A first value as an operand. -/
theorem Embeds.operandOf {text : String} (embeds : Embeds reads text) :
    (Formula.operandOf text).Fits counter reads operandRank ∧
      TakesNot ((Formula.operandOf text).text counter) := by
  rw [Formula.operandOf, embeds.trimmed, String.ofList_toList]
  by_cases isOperand : Formula.isOperand text.toList = true
  · rw [if_pos isOperand]
    exact ⟨embeds.operand isOperand, takesNot_of_isOperand isOperand⟩
  · rw [if_neg isOperand]
    exact ⟨⟨Nat.le_refl _, embeds.whole⟩, takesNot_paren _⟩

-- Brackets in strings are counted as well, so that this choice is taken for an operand.
example : Formula.isOperand "(on + '(') ? 1 : (')' + 2)".toList = true := by decide

/-- What stands as an operand already does so in parentheses, too. -/
theorem fits_operand (fits : formula.Fits counter reads operandRank)
    (noText : ∀ text, formula ≠ .given text) :
    formula.operand.Fits counter reads operandRank := by
  have chosen : (if Formula.isOperand (formula.text "").toList then formula
      else paren formula).Fits counter reads operandRank := by
    split
    · exact fits
    · exact ⟨Nat.le_refl _, fits.loosen (Nat.zero_le _)⟩
  cases formula with
  | given text => exact absurd rfl (noText text)
  | frame => exact fits
  | _ => exact chosen

end Operand

/-! ## Closed forms -/

section Forms

open Formula

/-- The way from a start to a frame. -/
theorem fits_distance (rate : Float) : Fits counter reads 11
    (if magnitude rate == 1.0 then .frame
      else .binary .multiply .frame (.number (magnitude rate))) := by
  split
  · exact fits_frame.loosen (by decide)
  · exact fits_product (.inl rfl) fits_frame (by decide) (fits_number _) (by decide)

/-- An advance keeps a start whole that is an operand. -/
theorem fits_advance (operand : start.formula.operand.Fits counter reads operandRank) :
    (advance start rate).Fits counter reads 10 := by
  have distance : Fits counter reads 11 _ := fits_distance rate
  unfold advance
  dsimp only
  split
  · exact distance.loosen (by decide)
  · split
    · exact fits_sum (.inr rfl) operand (by decide) distance (by decide)
    · exact fits_sum (.inl rfl) operand (by decide) distance (by decide)

theorem fits_flooredIf {isFloored : Bool} (fits : formula.Fits counter reads 10) :
    (flooredIf isFloored formula).Fits counter reads 10 := by
  unfold flooredIf
  split
  · exact ⟨by decide, fits.loosen (Nat.zero_le _)⟩
  · exact fits

/-- The part of an advance that the last whole rounds leave. -/
theorem fits_round (isFloored : Bool) (rate length : Float)
    (operand : start.formula.operand.Fits counter reads operandRank) :
    (Formula.binary .remainder (.paren (flooredIf isFloored (advance start rate)))
      (.number length)).Fits counter reads 11 :=
  fits_product (.inr rfl) (fits_paren (fits_flooredIf (fits_advance operand)))
    (by decide) (fits_number _) (by decide)

/-- The distance from a start to an end, in parentheses if the start is no number. -/
theorem fits_offset (number : Float → Float) {distance : Formula}
    (apart : start.value = none → distance.Fits counter reads 10) :
    (match start.value with
      | some value => Start.ofNumber (number value)
      | none => ⟨.paren distance, none⟩).formula.operand.Fits counter reads operandRank := by
  split
  · exact fits_operand (fits_number _) nofun
  · rename_i unknown
    exact fits_operand (fits_paren (apart unknown)) nofun

/-- A value between two ends keeps a start whole that is a number or binds more tightly than the
subtraction. -/
theorem fits_boundedForm {step low high : Float}
    (apart : start.value = none → start.formula.Fits counter reads 11) :
    (boundedForm start step low high perFrame).Fits counter reads 0 := by
  unfold boundedForm
  dsimp only
  split
  · have offset := fits_offset (fun value => value - low) fun unknown =>
      fits_sum (.inr rfl) (apart unknown) (by decide) (fits_number low) (by decide)
    split
    · exact (fits_round _ _ _ offset).loosen (Nat.zero_le _)
    · exact (fits_sum (.inl rfl) (fits_number _) (by decide) (fits_paren (fits_round _ _ _ offset))
        (by decide)).loosen (Nat.zero_le 10)
  · have offset := fits_offset (fun value => high - value) fun unknown =>
      fits_sum (.inr rfl) (fits_number high) (by decide) (apart unknown) (by decide)
    exact (fits_sum (.inr rfl) (fits_number _) (by decide) (fits_paren (fits_round _ _ _ offset))
      (by decide)).loosen (Nat.zero_le 10)

theorem fits_toggleForm (operand : start.formula.operand.Fits counter reads operandRank)
    (takes : TakesNot (start.formula.operand.text counter)) :
    (toggleForm start perFrame).Fits counter reads 0 := by
  have ticks : Fits counter reads operandRank (if 1.0 / perFrame ≤ 1.0 then .frame
      else .floor (.binary .divide .frame (.number (1.0 / perFrame)))) := by
    split
    · exact fits_frame
    · have quotient : Fits counter reads 11 (.binary .divide .frame (.number (1.0 / perFrame))) :=
        fits_binary .divide (.inr ⟨rfl, rfl⟩) fits_frame (by decide) (fits_number _) (by decide)
      exact ⟨Nat.le_refl _, quotient.loosen (Nat.zero_le _)⟩
  have parity : Fits counter reads 11 (.binary .remainder _ (.number 2.0)) :=
    fits_product (.inr rfl) ticks (by decide) (fits_number _) (by decide)
  have isEven : Fits counter reads 7 (.binary .strictEqual _ (.number 0.0)) :=
    fits_binary .strictEqual (.inl (by decide)) parity (by decide) (fits_number _) (by decide)
  exact ⟨rfl, isEven.loosen (by decide), operand.loosen (by decide), ⟨_, rfl⟩, Nat.le_refl _,
    takes, operand⟩

theorem fits_oscillateForm {name : String} {amplitude : Float} :
    (oscillateForm name start amplitude).Fits counter reads 0 := by
  have wave (pace phase : Float) : Fits counter reads 11 (.binary .multiply (.number amplitude)
      (.sine (.binary .add (.binary .multiply .frame (.number pace)) (.number phase)))) := by
    have turns : Fits counter reads 11 (.binary .multiply .frame (.number pace)) :=
      fits_product (.inl rfl) fits_frame (by decide) (fits_number _) (by decide)
    have angle : Fits counter reads 10
        (.binary .add (.binary .multiply .frame (.number pace)) (.number phase)) :=
      fits_sum (.inl rfl) turns (by decide) (fits_number _) (by decide)
    have sine : Fits counter reads operandRank (.sine _) :=
      ⟨Nat.le_refl _, angle.loosen (Nat.zero_le _)⟩
    exact fits_product (.inl rfl) (fits_number _) (by decide) sine (by decide)
  unfold oscillateForm
  dsimp only
  split
  · split
    · exact (wave _ _).loosen (Nat.zero_le _)
    · exact (fits_sum (.inl rfl) (fits_number _) (by decide) (wave _ _) (by decide)).loosen
        (Nat.zero_le 10)
  · exact (wave _ _).loosen (Nat.zero_le _)

/-- The closed form of a scalar keeps its first value whole. -/
theorem fits_scalarForm? {name : String} {motion : Motion}
    (operand : start.formula.operand.Fits counter reads operandRank)
    (takes : TakesNot (start.formula.operand.text counter))
    (apart : ∀ step low high, motion = .bounded step low high → start.value = none →
      start.formula.Fits counter reads 11)
    (found : scalarForm? name start perFrame motion = some formula) :
    formula.Fits counter reads 0 := by
  have moved (step : Float) : (flooredIf (movesByIntegers start.value step perFrame)
      (advance start (step * perFrame))).Fits counter reads 10 :=
    fits_flooredIf (fits_advance operand)
  have round (step modulus : Float) := fits_round (movesByIntegers start.value step perFrame)
    (step * perFrame) (magnitude modulus) operand
  cases motion with
  | linear step =>
      cases found
      exact (moved step).loosen (Nat.zero_le _)
  | wrap step modulus =>
      simp only [scalarForm?] at found
      split at found <;> cases found
      · have sum := fits_sum (.inl rfl) (fits_paren (round step modulus)) (by decide)
          (fits_number (magnitude modulus)) (by decide)
        exact (fits_product (.inr rfl) (fits_paren sum) (by decide) (fits_number _)
          (by decide)).loosen (Nat.zero_le 11)
      · exact (round step modulus).loosen (Nat.zero_le _)
  | bounded step low high =>
      cases found
      exact fits_boundedForm (apart step low high rfl)
  | clamped step limit =>
      have first := (moved step).loosen (Nat.zero_le 10)
      have second : Fits counter reads 0 (.number limit) :=
        (fits_number limit).loosen (Nat.zero_le _)
      simp only [scalarForm?] at found
      split at found <;> cases found <;> exact ⟨Nat.zero_le _, first, second⟩
  | toggle =>
      cases found
      exact fits_toggleForm operand takes
  | oscillate =>
      cases found
      exact fits_oscillateForm
  | records => cases found

/-- The closed form of a field keeps whole its first value and the one of a field that it reads. -/
theorem fits_fieldForm {binding index initial : String} {motion : FieldMotion}
    {valueOf? : String → Option String}
    (operand : (Formula.given initial).operand.Fits counter reads operandRank)
    (indexed : (Formula.given index).Fits counter reads operandRank)
    (others : ∀ name value, valueOf? name = some value →
      (Formula.operandOf value).Fits counter reads operandRank) :
    (fieldForm binding index initial motion perFrame valueOf?).Fits counter reads 0 := by
  have advanced (rate : Float) : (advance ⟨.given initial, none⟩ rate).Fits counter reads 0 :=
    (fits_advance operand).loosen (Nat.zero_le _)
  unfold fieldForm
  dsimp only
  split
  · have turns : Fits counter reads 11 (.binary .multiply .frame (.number 0.02)) :=
      fits_product (.inl rfl) fits_frame (by decide) (fits_number _) (by decide)
    have shift (phase : Float) :
        Fits counter reads 11 (.binary .multiply (.given index) (.number phase)) :=
      fits_product (.inl rfl) indexed (by decide) (fits_number _) (by decide)
    have sine (phase : Float) : Fits counter reads operandRank (.sine (.binary .add _ _)) :=
      ⟨Nat.le_refl _,
        (fits_sum (.inl rfl) turns (by decide) (shift phase) (by decide)).loosen (Nat.zero_le 10)⟩
    have swing (phase width : Float) :
        Fits counter reads 11 (.binary .multiply (.sine _) (.number width)) :=
      fits_product (.inl rfl) (sine phase) (by decide) (fits_number _) (by decide)
    exact (fits_sum (.inl rfl) operand (by decide) (swing _ _) (by decide)).loosen (Nat.zero_le 10)
  · split
    · exact advanced _
    · split
      · rename_i velocity known
        have distance : Fits counter reads 11 (.binary .multiply .frame (.operandOf velocity)) :=
          fits_product (.inl rfl) fits_frame (by decide) (others _ _ known) (by decide)
        have scaled (isUnit : Bool) (number : Float) : Fits counter reads 11
            (if isUnit then .binary .multiply .frame (.operandOf velocity)
              else .binary .multiply (.binary .multiply .frame (.operandOf velocity))
                (.number number)) := by
          split
          · exact distance
          · exact fits_product (.inl rfl) distance (by decide) (fits_number _) (by decide)
        split
        · exact (fits_sum (.inr rfl) operand (by decide) (scaled _ _) (by decide)).loosen
            (Nat.zero_le 10)
        · exact (fits_sum (.inl rfl) operand (by decide) (scaled _ _) (by decide)).loosen
            (Nat.zero_le 10)
      · exact advanced _
    · exact advanced _

/-- The text of a scalar's closed form is read as the formula's tree, with the whole first value in
each of its places. Only the distance of a value from an end takes a first value as it stands. -/
theorem expresses_scalarForm? {name text : String} {value : Option Float} {motion : Motion}
    (isCounter : IsCounter counter) (embeds : Embeds reads text)
    (apart : ∀ step low high, motion = .bounded step low high → value = none →
      Expresses 11 text (reads text))
    (found : scalarForm? name ⟨.given text, value⟩ perFrame motion = some formula) :
    Expresses 0 (formula.text counter) (formula.Draws counter reads) := by
  have operand : (Formula.given text).operand.Fits counter reads operandRank := embeds.operandOf.1
  have takes : TakesNot ((Formula.given text).operand.text counter) := embeds.operandOf.2
  have fits := @fits_scalarForm? counter reads formula ⟨.given text, value⟩ perFrame name motion
    operand takes apart found
  exact fits.expresses isCounter

/-- The text of a field's closed form is read as the formula's tree, with its whole first value in
its place, and that of the field whose value it reads. -/
theorem expresses_fieldForm {binding index initial : String} {motion : FieldMotion}
    {valueOf? : String → Option String} (isCounter : IsCounter counter)
    (embeds : Embeds reads initial) (indexed : Expresses operandRank index (reads index))
    (others : ∀ name value, valueOf? name = some value → Embeds reads value) :
    Expresses 0 ((fieldForm binding index initial motion perFrame valueOf?).text counter)
      ((fieldForm binding index initial motion perFrame valueOf?).Draws counter reads) :=
  (fits_fieldForm embeds.operandOf.1 indexed
    fun name value known => (others name value known).operandOf.1).expresses isCounter

end Forms

/-! ## First values -/

section FirstValues

variable {text text' text'' : String} {holds holds' holds'' : Expr → Prop}
  {kinds kinds' kinds'' : List TokenKind}

/-- A name and a chain of members embed. -/
theorem embeds_path {owner : String} {properties : List String} (isOwner : IsOwner owner)
    (areProperties : ∀ property ∈ properties, IsProperty property)
    (known : ∀ expr : Expr, expr.dotted? = some (pathOf owner properties) →
      reads (pathOf owner properties) expr) :
    Embeds reads (pathOf owner properties) := by
  have operand := (Expresses.path isOwner areProperties).mono known
  refine ⟨Text.trim_of_filled fun c member => ?_, operand.loosen (Nat.zero_le _), fun _ => operand⟩
  have blank {word : String} (isWord : IsWord word) (member : c ∈ word.toList) :
      Text.isBlank c = false :=
    not_blank_of_continuesName (List.all_eq_true.1 isWord.goesOn c member)
  rw [toList_pathOf, List.mem_append, memberText, List.mem_flatMap] at member
  rcases member with member | ⟨property, isMember, member⟩
  · exact blank isOwner.word member
  · rcases List.mem_cons.1 member with rfl | member
    · rfl
    · exact blank (areProperties property isMember).word member

/-- Any expression in parentheses embeds. -/
theorem embeds_paren (inner : Expresses 0 text holds)
    (known : ∀ span expr, holds expr → reads ("(" ++ text ++ ")") (.paren span expr)) :
    Embeds reads ("(" ++ text ++ ")") := by
  have operand : Expresses operandRank ("(" ++ text ++ ")") (reads ("(" ++ text ++ ")")) := by
    apply inner.paren.mono
    rintro _ ⟨span, expr, rfl, held⟩
    exact known span expr held
  have split : ("(" ++ text ++ ")").toList = '(' :: (text.toList ++ [')']) := by simp
  refine ⟨Text.trim_of_ends ?_ ?_, operand.loosen (Nat.zero_le _), fun _ => operand⟩
  · rw [split]
    rfl
  · rw [split, ← List.cons_append, List.getLast?_concat]
    rfl

variable {rank'' : Nat}

/-- A choice embeds that does not begin with a parenthesis: `operandOf` puts it in parentheses. -/
theorem embeds_choice (test : IsReading rank text holds kinds) (positive : 1 ≤ rank)
    (first : IsReading rank' text' holds' kinds') (positive' : 1 ≤ rank')
    (second : IsReading rank'' text'' holds'' kinds'')
    (isBehind : Behind kinds' (.punct .colon :: kinds''))
    (trimmed : Text.trim (text ++ " ? " ++ text' ++ " : " ++ text'').toList =
      (text ++ " ? " ++ text' ++ " : " ++ text'').toList)
    (noParen : text.toList.head? ≠ some '(')
    (known : ∀ span one two three, holds one → holds' two → holds'' three →
      reads (text ++ " ? " ++ text' ++ " : " ++ text'') (.conditional span one two three)) :
    Embeds reads (text ++ " ? " ++ text' ++ " : " ++ text'') := by
  refine ⟨trimmed, ?_, fun isOperand => absurd isOperand ?_⟩
  · apply Expresses.mono ⟨_, test.choice positive first positive' second isBehind⟩
    rintro _ ⟨span, one, two, three, rfl, isTest, isFirst, isSecond⟩
    exact known span one two three isTest isFirst isSecond
  · have split : (text ++ " ? " ++ text' ++ " : " ++ text'').toList =
        text.toList ++ ' ' :: ("? " ++ text' ++ " : " ++ text'').toList := by simp
    have noSimple : (text ++ " ? " ++ text' ++ " : " ++ text'').toList.all Formula.isSimple =
        false := by
      rw [split, List.all_append, List.all_cons]
      simp [Formula.isSimple]
    have noParen : ((text ++ " ? " ++ text' ++ " : " ++ text'').toList.head? == some '(') =
        false := by
      rw [split, beq_eq_false_iff_ne]
      cases isText : text.toList with
      | nil => simp
      | cons c rest => simpa [isText] using noParen
    rw [Formula.isOperand, Formula.isEnclosed, noSimple, noParen]
    simp

/-- The distance of such a choice from an end is not the tree of its formula: it is read as a
choice, and the second arm alone has the distance. -/
theorem expresses_offset_of_choice {low : Float} (test : IsReading rank text holds kinds)
    (positive : 1 ≤ rank) (first : IsReading rank' text' holds' kinds') (positive' : 1 ≤ rank')
    (second : IsReading rank'' text'' holds'' kinds'') (tight : 10 ≤ rank'')
    (isBehind : ∀ more, Behind kinds' (.punct .colon :: (kinds'' ++ more))) :
    Expresses 0 ((Formula.binary .subtract (.given (text ++ " ? " ++ text' ++ " : " ++ text''))
      (.number low)).text counter) fun expr => ∃ span one two three,
        expr = .conditional span one two three ∧ holds one ∧ holds' two ∧
          ∃ span left right, three = .binary span .subtract left right ∧ holds'' left ∧
            IsNumeral right := by
  obtain ⟨others, number⟩ := expresses_compact low
  have distance := second.binary joins_subtract tight number (by decide) (.inl (by decide))
  have same : (Formula.binary .subtract (.given (text ++ " ? " ++ text' ++ " : " ++ text''))
      (.number low)).text counter = text ++ " ? " ++ text' ++ " : " ++
        (text'' ++ " " ++ BinaryOp.subtract.text ++ " " ++ Number.compact low) := by
    simp only [Formula.text, String.append_assoc]
  rw [same]
  exact ⟨_, test.choice positive first positive' distance (isBehind _)⟩

example : (boundedForm ⟨.given "on ? 1 : 2", none⟩ 1.0 0.0 10.0 1.0).text "frame" =
    "((on ? 1 : 2 - 0) + frame) % 10" := by
  decide +kernel

end FirstValues

end StopMotion.Frame
