import StopMotion.Number.Decimal

/-!
# The shape of numbers in generated source

A number in generated source is a decimal with a point in it only if there are digits behind the
point, and a minus sign before it if it is negative. A float whose rounding to four places is out
of range is a word.
-/

namespace StopMotion.Number

/-- Digits behind a point; no point if there are no digits. -/
def pointed (fraction : List Char) : List Char :=
  if fraction.isEmpty then [] else '.' :: fraction

/-- The text of a number without its sign. -/
inductive IsMagnitude : List Char → Prop where
  | decimal {digits fraction : List Char} (filled : digits ≠ [])
      (areDigits : digits.all Char.isDigit = true) (areDigits' : fraction.all Char.isDigit = true) :
      IsMagnitude (digits ++ pointed fraction)
  | infinite : IsMagnitude "inf".toList
  | notANumber : IsMagnitude "NaN".toList

/-- The sign of a number. -/
def signed (negative : Bool) (magnitude : List Char) : List Char :=
  if negative then '-' :: magnitude else magnitude

/-- The text of a number, the sign included. -/
def IsNumber (text : List Char) : Prop :=
  ∃ negative magnitude, text = signed negative magnitude ∧ IsMagnitude magnitude

theorem isDigit_of_mem_digitsOf {count : Nat} {c : Char} (member : c ∈ digitsOf count) :
    c.isDigit = true :=
  Nat.isDigit_of_mem_toDigits (by decide) (by decide) member

/-- The numeral of a count is read as the count, if that is in range. -/
theorem count?_digitsOf (greatest count : Nat) :
    count? greatest (digitsOf count) = if count ≤ greatest then some count else none := by
  have filled : digitsOf count ≠ [] := Nat.toDigits_ne_nil
  have areDigits : (digitsOf count).all Char.isDigit = true :=
    List.all_eq_true.2 fun _ isIn => isDigit_of_mem_digitsOf isIn
  have noSign : (digitsOf count).head? ≠ some '+' := by
    intro isSign
    have isDigit := isDigit_of_mem_digitsOf (List.mem_of_head? isSign)
    exact absurd isDigit (by decide)
  have value : ofDigits (digitsOf count) = count := Nat.ofDigitChars_ten_toDigits
  simp only [count?, if_neg noSign, List.isEmpty_eq_false_iff.2 filled, areDigits, value]
  simp

/-- A whole number. -/
theorem isMagnitude_digitsOf (count : Nat) : IsMagnitude (digitsOf count) := by
  have areDigits : (digitsOf count).all Char.isDigit = true :=
    List.all_eq_true.2 fun _ member => isDigit_of_mem_digitsOf member
  have filled : digitsOf count ≠ [] := Nat.toDigits_ne_nil
  have none : ([] : List Char).all Char.isDigit = true := rfl
  have isMagnitude := IsMagnitude.decimal filled areDigits none
  rwa [pointed, List.isEmpty_nil, if_pos rfl, List.append_nil] at isMagnitude

theorem isNumber_toString (integer : Int) : IsNumber (toString integer).toList := by
  cases integer with
  | ofNat count =>
      refine ⟨false, digitsOf count, ?_, isMagnitude_digitsOf count⟩
      exact Nat.toList_repr
  | negSucc count =>
      refine ⟨true, digitsOf (count + 1), ?_, isMagnitude_digitsOf (count + 1)⟩
      have split : (toString (Int.negSucc count)).toList = '-' :: (toString (count + 1)).toList :=
        String.toList_append
      rw [split]
      exact congrArg _ Nat.toList_repr

/-- A point stands behind a digit at least. -/
theorem exists_placePoint {digits : List Char} (areDigits : digits.all Char.isDigit = true)
    {places : Nat} (positive : 0 < places) :
    ∃ whole fraction, placePoint digits places = whole ++ '.' :: fraction ∧ whole ≠ [] ∧
      whole.all Char.isDigit = true ∧ fraction.all Char.isDigit = true := by
  have padded : ∀ c ∈ List.replicate (places + 1 - digits.length) '0' ++ digits,
      c.isDigit = true := by
    intro c member
    rw [List.mem_append, List.mem_replicate] at member
    rcases member with ⟨-, rfl⟩ | member
    · rfl
    · exact List.all_eq_true.1 areDigits c member
  rw [placePoint, if_neg (by omega)]
  refine ⟨_, _, rfl, ?_, ?_, ?_⟩
  · rw [← List.length_pos_iff, List.length_take, List.length_append, List.length_replicate]
    omega
  · exact List.all_eq_true.2 fun c member => padded c (List.mem_of_mem_take member)
  · exact List.all_eq_true.2 fun c member => padded c (List.mem_of_mem_drop member)

/-- The zeros at the end of a text are dropped, and a point that is at the end then. -/
def dropTrailing (text : List Char) : List Char :=
  (match text.reverse.dropWhile (· == '0') with
    | '.' :: rest => rest
    | rest => rest).reverse

/-- What is left of a decimal without the zeros at its end is a decimal. -/
theorem isNumber_dropTrailing {whole fraction : List Char} (negative : Bool) (filled : whole ≠ [])
    (areDigits : whole.all Char.isDigit = true) (areDigits' : fraction.all Char.isDigit = true) :
    IsNumber (dropTrailing (signed negative (whole ++ '.' :: fraction))) := by
  have split : (signed negative (whole ++ '.' :: fraction)).reverse =
      fraction.reverse ++ '.' :: (signed negative whole).reverse := by
    cases negative <;> simp [signed]
  rw [dropTrailing, split, List.dropWhile_append]
  cases left : fraction.reverse.dropWhile (· == '0') with
  | nil =>
      have none : ([] : List Char).all Char.isDigit = true := rfl
      refine ⟨negative, whole ++ pointed [], ?_, .decimal filled areDigits none⟩
      simp [pointed]
  | cons first others =>
      have kept : ∀ c ∈ first :: others, c.isDigit = true := by
        intro c member
        rw [← left] at member
        have member := List.dropWhile_sublist _ |>.subset member
        exact List.all_eq_true.1 areDigits' c (List.mem_reverse.1 member)
      have noPoint : first ≠ '.' := by
        rintro rfl
        exact absurd (kept '.' List.mem_cons_self) (by decide)
      refine ⟨negative, whole ++ pointed (first :: others).reverse, ?_,
        .decimal filled areDigits (List.all_eq_true.2 fun c member =>
          kept c (List.mem_reverse.1 member))⟩
      cases negative <;> simp [pointed, signed, noPoint]

/-- The text of a number in generated source. -/
theorem isNumber_compact (value : Float) : IsNumber (compact value).toList := by
  unfold compact
  split
  · exact isNumber_toString 0
  · dsimp only
    split
    · exact isNumber_toString _
    · rw [String.toList_ofList]
      change IsNumber (dropTrailing (fixed 4 _).toList)
      unfold fixed
      split
      · exact ⟨false, "NaN".toList, rfl, .notANumber⟩
      · rename_i negative _
        cases negative
        · exact ⟨false, "inf".toList, rfl, .infinite⟩
        · exact ⟨true, "inf".toList, rfl, .infinite⟩
      · rename_i negative mantissa exponent _
        dsimp only
        rw [String.toList_ofList]
        have areDigits (count : Nat) : (digitsOf count).all Char.isDigit = true :=
          List.all_eq_true.2 fun _ member => isDigit_of_mem_digitsOf member
        obtain ⟨whole, fraction, is, filled, areWhole, areFraction⟩ :=
          exists_placePoint (areDigits _) (show 0 < 4 by decide)
        rw [is]
        exact isNumber_dropTrailing negative filled areWhole areFraction

end StopMotion.Number
