import Mathlib

/-!
# Whole numbers in floats

A float holds an integer below `2 ^ 53` exactly: its mantissa is the integer shifted until
fifty-three digits are filled. Sums, products and the quotients that leave no rest are whole
numbers again, and rounding does not change them.
-/

namespace StopMotion.Number

open Float.Model Float.Model.UnpackedFloat

/-! ## The normal form -/

/-- The sign of a float, as the parts of floats say it. -/
def signOf (negative : Bool) : Sign :=
  if negative then .negative else .positive

/-- The position of the leading digit after a shift to the left. -/
theorem log2_shifted {count : Nat} (positive : 0 < count) (shift : Nat) :
    (count * 2 ^ shift).log2 = count.log2 + shift := by
  have nonzero : count ≠ 0 := by omega
  have shifted : count * 2 ^ shift ≠ 0 :=
    Nat.mul_ne_zero nonzero (Nat.ne_of_gt (Nat.two_pow_pos shift))
  rw [Nat.log2_eq_iff shifted]
  obtain ⟨least, most⟩ := (Nat.log2_eq_iff nonzero).1 rfl
  constructor
  · rw [Nat.pow_add]
    exact Nat.mul_le_mul_right _ least
  · rw [show count.log2 + shift + 1 = count.log2 + 1 + shift by omega, Nat.pow_add]
    exact Nat.mul_lt_mul_of_pos_right most (Nat.two_pow_pos shift)

/-- The normal form of a whole number with a sign. -/
def wholeForm (negative : Bool) (count : Nat) : UnpackedFloat :=
  if positive : 0 < count then
    .finite (signOf negative) (count * 2 ^ (52 - count.log2)) (count.log2 - 52)
      (Nat.mul_pos positive (Nat.two_pow_pos _))
  else .zero (signOf negative)

theorem wholeForm_zero (negative : Bool) : wholeForm negative 0 = .zero (signOf negative) := rfl

theorem log2_lt_of_small {count : Nat} (positive : 0 < count) (small : count < 2 ^ 53) :
    count.log2 < 53 :=
  (Nat.log2_lt (Nat.pos_iff_ne_zero.1 positive)).2 small

/-- The mantissa of a normal form has fifty-three digits. -/
theorem mantissa_bounds {count : Nat} (positive : 0 < count) (small : count < 2 ^ 53) :
    2 ^ 52 ≤ count * 2 ^ (52 - count.log2) ∧ count * 2 ^ (52 - count.log2) < 2 ^ 53 := by
  have leading := log2_shifted positive (52 - count.log2)
  have short := log2_lt_of_small positive small
  have nonzero : count * 2 ^ (52 - count.log2) ≠ 0 :=
    Nat.ne_of_gt (Nat.mul_pos positive (Nat.two_pow_pos _))
  exact (Nat.log2_eq_iff nonzero).1 (by omega)

/-- The bits of a packed float. -/
theorem toNat_packComponents (sign : Sign) (exponent : BitVec 11) (mantissa : BitVec 52) :
    (packComponents .binary64 sign exponent mantissa).toNat =
      sign.toBitVec.toNat * 2 ^ 63 + exponent.toNat * 2 ^ 52 + mantissa.toNat := by
  rw [packComponents, BitVec.toNat_append, BitVec.toNat_append,
    ← Nat.shiftLeft_add_eq_or_of_lt mantissa.isLt, ← Nat.shiftLeft_add_eq_or_of_lt exponent.isLt]
  simp only [Nat.shiftLeft_eq]
  omega

/-- Packing a normal form. -/
theorem pack_wholeForm {negative : Bool} {count : Nat} (positive : 0 < count)
    (small : count < 2 ^ 53) :
    UnpackedFloat.pack .binary64 (wholeForm negative count) =
      packComponents .binary64 (signOf negative) (BitVec.ofNat 11 (count.log2 + 1023))
        (BitVec.ofNat 52 (count * 2 ^ (52 - count.log2))) := by
  have short := log2_lt_of_small positive small
  have leading := log2_shifted positive (52 - count.log2)
  have filled : (count * 2 ^ (52 - count.log2)).log2 + 1 = Format.binary64.mantissaBits := by
    simp only [leading, Format.mantissaBits]
    omega
  have biased : ((count.log2 : Int) - 52 + (Format.binary64.exponentBias : Nat) +
      (52 : Nat)).toNat = count.log2 + 1023 := by
    simp only [Format.exponentBias]
    omega
  simp only [wholeForm, positive, ↓reduceDIte, UnpackedFloat.pack]
  rw [if_neg (by simp only [biased]; omega), if_pos filled, biased]

/-- Packing keeps a normal form. -/
theorem unpack_pack_wholeForm {negative : Bool} {count : Nat} (small : count < 2 ^ 53) :
    UnpackedFloat.unpack .binary64 (UnpackedFloat.pack .binary64 (wholeForm negative count)) =
      wholeForm negative count := by
  rcases Nat.eq_zero_or_pos count with rfl | positive
  · cases negative <;> rfl
  · have short := log2_lt_of_small positive small
    obtain ⟨least, most⟩ := mantissa_bounds positive small
    have finite : BitVec.ofNat 11 (count.log2 + 1023) ≠ -1#11 := by
      intro equal
      have := congrArg BitVec.toNat equal
      simp at this
      omega
    have normal : BitVec.ofNat 11 (count.log2 + 1023) ≠ 0#11 := by
      intro equal
      have := congrArg BitVec.toNat equal
      simp at this
      omega
    rw [pack_wholeForm positive small, UnpackedFloat.unpack]
    simp only [unpackExponent_packComponents, unpackMantissa_packComponents, finite, normal,
      ↓reduceIte, unpackSign_packComponents, Sign.ofBitVec_toBitVec, wholeForm, positive,
      ↓reduceDIte]
    have mantissa : (1#1 ++ BitVec.ofNat 52 (count * 2 ^ (52 - count.log2))).toNat =
        count * 2 ^ (52 - count.log2) := by
      rw [BitVec.toNat_append, ← Nat.shiftLeft_add_eq_or_of_lt (BitVec.isLt _), Nat.shiftLeft_eq]
      simp only [BitVec.toNat_ofNat]
      omega
    have exponent : ((BitVec.ofNat 11 (count.log2 + 1023)).toNat : Int) -
        ((Format.binary64.exponentBias : Nat) + (52 : Nat)) = (count.log2 : Int) - 52 := by
      simp only [BitVec.toNat_ofNat, Format.exponentBias]
      omega
    congr 1

/-- The leading digit of a product. -/
theorem log2_mul_bounds {count count' : Nat} (positive : 0 < count) (positive' : 0 < count') :
    count.log2 + count'.log2 ≤ (count * count').log2 ∧
      (count * count').log2 ≤ count.log2 + count'.log2 + 1 := by
  have nonzero := Nat.ne_of_gt (Nat.mul_pos positive positive')
  obtain ⟨least, most⟩ := (Nat.log2_eq_iff (Nat.ne_of_gt positive)).1 rfl
  obtain ⟨least', most'⟩ := (Nat.log2_eq_iff (Nat.ne_of_gt positive')).1 rfl
  constructor
  · rw [Nat.le_log2 nonzero, Nat.pow_add]
    exact Nat.mul_le_mul least least'
  · rw [← Nat.lt_succ_iff, Nat.log2_lt nonzero]
    calc count * count' < 2 ^ (count.log2 + 1) * 2 ^ (count'.log2 + 1) :=
          Nat.mul_lt_mul_of_lt_of_lt most most'
      _ = 2 ^ (count.log2 + count'.log2 + 1).succ := by
          rw [← Nat.pow_add]
          congr 1
          omega

/-! ## Rounding -/

/-- Digits that are zero are shifted out without a trace. -/
theorem shiftRight_exact (mantissa shift : Nat) :
    (⟨mantissa * 2 ^ shift, false, false⟩ : ExtendedMantissa) >>> shift =
      ⟨mantissa, false, false⟩ := by
  change shift.repeat ExtendedMantissa.shiftRightOne _ = _
  induction shift generalizing mantissa with
  | zero => simp [Nat.repeat]
  | succ shift inductionHypothesis =>
      rw [Nat.repeat, Nat.pow_succ', ← Nat.mul_assoc, inductionHypothesis (mantissa * 2)]
      simp [ExtendedMantissa.shiftRightOne]

/-- The exponent of the normal form of a whole number, however it is scaled. -/
theorem targetExponent_scaled {count : Nat} (positive : 0 < count) (small : count < 2 ^ 53)
    (scale : Nat) :
    Format.binary64.targetExponent (totalExponent (count * 2 ^ scale) (-scale)) =
      (count.log2 : Int) - 52 := by
  have short := log2_lt_of_small positive small
  have leading := log2_shifted positive scale
  simp only [Format.targetExponent, totalExponent, leading, Format.mantissaBits,
    Format.minExponent]
  omega

/-- A whole number that is scaled far enough is shifted to its normal form. -/
theorem shiftToTargetExponent_scaled {count : Nat} (positive : 0 < count)
    (small : count < 2 ^ 53) {scale : Nat} (enough : 52 - count.log2 ≤ scale) :
    shiftToTargetExponent .binary64 (count * 2 ^ scale) (-scale) .exact =
      (⟨count * 2 ^ (52 - count.log2), false, false⟩, (count.log2 : Int) - 52) := by
  have short := log2_lt_of_small positive small
  have amount : ((count.log2 : Int) - 52 - -(scale : Int)).toNat =
      scale - (52 - count.log2) := by omega
  have split : count * 2 ^ scale =
      count * 2 ^ (52 - count.log2) * 2 ^ (scale - (52 - count.log2)) := by
    rw [Nat.mul_assoc, ← Nat.pow_add, Nat.add_sub_cancel' enough]
  rw [shiftToTargetExponent, targetExponent_scaled positive small, shiftToExponent]
  simp only [amount, ExtendedMantissa.ofMantissaAndAccuracy]
  rw [split, shiftRight_exact]
  congr 1
  omega

/-- Rounding keeps a whole number that is scaled far enough. -/
theorem roundWithAccuracy_scaled (negative : Bool) {count : Nat} (positive : 0 < count)
    (small : count < 2 ^ 53) {scale : Nat} (enough : 52 - count.log2 ≤ scale) :
    roundWithAccuracy .binary64 (signOf negative) (count * 2 ^ scale) (-scale) .exact =
      wholeForm negative count := by
  have short := log2_lt_of_small positive small
  have again := shiftToTargetExponent_scaled positive small (Nat.le_refl (52 - count.log2))
  have exponent : (count.log2 : Int) - 52 = -((52 - count.log2 : Nat) : Int) := by omega
  have nonzero : count * 2 ^ (52 - count.log2) ≠ 0 :=
    Nat.ne_of_gt (Nat.mul_pos positive (Nat.two_pow_pos _))
  simp only [roundWithAccuracy, shiftToTargetExponent_scaled positive small enough,
    ExtendedMantissa.roundedMantissa, ExtendedMantissa.accuracy, Accuracy.roundToNearestEven,
    exponent, again, nonzero, ↓reduceDIte, wholeForm, positive]

/-- Rounding keeps a scaled whole number. -/
theorem round_scaled (negative : Bool) {count : Nat} (positive : 0 < count)
    (small : count < 2 ^ 53) (scale : Nat) :
    UnpackedFloat.round .binary64 (signOf negative) (count * 2 ^ scale) (-scale) =
      wholeForm negative count := by
  have short := log2_lt_of_small positive small
  obtain ⟨more, amount⟩ : ∃ more : Nat,
      (-(scale : Int) - ((count.log2 : Int) - 52)).toNat = more := ⟨_, rfl⟩
  have enough : 52 - count.log2 ≤ scale + more := by omega
  have rounded := roundWithAccuracy_scaled negative positive small enough
  rw [UnpackedFloat.round, targetExponent_scaled positive small, decreaseExponent, amount]
  simp only [Nat.shiftLeft_eq, Nat.mul_assoc, ← Nat.pow_add]
  rw [← rounded]
  congr 1
  omega

/-! ## Operations on normal forms -/

/-- An integer with its sign, as a normal form. -/
def integerForm (value : Int) : UnpackedFloat :=
  wholeForm (decide (value < 0)) value.natAbs

/-- An unpacked float is an integer: of zero, both signs are. -/
def Represents (form : UnpackedFloat) (value : Int) : Prop :=
  ∃ negative : Bool, form = wholeForm negative value.natAbs ∧
    (if negative then -(value.natAbs : Int) else value.natAbs) = value

theorem Represents.eq_of_ne_zero {form : UnpackedFloat} {value : Int}
    (represents : Represents form value) (nonzero : value ≠ 0) :
    form = integerForm value := by
  obtain ⟨negative, rfl, signed⟩ := represents
  have sign : decide (value < 0) = negative := by
    cases negative <;> simp only [Bool.false_eq_true, ↓reduceIte] at signed
    · exact decide_eq_false (by omega)
    · exact decide_eq_true (by omega)
  rw [integerForm, sign]

theorem represents_integerForm (value : Int) : Represents (integerForm value) value := by
  refine ⟨decide (value < 0), rfl, ?_⟩
  by_cases negative : value < 0
  · rw [decide_eq_true negative, if_pos rfl]
    omega
  · rw [decide_eq_false negative, if_neg Bool.false_ne_true]
    omega

/-- The normal form of an integer that is not zero. -/
theorem integerForm_of_ne_zero {value : Int} (nonzero : value ≠ 0) :
    integerForm value = .finite (signOf (decide (value < 0)))
      (value.natAbs * 2 ^ (52 - value.natAbs.log2)) (value.natAbs.log2 - 52)
      (Nat.mul_pos (Int.natAbs_pos.2 nonzero) (Nat.two_pow_pos _)) := by
  simp [integerForm, wholeForm, nonzero]

theorem represents_zero (negative : Bool) : Represents (.zero (signOf negative)) 0 :=
  ⟨negative, rfl, by cases negative <;> rfl⟩

theorem Represents.exists_zero {form : UnpackedFloat} (represents : Represents form 0) :
    ∃ sign, form = .zero sign := by
  obtain ⟨negative, rfl, -⟩ := represents
  exact ⟨signOf negative, rfl⟩

theorem represents_zero_of_sign (sign : Sign) : Represents (.zero sign) 0 := by
  cases sign with
  | negative => exact represents_zero true
  | positive => exact represents_zero false

/-- A scaled integer is made of its sign and its scaled distance from zero. -/
theorem apply_scaled (value : Int) (scale : Nat) :
    (signOf (decide (value < 0))).apply ((value.natAbs * 2 ^ scale : Nat) : Int) =
      value * 2 ^ scale := by
  rw [Int.natCast_mul, Int.natCast_pow]
  by_cases negative : value < 0
  · rw [Int.ofNat_natAbs_of_nonpos (by omega), decide_eq_true negative]
    simp [signOf, Sign.apply]
  · rw [Int.natAbs_of_nonneg (by omega), decide_eq_false negative]
    simp [signOf, Sign.apply]

/-- Normalising a scaled integer. -/
theorem normalize_scaled {value : Int} (small : value.natAbs < 2 ^ 53) (scale : Nat) :
    Represents (UnpackedFloat.normalize .binary64 (value * 2 ^ scale) (-scale) .positive)
      value := by
  have power : (0 : Int) < 2 ^ scale := Int.pow_pos (by decide)
  have count : (value * 2 ^ scale).natAbs = value.natAbs * 2 ^ scale := by
    rw [Int.natAbs_mul, Int.natAbs_pow]
    rfl
  rcases Int.lt_trichotomy value 0 with negative | rfl | positive
  · have scaled : value * 2 ^ scale < 0 := Int.mul_neg_of_neg_of_pos negative power
    have distance : (-(value * 2 ^ scale)).toNat = value.natAbs * 2 ^ scale := by omega
    refine ⟨true, ?_, by rw [if_pos rfl]; omega⟩
    rw [UnpackedFloat.normalize, Int.compare_eq_lt.2 scaled]
    simp only [distance]
    exact round_scaled true (by omega) small scale
  · rw [Int.zero_mul]
    exact represents_zero false
  · have scaled : 0 < value * 2 ^ scale := Int.mul_pos positive power
    have distance : (value * 2 ^ scale).toNat = value.natAbs * 2 ^ scale := by omega
    refine ⟨false, ?_, by rw [if_neg Bool.false_ne_true]; omega⟩
    rw [UnpackedFloat.normalize, Int.compare_eq_gt.2 scaled]
    simp only [distance]
    exact round_scaled false (by omega) small scale

/-- A normal form at a smaller exponent. -/
theorem decreaseExponent_scaled {count : Nat} (positive : 0 < count) (small : count < 2 ^ 53)
    {scale : Nat} (enough : 52 - count.log2 ≤ scale) :
    decreaseExponent (count * 2 ^ (52 - count.log2)) (count.log2 - 52) (-scale) =
      (count * 2 ^ scale, -(scale : Int)) := by
  have short := log2_lt_of_small positive small
  have amount : ((count.log2 : Int) - 52 - -(scale : Int)).toNat =
      scale - (52 - count.log2) := by omega
  simp only [decreaseExponent, amount, Nat.shiftLeft_eq, Nat.mul_assoc, ← Nat.pow_add,
    Nat.add_sub_cancel' enough]
  congr 1
  omega

/-- The smaller of the exponents of two normal forms. -/
theorem exists_scale {first second : Nat} (firstShort : first.log2 < 53)
    (secondShort : second.log2 < 53) :
    ∃ scale : Nat, min ((first.log2 : Int) - 52) ((second.log2 : Int) - 52) = -(scale : Int) ∧
      52 - first.log2 ≤ scale ∧ 52 - second.log2 ≤ scale :=
  ⟨max (52 - first.log2) (52 - second.log2), by omega, by omega, by omega⟩

section
variable {left right : UnpackedFloat} {first second : Int}

/-- The sum of two integers is exact if it is small enough. -/
theorem Represents.add (leftIs : Represents left first) (rightIs : Represents right second)
    (firstSmall : first.natAbs < 2 ^ 53) (secondSmall : second.natAbs < 2 ^ 53)
    (small : (first + second).natAbs < 2 ^ 53) :
    Represents (UnpackedFloat.add .binary64 left right) (first + second) := by
  by_cases firstZero : first = 0 <;> by_cases secondZero : second = 0
  · subst firstZero secondZero
    obtain ⟨sign, rfl⟩ := leftIs.exists_zero
    obtain ⟨sign', rfl⟩ := rightIs.exists_zero
    rw [UnpackedFloat.add]
    split
    · exact represents_zero_of_sign sign
    · exact represents_zero false
  · subst firstZero
    obtain ⟨sign, rfl⟩ := leftIs.exists_zero
    have sum : UnpackedFloat.add .binary64 (.zero sign) right = right := by
      rw [rightIs.eq_of_ne_zero secondZero, integerForm_of_ne_zero secondZero]
      rfl
    rwa [sum, Int.zero_add]
  · subst secondZero
    obtain ⟨sign, rfl⟩ := rightIs.exists_zero
    have sum : UnpackedFloat.add .binary64 left (.zero sign) = left := by
      rw [leftIs.eq_of_ne_zero firstZero, integerForm_of_ne_zero firstZero]
      rfl
    rwa [sum, Int.add_zero]
  · obtain ⟨scale, least, firstEnough, secondEnough⟩ := exists_scale
      (log2_lt_of_small (Int.natAbs_pos.2 firstZero) firstSmall)
      (log2_lt_of_small (Int.natAbs_pos.2 secondZero) secondSmall)
    rw [leftIs.eq_of_ne_zero firstZero, rightIs.eq_of_ne_zero secondZero,
      integerForm_of_ne_zero firstZero, integerForm_of_ne_zero secondZero, UnpackedFloat.add]
    simp only [least, decreaseExponent_scaled (Int.natAbs_pos.2 firstZero) firstSmall firstEnough,
      decreaseExponent_scaled (Int.natAbs_pos.2 secondZero) secondSmall secondEnough,
      apply_scaled, ← Int.add_mul]
    exact normalize_scaled small scale

/-- The opposite of an integer. -/
theorem Represents.neg (leftIs : Represents left first) : Represents left.neg (-first) := by
  obtain ⟨negative, rfl, signed⟩ := leftIs
  refine ⟨!negative, ?_, ?_⟩
  · rw [Int.natAbs_neg, wholeForm, wholeForm]
    split <;> cases negative <;> rfl
  · rw [Int.natAbs_neg]
    cases negative <;> simp only [Bool.not_true, Bool.not_false, Bool.false_eq_true,
      ↓reduceIte] at signed ⊢ <;> omega

/-- A difference is the sum with the opposite. -/
theorem sub_eq_add_neg (left right : UnpackedFloat) :
    UnpackedFloat.sub .binary64 left right = UnpackedFloat.add .binary64 left right.neg := by
  cases left with
  | finite sign mantissa exponent positive =>
      cases right with
      | finite sign' mantissa' exponent' positive' =>
          have opposite (value : Int) : (-sign').apply value = -sign'.apply value := by
            cases sign' with
            | negative => exact (Int.neg_neg value).symm
            | positive => rfl
          simp only [UnpackedFloat.sub, UnpackedFloat.add, UnpackedFloat.neg, opposite,
            Int.sub_eq_add_neg]
      | _ => rfl
  | _ => cases right <;> rfl

/-- The difference of two integers is exact if it is small enough. -/
theorem Represents.sub (leftIs : Represents left first) (rightIs : Represents right second)
    (firstSmall : first.natAbs < 2 ^ 53) (secondSmall : second.natAbs < 2 ^ 53)
    (small : (first - second).natAbs < 2 ^ 53) :
    Represents (UnpackedFloat.sub .binary64 left right) (first - second) := by
  rw [sub_eq_add_neg, Int.sub_eq_add_neg]
  exact leftIs.add rightIs.neg firstSmall (by omega) (by omega)

theorem signOf_mul (first second : Bool) :
    signOf first * signOf second = signOf (first ^^ second) := by
  cases first <;> cases second <;> rfl

theorem signOf_div (first second : Bool) :
    signOf first / signOf second = signOf (first ^^ second) := by
  cases first <;> cases second <;> rfl

/-- The distance of a product from zero, and its sign. -/
theorem signed_mul {first second : Int} {negative negative' : Bool}
    (signed : (if negative then -(first.natAbs : Int) else first.natAbs) = first)
    (signed' : (if negative' then -(second.natAbs : Int) else second.natAbs) = second) :
    (if negative ^^ negative' then -((first * second).natAbs : Int) else (first * second).natAbs) =
      first * second := by
  conv => rhs; rw [← signed, ← signed']
  rw [Int.natAbs_mul]
  cases negative <;> cases negative' <;> simp

/-- The product of two integers is exact if it is small enough. -/
theorem Represents.mul (leftIs : Represents left first) (rightIs : Represents right second)
    (firstSmall : first.natAbs < 2 ^ 53) (secondSmall : second.natAbs < 2 ^ 53)
    (small : (first * second).natAbs < 2 ^ 53) :
    Represents (UnpackedFloat.mul .binary64 left right) (first * second) := by
  obtain ⟨negative, rfl, signed⟩ := leftIs
  obtain ⟨negative', rfl, signed'⟩ := rightIs
  refine ⟨negative ^^ negative', ?_, signed_mul signed signed'⟩
  rw [Int.natAbs_mul] at small ⊢
  generalize first.natAbs = count at firstSmall small ⊢
  generalize second.natAbs = count' at secondSmall small ⊢
  rcases Nat.eq_zero_or_pos count with rfl | positive
  · rw [Nat.zero_mul, wholeForm_zero, wholeForm_zero, ← signOf_mul, wholeForm]
    split <;> rfl
  rcases Nat.eq_zero_or_pos count' with rfl | positive'
  · rw [Nat.mul_zero, wholeForm_zero, wholeForm_zero, ← signOf_mul, wholeForm]
    split <;> rfl
  have nonzero := Nat.mul_pos positive positive'
  have leading := (log2_mul_bounds positive positive').1
  have short := log2_lt_of_small positive firstSmall
  have short' := log2_lt_of_small positive' secondSmall
  have mantissa : count * 2 ^ (52 - count.log2) * (count' * 2 ^ (52 - count'.log2)) =
      count * count' * 2 ^ (52 - count.log2 + (52 - count'.log2)) := by
    rw [Nat.pow_add, Nat.mul_mul_mul_comm]
  have exponent : (count.log2 : Int) - 52 + ((count'.log2 : Int) - 52) =
      -((52 - count.log2 + (52 - count'.log2) : Nat) : Int) := by omega
  have enough : 52 - (count * count').log2 ≤ 52 - count.log2 + (52 - count'.log2) := by omega
  conv => lhs; rw [wholeForm, wholeForm]
  simp only [positive, positive', ↓reduceDIte, UnpackedFloat.mul, mantissa, exponent, signOf_mul,
    roundWithAccuracy_scaled (negative ^^ negative') nonzero small enough]

/-- The quotient of a multiple is exact. -/
theorem divCore_multiple {count count' : Nat} (positive : 0 < count) (positive' : 0 < count')
    (small : count * count' < 2 ^ 53) :
    divCore .binary64 (count * count' * 2 ^ (52 - (count * count').log2))
        ((count * count').log2 - 52) (count' * 2 ^ (52 - count'.log2)) (count'.log2 - 52) =
      (count * 2 ^ (53 + count'.log2 - (count * count').log2),
        -((53 + count'.log2 - (count * count').log2 : Nat) : Int), .exact) := by
  have nonzero := Nat.mul_pos positive positive'
  have short := log2_lt_of_small nonzero small
  have less : count' ≤ count * count' := Nat.le_mul_of_pos_left count' positive
  have short' := log2_lt_of_small positive' (by omega)
  have divisor : 0 < count' * 2 ^ (52 - count'.log2) :=
    Nat.mul_pos positive' (Nat.two_pow_pos _)
  have target : Format.binary64.targetExponent
      (totalExponent (count * count' * 2 ^ (52 - (count * count').log2))
          ((count * count').log2 - 52) -
        totalExponent (count' * 2 ^ (52 - count'.log2)) (count'.log2 - 52)) =
      -((53 + count'.log2 - (count * count').log2 : Nat) : Int) := by
    simp only [Format.targetExponent, totalExponent, log2_shifted nonzero,
      log2_shifted positive', Format.mantissaBits, Format.minExponent]
    omega
  have least : min ((((count * count').log2 : Int) - 52) - ((count'.log2 : Int) - 52))
      (-((53 + count'.log2 - (count * count').log2 : Nat) : Int)) =
      -((53 + count'.log2 - (count * count').log2 : Nat) : Int) := by omega
  have amount : ((((count * count').log2 : Int) - 52) - ((count'.log2 : Int) - 52) -
      -((53 + count'.log2 - (count * count').log2 : Nat) : Int)).toNat = 53 := by omega
  have multiple : count * count' * 2 ^ (52 - (count * count').log2) * 2 ^ 53 =
      count * 2 ^ (53 + count'.log2 - (count * count').log2) *
        (count' * 2 ^ (52 - count'.log2)) := by
    rw [Nat.mul_mul_mul_comm, ← Nat.pow_add, Nat.mul_assoc, ← Nat.pow_add]
    congr 2
    omega
  simp only [divCore, target, least, amount, Nat.shiftLeft_eq, multiple,
    Nat.mul_div_cancel _ divisor, Nat.mul_mod_left, accuracyOfFraction, ↓reduceIte]

/-- Dividing a product by one of its factors leaves the other one. -/
theorem Represents.div (productIs : Represents left (first * second))
    (factorIs : Represents right second) (nonzero : second ≠ 0)
    (small : (first * second).natAbs < 2 ^ 53) :
    Represents (UnpackedFloat.div .binary64 left right) first := by
  rw [factorIs.eq_of_ne_zero nonzero, integerForm_of_ne_zero nonzero]
  by_cases zero : first = 0
  · subst zero
    rw [Int.zero_mul] at productIs
    obtain ⟨sign, rfl⟩ := productIs.exists_zero
    exact represents_zero_of_sign _
  · have product : first * second ≠ 0 := Int.mul_ne_zero zero nonzero
    have positive := Int.natAbs_pos.2 zero
    have positive' := Int.natAbs_pos.2 nonzero
    have sign : (decide (first * second < 0) ^^ decide (second < 0)) = decide (first < 0) := by
      rcases Int.lt_or_gt_of_ne zero with falling | rising <;>
        rcases Int.lt_or_gt_of_ne nonzero with falling' | rising'
      · have := Int.mul_pos_of_neg_of_neg falling falling'
        grind
      · have := Int.mul_neg_of_neg_of_pos falling rising'
        grind
      · have := Int.mul_neg_of_pos_of_neg rising falling'
        grind
      · have := Int.mul_pos rising rising'
        grind
    rw [productIs.eq_of_ne_zero product, integerForm_of_ne_zero product, UnpackedFloat.div]
    simp only [Int.natAbs_mul] at small ⊢
    have leading := (log2_mul_bounds positive positive').2
    have short := log2_lt_of_small (Nat.mul_pos positive positive') small
    have quotientSmall : first.natAbs < 2 ^ 53 :=
      Nat.lt_of_le_of_lt (Nat.le_mul_of_pos_right _ positive') small
    rw [divCore_multiple positive positive' small, signOf_div, sign,
      roundWithAccuracy_scaled _ positive quotientSmall (by omega)]
    exact represents_integerForm first

/-- Normal forms are ordered by their exponents and then by their mantissas. -/
theorem compare_forms {count count' : Nat} (positive : 0 < count) (positive' : 0 < count') :
    (compare ((count.log2 : Int) - 52) ((count'.log2 : Int) - 52)).then
        (compare (count * 2 ^ (52 - count.log2)) (count' * 2 ^ (52 - count'.log2))) =
      compare count count' := by
  obtain ⟨least, most⟩ := (Nat.log2_eq_iff (Nat.ne_of_gt positive)).1 rfl
  obtain ⟨least', most'⟩ := (Nat.log2_eq_iff (Nat.ne_of_gt positive')).1 rfl
  rcases Nat.lt_trichotomy count.log2 count'.log2 with shorter | equal | longer
  · have powers := Nat.pow_le_pow_right (n := 2) (by decide) shorter
    have less : count < count' := by omega
    rw [Int.compare_eq_lt.2 (by omega), Nat.compare_eq_lt.2 less]
    rfl
  · rw [equal, Std.compare_self]
    simp only [Ordering.eq_then]
    have power := Nat.two_pow_pos (52 - count'.log2)
    rcases Nat.lt_trichotomy count count' with less | rfl | more
    · rw [Nat.compare_eq_lt.2 less, Nat.compare_eq_lt.2 (Nat.mul_lt_mul_of_pos_right less power)]
    · rw [Std.compare_self, Std.compare_self]
    · rw [Nat.compare_eq_gt.2 more, Nat.compare_eq_gt.2 (Nat.mul_lt_mul_of_pos_right more power)]
  · have powers := Nat.pow_le_pow_right (n := 2) (by decide) longer
    have more : count' < count := by omega
    rw [Int.compare_eq_gt.2 (by omega), Nat.compare_eq_gt.2 more]
    rfl

/-- Integers are compared as what they are. -/
theorem Represents.compare (leftIs : Represents left first) (rightIs : Represents right second) :
    left.compare right = some (compare first second) := by
  by_cases firstZero : first = 0 <;> by_cases secondZero : second = 0
  · subst firstZero secondZero
    obtain ⟨sign, rfl⟩ := leftIs.exists_zero
    obtain ⟨sign', rfl⟩ := rightIs.exists_zero
    cases sign <;> cases sign' <;> rfl
  · subst firstZero
    obtain ⟨sign, rfl⟩ := leftIs.exists_zero
    rw [rightIs.eq_of_ne_zero secondZero, integerForm_of_ne_zero secondZero]
    rcases Int.lt_or_gt_of_ne secondZero with falling | rising
    · simp only [falling, decide_true, Int.compare_eq_gt.2 falling]
      rfl
    · simp only [Int.not_lt.2 (Int.le_of_lt rising), decide_false, Int.compare_eq_lt.2 rising]
      rfl
  · subst secondZero
    obtain ⟨sign, rfl⟩ := rightIs.exists_zero
    rw [leftIs.eq_of_ne_zero firstZero, integerForm_of_ne_zero firstZero]
    rcases Int.lt_or_gt_of_ne firstZero with falling | rising
    · simp only [falling, decide_true, Int.compare_eq_lt.2 falling]
      rfl
    · simp only [Int.not_lt.2 (Int.le_of_lt rising), decide_false, Int.compare_eq_gt.2 rising]
      rfl
  · have order := compare_forms (Int.natAbs_pos.2 firstZero) (Int.natAbs_pos.2 secondZero)
    rw [leftIs.eq_of_ne_zero firstZero, rightIs.eq_of_ne_zero secondZero,
      integerForm_of_ne_zero firstZero, integerForm_of_ne_zero secondZero]
    rcases Int.lt_or_gt_of_ne firstZero with falling | rising <;>
      rcases Int.lt_or_gt_of_ne secondZero with falling' | rising'
    · simp only [falling, falling', decide_true, signOf, ↓reduceIte, UnpackedFloat.compare, order]
      rcases Int.lt_trichotomy first second with less | rfl | more
      · rw [Int.compare_eq_lt.2 less, Nat.compare_eq_gt.2 (by omega)]
        rfl
      · simp
      · rw [Int.compare_eq_gt.2 more, Nat.compare_eq_lt.2 (by omega)]
        rfl
    · simp only [falling, Int.not_lt.2 (Int.le_of_lt rising'), decide_true, decide_false,
        Int.compare_eq_lt.2 (Int.lt_trans falling rising')]
      rfl
    · simp only [falling', Int.not_lt.2 (Int.le_of_lt rising), decide_true, decide_false,
        Int.compare_eq_gt.2 (Int.lt_trans falling' rising)]
      rfl
    · simp only [Int.not_lt.2 (Int.le_of_lt rising), Int.not_lt.2 (Int.le_of_lt rising'),
        decide_false, signOf, Bool.false_eq_true, ↓reduceIte, UnpackedFloat.compare, order]
      rcases Int.lt_trichotomy first second with less | rfl | more
      · rw [Int.compare_eq_lt.2 less, Nat.compare_eq_lt.2 (by omega)]
      · simp
      · rw [Int.compare_eq_gt.2 more, Nat.compare_eq_gt.2 (by omega)]

end

end StopMotion.Number
