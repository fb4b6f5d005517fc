import StopMotion.Number.Decimal
import StopMotion.Proofs.Number.Whole

/-!
# Integers in floats

Arithmetic on floats that are integers is the arithmetic of integers, as long as the results
stay below `2 ^ 53`; rounding changes none of them, and a small one is printed as its numeral.
-/

namespace StopMotion.Number

open Float.Model Float.Model.UnpackedFloat

theorem toNat_toBitVec_signOf (negative : Bool) :
    (signOf negative).toBitVec.toNat = if negative then 1 else 0 := by
  cases negative <;> rfl

/-- The bits of a whole number. -/
theorem toNat_pack_wholeForm (negative : Bool) {count : Nat} (small : count < 2 ^ 53) :
    (UnpackedFloat.pack .binary64 (wholeForm negative count)).toNat =
      packBits negative count 0 := by
  rcases Nat.eq_zero_or_pos count with rfl | positive
  · cases negative <;> rfl
  · have short := log2_lt_of_small positive small
    obtain ⟨least, most⟩ := mantissa_bounds positive small
    have biased : (0 + (count.log2 : Int) + 1023).toNat = count.log2 + 1023 := by omega
    have normal : ¬(0 + (count.log2 : Int) < -1022) := by omega
    rw [pack_wholeForm positive small, toNat_packComponents, toNat_toBitVec_signOf, packBits,
      if_neg (Nat.ne_of_gt positive)]
    simp only [BitVec.toNat_ofNat, normal, ↓reduceIte, biased, Nat.pow_eq]
    cases negative <;> simp only [Bool.false_eq_true, ↓reduceIte] <;> omega

/-- The packed float of a normal form. -/
theorem pack_eq (negative : Bool) {count : Nat} (small : count < 2 ^ 53) :
    pack negative count 0 = .ofModel (.pack (wholeForm negative count)) := by
  have bits : (UInt64.ofNat (packBits negative count 0)).toBitVec =
      UnpackedFloat.pack .binary64 (wholeForm negative count) := by
    rw [← toNat_pack_wholeForm negative small]
    simp
  rw [pack, Float.ofBits, Float.Model.ofBits, bits, unpack_pack_wholeForm small]

theorem toNat_toBits_pack (negative : Bool) {count : Nat} (small : count < 2 ^ 53) :
    (pack negative count 0).toBits.toNat = packBits negative count 0 := by
  rw [pack_eq negative small, ← toNat_pack_wholeForm negative small]
  rfl

/-- The parts of a normal float. -/
theorem ofBits_normal (negative : Bool) {biased fraction : Nat} (positive : 0 < biased)
    (finite : biased < 2047) (small : fraction < 2 ^ 52) :
    Parts.ofBits ((if negative then 2 ^ 63 else 0) + biased * 2 ^ 52 + fraction) =
      .finite negative (2 ^ 52 + fraction) ((biased : Int) - 1075) := by
  generalize sum : (if negative then 2 ^ 63 else 0) + biased * 2 ^ 52 + fraction = bits
  have sign : decide (2 ^ 63 ≤ bits) = negative := by
    cases negative <;> simp at sum ⊢ <;> omega
  have middle : bits / 2 ^ 52 % 2 ^ 11 = biased := by
    cases negative <;> simp at sum <;> omega
  have rest : bits % 2 ^ 52 = fraction := by
    cases negative <;> simp at sum <;> omega
  simp only [Parts.ofBits, Nat.pow_eq, sign, middle, rest]
  rw [if_neg (by omega), if_neg (by omega)]

/-- The parts of a whole number. -/
theorem ofFloat_pack (negative : Bool) {count : Nat} (small : count < 2 ^ 53) :
    Parts.ofFloat (pack negative count 0) =
      if count = 0 then .finite negative 0 (-1074)
      else .finite negative (count * 2 ^ (52 - count.log2)) (count.log2 - 52) := by
  rw [Parts.ofFloat, toNat_toBits_pack negative small]
  rcases Nat.eq_zero_or_pos count with rfl | positive
  · cases negative <;> decide
  · have short := log2_lt_of_small positive small
    obtain ⟨least, most⟩ := mantissa_bounds positive small
    have nonzero := Nat.ne_of_gt positive
    have scale : (0 + (count.log2 : Int) + 1023).toNat = count.log2 + 1023 := by omega
    have normal : ¬(0 + (count.log2 : Int) < -1022) := by omega
    rw [if_neg nonzero, packBits, if_neg nonzero]
    simp only [normal, ↓reduceIte, scale, Nat.pow_eq]
    have exponent : ((count.log2 + 1023 : Nat) : Int) - 1075 = (count.log2 : Int) - 52 := by omega
    rw [ofBits_normal negative (by omega) (by omega) (by omega), Nat.add_sub_cancel' least,
      exponent]

/-- A float is an integer below `2 ^ 53`: of zero, both signs are. -/
structure IsInteger (value : Float) (integer : Int) : Prop where
  small : integer.natAbs < 2 ^ 53
  packed : ∃ negative : Bool, value = pack negative integer.natAbs 0 ∧
    (if negative then -(integer.natAbs : Int) else integer.natAbs) = integer

namespace IsInteger

variable {left right : Float} {first second : Int}

theorem ofRepresents {form : UnpackedFloat} {integer : Int} (represents : Represents form integer)
    (small : integer.natAbs < 2 ^ 53) : IsInteger (.ofModel (.pack form)) integer := by
  obtain ⟨negative, rfl, signed⟩ := represents
  exact ⟨small, negative, (pack_eq negative small).symm, signed⟩

theorem represents {value : Float} {integer : Int} (isInteger : IsInteger value integer) :
    Represents value.toModel.unpack integer := by
  obtain ⟨small, negative, rfl, signed⟩ := isInteger
  refine ⟨negative, ?_, signed⟩
  rw [pack_eq negative small]
  exact unpack_pack_wholeForm small

theorem add (leftIs : IsInteger left first) (rightIs : IsInteger right second)
    (small : (first + second).natAbs < 2 ^ 53) : IsInteger (left + right) (first + second) :=
  ofRepresents (leftIs.represents.add rightIs.represents leftIs.small rightIs.small small) small

theorem sub (leftIs : IsInteger left first) (rightIs : IsInteger right second)
    (small : (first - second).natAbs < 2 ^ 53) : IsInteger (left - right) (first - second) :=
  ofRepresents (leftIs.represents.sub rightIs.represents leftIs.small rightIs.small small) small

theorem mul (leftIs : IsInteger left first) (rightIs : IsInteger right second)
    (small : (first * second).natAbs < 2 ^ 53) : IsInteger (left * right) (first * second) :=
  ofRepresents (leftIs.represents.mul rightIs.represents leftIs.small rightIs.small small) small

theorem div (productIs : IsInteger left (first * second)) (factorIs : IsInteger right second)
    (nonzero : second ≠ 0) (small : first.natAbs < 2 ^ 53) : IsInteger (left / right) first :=
  ofRepresents (productIs.represents.div factorIs.represents nonzero productIs.small) small

theorem neg (leftIs : IsInteger left first) : IsInteger (-left) (-first) :=
  ofRepresents leftIs.represents.neg (by rw [Int.natAbs_neg]; exact leftIs.small)

theorem lt_iff (leftIs : IsInteger left first) (rightIs : IsInteger right second) :
    left < right ↔ first < second := by
  change left.lt right = true ↔ _
  simp only [Float.lt]
  change decide (UnpackedFloat.lt _ _ = true) = true ↔ _
  rw [UnpackedFloat.lt, leftIs.represents.compare rightIs.represents]
  simp [Int.compare_eq_lt]

theorem le_iff (leftIs : IsInteger left first) (rightIs : IsInteger right second) :
    left ≤ right ↔ first ≤ second := by
  change left.le right = true ↔ _
  simp only [Float.le]
  change decide (UnpackedFloat.le _ _ = true) = true ↔ _
  rw [UnpackedFloat.le, leftIs.represents.compare rightIs.represents]
  simp [Int.isLE_compare]

theorem beq_iff (leftIs : IsInteger left first) (rightIs : IsInteger right second) :
    (left == right) = true ↔ first = second := by
  change UnpackedFloat.beq _ _ = true ↔ _
  rw [UnpackedFloat.beq, leftIs.represents.compare rightIs.represents]
  simp

theorem abs (leftIs : IsInteger left first) : IsInteger left.abs first.natAbs := by
  have distance : Represents left.toModel.unpack.abs first.natAbs := by
    obtain ⟨negative, form, -⟩ := leftIs.represents
    refine ⟨false, ?_, rfl⟩
    rw [form, Int.natAbs_natCast, wholeForm, wholeForm]
    split <;> rfl
  exact ofRepresents distance leftIs.small

/-- The parts of an integer. -/
theorem exists_parts (leftIs : IsInteger left first) : ∃ (negative : Bool) (exponent : Nat),
    Parts.ofFloat left = .finite negative (first.natAbs * 2 ^ exponent) (-exponent) ∧
    left = pack negative first.natAbs 0 ∧
    (if negative then -(first.natAbs : Int) else first.natAbs) = first := by
  obtain ⟨small, negative, rfl, signed⟩ := leftIs
  rw [ofFloat_pack negative small]
  by_cases zero : first = 0
  · subst zero
    obtain ⟨exponent, least⟩ : ∃ exponent : Nat, (-1074 : Int) = -(exponent : Int) := ⟨1074, rfl⟩
    refine ⟨negative, exponent, ?_, rfl, signed⟩
    rw [Int.natAbs_zero, if_pos rfl, Nat.zero_mul, least]
  · have short := log2_lt_of_small (Int.natAbs_pos.2 zero) small
    refine ⟨negative, 52 - first.natAbs.log2, ?_, rfl, signed⟩
    rw [if_neg (Int.natAbs_ne_zero.2 zero)]
    congr 1
    omega

/-- An integer has no fraction that is cut off. -/
theorem truncate_eq (leftIs : IsInteger left first) : truncate left = left := by
  obtain ⟨negative, exponent, parts, packed, -⟩ := leftIs.exists_parts
  rw [truncate, parts]
  simp only
  split
  · rfl
  · rw [Int.neg_neg, Int.toNat_natCast, Nat.pow_eq,
      Nat.mul_div_cancel _ (Nat.two_pow_pos exponent), ← packed]

/-- An integer is rounded to itself. -/
theorem roundHalfAway_eq (leftIs : IsInteger left first) : roundHalfAway left = left := by
  obtain ⟨negative, exponent, parts, packed, -⟩ := leftIs.exists_parts
  rw [roundHalfAway, parts]
  simp only
  split
  · rfl
  · rename_i fractional
    have twice : (2 * (first.natAbs * 2 ^ exponent) + 2 ^ exponent) / (2 * 2 ^ exponent) =
        first.natAbs := by
      have power := Nat.two_pow_pos exponent
      rw [← Nat.mul_assoc, Nat.mul_right_comm, Nat.mul_add_div (by omega),
        Nat.div_eq_of_lt (by omega), Nat.add_zero]
    rw [Int.neg_neg, Int.toNat_natCast, Nat.pow_eq, twice, ← packed]

theorem isFinite_eq (leftIs : IsInteger left first) : isFinite left = true := by
  obtain ⟨negative, exponent, parts, -, -⟩ := leftIs.exists_parts
  rw [isFinite, parts]

theorem isIntegral_eq (leftIs : IsInteger left first) : isIntegral left = true := by
  rw [isIntegral, leftIs.isFinite_eq, leftIs.truncate_eq, leftIs.beq_iff leftIs |>.2 rfl]
  rfl

theorem toInt_eq (leftIs : IsInteger left first) : toInt left = first := by
  obtain ⟨negative, exponent, parts, -, signed⟩ := leftIs.exists_parts
  have magnitude : (if 0 ≤ -(exponent : Int)
      then first.natAbs * 2 ^ exponent * Nat.pow 2 (-(exponent : Int)).toNat
      else first.natAbs * 2 ^ exponent / Nat.pow 2 (-(-(exponent : Int))).toNat) =
        first.natAbs := by
    split
    · obtain rfl : exponent = 0 := by omega
      simp
    · rw [Int.neg_neg, Int.toNat_natCast, Nat.pow_eq,
        Nat.mul_div_cancel _ (Nat.two_pow_pos exponent)]
  rw [toInt, parts]
  simp only [magnitude]
  exact signed

end IsInteger

/-! ## Integers from and to text -/

/-- A count of at most 64 bits as a float. -/
theorem isInteger_toFloat {count : Nat} (small : count < 2 ^ 53) :
    IsInteger count.toUInt64.toFloat count := by
  have value : (count.toUInt64.toNat : Int) = count := by
    rw [Nat.toUInt64, UInt64.toNat_ofNat']
    omega
  have normal : Represents (UnpackedFloat.normalize .binary64 ((count : Int) * 2 ^ 0) (-(0 : Nat))
      .positive) count := normalize_scaled (by rwa [Int.natAbs_natCast]) 0
  have represents : Represents (UnpackedFloat.ofUInt64 .binary64 count.toUInt64) count := by
    rw [UnpackedFloat.ofUInt64, UnpackedFloat.ofNat, UnpackedFloat.ofInt, value]
    rwa [Int.pow_zero, Int.mul_one] at normal
  exact .ofRepresents represents small

theorem isInteger_zero : IsInteger 0.0 0 := ⟨by decide, false, by decide, rfl⟩

theorem isInteger_one : IsInteger 1.0 1 := ⟨by decide, false, by decide, rfl⟩

/-- Digits without a point and without an exponent. -/
theorem isInteger_ofScientific {count : Nat} (small : count < 2 ^ 53) :
    IsInteger (Float.ofScientific count false 0) count := by
  have unit : IsInteger (Float.ofBits 0x3FF0000000000000) 1 := ⟨by decide, false, by decide, rfl⟩
  have product := (isInteger_toFloat small).mul unit (by rwa [Int.mul_one])
  rw [Int.mul_one] at product
  rw [Float.ofScientific, dif_pos ⟨small, by decide⟩]
  exact product

/-- A decimal without a fraction and without an exponent. -/
theorem isInteger_nearest {count : Nat} (small : count < 2 ^ 53) :
    IsInteger (nearest count 0) count := by
  have short : (digitsOf count).length ≤ 16 :=
    (Nat.length_toDigits_le_iff (by decide) (by decide)).2 (Nat.lt_trans small (by decide))
  rw [nearest]
  split
  · rename_i zero
    subst zero
    exact ⟨by decide, false, by decide, rfl⟩
  · rw [if_neg (by omega), if_neg (by omega)]
    exact isInteger_ofScientific small

/-- An integer in generated source is its numeral. -/
theorem IsInteger.compact_eq {value : Float} {integer : Int} (isInteger : IsInteger value integer)
    (small : integer.natAbs * 10000 < 2 ^ 53) : compact value = toString integer := by
  have unit : IsInteger 10000.0 10000 := ⟨by decide, false, by decide, rfl⟩
  have bound : IsInteger 1e15 1000000000000000 := ⟨by decide, false, by decide, rfl⟩
  have scaled := isInteger.mul unit (by rw [Int.natAbs_mul]; exact small)
  have rounded : IsInteger (roundHalfAway (value * 10000.0) / 10000.0) integer := by
    rw [scaled.roundHalfAway_eq]
    exact scaled.div unit (by decide) isInteger.small
  have below : (roundHalfAway (value * 10000.0) / 10000.0).abs < 1e15 :=
    (rounded.abs.lt_iff bound).2 (by omega)
  rw [compact, isInteger.isFinite_eq]
  simp only [rounded.truncate_eq, (rounded.beq_iff rounded).2 rfl, below, rounded.toInt_eq,
    Bool.not_true, Bool.false_eq_true, ↓reduceIte, decide_true, Bool.and_self]

end StopMotion.Number
