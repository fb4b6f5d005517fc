/-!
# Floats taken apart

A finite float is a sign, a natural mantissa and a power of two. Truncation,
rounding to an integer and the remainder of a division are computed on these
parts with exact natural arithmetic, so none of them rounds where its
mathematical result is a float.
-/

namespace StopMotion.Number

/-- A float as exact numbers: `finite negative mantissa exponent` stands for
`± mantissa * 2 ^ exponent`. -/
inductive Parts where
  | finite (negative : Bool) (mantissa : Nat) (exponent : Int)
  | infinite (negative : Bool)
  | notANumber
  deriving DecidableEq, Repr, Inhabited

namespace Parts

/-- The parts of the float whose binary64 bits are `bits`. -/
def ofBits (bits : Nat) : Parts :=
  let negative : Bool := Nat.pow 2 63 ≤ bits
  let biased : Nat := bits / Nat.pow 2 52 % Nat.pow 2 11
  let fraction : Nat := bits % Nat.pow 2 52
  if biased = 2047 then
    if fraction = 0 then .infinite negative else .notANumber
  else if biased = 0 then
    .finite negative fraction (-1074)
  else
    .finite negative (Nat.pow 2 52 + fraction) ((biased : Int) - 1075)

/-- The parts of a float. -/
def ofFloat (value : Float) : Parts :=
  ofBits value.toBits.toNat

end Parts

/-- The bits of `± mantissa * 2 ^ exponent`, for a mantissa below `2 ^ 53` and an
exponent of at least `-1074` whose product is below the largest finite float. -/
def packBits (negative : Bool) (mantissa : Nat) (exponent : Int) : Nat :=
  let sign : Nat := if negative then Nat.pow 2 63 else 0
  if mantissa = 0 then
    sign
  else
    let top := mantissa.log2
    let scale := exponent + top
    if scale < -1022 then
      sign + mantissa * Nat.pow 2 (exponent + 1074).toNat
    else
      sign + (scale + 1023).toNat * Nat.pow 2 52 +
        (mantissa * Nat.pow 2 (52 - top) - Nat.pow 2 52)

/-- The float `± mantissa * 2 ^ exponent`, under the conditions of `packBits`. -/
def pack (negative : Bool) (mantissa : Nat) (exponent : Int) : Float :=
  Float.ofBits (UInt64.ofNat (packBits negative mantissa exponent))

/-- Neither infinite nor a NaN. -/
def isFinite (value : Float) : Bool :=
  match Parts.ofFloat value with
  | .finite .. => true
  | _ => false

/-- The integer nearest to zero on the way from `value`; a float that is not finite
is kept. The sign of a zero is the sign of `value`. -/
def truncate (value : Float) : Float :=
  match Parts.ofFloat value with
  | .finite negative mantissa exponent =>
    if 0 ≤ exponent then value
    else pack negative (mantissa / Nat.pow 2 (-exponent).toNat) 0
  | _ => value

/-- The nearest integer, a half going away from zero; a float that is not finite
is kept. -/
def roundHalfAway (value : Float) : Float :=
  match Parts.ofFloat value with
  | .finite negative mantissa exponent =>
    if 0 ≤ exponent then value
    else
      let unit : Nat := Nat.pow 2 (-exponent).toNat
      pack negative ((2 * mantissa + unit) / (2 * unit)) 0
  | _ => value

/-- A finite float without a fraction. -/
def isIntegral (value : Float) : Bool :=
  isFinite value && value == truncate value

/-- The integer part of a finite float as an integer; zero for the others. -/
def toInt (value : Float) : Int :=
  match Parts.ofFloat value with
  | .finite negative mantissa exponent =>
    let magnitude : Nat :=
      if 0 ≤ exponent then mantissa * Nat.pow 2 exponent.toNat
      else mantissa / Nat.pow 2 (-exponent).toNat
    if negative then -(magnitude : Int) else magnitude
  | _ => 0

/-- The remainder of a truncating division, with the sign of the dividend. Division
by zero and of an infinity leave a NaN; an infinite divisor leaves the dividend. -/
def remainder (dividend divisor : Float) : Float :=
  match Parts.ofFloat dividend, Parts.ofFloat divisor with
  | .notANumber, _ | _, .notANumber | .infinite _, _ => 0.0 / 0.0
  | .finite .., .infinite _ => dividend
  | .finite negative mantissa exponent, .finite _ mantissa' exponent' =>
    if mantissa' = 0 then 0.0 / 0.0
    else
      let common := min exponent exponent'
      let scaled := mantissa * Nat.pow 2 (exponent - common).toNat
      let scaled' := mantissa' * Nat.pow 2 (exponent' - common).toNat
      pack negative (scaled % scaled') common

end StopMotion.Number
