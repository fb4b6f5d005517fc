import StopMotion.Number.Count
import StopMotion.Number.Parts

/-!
# Floats in decimal

Reading rounds a decimal to the nearest float. Writing has three forms: the
shortest digits that read back to the same float, a fixed number of places, and
the compact form used inside generated source, which keeps at most four places.
All digits are positional; no form has an exponent.
-/

namespace StopMotion.Number

/-- A decimal point placed in a digit string: the last `places` digits are the
fraction, with zeros supplied so that one digit stands before the point. -/
def placePoint (digits : List Char) (places : Nat) : List Char :=
  if places = 0 then digits
  else
    let padded := List.replicate (places + 1 - digits.length) '0' ++ digits
    padded.take (padded.length - places) ++ '.' :: padded.drop (padded.length - places)

/-! ## Reading -/

/-- The float nearest to `mantissa * 10 ^ exponent`. Exponents far outside the range of
floats are answered without forming the power. -/
def nearest (mantissa : Nat) (exponent : Int) : Float :=
  let leading := exponent + (digitsOf mantissa).length
  if mantissa = 0 then 0.0
  else if 310 < leading then 1.0 / 0.0
  else if leading < -330 then 0.0
  else Float.ofScientific mantissa (exponent < 0) exponent.natAbs

/-- Reads digits with an optional point and an optional exponent. A digit must stand on
some side of the point, and one in the exponent if there is one. -/
def read? (text : List Char) : Option Float :=
  let whole := text.takeWhile Char.isDigit
  let afterWhole := text.dropWhile Char.isDigit
  let (fraction, rest) :=
    match afterWhole with
    | '.' :: tail => (tail.takeWhile Char.isDigit, tail.dropWhile Char.isDigit)
    | _ => ([], afterWhole)
  if whole.isEmpty && fraction.isEmpty then none
  else
    let mantissa := ofDigits (whole ++ fraction)
    match rest with
    | [] => some (nearest mantissa (-(fraction.length : Int)))
    | mark :: tail =>
      if mark = 'e' || mark = 'E' then
        let (negative, digits) :=
          match tail with
          | '-' :: digits => (true, digits)
          | '+' :: digits => (false, digits)
          | digits => (false, digits)
        if digits.isEmpty || !digits.all Char.isDigit then none
        else
          let exponent : Int := if negative then -(ofDigits digits : Int) else ofDigits digits
          some (nearest mantissa (exponent - fraction.length))
      else none

/-! ## Shortest digits -/

/-- A nonnegative rational, not necessarily in lowest terms. -/
structure Ratio where
  num : Nat
  den : Nat

/-- `num * 2 ^ exponent` as a rational. -/
def Ratio.scaled (num : Nat) (exponent : Int) : Ratio :=
  if 0 ≤ exponent then ⟨num * Nat.pow 2 exponent.toNat, 1⟩
  else ⟨num, Nat.pow 2 (-exponent).toNat⟩

/-- The exponent `e` with `10 ^ (e - 1) ≤ value < 10 ^ e`, for a positive value. -/
def Ratio.decimalExponent (value : Ratio) : Int :=
  if value.den ≤ value.num then (digitsOf (value.num / value.den)).length
  else
    let inverse := (value.den + value.num - 1) / value.num
    1 - ((digitsOf (inverse - 1)).length : Int)

/-- The numbers that round to one positive float, over a common denominator: the float
itself, the interval's ends, and whether the ends belong to it. -/
structure Neighbourhood where
  low : Nat
  value : Nat
  high : Nat
  den : Nat
  closed : Bool

/-- The neighbourhood of `mantissa * 2 ^ exponent`. The lower half-gap is shorter where
the mantissa is the least of its binade, and a tie rounds to an even mantissa. -/
def Neighbourhood.of (mantissa : Nat) (exponent : Int) : Neighbourhood :=
  let below := if mantissa = Nat.pow 2 52 ∧ exponent ≠ -1074 then 1 else 2
  let low := Ratio.scaled (4 * mantissa - below) (exponent - 2)
  let value := Ratio.scaled (4 * mantissa) (exponent - 2)
  let high := Ratio.scaled (4 * mantissa + 2) (exponent - 2)
  ⟨low.num, value.num, high.num, value.den, mantissa % 2 = 0⟩

/-- Whether `count * 10 ^ exponent` rounds to the float. -/
def Neighbourhood.holds (near : Neighbourhood) (count : Nat) (exponent : Int) : Bool :=
  let up := Nat.pow 10 exponent.toNat
  let down := Nat.pow 10 (-exponent).toNat
  let point := count * up * near.den
  let low := near.low * down
  let high := near.high * down
  if near.closed then low ≤ point && point ≤ high else low < point && point < high

/-- The multiple of `10 ^ exponent` that rounds to the float and lies nearest to it, the
upper one on a tie; none if no multiple rounds to it. -/
def Neighbourhood.onGrid? (near : Neighbourhood) (exponent : Int) : Option Nat :=
  let up := Nat.pow 10 exponent.toNat
  let down := Nat.pow 10 (-exponent).toNat
  let unit := near.den * up
  let scaled := near.value * down
  let floor := scaled / unit
  match near.holds floor exponent, near.holds (floor + 1) exponent with
  | true, true => some (if 2 * (scaled % unit) < unit then floor else floor + 1)
  | true, false => some floor
  | false, true => some (floor + 1)
  | false, false => none

/-- Tries grids of one more digit each; the last one holds every float. -/
def Neighbourhood.firstGrid (near : Neighbourhood) (top : Int) (count : Nat) : Nat → Nat × Int
  | 0 => (near.value / near.den, 0)
  | more + 1 =>
    let exponent := top - count
    match near.onGrid? exponent with
    | some digits => (digits, exponent)
    | none => near.firstGrid top (count + 1) more

/-- Trailing zeros of a digit count moved into its exponent, as far as it is negative. -/
def dropZeros (count : Nat) : Nat → Nat × Nat
  | 0 => (count, 0)
  | places + 1 => if count % 10 = 0 then dropZeros (count / 10) places else (count, places + 1)

/-- The fewest digits that read back to `mantissa * 2 ^ exponent`, for a positive mantissa:
of several the nearest, of two equally near the larger. -/
def shortestMagnitude (mantissa : Nat) (exponent : Int) : List Char :=
  let near := Neighbourhood.of mantissa exponent
  let (count, scale) :=
    near.firstGrid (Ratio.decimalExponent ⟨near.value, near.den⟩) 1 18
  if 0 ≤ scale then digitsOf (count * Nat.pow 10 scale.toNat)
  else
    let (count, places) := dropZeros count (-scale).toNat
    placePoint (digitsOf count) places

/-- The shortest positional text of a float; integers have no point. -/
def shortest (value : Float) : String :=
  match Parts.ofFloat value with
  | .notANumber => "NaN"
  | .infinite negative => if negative then "-inf" else "inf"
  | .finite negative mantissa exponent =>
    let magnitude := if mantissa = 0 then ['0'] else shortestMagnitude mantissa exponent
    String.ofList (if negative then '-' :: magnitude else magnitude)

/-! ## Fixed places -/

/-- `num / den` to the nearest integer, a half going to the even one. -/
def roundHalfEven (num den : Nat) : Nat :=
  let floor := num / den
  let twice := 2 * (num % den)
  if twice < den then floor
  else if den < twice then floor + 1
  else floor + floor % 2

/-- A float with exactly `places` decimal places, rounded from its exact value with a half
going to the even digit. -/
def fixed (places : Nat) (value : Float) : String :=
  match Parts.ofFloat value with
  | .notANumber => "NaN"
  | .infinite negative => if negative then "-inf" else "inf"
  | .finite negative mantissa exponent =>
    let exact := Ratio.scaled (mantissa * Nat.pow 10 places) exponent
    let magnitude := placePoint (digitsOf (roundHalfEven exact.num exact.den)) places
    String.ofList (if negative then '-' :: magnitude else magnitude)

/-- The text of a number in generated source: rounded to four places, without trailing
zeros; a number that is not finite becomes `0`. -/
def compact (value : Float) : String :=
  if !isFinite value then "0"
  else
    let rounded := roundHalfAway (value * 10000.0) / 10000.0
    if rounded == truncate rounded && rounded.abs < 1e15 then
      toString (toInt rounded)
    else
      let digits := (fixed 4 rounded).toList.reverse
      let trimmed := digits.dropWhile (· == '0')
      let trimmed := match trimmed with
        | '.' :: rest => rest
        | rest => rest
      String.ofList trimmed.reverse

end StopMotion.Number
