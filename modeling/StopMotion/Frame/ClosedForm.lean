import StopMotion.Frame.Formula
import StopMotion.Hash.Fnv
import StopMotion.State.Motion

/-!
# Closed forms of motions

The value of a moving piece of state as a function of the frame: where a timer would
have added a step at every tick, the closed form multiplies the step by the number of
ticks up to the frame.
-/

namespace StopMotion.Frame

open StopMotion.Syntax (BinaryOp)
open StopMotion.State

/-- The fields of a record that are read as positions: they swing around their start and
never leave the picture. -/
def positionFields : List String :=
  ["x", "y", "z", "cx", "cy", "left", "top", "right", "bottom", "posX", "posY", "offsetX",
    "offsetY", "translateX", "translateY"]

/-- The number of ticks of a timer in the time of one frame. -/
def ticksPerFrame (framesPerSecond intervalMs : Float) : Float :=
  if intervalMs ≤ 0.0 then 1.0 else 1000.0 / framesPerSecond / intervalMs

/-- The distance from zero. -/
def magnitude (value : Float) : Float :=
  if value < 0.0 then -value else value

/-- The start of a motion: its text, and its number if that is known. -/
structure Start where
  formula : Formula
  value : Option Float

/-- A start given by its number. -/
def Start.ofNumber (value : Float) : Start := ⟨.number value, some value⟩

/-- What grows from a start by `rate` at every frame. A start of zero is left out, and the
sign of the rate is that of the operator. -/
def advance (start : Start) (rate : Float) : Formula :=
  let distance : Formula :=
    if magnitude rate == 1.0 then .frame
    else .binary .multiply .frame (.number (magnitude rate))
  if 0.0 ≤ rate && start.value.any (· == 0.0) then distance
  else .binary (if rate < 0.0 then .subtract else .add) start.formula.operand distance

/-- A formula, or its integer part. -/
def flooredIf (isFloored : Bool) (formula : Formula) : Formula :=
  if isFloored then .floor formula else formula

/-- Whether a value that moves by `step` at every tick passes integers only, though a frame
is no whole number of ticks. -/
def movesByIntegers (start : Option Float) (step perFrame : Float) : Bool :=
  start.any Number.isIntegral && Number.isIntegral step && !Number.isIntegral (step * perFrame)

/-- A value that moves between two ends and starts again at the other one. -/
def boundedForm (start : Start) (step low high perFrame : Float) : Formula :=
  let rate := step * perFrame
  let length := Formula.number (high - low)
  let isFloored := movesByIntegers start.value step perFrame &&
    Number.isIntegral low && Number.isIntegral high
  if 0.0 ≤ rate then
    let offset :=
      match start.value with
      | some value => Start.ofNumber (value - low)
      | none => ⟨.paren (.binary .subtract start.formula (.number low)), none⟩
    let inner := Formula.paren (flooredIf isFloored (advance offset rate))
    if low == 0.0 then .binary .remainder inner length
    else .binary .add (.number low) (.paren (.binary .remainder inner length))
  else
    let offset :=
      match start.value with
      | some value => Start.ofNumber (high - value)
      | none => ⟨.paren (.binary .subtract (.number high) start.formula), none⟩
    let inner := Formula.paren (flooredIf isFloored (advance offset (-rate)))
    .binary .subtract (.number high) (.paren (.binary .remainder inner length))

/-- A flag that is turned at every tick. -/
def toggleForm (start : Start) (perFrame : Float) : Formula :=
  let framesPerTick := 1.0 / perFrame
  let ticks : Formula :=
    if framesPerTick ≤ 1.0 then .frame
    else .floor (.binary .divide .frame (.number framesPerTick))
  let isEven := Formula.binary .strictEqual (.binary .remainder ticks (.number 2.0)) (.number 0.0)
  .conditional isEven start.formula.operand (.not start.formula.operand)

/-- A full turn. -/
def fullTurn : Float := 6.283185307179586

/-- A value that swings around its start, at a pace and from a phase that depend on the
binding's name. -/
def oscillateForm (name : String) (start : Start) (amplitude : Float) : Formula :=
  let pace := Hash.spread (Hash.fnv [name, "frequency"]) 0.03 0.08
  let phase := Hash.spread (Hash.fnv [name, "phase"]) 0.0 fullTurn
  let angle := Formula.binary .add (.binary .multiply .frame (.number pace)) (.number phase)
  let wave := Formula.binary .multiply (.number amplitude) (.sine angle)
  match start.value with
  | some value => if value == 0.0 then wave else .binary .add (.number value) wave
  | none => wave

/-- The closed form of a motion of a scalar. -/
def scalarForm? (name : String) (start : Start) (perFrame : Float) : Motion → Option Formula
  | .linear step =>
    some (flooredIf (movesByIntegers start.value step perFrame) (advance start (step * perFrame)))
  | .wrap step modulus =>
    let moved := Formula.paren
      (flooredIf (movesByIntegers start.value step perFrame) (advance start (step * perFrame)))
    let length := Formula.number (magnitude modulus)
    let remainder := Formula.binary .remainder moved length
    if step * perFrame < 0.0 then
      some (.binary .remainder (.paren (.binary .add (.paren remainder) length)) length)
    else some remainder
  | .bounded step low high => some (boundedForm start step low high perFrame)
  | .clamped step limit =>
    let moved :=
      flooredIf (movesByIntegers start.value step perFrame) (advance start (step * perFrame))
    if 0.0 ≤ step then some (.least moved (.number limit))
    else some (.greatest moved (.number limit))
  | .toggle => some (toggleForm start perFrame)
  | .oscillate amplitude => some (oscillateForm name start amplitude)
  | .records _ => none

/-- The closed form of a field of the record at a position of a collection. `initial` is the
field's first value, and `valueOf?` knows those of the other fields. A change that is not
understood counts as one unit at every tick. -/
def fieldForm (binding index initial : String) (motion : FieldMotion) (perFrame : Float)
    (valueOf? : String → Option String) : Formula :=
  let start : Start := ⟨.given initial, none⟩
  if positionFields.contains motion.name then
    let phase := Hash.spread (Hash.fnv [binding, motion.name, "phase"]) 0.3 1.7
    let width := Hash.spread (Hash.fnv [binding, motion.name, "spread"]) 20.0 60.0
    let angle := Formula.binary .add (.binary .multiply .frame (.number 0.02))
      (.binary .multiply (.given index) (.number phase))
    .binary .add start.formula.operand
      (.binary .multiply (.sine angle) (.number (Number.roundHalfAway width)))
  else
    match motion.step with
    | some (.constant value) => advance start (value * perFrame)
    | some (.field name sign) =>
      match valueOf? name with
      | some velocity =>
        let rate := sign * perFrame
        let distance := Formula.binary .multiply .frame (Formula.operandOf velocity)
        let scaled :=
          if magnitude rate == 1.0 then distance
          else .binary .multiply distance (.number (magnitude rate))
        .binary (if rate < 0.0 then .subtract else .add) start.formula.operand scaled
      | none => advance start perFrame
    | none => advance start perFrame

end StopMotion.Frame
