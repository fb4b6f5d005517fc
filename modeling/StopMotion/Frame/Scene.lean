import StopMotion.Frame.Fresh
import StopMotion.State.Locals
import StopMotion.State.Component
import StopMotion.Text.Edit

/-!
# Scenes

What is known of a module while its state is turned into functions of the frame: its
components, the name of the frame counter in each of them, and the names and rates of the
code that is put in.
-/

namespace StopMotion.Frame

open StopMotion.Syntax StopMotion.State

/-- A component and the name of its frame counter. -/
structure Actor where
  component : Component
  counter : String
  /-- Whether the component declares the counter itself. -/
  hasCounter : Bool

/-- The part of the source that is the component. -/
def Actor.span (actor : Actor) : Span := actor.component.callable.span

/-- A module and what the code put into it says. -/
structure Scene where
  module : Module
  locals : Locals
  framesPerSecond : Nat
  actors : List Actor
  /-- The name of the function that draws seeded numbers. -/
  seeded : String

/-- The name that a declarator gives to the frame counter. -/
def counterName? : Node .declarator → Option String
  | .declares _ target (.present init) =>
    if isHookCall init "useCurrentFrame" then boundName? target else none
  | _ => none

/-- The name of the frame counter that the body of a component declares at its top. -/
def ownCounter? (component : Component) : Option String :=
  component.callable.stmts.findSome? fun
    | .varStmt _ _ declarators => declarators.toList.findSome? counterName?
    | _ => none

/-- A component with its own counter, or else with a given name for one. -/
def Actor.of (counter : String) (component : Component) : Actor :=
  match ownCounter? component with
  | some own => ⟨component, own, true⟩
  | none => ⟨component, counter, false⟩

namespace Scene

/-- The scene of a module at a rate of at least one frame a second. -/
def of (module : Module) (framesPerSecond : Nat) : Scene :=
  let taken := namesOf module
  { module
    locals := Locals.of module
    framesPerSecond := max framesPerSecond 1
    actors := (components module).map (Actor.of (fresh taken "frame" ["currentFrame"]))
    seeded := fresh taken "seededRandom" [] }

/-- The position of the first component that holds a place. -/
def actorAt? (scene : Scene) (span : Span) : Option Nat :=
  scene.actors.findIdx? fun actor => actor.span.contains span

/-- The outermost expression with a span. -/
def exprAt? (scene : Scene) (span : Span) : Option Expr :=
  if span.isEmpty then none
  else (scene.module.body.flatMap Node.exprs).find? fun expr => expr.span == span

/-- The text of a seeded draw. -/
def draw (scene : Scene) (index : String) (salt : Nat) : String :=
  scene.seeded ++ "(" ++ index ++ ", " ++ toString salt ++ ")"

end Scene

/-- A binding whose declarator now says a function of the frame. -/
structure Substitution where
  name : String
  expression : String
  note : Option String
  deriving DecidableEq, Repr

/-- What a step adds to a module's new text: edits, substitutions and remarks, the positions
of the components that read the frame counter by it, and whether it draws seeded
numbers. -/
structure Change where
  edits : List Edit := []
  substitutions : List Substitution := []
  notes : List String := []
  framed : List Nat := []
  draws : Bool := false

/-- A change and another one behind it. -/
def Change.append (first second : Change) : Change where
  edits := first.edits ++ second.edits
  substitutions := first.substitutions ++ second.substitutions
  notes := first.notes ++ second.notes
  framed := first.framed ++ second.framed
  draws := first.draws || second.draws

instance : Append Change := ⟨Change.append⟩

end StopMotion.Frame
