import StopMotion.Frame.ClosedForm
import StopMotion.Frame.Entropy
import StopMotion.Frame.Scene
import StopMotion.State.Binding
import StopMotion.Text.Indent
import StopMotion.Text.Quoted

/-!
# Substitutions

The declarator of a binding, replaced by one that binds its name to a function of the
frame. A binding that no rule explains is left as written.
-/

namespace StopMotion.Frame

open StopMotion.Syntax StopMotion.State

/-- A name between backquotes. -/
def ticked (name : String) : String := "`" ++ name ++ "`"

/-- Whether a character goes on a plain property key. -/
def isKeyChar (c : Char) : Bool :=
  c.isAlphanum || c == '_' || c == '$'

/-- A property key: plain when it is a name, quoted otherwise. -/
def propertyKey (name : String) : String :=
  match name.toList with
  | c :: rest =>
    if isKeyChar c && !c.isDigit && rest.all isKeyChar then name else Text.quoted name
  | [] => Text.quoted name

namespace Scene

/-- The first value of a binding as an expression: a function without parameters is called. -/
def firstValue (scene : Scene) (edits : List Edit) (binding : Binding)
    (init : Option Expr) : String :=
  match init with
  | none => "undefined"
  | some init =>
    let text := Edit.render edits scene.module.source binding.initial.span
    let named := init.bare.name?.filter fun name => (scene.locals.function? name).isSome
    match Callable.ofExpr? init, named with
    | some callable, _ => if callable.params.isEmpty then "(" ++ text ++ ")()" else text
    | none, some name => name ++ "()"
    | none, none => text

/-- The random draws inside an expression. -/
def randomCalls (expr : Expr) : List Span :=
  (expr.exprs.filter isRandomCall).map Node.span

/-- The first value of a field of a generated record, each random number in it drawn by
seed, and whether there is one. -/
def fieldValue (scene : Scene) (binding index : String) (field : RecordField) :
    String × Bool :=
  match scene.exprAt? field.value.span with
  | none => (field.value.text, false)
  | some expr =>
    let draws := (randomCalls expr).mapIdx fun count span =>
      Edit.mk span (scene.draw index (Hash.salt [binding, field.name, toString count]))
    (Edit.slice draws scene.module.source field.value.span, !draws.isEmpty)

/-- The text of a collection whose records move, and whether it draws numbers. -/
def recordsText (scene : Scene) (counter : String) (binding : Binding)
    (collection : Collection) (fields : List RecordField) (motions : List FieldMotion)
    (perFrame : Float) : String × Bool :=
  let index := collection.index.getD "i"
  let values := fields.map fun field =>
    (field.name, scene.fieldValue binding.name index field)
  let initial (name : String) := (values.lookup name).map (·.1)
  let indent := Text.indentAt scene.module.source binding.span.start
  let line (name value : String) :=
    let moved :=
      match motions.find? fun motion => motion.name == name with
      | some motion =>
        (fieldForm binding.name index value motion perFrame initial).text counter
      | none => value
    indent ++ "  " ++ propertyKey name ++ ": " ++ moved ++ ",\n"
  let lines := values.map fun (name, value, _) => line name value
  ("Array.from(\x7b length: " ++ toString collection.count ++ " \x7d, (_, " ++ index ++
      ") => (\x7b\n" ++ String.join lines ++ indent ++ "\x7d))",
    values.any fun (_, _, draws) => draws)

/-- Whether an expression mentions a setter where it is not removed. -/
def mentions (edits : List Edit) (setter : String) (declarator : Span) (expr : Expr) : Bool :=
  let isMention :=
    match expr with
    | .name _ name => name.text == setter && !declarator.contains name.span
    | .object _ entries => entries.toList.any fun
      | .shorthand _ name => name.text == setter && !Edit.covers edits name.span
      | _ => false
    | _ => false
  isMention && !Edit.covers edits expr.span

/-- Whether a setter is mentioned outside its declarator by code that stays. -/
def isSetterUsed (scene : Scene) (edits : List Edit) (setter : String)
    (declarator : Span) : Bool :=
  (scene.module.body.flatMap Node.exprs).any (mentions edits setter declarator)

/-- The change that binds a name to an expression. A setter that is still mentioned becomes a
function that does nothing. -/
def bind (scene : Scene) (edits : List Edit) (binding : Binding) (expression : String)
    (note : Option String) : Change :=
  let setter :=
    match binding.setter with
    | some setter =>
      if scene.isSetterUsed edits setter binding.span then
        ", " ++ setter ++ " = (..._args: unknown[]) => \x7b\x7d"
      else ""
    | none => ""
  { edits := [⟨binding.span, binding.name ++ " = " ++ expression ++ setter⟩]
    substitutions := [⟨binding.name, expression, note⟩] }

/-- The change of a binding that a timer moves, for the component at a position. -/
def periodicChange (scene : Scene) (edits : List Edit) (binding : Binding) (position : Nat)
    (counter : String) (intervalMs : Float) (motion : Motion) : Change :=
  let init := scene.exprAt? binding.initial.span
  let start : Start :=
    ⟨.given (scene.firstValue edits binding init),
      init.bind fun expr => scene.locals.number? expr⟩
  let perFrame := ticksPerFrame (Float.ofNat scene.framesPerSecond) intervalMs
  match scalarForm? binding.name start perFrame motion, motion, binding.collection with
  | some formula, _, _ =>
    scene.bind edits binding (formula.text counter) none ++ { framed := [position] }
  | none, .records motions, some collection =>
    match collection.element with
    | .record fields =>
      let (text, draws) :=
        scene.recordsText counter binding collection fields motions perFrame
      scene.bind edits binding text none ++ { framed := [position], draws }
    | .value _ => unrecognised
  | none, .records _, none => unrecognised
  | none, _, _ => {}
where
  unrecognised : Change :=
    { notes := [ticked binding.name ++
        " animates records without a recognised initializer; left as written"] }

/-- The change of a binding, for the component at a position. -/
def ruleChange (scene : Scene) (edits : List Edit) (binding : Binding) (position : Nat)
    (counter : String) : Change :=
  let source := scene.module.source
  let initial := scene.firstValue edits binding (scene.exprAt? binding.initial.span)
  match binding.rule with
  | .unclassified reason =>
    { notes := [ticked binding.name ++ " left as written: " ++ reason.text] }
  | .periodic intervalMs motion =>
    scene.periodicChange edits binding position counter intervalMs motion
  | .handler events =>
    let note := ticked binding.name ++ " changes only on user events (" ++
      ", ".intercalate events ++ "); frozen at its initial value"
    { notes := [note] } ++ scene.bind edits binding initial (some note)
  | .constant => scene.bind edits binding initial none
  | .derived expr site =>
    let text := Edit.render edits source expr.span
    match site with
    | .memoBody => scene.bind edits binding ("(" ++ text ++ ")()") none
    | .effect | .memo => scene.bind edits binding text none

/-- The change of a binding, given the edits made before. -/
def bindingChange (scene : Scene) (edits : List Edit) (binding : Binding) : Change :=
  match scene.actorAt? binding.span with
  | none =>
    { notes := [ticked binding.name ++ " is outside any component; left as written"] }
  | some position =>
    let counter := (scene.actors[position]?.map (·.counter)).getD ""
    { notes := binding.notes.map fun note => ticked binding.name ++ ": " ++ note } ++
      scene.ruleChange edits binding position counter

end Scene

end StopMotion.Frame
