import StopMotion.Frame.Removal
import StopMotion.Frame.Substitution

/-!
# Driving a component by the frame

A module with the state of its components turned into functions of the frame counter.
The new text is the source with edits: removals, replaced entropy, replaced declarators,
and then the declarations that these need. Whatever no edit touches stays as written.
-/

namespace StopMotion.Frame

open StopMotion.Syntax StopMotion.State

/-- A module driven by the frame. `confidence` is the share of the bindings that have a
substitution. -/
structure Driven where
  text : String
  substitutions : List Substitution
  notes : List String
  confidence : Float

namespace Scene

/-! ## Entropy -/

/-- The time of the frame in milliseconds at a place inside a component. -/
def clockAt? (scene : Scene) (span : Span) : Option String := do
  let position ← scene.actorAt? span
  let actor ← scene.actors[position]?
  let time := Formula.binary .divide (.binary .multiply .frame (.number 1000.0))
    (.number (Float.ofNat scene.framesPerSecond))
  return time.text actor.counter

/-- What stands in the place of an entropy when `drawn` random numbers are replaced already. -/
def replacement (scene : Scene) (parts : List Counted) (drawn : Nat) (site : EntropySite) :
    String :=
  match site.entropy, scene.clockAt? site.span with
  | .random, _ =>
    scene.draw (indexAt parts site.span) (Hash.salt ["random", toString drawn])
  | .clock, some time => "(" ++ time ++ ")"
  | .clock, none => "0"
  | .date, some time => "new Date(" ++ time ++ ")"
  | .date, none => "new Date(0)"
  | .timer, _ => "0"

/-- The replacements of the entropy at some places. -/
def replacements (scene : Scene) (parts : List Counted) : Nat → List EntropySite → List Edit
  | _, [] => []
  | drawn, site :: rest =>
    ⟨site.span, scene.replacement parts drawn site⟩ ::
      scene.replacements parts (if site.entropy = .random then drawn + 1 else drawn) rest

/-- The change that removes the entropy left by some removals. -/
def entropyChange (scene : Scene) (removed : List Edit) : Change :=
  let sites := entropySites removed scene.module
  let clocks := sites.filter fun site => [Entropy.clock, .date].contains site.entropy
  { edits := scene.replacements (countedParts scene.module) 0 sites
    framed := clocks.filterMap fun site => scene.actorAt? site.span
    draws := sites.any fun site => site.entropy == .random }

/-! ## Declarations -/

/-- The declaration of the frame counter in a component. -/
def counterEdits (scene : Scene) (actor : Actor) : List Edit :=
  let source := scene.module.source
  let declaration := "const " ++ actor.counter ++ " = useCurrentFrame();"
  match actor.component.callable.body with
  | .block span stmts =>
    let indent :=
      match stmts.head? with
      | some first => Text.indentAt source first.span.start
      | none => Text.indentAt source span.start ++ "  "
    [.insertion (span.start + 1) ("\n" ++ indent ++ declaration)]
  | .expr value =>
    let indent := Text.indentAt source actor.span.start
    [.insertion value.span.start
        ("\x7b\n" ++ indent ++ "  " ++ declaration ++ "\n" ++ indent ++ "  return "),
      .insertion value.span.stop (";\n" ++ indent ++ "\x7d")]

/-- The components that need a counter declared, given the positions of those that read
one. -/
def undeclared (scene : Scene) (framed : List Nat) : List Actor :=
  (scene.actors.mapIdx fun position actor => (position, actor)).filterMap
    fun (position, actor) =>
      if framed.contains position && !actor.hasCounter then some actor else none

/-- Whether a statement imports the hook for the frame counter under its own name. -/
def importsHook : Stmt → Bool
  | .importStmt _ specifiers source _ =>
    source == "remotion" && specifiers.any fun specifier =>
      specifier.imported == some "useCurrentFrame" && specifier.binding.text == "useCurrentFrame"
  | _ => false

/-- Whether a statement is an import. -/
def isImport : Stmt → Bool
  | .importStmt .. => true
  | _ => false

/-- The function that draws seeded numbers. -/
def seededHelper : String :=
  "(index: number, salt: number): number => \x7b\n" ++
  "  const x = Math.sin(index * 12.9898 + salt * 78.233) * 43758.5453;\n" ++
  "  return x - Math.floor(x);\n" ++
  "\x7d;"

/-- The import of the hook and the declaration of the seeded draw, as far as they are needed:
behind the last import, or else at the start. -/
def preludeEdits (scene : Scene) (needsHook draws : Bool) : List Edit :=
  let body := scene.module.body
  let hook :=
    if needsHook && !body.any importsHook then "import \x7b useCurrentFrame \x7d from 'remotion';\n"
    else ""
  let helper :=
    if draws then "\nconst " ++ scene.seeded ++ " = " ++ seededHelper ++ "\n" else ""
  let prelude := (hook ++ helper).toList
  if prelude.isEmpty then []
  else
    match body.reverse.find? isImport with
    | some stmt => [.insertion stmt.span.stop ("\n" ++ String.ofList (Text.trimEnd prelude))]
    | none => [.insertion 0 (String.ofList (Text.trim prelude) ++ "\n\n")]

/-- Whether a statement exports something by default. -/
def isDefaultExport : Stmt → Bool
  | .exportExpr .. | .exportFunction .. | .exportClass .. => true
  | .exportNamed _ specifiers _ => specifiers.any fun specifier => specifier.exported == "default"
  | _ => false

/-- The default export of the main component, if the module has none. -/
def exportEdits (scene : Scene) : List Edit :=
  let source := scene.module.source
  let main := primary? (scene.actors.map (·.component))
  match scene.module.body.any isDefaultExport, main.bind (·.name) with
  | false, some name =>
    let ended := if source.getLast? = some '\n' then "" else "\n"
    [.insertion (Text.size source) (ended ++ "\nexport default " ++ name ++ ";\n")]
  | _, _ => []

/-- The declarations that a change needs. -/
def declarations (scene : Scene) (change : Change) : List Edit :=
  let undeclared := scene.undeclared change.framed
  undeclared.flatMap scene.counterEdits ++
    scene.preludeEdits (!undeclared.isEmpty) change.draws ++ scene.exportEdits

/-! ## The whole -/

/-- The change of all bindings behind an earlier change. Each sees the edits made before
it. -/
def bindingChanges (scene : Scene) (earlier : Change) (bindings : List Binding) : Change :=
  bindings.foldl (fun change binding => change ++ scene.bindingChange change.edits binding) earlier

/-- The whole change of a module. -/
def change (scene : Scene) (bindings : List Binding) : Change :=
  let removed := deletions scene.module
  let noActor : Change :=
    if scene.actors.isEmpty then { notes := ["no component found; artifact left as written"] }
    else {}
  let cleared := noActor ++ { edits := removed } ++ scene.entropyChange removed
  let bound := scene.bindingChanges cleared bindings
  bound ++ { edits := scene.declarations bound }

end Scene

/-- Drives a module with given bindings at a number of frames a second. -/
def drive (module : Module) (bindings : List Binding) (framesPerSecond : Nat := 30) : Driven :=
  let change := (Scene.of module framesPerSecond).change bindings
  { text := String.ofList (Edit.apply change.edits module.source)
    substitutions := change.substitutions
    notes := change.notes
    confidence :=
      if bindings.isEmpty then 1.0
      else Float.ofNat change.substitutions.length / Float.ofNat bindings.length }

end StopMotion.Frame
