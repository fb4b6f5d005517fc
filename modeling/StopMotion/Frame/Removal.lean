import StopMotion.State.Callable
import StopMotion.Text.Edit
import StopMotion.Text.Indent

/-!
# What a frame has no use for

A frame is rendered once and is never clicked on: effects, timers, event attributes and
the calls that mount a component into a page are removed from the source.
-/

namespace StopMotion.Frame

open StopMotion.Syntax StopMotion.State

/-- The removal of a statement, with its lines if it has them to itself. -/
def lineDeletion (source : List Char) (span : Span) : Edit :=
  .deletion (Text.wholeLines source span)

/-! ## Mounting -/

/-- The functions that mount a component. -/
def mountCalls : List String :=
  ["ReactDOM.render", "ReactDOM.hydrate", "ReactDOM.createRoot", "ReactDOM.hydrateRoot",
    "createRoot", "hydrateRoot"]

/-- Whether an expression calls a function that mounts, or the `render` of a root. -/
def isMountCall (roots : List String) (expr : Expr) : Bool :=
  match call? expr with
  | none => false
  | some (callee, _) =>
    callee.dotted?.any mountCalls.contains ||
      match callee with
      | .member _ owner property _ => property.text == "render" && owner.name?.any roots.contains
      | _ => false

/-- Whether an expression mounts a component somewhere inside. -/
def mounts (roots : List String) (expr : Expr) : Bool :=
  expr.exprs.any (isMountCall roots)

/-- Whether a declarator is initialised with something that mounts. -/
def declaresMount (roots : List String) : Node .declarator → Bool
  | .declares _ _ (.present init) => mounts roots init
  | _ => false

/-- The name that a declarator binds. -/
def declaredName? : Node .declarator → Option String
  | .declares _ target _ => boundName? target

/-- The removals of the statements of a module that mount a component. A declaration that
does makes its names roots for the statements behind it. -/
def mountDeletions (source : List Char) (roots : List String) : List Stmt → List Edit
  | [] => []
  | stmt :: rest =>
    let (isMount, declared) :=
      match stmt with
      | .exprStmt _ value => (mounts roots value, [])
      | .varStmt _ _ declarators =>
        let declarators := declarators.toList
        (!declarators.isEmpty && declarators.all (declaresMount roots),
          declarators.filterMap declaredName?)
      | _ => (false, [])
    if isMount then
      lineDeletion source stmt.span :: mountDeletions source (roots ++ declared) rest
    else mountDeletions source roots rest

/-! ## Effects, timers and events -/

/-- Whether an expression starts or stops a timer. -/
def isTimerCall (expr : Expr) : Bool :=
  match bareCall? expr with
  | some (callee, _) => (TimerFunction.ofCallee? callee).isSome
  | none => false

/-- Whether a declarator is initialised by a timer. -/
def declaresTimer : Node .declarator → Bool
  | .declares _ _ (.present init) => isTimerCall init
  | _ => false

/-- Whether a statement is nothing but an effect or a timer. -/
def isRemovable : Stmt → Bool
  | .exprStmt _ value =>
    isHookCall value "useEffect" || isHookCall value "useLayoutEffect" || isTimerCall value ||
      match value with
      | .assign _ _ _ assigned => isTimerCall assigned
      | _ => false
  | .varStmt _ _ declarators =>
    let declarators := declarators.toList
    !declarators.isEmpty && declarators.all declaresTimer
  | _ => false

/-- The statements that stand alone as a part of a node and cannot be left out. -/
def soleBodies : {c : Category} → Node c → List Span
  | _, .ifStmt _ _ consequent alternative =>
    consequent.span :: (alternative.toOption.map Node.span).toList
  | _, .forStmt _ _ _ _ body | _, .forEach _ _ _ body _ | _, .whileStmt _ _ body
  | _, .doWhile _ body _ | _, .labeled _ _ body => [body.span]
  | _, _ => []

/-- The removal of an event attribute with the blanks before it. -/
def attributeDeletion? (source : List Char) : Node .jsxAttribute → Option Edit
  | .attrFlag span name | .attrString span name _ _ | .attrExpr span name _
  | .attrElement span name _ =>
    if isEventName name then
      let start :=
        match Text.splitAt? span.start source with
        | some (before, _) => Text.size (Text.trimEnd before)
        | none => span.start
      some (.deletion ⟨start, span.stop⟩)
    else none
  | .attrSpread .. => none

/-- The removal of a statement: by an empty block where one statement must stand. -/
def stmtDeletion? (source : List Char) (sole : List Span) (stmt : Stmt) : Option Edit :=
  if isRemovable stmt then
    if sole.contains stmt.span then some ⟨stmt.span, "\x7b\x7d"⟩
    else some (lineDeletion source stmt.span)
  else none

/-- The removals that a node asks for. -/
def pickDeletions (source : List Char) (sole : List Span) :
    {c : Category} → Node c → Pick Edit
  | _, .tag _ _ attributes _ =>
    { found := attributes.toList.filterMap (attributeDeletion? source) }
  | _, node =>
    match node.asStmt?.bind (stmtDeletion? source sole) with
    | some edit => { found := [edit], goesInside := false }
    | none => {}

/-- The removals of effects, timers and event attributes. -/
def workDeletions (module : Module) : List Edit :=
  let sole := module.body.flatMap fun stmt => stmt.collect fun node => { found := soleBodies node }
  module.body.flatMap fun stmt => stmt.collect fun node => pickDeletions module.source sole node

/-- All removals from a module. -/
def deletions (module : Module) : List Edit :=
  mountDeletions module.source [] module.body ++ workDeletions module

end StopMotion.Frame
