import StopMotion.State.Callable

/-!
# Components

The functions of a module that render: those whose name is capitalised and whose body
holds an element or calls a hook, and the one that is exported by default.
-/

namespace StopMotion.State

open StopMotion.Syntax

/-- A function that renders. -/
structure Component where
  name : Option String
  callable : Callable
  isDefault : Bool

/-- The functions that wrap a component without changing what it renders. -/
def wrappers : List String := ["memo", "React.memo", "forwardRef", "React.forwardRef"]

/-- The callable that an expression is or wraps. -/
def wrapped? : {c : Category} → Node c → Option Callable
  | _, .paren _ inner | _, .assertion _ inner => wrapped? inner
  | _, .functionExpr span value => Callable.ofExpr? (.functionExpr span value)
  | _, .arrow span params body isAsync => Callable.ofExpr? (.arrow span params body isAsync)
  | _, .call _ callee (.cons first _) _ =>
    if callee.dotted?.any wrappers.contains then wrapped? first else none
  | _, _ => none

/-- Whether a name begins with a capital letter. -/
def isCapitalised (name : String) : Bool :=
  name.toList.head?.any Char.isUpper

/-- Whether an expression is an element or the call of a hook. -/
def rendersOrHooks : Expr → Bool
  | .jsx .. => true
  | expr => (calledName? expr).any isHookName

/-- What statements say about components: the functions that may be some, and the name that
is exported by default. -/
structure Declared where
  candidates : List Component := []
  defaultName : Option String := none

/-- What two groups of statements say together; a later default name wins. -/
def Declared.append (first second : Declared) : Declared :=
  ⟨first.candidates ++ second.candidates, second.defaultName <|> first.defaultName⟩

/-- A named function that may be a component. -/
def namedCandidate (name : String) (callable : Callable) : List Component :=
  if isCapitalised name then [⟨some name, callable, false⟩] else []

/-- The component that a declarator may declare. -/
def declaratorCandidate : Node .declarator → List Component
  | .declares _ (.bindName _ name) (.present init) =>
    match wrapped? init with
    | some callable => namedCandidate name.text callable
    | none => []
  | _ => []

/-- What a statement says about components. -/
def declared : {c : Category} → Node c → Declared
  | _, .exportDecl _ declaration => declared declaration
  | _, .exportFunction _ (.func span name params body bodySpan isAsync isGenerator) =>
    { candidates :=
        [⟨name.map (·.text),
          Callable.ofFunction (.func span name params body bodySpan isAsync isGenerator), true⟩] }
  | _, .exportExpr _ value =>
    match value.bare.name? with
    | some name => { defaultName := some name }
    | none =>
      { candidates := (wrapped? value).toList.map fun callable => ⟨none, callable, true⟩ }
  | _, .exportNamed _ specifiers none =>
    let defaults := specifiers.filter fun specifier => specifier.exported == "default"
    { defaultName := defaults.getLast?.map (·.source.text) }
  | _, .functionStmt _ (.func span (some name) params body bodySpan isAsync isGenerator) =>
    { candidates := namedCandidate name.text
        (Callable.ofFunction (.func span name params body bodySpan isAsync isGenerator)) }
  | _, .varStmt _ _ declarators =>
    { candidates := declarators.toList.flatMap declaratorCandidate }
  | _, _ => {}

/-- The components of a module, in source order. -/
def components (module : Module) : List Component :=
  let all : Declared :=
    module.body.foldl (fun soFar stmt => Declared.append soFar (declared stmt)) {}
  let marked := all.candidates.map fun component =>
    if component.name.isSome && component.name == all.defaultName then
      { component with isDefault := true }
    else component
  marked.filter fun component =>
    component.isDefault || component.callable.exprs.any rendersOrHooks

/-- The component that stands for a module: the one exported by default, or else the
first. -/
def primary? (components : List Component) : Option Component :=
  components.find? (·.isDefault) <|> components.head?

end StopMotion.State
