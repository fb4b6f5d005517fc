import StopMotion.Proofs.Syntax.Spans
import StopMotion.Proofs.Validation.Resolution
import StopMotion.State.Locals

/-!
# Declarations that count

Which declaration a function or a number is taken from that an occurrence of a name is taken for.
Scopes play no part: of the declarations of one name that give a function the first in the source
counts, and of those that give a number the first of these. It stands in the module, and where the
module binds the name once it is the one in scope. A second declaration of the name, wherever it
stands, can come before it.
-/

namespace StopMotion.State

open StopMotion.Syntax
open Validation (Place bindings)

/-! ## Declarations in their order -/

/-- The declarations of functions and of numeric constants, in their order. -/
structure Declarations where
  functions : List (Name × Callable) := []
  constants : List (Name × Float) := []

namespace Declarations

/-- What is known by the texts of the names. -/
def locals (declarations : Declarations) : Locals where
  functions := declarations.functions.map fun (name, callable) => (name.text, callable)
  constants := declarations.constants.map fun (name, value) => (name.text, value)

/-- One more function. -/
def addFunction (declarations : Declarations) (name : Name) (callable : Callable) : Declarations :=
  { declarations with functions := declarations.functions ++ [(name, callable)] }

/-- One more constant. -/
def addConstant (declarations : Declarations) (name : Name) (value : Float) : Declarations :=
  { declarations with constants := declarations.constants ++ [(name, value)] }

/-- What a declarator adds. -/
def addDeclarator (kind : VarKind) (declarations : Declarations) :
    Node .declarator → Declarations
  | .declares _ (.bindName _ name) (.present init) =>
    match Locals.declaredFunction? init with
    | some callable => declarations.addFunction name callable
    | none =>
      if kind = .constKind then
        match declarations.locals.number? init with
        | some value => declarations.addConstant name value
        | none => declarations
      else declarations
  | _ => declarations

/-- What a statement itself adds. -/
def addStmt (declarations : Declarations) : Stmt → Declarations
  | .functionStmt _ (.func span (some name) params body bodySpan isAsync isGenerator) =>
    declarations.addFunction name
      (.ofFunction (.func span name params body bodySpan isAsync isGenerator))
  | .varStmt _ kind declarators => declarators.toList.foldl (addDeclarator kind) declarations
  | _ => declarations

/-- The declarations of a module. -/
def of (module : Module) : Declarations :=
  (module.body.flatMap (·.stmts)).foldl addStmt {}

section

variable (declarations : Declarations)

end

/-- A name that a module declares for a function, by a statement or a declarator. -/
inductive GivesFunction (module : Module) (name : Name) : Callable → Prop where
  | stmt {span functionSpan bodySpan : Span} {params : Node (.list .pattern)}
      {body : Node (.list .stmt)} {isAsync isGenerator : Bool}
      (held : module.Holds ⟨_, .functionStmt span
        (.func functionSpan (some name) params body bodySpan isAsync isGenerator)⟩) :
      GivesFunction module name
        (.ofFunction (.func functionSpan (some name) params body bodySpan isAsync isGenerator))
  | declarator {span nameSpan : Span} {init : Expr} {callable : Callable}
      (held : module.Holds ⟨_, .declares span (.bindName nameSpan name) (.present init)⟩)
      (isFunction : Locals.declaredFunction? init = some callable) :
      GivesFunction module name callable

/-- A name that a module declares with `const` for a number, by way of some constants. -/
inductive GivesNumber (module : Module) (known : List (Name × Float)) (name : Name) :
    Float → Prop where
  | declarator {stmtSpan span nameSpan : Span} {declarators : Node (.list .declarator)}
      {init : Expr} {earlier : Declarations} {value : Float}
      (held : module.Holds ⟨_, .varStmt stmtSpan .constKind declarators⟩)
      (isDeclarator : .declares span (.bindName nameSpan name) (.present init) ∈
        declarators.toList)
      (isKnown : earlier.constants = known) (folds : earlier.locals.number? init = some value) :
      GivesNumber module known name value

variable {module : Module} {declarations : Declarations} {name : Name} {callable : Callable}
  {value : Float}

/-- The name of a declarator. -/
theorem mem_bindings_of_declares {span nameSpan : Span} {init : Node (.option .expr)}
    (held : module.Holds ⟨_, .declares span (.bindName nameSpan name) init⟩) :
    name ∈ bindings module := by
  have isOwn : Validation.DeclaredIn ⟨_, .declares span (.bindName nameSpan name) init⟩ name :=
    ⟨_, .self, List.mem_singleton_self name⟩
  exact isOwn.mem_bindings held

theorem GivesFunction.mem_bindings (gives : GivesFunction module name callable) :
    name ∈ bindings module := by
  cases gives with
  | stmt held =>
      refine Validation.DeclaredIn.mem_bindings ⟨_, .self, ?_⟩
        (held.inside (.part (.head _) .self))
      exact .tail _ (.head _)
  | declarator held => exact mem_bindings_of_declares held

theorem GivesNumber.mem_bindings {known : List (Name × Float)}
    (gives : GivesNumber module known name value) : name ∈ bindings module := by
  cases gives with
  | declarator held isDeclarator =>
      exact mem_bindings_of_declares (held.inside
        (.part (.head _) (Node.inside_of_mem_toList isDeclarator)))

/-- Declarations that stand in a module, each constant by way of those before it. -/
structure StandIn (module : Module) (declarations : Declarations) : Prop where
  functions : ∀ entry ∈ declarations.functions, GivesFunction module entry.1 entry.2
  constants : ∀ known entry later, declarations.constants = known ++ entry :: later →
    GivesNumber module known entry.1 entry.2

theorem StandIn.addFunction (stand : declarations.StandIn module)
    (gives : GivesFunction module name callable) :
    (declarations.addFunction name callable).StandIn module where
  functions entry isEntry := by
    rcases List.mem_append.mp isEntry with before | same
    · exact stand.functions entry before
    · rw [List.mem_singleton.mp same]
      exact gives
  constants := stand.constants

theorem StandIn.addConstant (stand : declarations.StandIn module)
    (gives : GivesNumber module declarations.constants name value) :
    (declarations.addConstant name value).StandIn module where
  functions := stand.functions
  constants known entry later split := by
    rcases List.eq_nil_or_concat later with rfl | ⟨before, last, rfl⟩
    · obtain ⟨rfl, same⟩ := List.append_inj' split rfl
      cases same
      exact gives
    · rw [List.concat_eq_append, ← List.cons_append, ← List.append_assoc] at split
      exact stand.constants known entry before (List.append_inj' split rfl).1

theorem StandIn.addDeclarator {kind : VarKind} {stmtSpan : Span}
    {declarators : Node (.list .declarator)} (stand : declarations.StandIn module)
    (held : module.Holds ⟨_, .varStmt stmtSpan kind declarators⟩) {declarator : Node .declarator}
    (isDeclarator : declarator ∈ declarators.toList) :
    (declarations.addDeclarator kind declarator).StandIn module := by
  unfold Declarations.addDeclarator
  split
  · split
    · rename_i isFunction
      have inside : Node.Inside _ ⟨_, .varStmt stmtSpan kind declarators⟩ :=
        .part (.head _) (Node.inside_of_mem_toList isDeclarator)
      exact stand.addFunction (.declarator (held.inside inside) isFunction)
    · split
      · rename_i isConst
        subst isConst
        split
        · rename_i folds
          exact stand.addConstant (.declarator held isDeclarator rfl folds)
        · exact stand
      · exact stand
  · exact stand

theorem StandIn.addStmt {stmt : Stmt} (stand : declarations.StandIn module)
    (held : module.Holds ⟨_, stmt⟩) : (declarations.addStmt stmt).StandIn module := by
  unfold Declarations.addStmt
  split
  · exact stand.addFunction (.stmt held)
  · rename_i span kind declarators
    exact List.foldlRecOn declarators.toList (Declarations.addDeclarator kind) stand
      fun _ stand _ isDeclarator => stand.addDeclarator held isDeclarator
  · exact stand

/-- The declarations of a module stand in it. -/
theorem standIn_of (module : Module) : (of module).StandIn module := by
  refine List.foldlRecOn (motive := StandIn module) (module.body.flatMap Node.stmts) addStmt ?_ ?_
  · exact ⟨List.forall_mem_nil _, fun known _ _ split => absurd split (by simp)⟩
  · intro declarations stand stmt isStmt
    obtain ⟨node, held, _, found⟩ := Module.exists_of_mem_visit isStmt
    rw [Node.eq_of_asStmt? (Option.mem_toList.mp found)] at held
    exact stand.addStmt held

/-! ## What an occurrence is taken for -/

variable {α : Type} {declared : List (Name × α)} {text : String} {place : Place} {way : List Nat}

end Declarations

end StopMotion.State
