import StopMotion.Proofs.State.Classify

/-!
# Where bindings come from

The bindings of a module are its declarators of state and of memos at the top of a component's
body, one for each and in source order. What a binding follows says nothing about where it comes
from.
-/

namespace StopMotion.State

open StopMotion.Syntax

/-! ## Declarators of bindings -/

/-- The names that a declarator gives to a piece of state and its setter, or to a memo. -/
def hookNames? : Node .declarator → Option (String × Option String)
  | .declares _ target (.present init) =>
    match target with
    | .bindArray _ elements =>
      if isHookCall init "useState" then
        (elementName? elements.toList 0).map fun name => (name, elementName? elements.toList 1)
      else none
    | .bindName _ name => if isHookCall init "useMemo" then some (name.text, none) else none
    | _ => none
  | _ => none

/-- What a binding says of where it comes from: its component, its names and its declarator. -/
structure Origin where
  component : Option String
  name : String
  setter : Option String
  span : Span
  deriving DecidableEq, Repr

/-- Where a binding comes from. -/
def Binding.origin (binding : Binding) : Origin :=
  ⟨binding.component, binding.name, binding.setter, binding.span⟩

/-- What a declarator of a component declares for it. -/
def Component.origin? (component : Component) (declarator : Node .declarator) : Option Origin :=
  (hookNames? declarator).map fun (name, setter) =>
    ⟨component.name, name, setter, declarator.span⟩

/-- The state and the memos that a component declares at the top of its body. -/
def Component.origins (component : Component) : List Origin :=
  component.declarators.filterMap component.origin?

/-- What a candidate of a component says of where it comes from. -/
def Candidate.origin (component : Component) (candidate : Candidate) : Origin :=
  ⟨component.name, candidate.name, candidate.setter, candidate.span⟩

/-- No call is one of both hooks. -/
theorem isHookCall_useMemo_of_useState {init : Expr} (isState : isHookCall init "useState" = true) :
    isHookCall init "useMemo" = false := by
  unfold isHookCall at isState ⊢
  cases called : calledName? init.bare with
  | none => rfl
  | some name =>
      simp only [called, Bool.or_eq_true, beq_iff_eq] at isState
      rcases isState with rfl | rfl <;> decide

/-- The candidates are the declarators of state and of memos, with the names that they give. -/
theorem origin?_eq (component : Component) (declarator : Node .declarator) :
    component.origin? declarator =
      (candidate? declarator).map (Candidate.origin component) := by
  cases declarator with
  | declares span target init =>
      cases init with
      | absent => rfl
      | present init =>
          unfold Component.origin? hookNames? candidate?
          cases isState : isHookCall init "useState" with
          | true =>
              cases target with
              | bindArray =>
                  simp only [isState, if_true, Option.map_map]
                  rfl
              | _ => simp [isState, isHookCall_useMemo_of_useState isState]
          | false =>
              cases isMemo : isHookCall init "useMemo" <;> cases target <;>
                simp only [isState, isMemo, Bool.false_eq_true, if_false, if_true] <;> rfl

/-! ## Bindings -/

namespace Search

variable (search : Search) (names : List String) (candidate : Candidate) (binding : Binding)

@[simp] theorem origin_memoBinding :
    (search.memoBinding names candidate).origin = candidate.origin search.component := by
  unfold memoBinding
  dsimp only
  split <;> rfl

@[simp] theorem origin_initialBinding :
    (search.initialBinding candidate).origin = candidate.origin search.component := by
  unfold initialBinding
  split <;> rfl

/-- A seed tells nothing about where a binding comes from. -/
@[simp] theorem origin_withSeed (seeds : List SetterCall) (setter : String) :
    (search.withSeed seeds setter binding).origin = binding.origin := by
  unfold withSeed
  dsimp only
  split <;> rfl

/-- Nor does what calls its setter. -/
@[simp] theorem origin_settle (sites : Sites) (setter : String) :
    (search.settle names sites setter binding).origin = binding.origin := by
  unfold settle
  dsimp only
  split
  · rfl
  · split
    · rfl
    · split
      · rfl
      · split <;> rfl

@[simp] theorem origin_stateBinding (sites : Sites) :
    (search.stateBinding names sites candidate).origin = candidate.origin search.component := by
  unfold stateBinding
  dsimp only
  split <;> simp

end Search

/-- The bindings of a component are what it declares, in order. -/
theorem origins_componentBindings (module : Module) (locals : Locals) (timing : Timing)
    (component : Component) :
    (componentBindings module locals timing component).map Binding.origin = component.origins := by
  have declared : component.origins = (candidates component).map (Candidate.origin component) := by
    rw [candidates_eq, List.map_filterMap, Component.origins, funext (origin?_eq component)]
  rw [declared]
  unfold componentBindings
  dsimp only
  split
  · rename_i none
    rw [List.isEmpty_iff.mp none]
    rfl
  · rw [List.map_map]
    refine List.map_congr_left fun candidate _ => ?_
    dsimp only [Function.comp]
    split <;> simp

/-- The bindings of a module are what its components declare, component by component. -/
theorem origins_classify (module : Module) (timing : Timing) :
    (classify module timing).map Binding.origin =
      (components module).flatMap Component.origins := by
  unfold classify
  rw [List.map_flatMap, funext (origins_componentBindings module (Locals.of module) timing)]

/-- A binding is declared by a declarator of a component. -/
theorem exists_of_mem_classify {module : Module} {timing : Timing} {binding : Binding}
    (member : binding ∈ classify module timing) :
    ∃ component ∈ components module, binding.origin ∈ component.origins ∧
      ∃ declarator ∈ component.declarators, binding.span = declarator.span := by
  have isOrigin : binding.origin ∈ (components module).flatMap Component.origins := by
    rw [← origins_classify module timing]
    exact List.mem_map_of_mem member
  obtain ⟨component, isComponent, declares⟩ := List.mem_flatMap.mp isOrigin
  obtain ⟨declarator, isDeclarator, found⟩ := List.mem_filterMap.mp declares
  obtain ⟨names, _, same⟩ := Option.map_eq_some_iff.mp found
  have span := congrArg Origin.span same
  exact ⟨component, isComponent, declares, declarator, isDeclarator, span.symm⟩

/-- What lies in two components that stand one behind the other is in one of them only. -/
theorem eq_of_contains {components : List Component} {span : Span} {first second : Nat}
    {component component' : Component} (ordered : components.Pairwise Component.Before)
    (filled : span.start < span.stop) (isFirst : components[first]? = some component)
    (isSecond : components[second]? = some component')
    (inFirst : component.callable.span.contains span = true)
    (inSecond : component'.callable.span.contains span = true) : first = second := by
  obtain ⟨firstBound, rfl⟩ := List.getElem?_eq_some_iff.mp isFirst
  obtain ⟨secondBound, rfl⟩ := List.getElem?_eq_some_iff.mp isSecond
  have apart := List.pairwise_iff_getElem.mp ordered
  have := Span.contains_iff.mp inFirst
  have := Span.contains_iff.mp inSecond
  rcases Nat.lt_trichotomy first second with before | same | behind
  · have := apart first second firstBound secondBound before
    unfold Component.Before at this
    omega
  · exact same
  · have := apart second first secondBound firstBound behind
    unfold Component.Before at this
    omega

end StopMotion.State
