import StopMotion.Proofs.State.Collection
import StopMotion.Proofs.State.Component
import StopMotion.State.Classify

/-!
# Bindings in their module

Every binding stands at a declarator of a component, its first value inside of that, and so
does what a memo evaluates. The bindings of a module stand one behind the other.
-/

namespace StopMotion.State

open StopMotion.Syntax

/-! ## Candidates -/

/-- The arguments of a call stand inside of it. -/
theorem inside_of_bareCall? {expr callee argument : Expr} {arguments : List Expr}
    (call : bareCall? expr = some (callee, arguments)) (member : argument ∈ arguments) :
    Node.Inside ⟨_, argument⟩ ⟨_, expr⟩ := by
  refine Node.Inside.trans ?_ expr.inside_bare
  unfold bareCall? at call
  cases bare : expr.bare with
  | call span callee' arguments' isOptional =>
      rw [bare] at call
      cases call
      exact .part (List.mem_cons_of_mem _ List.mem_cons_self) (Node.inside_of_mem_toList member)
  | _ =>
      rw [bare] at call
      cases call

/-- A candidate is a declarator, and the call that declares it stands inside. -/
theorem spec_of_candidate? {declarator : Node .declarator} {candidate : Candidate}
    (found : candidate? declarator = some candidate) :
    candidate.span = declarator.span ∧ Node.Inside ⟨_, candidate.call⟩ ⟨_, declarator⟩ := by
  cases declarator with
  | declares span target init =>
      cases init with
      | absent => cases found
      | present init =>
          have inside : Node.Inside ⟨_, init⟩
              ⟨_, Node.declares span target (.present init)⟩ :=
            .part (List.mem_cons_of_mem _ List.mem_cons_self) (.part List.mem_cons_self .self)
          simp only [candidate?] at found
          split at found
          · cases target with
            | bindArray span elements =>
                obtain ⟨name, _, rfl⟩ := Option.map_eq_some_iff.mp found
                exact ⟨rfl, inside⟩
            | _ => cases found
          · split at found
            · cases target with
              | bindName =>
                  cases found
                  exact ⟨rfl, inside⟩
              | _ => cases found
            · cases found

/-- The first argument of the call stands inside of the declarator. -/
theorem inside_of_initialValue? {declarator : Node .declarator} {candidate : Candidate}
    {init : Expr} (inside : Node.Inside ⟨_, candidate.call⟩ ⟨_, declarator⟩)
    (found : Search.initialValue? candidate = some init) :
    Node.Inside ⟨_, init⟩ ⟨_, declarator⟩ := by
  obtain ⟨⟨callee, arguments⟩, call, isHead⟩ := Option.bind_eq_some_iff.mp found
  exact (inside_of_bareCall? call (List.mem_of_head? isHead)).trans inside

/-- The candidates of a component are those of its declarators that are one. -/
theorem candidates_eq (component : Component) :
    candidates component = component.declarators.filterMap candidate? := by
  rw [Component.declarators, List.filterMap_flatMap]
  refine congrArg (List.flatMap · _) (funext fun stmt => ?_)
  cases stmt <;> rfl

/-! ## Bindings -/

/-- Where a binding stands: at a declarator of a component, with its first value inside and
with what a memo evaluates. Its records are quoted from the source. -/
structure Binding.Placed (module : Module) (binding : Binding) (declarator : Node .declarator) :
    Prop where
  span : binding.span = declarator.span
  initial : binding.initial.span.isEmpty = true ∨ ∃ init : Expr,
    Node.Inside ⟨_, init⟩ ⟨_, declarator⟩ ∧ binding.initial.span = init.span
  memo : ∀ expr site, binding.rule = .derived expr site → site ≠ .effect → ∃ value : Expr,
    Node.Inside ⟨_, value⟩ ⟨_, declarator⟩ ∧ expr.span = value.span
  quoted : ∀ collection, binding.collection = some collection → collection.Quoted module

namespace Search

variable (search : Search) {candidate : Candidate} {declarator : Node .declarator}

/-- The binding of a memo stands at its declarator. -/
theorem placed_memoBinding {names : List String}
    (found : candidate? declarator = some candidate) :
    (search.memoBinding names candidate).Placed search.module declarator := by
  obtain ⟨span, inside⟩ := spec_of_candidate? found
  unfold memoBinding
  cases init : initialValue? candidate with
  | none =>
      exact ⟨span, .inr ⟨_, inside, rfl⟩, nofun,
        nofun⟩
  | some callback =>
      have within := inside_of_initialValue? inside init
      cases callable : Callable.ofExpr? callback with
      | none =>
          simp only [Option.bind_some, callable]
          exact ⟨span, .inr ⟨_, inside, rfl⟩, nofun,
            nofun⟩
      | some callable' =>
          simp only [Option.bind_some, callable]
          refine ⟨span, .inr ⟨_, inside, rfl⟩, fun expr site derived _ => ?_,
            nofun⟩
          dsimp only at derived
          split at derived
          · rename_i value isValue
            cases derived
            obtain ⟨node, views, stands⟩ := Callable.standsIn_of_ofExpr? callable
            exact ⟨value, ((views.inside_value isValue).trans stands).trans within, rfl⟩
          · cases derived
            exact ⟨callback, within, rfl⟩

/-- What the first value tells about a binding. -/
theorem placed_initialBinding (found : candidate? declarator = some candidate) :
    (search.initialBinding candidate).Placed search.module declarator := by
  obtain ⟨span, inside⟩ := spec_of_candidate? found
  unfold initialBinding
  cases init : initialValue? candidate with
  | none =>
      exact ⟨span, .inl (by simp [blank, Span.isEmpty]), nofun,
        nofun⟩
  | some value =>
      exact ⟨span, .inr ⟨value, inside_of_initialValue? inside init, rfl⟩,
        nofun, fun _ given => quoted_of_collection? given⟩

variable {binding : Binding}

/-- A seed gives a binding a collection only. -/
theorem placed_withSeed {seeds : List SetterCall} {setter : String}
    (placed : binding.Placed search.module declarator) :
    (search.withSeed seeds setter binding).Placed search.module declarator := by
  unfold withSeed
  dsimp only
  split
  · rename_i seeded
    obtain ⟨call, _, isSeed⟩ := Option.bind_eq_some_iff.mp seeded
    obtain ⟨value, _, made⟩ := Option.bind_eq_some_iff.mp isSeed
    refine ⟨placed.span, placed.initial, placed.memo, fun collection given => ?_⟩
    cases given
    exact quoted_of_collection? made
  · exact placed

/-- What makes the calls of its setter gives a binding no memo's rule. -/
theorem placed_settle {names : List String} {sites : Sites} {setter : String}
    (placed : binding.Placed search.module declarator) :
    (search.settle names sites setter binding).Placed search.module declarator := by
  have ruled {rule : Rule} {notes dependsOn : List String}
      (noMemo : ∀ expr site, rule = .derived expr site → site = .effect) :
      ({ binding with rule, notes, dependsOn } : Binding).Placed search.module declarator :=
    ⟨placed.span, placed.initial, fun expr site derived other =>
      absurd (noMemo expr site derived) other, placed.quoted⟩
  unfold settle
  dsimp only
  split
  · apply ruled
    intro expr site derived
    unfold timerRule at derived
    split at derived
    · cases derived
    · split at derived
      · cases derived
      · split at derived <;> cases derived
  · split
    · apply ruled
      intro expr site derived
      unfold effectRule at derived
      split at derived
      · cases derived
      · split at derived
        · cases derived
        · cases derived
          rfl
    · split
      · exact ruled nofun
      · split
        · exact ruled nofun
        · exact placed

/-- The binding of a piece of state stands at its declarator. -/
theorem placed_stateBinding {names : List String} {sites : Sites}
    (found : candidate? declarator = some candidate) :
    (search.stateBinding names sites candidate).Placed search.module declarator := by
  unfold stateBinding
  dsimp only
  split
  · exact search.placed_initialBinding found
  · exact search.placed_settle (search.placed_withSeed (search.placed_initialBinding found))

end Search

/-- The bindings of a component are made of its candidates, one of each. -/
theorem exists_componentBindings_eq (module : Module) (locals : Locals) (timing : Timing)
    (component : Component) :
    ∃ make : Candidate → Binding,
      componentBindings module locals timing component = (candidates component).map make ∧
        ∀ declarator candidate, candidate? declarator = some candidate →
          (make candidate).Placed module declarator := by
  by_cases empty : (candidates component).isEmpty = true
  · let search : Search := ⟨module, locals, timing, component, []⟩
    refine ⟨search.memoBinding [], ?_, fun _ _ found =>
      search.placed_memoBinding found⟩
    rw [componentBindings, if_pos empty, List.isEmpty_iff.mp empty]
    rfl
  · let search : Search :=
      ⟨module, locals, timing, component, (candidates component).filterMap (·.setter)⟩
    refine ⟨fun candidate =>
      if candidate.isMemo then
        search.memoBinding ((candidates component).map (·.name)) candidate
      else search.stateBinding ((candidates component).map (·.name)) search.sites candidate,
      ?_, fun declarator candidate found => ?_⟩
    · rw [componentBindings, if_neg empty]
    · dsimp only
      split
      · exact search.placed_memoBinding found
      · exact search.placed_stateBinding found

variable {module : Module} {timing : Timing} {component : Component}

/-- The declarators of a component lie in its span. -/
theorem contains_of_mem_declarators {declarator : Node .declarator} (laid : module.Laid)
    (isComponent : component ∈ components module)
    (isDeclarator : declarator ∈ component.declarators) :
    component.callable.span.contains declarator.span = true := by
  obtain ⟨node, views, stands⟩ := standsIn_of_mem_components isComponent
  obtain ⟨_, _, shape⟩ := views.outline
  obtain ⟨_, shape'⟩ := declarator.outline_declarator
  exact laid.contains_of_inside stands shape shape' (component.inside_declarator views isDeclarator)

/-- The bindings of a module stand one behind the other. -/
theorem ordered_classify (laid : module.Laid) :
    (classify module timing).Pairwise fun first second => first.span.stop ≤ second.span.start := by
  refine List.pairwise_flatMap.mpr ⟨fun component isComponent => ?_, ?_⟩
  · obtain ⟨make, same, placed⟩ :=
      exists_componentBindings_eq module (Locals.of module) timing component
    obtain ⟨node, views, stands⟩ := standsIn_of_mem_components isComponent
    obtain ⟨_, _, nodeLaid⟩ := stands.outline_part.1 laid
    rw [same, candidates_eq]
    refine List.pairwise_map.mpr (List.pairwise_filterMap.mpr ?_)
    refine (component.ordered_declarators views nodeLaid).imp
      fun before candidate found candidate' found' => ?_
    rw [(placed _ _ found).span, (placed _ _ found').span]
    exact before
  · refine (ordered_components laid).imp_of_mem
      fun isFirst isSecond before binding member other isOther => ?_
    -- A binding lies in its component.
    have within {component : Component} {binding : Binding}
        (isComponent : component ∈ components module)
        (member : binding ∈ componentBindings module (Locals.of module) timing component) :
        component.callable.span.contains binding.span = true := by
      obtain ⟨make, same, placed⟩ :=
        exists_componentBindings_eq module (Locals.of module) timing component
      rw [same, candidates_eq] at member
      obtain ⟨candidate, isCandidate, rfl⟩ := List.mem_map.mp member
      obtain ⟨declarator, isDeclarator, found⟩ := List.mem_filterMap.mp isCandidate
      rw [(placed _ _ found).span]
      exact contains_of_mem_declarators laid isComponent isDeclarator
    have := Span.contains_iff.mp (within isFirst member)
    have := Span.contains_iff.mp (within isSecond isOther)
    unfold Component.Before at before
    omega

end StopMotion.State
