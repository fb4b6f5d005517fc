import StopMotion.Proofs.Frame.Reads
import StopMotion.Proofs.State.Origin

/-!
# The component of a binding

No two bindings of a module have a stretch in common, and each lies in one component only, which
is the one that declares it and the one that the rewriter finds for it. So the rewriter never
leaves a binding as written for want of a component.
-/

namespace StopMotion.Frame

open StopMotion.Syntax StopMotion.State

/-- A module that is read is laid in its source. -/
theorem laid_of_parse {source : List Char} {module : Module} (read : parse source = .ok module) :
    module.Laid := by
  obtain ⟨isSource, laid⟩ := laid_parse read
  unfold Module.Laid
  rw [isSource]
  exact laid

/-- The components of a scene are those of its module. -/
theorem Scene.components_of (module : Module) (framesPerSecond : Nat) :
    (Scene.of module framesPerSecond).actors.map (·.component) = components module := by
  change ((components module).map _).map _ = _
  rw [List.map_map]
  refine (List.map_congr_left fun component _ => ?_).trans (List.map_id _)
  simp only [Function.comp, Actor.of]
  split <;> rfl

/-- The bindings of a module are the state and the memos that its components declare at the top
of their bodies, one for each declarator and in source order. They have no stretch in common.
Each lies in one component only, which is the one that declares it and the one that the
rewriter finds for it. -/
theorem classify_origins {source : List Char} {module : Module} (timing : Timing)
    (framesPerSecond : Nat) (read : parse source = .ok module) :
    (classify module timing).map Binding.origin =
        (components module).flatMap Component.origins ∧
      ((classify module timing).Pairwise fun first second =>
        first.span.stop ≤ second.span.start) ∧
      ((classify module timing).map (·.span)).Nodup ∧
      ∀ binding ∈ classify module timing, ∃ position component,
        (components module)[position]? = some component ∧ binding.origin ∈ component.origins ∧
        (∀ other component', (components module)[other]? = some component' →
          (component'.callable.span.contains binding.span = true ↔ other = position)) ∧
        (Scene.of module framesPerSecond).actorAt? binding.span = some position := by
  have laid := laid_of_parse read
  have ordered := ordered_components laid
  have filled {binding : Binding} (member : binding ∈ classify module timing) :
      binding.span.start < binding.span.stop := by
    obtain ⟨component, isComponent, _, declarator, isDeclarator, same⟩ :=
      exists_of_mem_classify member
    obtain ⟨node, views, stands⟩ := standsIn_of_mem_components isComponent
    rw [same]
    have held : module.Holds ⟨_, declarator⟩ :=
      (component.inside_declarator views isDeclarator).trans stands
    exact held.region_declarator.filled laid
  refine ⟨origins_classify module timing, ordered_classify laid, ?_, fun binding member => ?_⟩
  · refine List.pairwise_map.mpr ((ordered_classify laid).imp_of_mem
      fun isFirst _ before same => ?_)
    have := filled isFirst
    rw [same] at before
    rw [same] at this
    omega
  · obtain ⟨component, isComponent, declares, declarator, isDeclarator, same⟩ :=
      exists_of_mem_classify member
    have inside : component.callable.span.contains binding.span = true := by
      rw [same]
      exact contains_of_mem_declarators laid isComponent isDeclarator
    have isActor := Scene.components_of module framesPerSecond
    obtain ⟨position, actor, found, atPosition, rfl⟩ :=
      Scene.exists_actorAt? (by rwa [isActor]) (by rwa [isActor]) inside (filled member)
    have isHere : (components module)[position]? = some actor.component := by
      rw [← isActor, List.getElem?_map, atPosition]
      rfl
    refine ⟨position, actor.component, isHere, declares, ?_, found⟩
    intro other component' isOther
    constructor
    · intro holds
      exact eq_of_contains ordered (filled member) isOther isHere holds inside
    · rintro rfl
      rw [isHere] at isOther
      cases isOther
      exact inside

/-- Two components, one of which declares a state and a memo. -/
def originSource : List Char :=
  ("function A() \x7b const [x, setX] = useState(0), y = useMemo(() => x); " ++
    "return <p>\x7by\x7d</p>; \x7d\nfunction B() \x7b return <A/>; \x7d\n").toList

/-- The state and the memo are the bindings of the first component. -/
theorem classify_origins_two : ∃ module, parse originSource = .ok module ∧
    (classify module {}).map Binding.origin =
        [⟨some "A", "x", some "setX", ⟨21, 44⟩⟩, ⟨some "A", "y", none, ⟨46, 66⟩⟩] ∧
      ((classify module {}).map (·.span)).Nodup ∧
      ∀ binding ∈ classify module {}, ∃ position,
        (Scene.of module 30).actorAt? binding.span = some position := by
  have isRead : (parse originSource).toOption.map
      (fun module => (components module).flatMap Component.origins) =
        some [⟨some "A", "x", some "setX", ⟨21, 44⟩⟩, ⟨some "A", "y", none, ⟨46, 66⟩⟩] := by
    -- The characters of a text are written out before it is read: to decode them takes long.
    have spelled : originSource = _ := String.toList_append.trans
      (congr (congrArg (· ++ ·) String.toList_ofList) String.toList_ofList)
    rw [spelled]
    decide +kernel
  cases read : parse originSource with
  | error =>
      rw [read] at isRead
      cases isRead
  | ok module =>
      rw [read] at isRead
      obtain ⟨origins, _, distinct, located⟩ := classify_origins {} 30 read
      refine ⟨module, rfl, origins.trans (Option.some.inj isRead), distinct,
        fun binding member => ?_⟩
      obtain ⟨position, _, _, _, _, found⟩ := located binding member
      exact ⟨position, found⟩

end StopMotion.Frame
