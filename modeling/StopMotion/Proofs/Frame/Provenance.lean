import StopMotion.Proofs.Frame.Clearing
import StopMotion.Proofs.State.Classify
import StopMotion.Proofs.Syntax.Grammar
import StopMotion.Validation.Misuse

/-!
# Where the text of a driven module comes from

The new text is woven from stretches of the source and from the rewriter's own words. No
stretch that is copied has anything in common with an entropy that the validator reports and
the rewriter knows, but for three kinds of values that are moved without a second look: the
value that an effect gives to a setter, a field of a record, and a first value or a memo's
result that an earlier edit takes up as a whole.
-/

namespace StopMotion.Frame

open StopMotion.Syntax StopMotion.State StopMotion.Validation

/-- An expression of a module that the validator reports as chance, a clock or a timer, and
that the rewriter does not pass over. -/
def Residual (module : Module) (expr : Expr) : Prop :=
  expr ∈ module.body.flatMap Node.exprs ∧ isPassedOver expr = false ∧
    ∃ problem, exprProblem? (CounterCalls.of module) expr = some problem ∧
      isResidual problem = true

namespace Scene

variable {scene : Scene} {bindings : List Binding}

/-- The values of bindings in which entropy may be left. -/
def LeftOut (scene : Scene) (bindings : List Binding) (span : Span) : Prop :=
  ∃ binding ∈ bindings, ∃ outer : Span, outer.contains span = true ∧
    ((∃ text, binding.rule = .derived ⟨outer, text⟩ .effect) ∨
      (∃ collection fields, binding.collection = some collection ∧
        collection.element = .record fields ∧ ∃ field ∈ fields, field.value.span = outer) ∨
      ((outer = binding.initial.span ∨
        ∃ text site, binding.rule = .derived ⟨outer, text⟩ site) ∧ TakenUp scene.clearings outer))

/-- A stretch of the source that has nothing in common with a residual, or is left out. -/
def Spared (scene : Scene) (bindings : List Binding) (span : Span) : Prop :=
  (∀ expr, Residual scene.module expr → expr.span.Apart span) ∨ scene.LeftOut bindings span

/-- The names and phrases that the rewriter writes besides the words of its expressions. -/
inductive Writes (scene : Scene) (bindings : List Binding) : String → Prop where
  | counter {actor : Actor} (isActor : actor ∈ scene.actors) : Writes scene bindings actor.counter
  | seeded : Writes scene bindings scene.seeded
  | index {part : Counted} (isPart : part ∈ countedParts scene.module) :
      Writes scene bindings part.index
  | item {binding : Binding} {collection : Collection} (isBinding : binding ∈ bindings)
      (given : binding.collection = some collection) :
      Writes scene bindings (collection.index.getD "i")
  | called {name : String} (isFunction : (scene.locals.function? name).isSome = true) :
      Writes scene bindings name
  | binder {binding : Binding} (isBinding : binding ∈ bindings) :
      Writes scene bindings (binding.name ++ " = ")
  | stub {binding : Binding} {setter : String} (isBinding : binding ∈ bindings)
      (isSetter : binding.setter = some setter) :
      Writes scene bindings (", " ++ setter ++ " = (..._args: unknown[]) => \x7b\x7d")
  | counterDeclaration {actor : Actor} (isActor : actor ∈ scene.actors) :
      Writes scene bindings ("const " ++ actor.counter ++ " = useCurrentFrame();")
  | hookImport : Writes scene bindings "import \x7b useCurrentFrame \x7d from 'remotion';\n"
  | helper : Writes scene bindings ("\nconst " ++ scene.seeded ++ " = " ++ seededHelper ++ "\n")
  | defaultExport {component : Component} {name : String}
      (isComponent : component ∈ scene.actors.map (·.component))
      (named : component.name = some name) :
      Writes scene bindings ("\nexport default " ++ name ++ ";\n")
  | bracket {text : String}
      (fixed : text ∈ ["\n", "\n\n", "\x7b\n", "  return ", ";\n", "\x7d"]) :
      Writes scene bindings text

/-- A text of the rewriter's words and of what is spared. -/
def Clean (scene : Scene) (bindings : List Binding) (text : String) : Prop :=
  Worded scene.module.source (scene.Spared bindings) (scene.Writes bindings) text

/-- What is known of a change while the bindings are gone through: it makes all clearings, and
every edit takes up a region and puts in a clean text. -/
structure Sound (scene : Scene) (bindings : List Binding) (change : Change) : Prop where
  cleared : ∀ edit ∈ scene.clearings, edit ∈ change.edits
  regions : ∀ edit ∈ change.edits, scene.module.Region edit.span
  texts : ∀ edit ∈ change.edits, scene.Clean bindings edit.text

/-- A residual is taken up. -/
theorem takenUp_of_residual {expr : Expr} (laid : scene.module.Laid)
    (residual : Residual scene.module expr) : TakenUp scene.clearings expr.span := by
  obtain ⟨member, known, problem, found, isResidual⟩ := residual
  exact takenUp_of_entropy? laid (Module.mem_exprs_iff.mp member)
    (isSome_entropy?_of_problem found isResidual known)

/-- Edits of regions do not cut one another in two. -/
theorem nested_of_regions {edits : List Edit} (laid : scene.module.Laid)
    (regions : ∀ edit ∈ edits, scene.module.Region edit.span) : Edit.Nested edits where
  ordered := fun edit member => Nat.le_of_lt ((regions edit member).filled laid)
  nests := fun first isFirst second isSecond _ _ =>
    (regions first isFirst).nests laid (regions second isSecond)

/-- What is copied in a region between edits that make all clearings has nothing in common
with a residual, if no clearing takes up the region as a whole. -/
theorem apart_of_residual {expr : Expr} {range span : Span} {edits : List Edit}
    (laid : scene.module.Laid) (cleared : ∀ edit ∈ scene.clearings, edit ∈ edits)
    (region : scene.module.Region range) (free : ¬TakenUp scene.clearings range)
    (inside : range.contains span = true)
    (apart : ∀ edit ∈ edits, edit.isInsertion = false → range.contains edit.span = true →
      Edit.isInner range edit = true → edit.span.Apart span)
    (residual : Residual scene.module expr) : expr.span.Apart span := by
  obtain ⟨edit, member, replaces, contains⟩ := takenUp_of_residual laid residual
  refine Span.Apart.of_contains ?_ contains
  rcases (region_of_mem_clearings laid member).nests laid region with beside | around | within
  · exact (beside.symm.of_contains inside).symm
  · exact absurd ⟨edit, member, replaces, around⟩ free
  · apply apart edit (cleared edit member) replaces within
    by_cases same : edit.span = range
    · exact absurd ⟨edit, member, replaces, by rw [same]; exact Span.contains_refl _⟩ free
    · simp [Edit.isInner, same, replaces]

/-- A value that a binding moves is clean with the edits strictly inside it. -/
theorem Sound.clean_render {change : Change} {binding : Binding} {range : Span}
    (sound : scene.Sound bindings change) (laid : scene.module.Laid)
    (isBinding : binding ∈ bindings) (region : scene.module.Region range)
    (isValue : range = binding.initial.span ∨
      ∃ text site, binding.rule = .derived ⟨range, text⟩ site) :
    scene.Clean bindings (Edit.render change.edits scene.module.source range) := by
  unfold Clean Worded
  rw [Edit.render, String.toList_ofList]
  refine Edit.woven_spliced (nested_of_regions laid sound.regions) (fun span inside apart => ?_)
    fun edit member _ _ => sound.texts edit member
  by_cases taken : TakenUp scene.clearings range
  · exact .inr ⟨binding, isBinding, range, inside, .inr (.inr ⟨isValue, taken⟩)⟩
  · exact .inl fun expr residual =>
      apart_of_residual laid sound.cleared region taken inside apart residual

/-- The value that an effect gives is left out. -/
theorem Sound.clean_effect {change : Change} {binding : Binding} {expr : Slice}
    (sound : scene.Sound bindings change) (laid : scene.module.Laid)
    (isBinding : binding ∈ bindings) (rule : binding.rule = .derived expr .effect) :
    scene.Clean bindings (Edit.render change.edits scene.module.source expr.span) := by
  unfold Clean Worded
  rw [Edit.render, String.toList_ofList]
  exact Edit.woven_spliced (nested_of_regions laid sound.regions)
    (fun span inside _ => .inr ⟨binding, isBinding, expr.span, inside, .inl ⟨expr.text, rule⟩⟩)
    fun edit member _ _ => sound.texts edit member

/-- What a sound change allows a binding to say. -/
theorem Sound.allows {change : Change} {binding : Binding} {declarator : Node .declarator}
    (sound : scene.Sound bindings change) (laid : scene.module.Laid)
    (isBinding : binding ∈ bindings) (held : scene.module.Holds ⟨_, declarator⟩)
    (placed : binding.Placed scene.module declarator) :
    scene.Allows change.edits binding (scene.Spared bindings) (scene.Writes bindings) where
  initial := fun init found => by
    obtain ⟨initHeld, same⟩ := spec_of_exprAt? found
    refine sound.clean_render laid isBinding ?_ (.inl rfl)
    rw [← same]
    exact initHeld.region_expr
  derived := fun expr site rule => by
    by_cases isEffect : site = .effect
    · subst isEffect
      exact sound.clean_effect laid isBinding rule
    · obtain ⟨value, inside, same⟩ := placed.memo expr site rule isEffect
      refine sound.clean_render laid isBinding ?_ (.inr ⟨expr.text, site, rule⟩)
      rw [same]
      exact (held.inside inside).region_expr
  quoted := placed.quoted
  copied := fun collection fields given isRecord field isField span inside =>
    .inr ⟨binding, isBinding, field.value.span, inside,
      .inr (.inl ⟨collection, fields, given, isRecord, field, isField, rfl⟩)⟩
  seeded := .seeded
  item := fun collection given => .item isBinding given
  called := fun _ name _ _ isFunction => .called isFunction

/-- The declarator of a binding is replaced by a clean text. -/
theorem clean_bind {edits : List Edit} {binding : Binding} {expression : String}
    {note : Option String} {edit : Edit} (isBinding : binding ∈ bindings)
    (worded : scene.Clean bindings expression)
    (member : edit ∈ (scene.bind edits binding expression note).edits) :
    edit.span = binding.span ∧ scene.Clean bindings edit.text := by
  obtain rfl := List.mem_singleton.mp member
  have binder : scene.Clean bindings (binding.name ++ " = ") := .name (.binder isBinding)
  refine ⟨rfl, (binder.join worded).join ?_⟩
  cases isSetter : binding.setter with
  | none => exact .nothing
  | some setter =>
      dsimp only
      split
      · exact .name (.stub isBinding isSetter)
      · exact .nothing

/-- A binding adds to a sound change what leaves it sound. -/
theorem Sound.step {change : Change} {binding : Binding} {declarator : Node .declarator}
    (sound : scene.Sound bindings change) (laid : scene.module.Laid)
    (isBinding : binding ∈ bindings) (held : scene.module.Holds ⟨_, declarator⟩)
    (placed : binding.Placed scene.module declarator) :
    scene.Sound bindings (change ++ scene.bindingChange change.edits binding) := by
  have added : ∀ edit ∈ (scene.bindingChange change.edits binding).edits,
      edit.span = binding.span ∧ scene.Clean bindings edit.text := by
    have binds := (sound.allows laid isBinding held placed).binds_bindingChange laid
      fun position actor _ isActor _ => .counter (List.mem_of_getElem? isActor)
    intro edit member
    rcases binds with ⟨nothing, _⟩ | ⟨expression, note, worded, bound, _⟩
    · rw [nothing] at member
      cases member
    · rw [bound] at member
      exact clean_bind isBinding worded member
  refine ⟨fun edit member => List.mem_append_left _ (sound.cleared edit member),
    fun edit member => ?_, fun edit member => ?_⟩
  · rcases List.mem_append.mp member with before | isAdded
    · exact sound.regions edit before
    · rw [(added edit isAdded).1, placed.span]
      exact held.region_declarator
  · rcases List.mem_append.mp member with before | isAdded
    · exact sound.texts edit before
    · exact (added edit isAdded).2

/-- The bindings leave a sound change sound. -/
theorem Sound.bindingChanges {change : Change} {rest : List Binding} (laid : scene.module.Laid)
    (among : ∀ binding ∈ rest, binding ∈ bindings)
    (placed : ∀ binding ∈ rest, ∃ declarator : Node .declarator,
      scene.module.Holds ⟨_, declarator⟩ ∧ binding.Placed scene.module declarator)
    (sound : scene.Sound bindings change) :
    scene.Sound bindings (scene.bindingChanges change rest) := by
  induction rest generalizing change with
  | nil => exact sound
  | cons binding rest inductionHypothesis =>
      obtain ⟨declarator, held, isPlaced⟩ := placed binding (by simp)
      exact inductionHypothesis (fun other member => among other (by simp [member]))
        (fun other member => placed other (by simp [member]))
        (sound.step laid (among binding (by simp)) held isPlaced)

/-- An edit that puts in a clean text and replaces nothing. -/
def Declares (scene : Scene) (bindings : List Binding) (edit : Edit) : Prop :=
  edit.isInsertion = true ∧ edit.span.start ≤ edit.span.stop ∧ scene.Clean bindings edit.text

theorem declares_insertion {offset : Nat} {text : String} (clean : scene.Clean bindings text) :
    scene.Declares bindings (.insertion offset text) :=
  ⟨by simp [Edit.isInsertion, Edit.insertion, Span.point], Nat.le_refl _, clean⟩

/-- A bracket around what is declared. -/
theorem clean_bracket {text : String}
    (fixed : text ∈ ["\n", "\n\n", "\x7b\n", "  return ", ";\n", "\x7d"]) :
    scene.Clean bindings text :=
  .name (.bracket fixed)

theorem declares_of_mem_counterEdits {actor : Actor} {edit : Edit}
    (isActor : actor ∈ scene.actors) (member : edit ∈ scene.counterEdits actor) :
    scene.Declares bindings edit := by
  have declaration : scene.Clean bindings ("const " ++ actor.counter ++ " = useCurrentFrame();") :=
    .name (.counterDeclaration isActor)
  have indent (offset : Nat) : scene.Clean bindings (Text.indentAt scene.module.source offset) :=
    .said (.indent offset)
  have gap : scene.Clean bindings "  " := .sign (by decide)
  unfold counterEdits at member
  dsimp only at member
  split at member
  · obtain rfl := List.mem_singleton.mp member
    refine declares_insertion (((clean_bracket (by decide)).join ?_).join declaration)
    split
    · exact indent _
    · exact (indent _).join gap
  · rename_i value _
    simp only [List.mem_cons, List.not_mem_nil, or_false] at member
    rcases member with rfl | rfl
    · exact declares_insertion (((((((clean_bracket (by decide)).join (indent _)).join gap).join
        declaration).join (clean_bracket (by decide))).join (indent _)).join
        (clean_bracket (by decide)))
    · exact declares_insertion (((clean_bracket (by decide)).join (indent _)).join
        (clean_bracket (by decide)))

theorem declares_of_placed {prelude : String} {edit : Edit} (clean : scene.Clean bindings prelude)
    (member : edit ∈ if prelude.toList.isEmpty = true then []
      else match scene.module.body.reverse.find? isImport with
        | some stmt => [Edit.insertion stmt.span.stop
            ("\n" ++ String.ofList (Text.trimEnd prelude.toList))]
        | none => [Edit.insertion 0 (String.ofList (Text.trim prelude.toList) ++ "\n\n")]) :
    scene.Declares bindings edit := by
  split at member
  · cases member
  · split at member
    · obtain rfl := List.mem_singleton.mp member
      refine declares_insertion ((clean_bracket (by decide)).join ?_)
      rw [Worded, String.toList_ofList]
      exact .trimmedEnd clean
    · obtain rfl := List.mem_singleton.mp member
      exact declares_insertion (clean.trimmed.join (clean_bracket (by decide)))

theorem declares_of_mem_preludeEdits {needsHook draws : Bool} {edit : Edit}
    (member : edit ∈ scene.preludeEdits needsHook draws) : scene.Declares bindings edit := by
  have hook : scene.Clean bindings (if needsHook && !scene.module.body.any importsHook then
      "import \x7b useCurrentFrame \x7d from 'remotion';\n" else "") := by
    split
    · exact .name .hookImport
    · exact .nothing
  have helper : scene.Clean bindings (if draws then
      "\nconst " ++ scene.seeded ++ " = " ++ seededHelper ++ "\n" else "") := by
    split
    · exact .name .helper
    · exact .nothing
  exact declares_of_placed (hook.join helper) member

theorem declares_of_mem_exportEdits {edit : Edit} (member : edit ∈ scene.exportEdits) :
    scene.Declares bindings edit := by
  unfold exportEdits at member
  dsimp only at member
  split at member
  · rename_i name _ named
    obtain rfl := List.mem_singleton.mp member
    obtain ⟨component, isMain, named⟩ := Option.bind_eq_some_iff.mp named
    have isComponent : component ∈ scene.actors.map (·.component) := by
      unfold primary? at isMain
      cases found : (scene.actors.map (·.component)).find? (·.isDefault) with
      | some default =>
          rw [found] at isMain
          cases isMain
          exact List.mem_of_find?_eq_some found
      | none =>
          rw [found] at isMain
          exact List.mem_of_head? isMain
    have declaration : scene.Clean bindings ("\nexport default " ++ name ++ ";\n") :=
      .name (.defaultExport isComponent named)
    have regroup (first second third fourth : String) :
        first ++ second ++ third ++ fourth = first ++ (second ++ third ++ fourth) := by
      simp only [String.append_assoc]
    rw [regroup]
    refine declares_insertion (Worded.join ?_ declaration)
    split
    · exact .nothing
    · exact clean_bracket (by decide)
  · cases member

/-- All declarations are clean insertions. -/
theorem declares_of_mem_declarations {change : Change} {edit : Edit}
    (member : edit ∈ scene.declarations change) : scene.Declares bindings edit := by
  unfold declarations at member
  dsimp only at member
  rcases List.mem_append.mp member with front | exports
  · rcases List.mem_append.mp front with counters | prelude
    · obtain ⟨actor, isUndeclared, isEdit⟩ := List.mem_flatMap.mp counters
      refine declares_of_mem_counterEdits ?_ isEdit
      obtain ⟨⟨position, other⟩, isIndexed, same⟩ := List.mem_filterMap.mp isUndeclared
      obtain ⟨_, inList, isOther⟩ := List.mem_mapIdx.mp isIndexed
      cases isOther
      dsimp only at same
      split at same <;> cases same
      exact List.getElem_mem inList
    · exact declares_of_mem_preludeEdits prelude
  · exact declares_of_mem_exportEdits exports

/-! ## The whole -/

end Scene

end StopMotion.Frame
