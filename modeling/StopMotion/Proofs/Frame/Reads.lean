import StopMotion.Proofs.Frame.Clearing
import StopMotion.Proofs.State.Classify
import StopMotion.Proofs.Syntax.Grammar
import StopMotion.Validation.Report

/-!
# What the rewritten names read

A name that is rewritten is bound to an expression over its own declarator and, but for the
records of a generated collection, nothing else of the source: what it reads there it read
before. The rewriter adds the frame counter of the component, which is declared before every
statement, the seeded draw and indices. A value that an effect gave to a setter is moved to
the declarator as it stands, and is left out here.
-/

namespace StopMotion.Frame

open StopMotion.Syntax StopMotion.State

/-! ## Components by place -/

/-- A component holds whatever lies in what it holds. -/
theorem Scene.actorAt?_of_contains {scene : Scene} {outer inner : Span} {position : Nat}
    (ordered : (scene.actors.map (·.component)).Pairwise Component.Before)
    (found : scene.actorAt? outer = some position) (inside : outer.contains inner = true)
    (filled : inner.start < inner.stop) : scene.actorAt? inner = some position := by
  obtain ⟨inBounds, contains, _⟩ := List.findIdx?_eq_some_iff_getElem.mp found
  refine List.findIdx?_eq_some_iff_getElem.mpr
    ⟨inBounds, Span.contains_trans contains inside, fun earlier isEarlier holds => ?_⟩
  have before := List.pairwise_iff_getElem.mp (List.pairwise_map.mp ordered) earlier position
    (by omega) inBounds isEarlier
  have := Span.contains_iff.mp holds
  have := Span.contains_iff.mp (Span.contains_trans contains inside)
  unfold Component.Before at before
  unfold Actor.span at *
  omega

/-- What lies in a component is found in that component. -/
theorem Scene.exists_actorAt? {scene : Scene} {component : Component} {span : Span}
    (ordered : (scene.actors.map (·.component)).Pairwise Component.Before)
    (isComponent : component ∈ scene.actors.map (·.component))
    (inside : component.callable.span.contains span = true) (filled : span.start < span.stop) :
    ∃ position actor, scene.actorAt? span = some position ∧
      scene.actors[position]? = some actor ∧ actor.component = component := by
  obtain ⟨actor, isActor, rfl⟩ := List.mem_map.mp isComponent
  obtain ⟨position, inBounds, same⟩ := List.getElem_of_mem isActor
  refine ⟨position, actor, ?_, by rw [List.getElem?_eq_getElem inBounds, same], rfl⟩
  refine List.findIdx?_eq_some_iff_getElem.mpr
    ⟨inBounds, by rw [same]; exact inside, fun earlier isEarlier holds => ?_⟩
  have before := List.pairwise_iff_getElem.mp (List.pairwise_map.mp ordered) earlier position
    (by omega) inBounds isEarlier
  rw [same] at before
  have := Span.contains_iff.mp holds
  have := Span.contains_iff.mp inside
  unfold Component.Before at before
  unfold Actor.span at *
  omega

/-! ## What a binding may read -/

/-- The part of the source that is a binding's own: its declarator, and the values of the
records that its first value generates. -/
def OwnStretch (binding : Binding) (span : Span) : Prop :=
  binding.span.contains span = true ∨
    ∃ collection fields, binding.collection = some collection ∧
      collection.element = .record fields ∧ ∃ field ∈ fields,
        field.value.span.contains span = true

/-- The names that the rewriter adds for a binding: the counter of the component, where that
is read, the seeded draw, the index of an iteration around something in the declarator, the
index of a generated record, and the function that is the first value. -/
inductive Scene.OwnName (scene : Scene) (binding : Binding) (framed : List Nat) :
    String → Prop where
  | counter {position : Nat} {actor : Actor} (found : scene.actorAt? binding.span = some position)
      (isActor : scene.actors[position]? = some actor) (isFramed : position ∈ framed) :
      OwnName scene binding framed actor.counter
  | seeded : OwnName scene binding framed scene.seeded
  | index {part : Counted} {inner : Span} (isPart : part ∈ countedParts scene.module)
      (around : part.span.contains inner = true)
      (inside : binding.span.contains inner = true) : OwnName scene binding framed part.index
  | item {collection : Collection} (given : binding.collection = some collection) :
      OwnName scene binding framed (collection.index.getD "i")
  | called {init : Expr} {name : String}
      (isInitial : scene.exprAt? binding.initial.span = some init)
      (isName : init.bare.name? = some name) : OwnName scene binding framed name

/-- An expression over a binding's own part of the source and the names added for it. -/
def Scene.ReadsOwn (scene : Scene) (binding : Binding) (framed : List Nat) (text : String) :
    Prop :=
  Worded scene.module.source (OwnStretch binding) (scene.OwnName binding framed) text

/-- Whether a binding takes its value from an effect. -/
def FromEffect (binding : Binding) : Prop :=
  ∃ value, binding.rule = .derived value .effect

namespace Scene

variable {scene : Scene} {binding : Binding} {declarator : Node .declarator}
  {framed framed' : List Nat}

theorem OwnName.mono {name : String} (own : scene.OwnName binding framed name)
    (more : ∀ position ∈ framed, position ∈ framed') : scene.OwnName binding framed' name := by
  cases own with
  | counter found isActor isFramed => exact .counter found isActor (more _ isFramed)
  | seeded => exact .seeded
  | index isPart around inside => exact .index isPart around inside
  | item given => exact .item given
  | called isInitial isName => exact .called isInitial isName

/-- Edits outside of a range leave its text as it is. -/
theorem render_append_outside {edits others : List Edit} {source : List Char} {range : Span}
    (outside : ∀ edit ∈ others, range.contains edit.span = false) :
    Edit.render (edits ++ others) source range = Edit.render edits source range := by
  have none : others.filter (fun edit => range.contains edit.span && Edit.isInner range edit) =
      [] :=
    List.filter_eq_nil_iff.mpr fun edit member => by simp [outside edit member]
  unfold Edit.render Edit.spliced
  dsimp only
  rw [List.filter_append, none, List.append_nil]

/-- A value inside of the declarator, with what is cleared in it, reads what is the binding's
own. -/
theorem readsOwn_render {value : Expr}
    (laid : scene.module.Laid)
    (ordered : (scene.actors.map (·.component)).Pairwise Component.Before)
    (held : scene.module.Holds ⟨_, declarator⟩) (span : binding.span = declarator.span)
    (inside : Node.Inside ⟨_, value⟩ ⟨_, declarator⟩)
    (found : ∃ position, scene.actorAt? binding.span = some position)
    (timed : ∀ position ∈ scene.clearedChange.framed, position ∈ framed) :
    scene.ReadsOwn binding framed
      (Edit.render scene.clearings scene.module.source value.span) := by
  have within : binding.span.contains value.span = true := by
    obtain ⟨_, shape⟩ := declarator.outline_declarator
    obtain ⟨_, shape'⟩ := value.outline_expr
    rw [span]
    exact laid.contains_of_inside held shape shape' inside
  have region {edit : Edit} (member : edit ∈ scene.clearings) : scene.module.Region edit.span :=
    region_of_mem_clearings laid member
  unfold ReadsOwn Worded
  rw [Edit.render, String.toList_ofList]
  refine Edit.woven_spliced ⟨fun edit member => Nat.le_of_lt ((region member).filled laid),
    fun first isFirst second isSecond _ _ => (region isFirst).nests laid (region isSecond)⟩
    (fun stretch inValue _ => .inl (Span.contains_trans within inValue))
    fun edit member inValue _ => ?_
  have inBinding := Span.contains_trans within inValue
  refine worded_of_mem_clearings laid member .seeded
    (fun part isPart around => .index isPart around inBinding)
    fun site isSite same isTimed position actor isAt isActor => ?_
  -- The component around the site is the one around the declarator.
  obtain ⟨around, isAround⟩ := found
  have again : scene.actorAt? site.span = some around := by
    rw [same]
    exact actorAt?_of_contains ordered isAround inBinding ((region member).filled laid)
  rw [isAt] at again
  cases again
  exact .counter isAround isActor (timed _ (framed_clearedChange isSite isTimed isAt))

/-- What is known of the change while the bindings are gone through: the edits besides the
clearings take up the declarators of bindings that are done, and what is bound for those
reads their own, but for values from effects. -/
structure Progress (scene : Scene) (done : List Binding) (change : Change) : Prop where
  edits : ∃ made, change.edits = scene.clearings ++ made ∧
    ∀ edit ∈ made, ∃ binding ∈ done, edit.span = binding.span
  timed : ∀ position ∈ scene.clearedChange.framed, position ∈ change.framed
  reads : ∀ substitution ∈ change.substitutions, ∃ binding ∈ done,
    substitution.name = binding.name ∧
      (FromEffect binding ∨ scene.ReadsOwn binding change.framed substitution.expression)

/-- What is the binding's own allows it to say all that it says without an effect. -/
theorem Progress.allows {done : List Binding} {change : Change}
    (progress : scene.Progress done change) (laid : scene.module.Laid)
    (ordered : (scene.actors.map (·.component)).Pairwise Component.Before)
    (held : scene.module.Holds ⟨_, declarator⟩)
    (placed : binding.Placed scene.module declarator)
    (found : ∃ position, scene.actorAt? binding.span = some position)
    (before : ∀ earlier ∈ done, earlier.span.stop ≤ binding.span.start)
    (places : ∀ earlier ∈ done, earlier.span.start < earlier.span.stop)
    (more : ∀ position ∈ change.framed, position ∈ framed) (notEffect : ¬FromEffect binding) :
    scene.Allows change.edits binding (OwnStretch binding) (scene.OwnName binding framed) := by
  obtain ⟨made, isMade, spans⟩ := progress.edits
  have value {value : Expr} (inside : Node.Inside ⟨_, value⟩ ⟨_, declarator⟩) :
      scene.ReadsOwn binding framed
        (Edit.render change.edits scene.module.source value.span) := by
    rw [isMade, render_append_outside fun edit member => ?_]
    · exact readsOwn_render laid ordered held placed.span inside found
        fun position isTimed => more _ (progress.timed _ isTimed)
    · obtain ⟨earlier, isDone, same⟩ := spans edit member
      obtain ⟨_, shape⟩ := declarator.outline_declarator
      obtain ⟨_, shape'⟩ := value.outline_expr
      have within := Span.contains_iff.mp (laid.contains_of_inside held shape shape' inside)
      have apart := before earlier isDone
      have filled := places earlier isDone
      rw [placed.span] at apart
      rw [same]
      apply Bool.eq_false_iff.mpr
      intro contains
      have := Span.contains_iff.mp contains
      omega
  refine
    { initial := fun init isInit => ?_
      derived := fun expr site rule => ?_
      quoted := placed.quoted
      copied := fun collection fields given isRecord field isField span inside =>
        .inr ⟨collection, fields, given, isRecord, field, isField, inside⟩
      seeded := .seeded
      item := fun collection given => .item given
      called := fun init name isInit isName _ => .called isInit isName }
  · rcases placed.initial with empty | ⟨init', inside, same⟩
    · rw [exprAt?, if_pos empty] at isInit
      cases isInit
    · rw [same]
      exact value inside
  · by_cases isEffect : site = .effect
    · subst isEffect
      exact absurd ⟨expr, rule⟩ notEffect
    · obtain ⟨value', inside, same⟩ := placed.memo expr site rule isEffect
      rw [same]
      exact value inside

/-- Whatever may be copied and said allows a binding everything. -/
theorem allows_all {edits : List Edit} (placed : binding.Placed scene.module declarator) :
    scene.Allows edits binding (fun _ => True) (fun _ => True) where
  initial := fun _ _ => .name trivial
  derived := fun _ _ _ => .name trivial
  quoted := placed.quoted
  copied := fun _ _ _ _ _ _ _ _ => trivial
  seeded := trivial
  item := fun _ _ => trivial
  called := fun _ _ _ _ _ => trivial

/-- A binding adds to the change what keeps to the progress made. -/
theorem Progress.step {done : List Binding} {change : Change}
    (progress : scene.Progress done change) (laid : scene.module.Laid)
    (ordered : (scene.actors.map (·.component)).Pairwise Component.Before)
    (held : scene.module.Holds ⟨_, declarator⟩)
    (placed : binding.Placed scene.module declarator)
    (found : ∃ position, scene.actorAt? binding.span = some position)
    (before : ∀ earlier ∈ done, earlier.span.stop ≤ binding.span.start)
    (places : ∀ earlier ∈ done, earlier.span.start < earlier.span.stop) :
    scene.Progress (done ++ [binding]) (change ++ scene.bindingChange change.edits binding) := by
  let added := scene.bindingChange change.edits binding
  let framed := (change ++ added).framed
  have frames : ∀ position ∈ change.framed, position ∈ framed := fun _ =>
    List.mem_append_left _
  have binds : Change.Binds scene change.edits binding
      (fun text => FromEffect binding ∨ scene.ReadsOwn binding framed text) added := by
    have weaken {worded worded' : String → Prop} (stronger : ∀ text, worded text → worded' text)
        (binds : Change.Binds scene change.edits binding worded added) :
        Change.Binds scene change.edits binding worded' added :=
      binds.imp id fun ⟨expression, note, isWorded, bound⟩ =>
        ⟨expression, note, stronger _ isWorded, bound⟩
    by_cases isEffect : FromEffect binding
    · exact weaken (fun _ _ => .inl isEffect)
        ((allows_all placed).binds_bindingChange laid fun _ _ _ _ _ => trivial)
    · refine weaken (fun _ => .inr) ((progress.allows laid ordered held placed found before places
        frames isEffect).binds_bindingChange laid fun position actor isAt isActor isFramed => ?_)
      exact .counter isAt isActor (List.mem_append_right _ isFramed)
  obtain ⟨made, isMade, spans⟩ := progress.edits
  have earlier {substitution : Substitution} (member : substitution ∈ change.substitutions) :
      ∃ binding' ∈ done ++ [binding], substitution.name = binding'.name ∧
        (FromEffect binding' ∨ scene.ReadsOwn binding' framed substitution.expression) := by
    obtain ⟨binding', isDone, name, reads⟩ := progress.reads substitution member
    exact ⟨binding', List.mem_append_left _ isDone, name, reads.imp id fun own =>
      own.mono (fun _ => id) fun _ isOwn => isOwn.mono frames⟩
  refine ⟨⟨made ++ added.edits, ?_, fun edit member => ?_⟩,
    fun position isTimed => frames _ (progress.timed position isTimed),
    fun substitution member => ?_⟩
  · rw [← List.append_assoc, ← isMade]
    rfl
  · rcases List.mem_append.mp member with isOld | isNew
    · obtain ⟨binding', isDone, same⟩ := spans edit isOld
      exact ⟨binding', List.mem_append_left _ isDone, same⟩
    · refine ⟨binding, by simp, ?_⟩
      rcases binds with ⟨nothing, _⟩ | ⟨expression, note, _, bound, _⟩
      · rw [nothing] at isNew
        cases isNew
      · rw [bound] at isNew
        rw [List.mem_singleton.mp isNew]
  · rcases List.mem_append.mp member with isOld | isNew
    · exact earlier isOld
    · rcases binds with ⟨_, nothing⟩ | ⟨expression, note, reads, _, bound⟩
      · rw [nothing] at isNew
        cases isNew
      · rw [bound] at isNew
        rw [List.mem_singleton.mp isNew]
        exact ⟨binding, by simp, rfl, reads⟩

/-- Where a binding stands: at a declarator of the module, inside of a component. -/
def Stands (scene : Scene) (binding : Binding) : Prop :=
  ∃ declarator : Node .declarator, scene.module.Holds ⟨_, declarator⟩ ∧
    binding.Placed scene.module declarator ∧
    ∃ position, scene.actorAt? binding.span = some position

/-- The progress made over all bindings, one behind the other. -/
theorem Progress.bindingChanges {done : List Binding} {change : Change}
    (progress : scene.Progress done change) (rest : List Binding) (laid : scene.module.Laid)
    (ordered : (scene.actors.map (·.component)).Pairwise Component.Before)
    (stands : ∀ binding ∈ done ++ rest, scene.Stands binding)
    (sorted : (done ++ rest).Pairwise fun first second => first.span.stop ≤ second.span.start) :
    scene.Progress (done ++ rest) (scene.bindingChanges change rest) := by
  induction rest generalizing done change with
  | nil =>
      rw [List.append_nil]
      exact progress
  | cons binding rest inductionHypothesis =>
      obtain ⟨declarator, held, placed, found⟩ := stands binding (by simp)
      have before : ∀ earlier ∈ done, earlier.span.stop ≤ binding.span.start :=
        fun earlier isDone => (List.pairwise_append.mp sorted).2.2 earlier isDone binding (by simp)
      have places : ∀ earlier ∈ done, earlier.span.start < earlier.span.stop := by
        intro earlier isDone
        obtain ⟨declarator', held', placed', _⟩ := stands earlier (by simp [isDone])
        rw [placed'.span]
        exact held'.region_declarator.filled laid
      have regroup : done ++ binding :: rest = (done ++ [binding]) ++ rest := by simp
      rw [regroup] at stands sorted ⊢
      exact inductionHypothesis
        (progress.step laid ordered held placed found before places) stands sorted

end Scene

/-- The names that an expression reads outside of the functions in it. -/
def readsNow (expr : Expr) : List String :=
  expr.collect fun node =>
    { found := (node.asExpr?.bind Node.name?).toList
      goesInside := !Search.isFunction node }

/-- The rewritten name that a declarator binds, and what it is bound to. -/
def rewritten? (names : List String) : Node .declarator → Option (String × Expr)
  | .declares _ target (.present init) =>
    ((boundName? target).filter names.contains).map fun name => (name, init)
  | _ => none

/-- Whether every rewritten name among some declarators is bound to an expression that reads
only what is known and rewritten names before it. -/
def readsEarlier (names known : List String) : List (Node .declarator) → Bool
  | [] => true
  | declarator :: rest =>
    match rewritten? names declarator with
    | some (name, init) =>
      (readsNow init).all known.contains && readsEarlier names (name :: known) rest
    | none => readsEarlier names known rest

/-- Whether the components of a text read nothing in rewritten names but globals, frame
counters and rewritten names before them. -/
def isOrdered (names : List String) (text : List Char) : Bool :=
  match parse text with
  | .error _ => true
  | .ok module => (components module).all fun component =>
      readsEarlier names (Validation.globals ++ component.declarators.filterMap counterName?)
        component.declarators

end StopMotion.Frame
