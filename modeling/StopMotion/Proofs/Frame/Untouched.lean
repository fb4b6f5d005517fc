import StopMotion.Proofs.Frame.Account
import StopMotion.Proofs.Frame.Origin
import StopMotion.Proofs.Frame.Provenance
import StopMotion.Proofs.Syntax.Spans
import StopMotion.Proofs.Text.Kept

/-!
# What driving a module leaves as it is

Every edit takes up something that may be gone, or nothing, and it begins and ends between
characters. So the new text is the source with some of these stretches gone and some words put
in between, and a source in which nothing may be gone comes out as it is, but for a default
export that it lacks. Where no removal takes up a declarator that is replaced, the new text says
at its place what is reported for it.
-/

namespace StopMotion.Frame

open StopMotion.Syntax StopMotion.State
open Text (Whole)

/-! ## What may be gone -/

/-- The stretch of a statement, or its lines if it has them to itself. -/
def Takes (source : List Char) (stmt : Stmt) (span : Span) : Prop :=
  span = stmt.span ∨ Text.OwnLines source stmt.span span

/-- The parts of a module that may be gone when some bindings are replaced: effects and timers,
what mounts, attributes for events with the blanks before them, entropy, and the declarators of
the bindings. -/
inductive MayGo (module : Module) (bound : List Binding) : Span → Prop where
  | work {stmt : Stmt} {span : Span} (held : module.Holds ⟨_, stmt⟩)
      (removable : isRemovable stmt = true) (takes : Takes module.source stmt span) :
      MayGo module bound span
  | mount {stmt : Stmt} {span : Span} (isMount : stmt ∈ mountStmts [] module.body)
      (takes : Takes module.source stmt span) : MayGo module bound span
  | event {node : Node .jsxAttribute} {name : String} {start : Nat}
      (held : module.Holds ⟨_, node⟩) (named : attributeName? node = some name)
      (isEvent : isEventName name = true)
      (blank : Text.Run Text.isBlank module.source start node.span.start) :
      MayGo module bound ⟨start, node.span.stop⟩
  | entropy {expr : Expr} (held : module.Holds ⟨_, expr⟩)
      (entropic : (entropy? expr).isSome = true) : MayGo module bound expr.span
  | declarator {binding : Binding} (isBound : binding ∈ bound) : MayGo module bound binding.span

variable {module : Module} {bound : List Binding} {edit : Edit}

/-- A statement is removed alone or with its lines. -/
theorem takes_lineDeletion {stmt : Stmt} (laid : module.Laid) (held : module.Holds ⟨_, stmt⟩) :
    Takes module.source stmt (lineDeletion module.source stmt.span).span := by
  obtain ⟨_, _, shape, _⟩ := stmt.outline_stmt
  obtain ⟨_, _, snug⟩ := Forest.Laid.of_mem laid (held.spot_mem shape)
  exact Text.ownLines_wholeLines snug.opens snug.closes

/-- What is removed may be gone. -/
theorem mayGo_of_mem_deletions (laid : module.Laid) (member : edit ∈ deletions module) :
    MayGo module bound edit.span := by
  cases removes_of_mem_deletions laid member with
  | mount isMount =>
      obtain ⟨isStmt, _⟩ := spec_of_mem_mountStmts isMount
      exact .mount isMount (takes_lineDeletion laid (Module.holds_of_mem isStmt))
  | work held removable => exact .work held removable (takes_lineDeletion laid held)
  | sole held removable => exact .work held removable (.inl rfl)
  | event held named isEvent blank => exact .event held named isEvent blank

namespace Scene

variable {scene : Scene}

/-- What is cleared may be gone. -/
theorem mayGo_of_mem_clearings (laid : scene.module.Laid) (member : edit ∈ scene.clearings) :
    MayGo scene.module bound edit.span := by
  rcases cases_of_mem_clearings member with removal | ⟨site, isSite, _, rfl⟩
  · exact mayGo_of_mem_deletions laid removal
  · obtain ⟨expr, held, same, entropic⟩ := exists_of_mem_entropySites isSite
    rw [← same]
    exact .entropy held (by rw [entropic]; rfl)

end Scene

/-! ## Whole characters -/

/-- A region begins and ends between characters. -/
theorem whole_of_region {span : Span} (laid : module.Laid) (region : module.Region span) :
    Whole module.source span := by
  obtain ⟨spot, member, _, covered⟩ := region
  obtain ⟨_, _, snug⟩ := Forest.Laid.of_mem laid member
  have every {accepts : Char → Bool} {start stop : Nat}
      (run : Text.Run accepts module.source start stop) :
      Text.Run (fun _ => true) module.source start stop := run.mono fun _ _ => rfl
  cases covered with
  | exact => exact snug.cuts
  | lines _ =>
      have widened := Text.widened_wholeLines snug.opens snug.closes
      exact ((every widened.indented).join snug.cuts).join (every widened.blank)
  | blanks _ blank => exact (every blank).join snug.cuts

/-- An offset between two parts of a text. -/
theorem whole_point (before behind : List Char) :
    Whole (before ++ behind) (Span.point (Text.size before)) := .none rfl

/-- The end of a character. -/
theorem whole_of_closesAt {source : List Char} {offset : Nat}
    (closes : Text.ClosesAt source offset) : Whole source (Span.point offset) := by
  obtain ⟨before, c, behind, rfl, rfl, _⟩ := closes
  have point := whole_point (before ++ [c]) behind
  simpa [Text.size_append] using point

/-- The beginning of a character. -/
theorem whole_of_opensAt {source : List Char} {offset : Nat}
    (opens : Text.OpensAt source offset) : Whole source (Span.point offset) := by
  obtain ⟨before, c, behind, rfl, rfl, _⟩ := opens
  exact whole_point before (c :: behind)

/-- The brace of a body takes one byte. -/
theorem closesAt_brace {callable : Callable} {node : AnyNode} {source : List Char} {site : Site}
    {bodySpan : Span} {stmts : List Stmt} (views : callable.Views node)
    (lies : node.2.plan.LiesAt source site) (isBlock : callable.body = .block bodySpan stmts) :
    Text.ClosesAt source (bodySpan.start + 1) := by
  -- A body lies behind its parameters in the stretch of the callable.
  have behind {role : Role} {span : Span} {params body : Plan} {site : Site}
      (lies : (Plan.one role span (params ++ .one .block bodySpan body)).LiesAt source site) :
      Text.ClosesAt source (bodySpan.start + 1) := by
    obtain ⟨_, _, _, _, _, _, ofBody⟩ := lies.of_one.2.of_append
    obtain ⟨_, _, proper, _⟩ := ofBody
    exact proper.narrow rfl
  cases views with
  | function value =>
      cases value
      cases isBlock
      exact behind lies
  | value => cases isBlock
  | block =>
      cases isBlock
      exact behind lies

namespace Scene

variable {scene : Scene}

/-- What is known of a scene whose module was read. -/
structure Grounded (scene : Scene) : Prop where
  laid : scene.module.Laid
  lies : scene.module.root.2.plan.LiesAt scene.module.source
    (.of ⟨0, Text.size scene.module.source⟩)
  actors : scene.actors.map (·.component) = components scene.module

/-- The scene of a module that is read. -/
theorem grounded_of {source : List Char} {module : Module} (framesPerSecond : Nat)
    (read : parse source = .ok module) :
    module.source = source ∧ (Scene.of module framesPerSecond).Grounded := by
  obtain ⟨rfl, lies⟩ := plan_laid_parse read
  exact ⟨rfl, laid_of_parse read, lies, Scene.components_of module framesPerSecond⟩

/-- The place of a counter's declaration is behind the brace of a body, or around a value. -/
theorem whole_of_mem_counterEdits {actor : Actor} (grounded : scene.Grounded)
    (stands : actor.component.callable.StandsIn scene.module.root)
    (member : edit ∈ scene.counterEdits actor) : Whole scene.module.source edit.span := by
  obtain ⟨node, views, inside⟩ := stands
  unfold counterEdits at member
  cases body : actor.component.callable.body with
  | block bodySpan stmts =>
      rw [body] at member
      obtain rfl := List.mem_singleton.mp member
      obtain ⟨_, _, liesNode⟩ := inside.exists_liesAt grounded.lies
      exact whole_of_closesAt (closesAt_brace views liesNode body)
  | expr value =>
      rw [body] at member
      have held : scene.module.Holds ⟨_, value⟩ := (views.inside_value body).trans inside
      obtain ⟨_, shape⟩ := value.outline_expr
      obtain ⟨_, _, snug⟩ := Forest.Laid.of_mem grounded.laid (held.spot_mem shape)
      simp only [List.mem_cons, List.not_mem_nil, or_false] at member
      rcases member with rfl | rfl
      · exact whole_of_opensAt snug.opens
      · exact whole_of_closesAt snug.closes

/-- The place of the prelude is behind an import or at the start. -/
theorem whole_of_mem_preludeEdits {needsHook draws : Bool} (grounded : scene.Grounded)
    (member : edit ∈ scene.preludeEdits needsHook draws) :
    Whole scene.module.source edit.span := by
  unfold preludeEdits at member
  extract_lets body hook helper prelude at member
  split at member
  · cases member
  · split at member
    · rename_i stmt found
      obtain rfl := List.mem_singleton.mp member
      have isStmt := List.mem_reverse.mp (List.mem_of_find?_eq_some found)
      obtain ⟨_, _, shape, _⟩ := stmt.outline_stmt
      have held := Module.holds_of_mem isStmt
      obtain ⟨_, _, snug⟩ := Forest.Laid.of_mem grounded.laid (held.spot_mem shape)
      exact whole_of_closesAt snug.closes
    · obtain rfl := List.mem_singleton.mp member
      exact whole_point [] scene.module.source

/-- The place of a default export is the end. -/
theorem whole_of_mem_exportEdits (member : edit ∈ scene.exportEdits) :
    Whole scene.module.source edit.span := by
  unfold exportEdits at member
  dsimp only at member
  split at member
  · obtain rfl := List.mem_singleton.mp member
    have point := whole_point scene.module.source []
    rwa [List.append_nil] at point
  · cases member

/-- A declaration replaces nothing. -/
theorem isInsertion_of_mem_declarations {change : Change}
    (member : edit ∈ scene.declarations change) : edit.isInsertion = true := by
  have declares : scene.Declares [] edit := declares_of_mem_declarations member
  exact declares.1

/-- Every declaration stands between characters. -/
theorem whole_of_mem_declarations {change : Change} (grounded : scene.Grounded)
    (member : edit ∈ scene.declarations change) : Whole scene.module.source edit.span := by
  unfold declarations at member
  dsimp only at member
  rcases List.mem_append.mp member with front | exports
  · rcases List.mem_append.mp front with counters | prelude
    · obtain ⟨actor, isUndeclared, isEdit⟩ := List.mem_flatMap.mp counters
      refine whole_of_mem_counterEdits grounded (standsIn_of_mem_components ?_) isEdit
      obtain ⟨⟨position, other⟩, isIndexed, same⟩ := List.mem_filterMap.mp isUndeclared
      obtain ⟨_, inList, isOther⟩ := List.mem_mapIdx.mp isIndexed
      cases isOther
      dsimp only at same
      split at same <;> cases same
      rw [← grounded.actors]
      exact List.mem_map_of_mem (List.getElem_mem inList)
    · exact whole_of_mem_preludeEdits grounded prelude
  · exact whole_of_mem_exportEdits exports

/-! ## The edits of a module -/

variable {bindings : List Binding} {entries : List Entry}

/-- The entries of some bindings, which stand in order at regions of the module of a scene. -/
structure Accounted (scene : Scene) (bindings : List Binding) (entries : List Entry) : Prop
    extends Grounded scene where
  accounts : Accounts scene.clearedChange (scene.bindingChanges scene.clearedChange bindings)
    bindings entries
  placed : ∀ binding ∈ bindings, scene.module.Region binding.span
  ordered : bindings.Pairwise fun first second => first.span.stop ≤ second.span.start

/-- An edit clears something, replaces the declarator of a binding or declares something. -/
theorem cases_of_mem_edits (accounted : scene.Accounted bindings entries)
    (member : edit ∈ (scene.change bindings).edits) :
    edit ∈ scene.clearings ∨ (∃ entry ∈ entries, entry.edit = edit) ∨
      edit ∈ scene.declarations (scene.bindingChanges scene.clearedChange bindings) := by
  have split : edit ∈ (scene.bindingChanges scene.clearedChange bindings).edits ++
      scene.declarations (scene.bindingChanges scene.clearedChange bindings) := member
  rw [accounted.accounts.edited, edits_clearedChange] at split
  rcases List.mem_append.mp split with isBound | declared
  · rcases List.mem_append.mp isBound with cleared | isEntry
    · exact .inl cleared
    · exact .inr (.inl (List.mem_map.mp isEntry))
  · exact .inr (.inr declared)

namespace Accounted

variable (accounted : scene.Accounted bindings entries)

include accounted

/-- Every entry has its edit. -/
theorem mem_edits {entry : Entry} (isEntry : entry ∈ entries) :
    entry.edit ∈ (scene.change bindings).edits := by
  have bound : entry.edit ∈ (scene.bindingChanges scene.clearedChange bindings).edits := by
    rw [accounted.accounts.edited]
    exact List.mem_append_right _ (List.mem_map_of_mem isEntry)
  exact List.mem_append_left _ bound

/-- The declarators of bindings are regions. -/
theorem region_entry {entry : Entry} (isEntry : entry ∈ entries) :
    scene.module.Region entry.edit.span := by
  rw [entry.place]
  exact accounted.placed _ (accounted.accounts.inOrder.subset (List.mem_map_of_mem isEntry))

/-- What an edit replaces is a region. -/
theorem region_edit (member : edit ∈ (scene.change bindings).edits)
    (replaces : edit.isInsertion = false) : scene.module.Region edit.span := by
  rcases cases_of_mem_edits accounted member with cleared | ⟨entry, isEntry, rfl⟩ | declared
  · exact region_of_mem_clearings accounted.laid cleared
  · exact accounted.region_entry isEntry
  · rw [isInsertion_of_mem_declarations declared] at replaces
    cases replaces

/-- An edit stands between characters, and takes up what may be gone, or nothing. -/
theorem sound (edit : Edit) (member : edit ∈ (scene.change bindings).edits) :
    Whole scene.module.source edit.span ∧ (edit.isInsertion = true ∨
      MayGo scene.module (entries.map Entry.binding) edit.span) := by
  rcases cases_of_mem_edits accounted member with cleared | ⟨entry, isEntry, rfl⟩ | declared
  · constructor
    · exact whole_of_region accounted.laid (region_of_mem_clearings accounted.laid cleared)
    · exact .inr (mayGo_of_mem_clearings accounted.laid cleared)
  · constructor
    · exact whole_of_region accounted.laid (accounted.region_entry isEntry)
    · rw [entry.place]
      exact .inr (.declarator (List.mem_map_of_mem isEntry))
  · constructor
    · exact whole_of_mem_declarations accounted.toGrounded declared
    · exact .inl (isInsertion_of_mem_declarations declared)

/-- The edits of a module do not cut one another in two. -/
theorem nested : Edit.Nested (scene.change bindings).edits where
  ordered := by
    intro edit member
    exact (accounted.sound edit member).1.le
  nests := by
    intro first isFirst second isSecond firstReplaces secondReplaces
    exact (accounted.region_edit isFirst firstReplaces).nests accounted.laid
      (accounted.region_edit isSecond secondReplaces)

/-- Two declarators that are replaced have nothing in common. -/
theorem apart {entry entry' : Entry} (isEntry : entry ∈ entries) (isEntry' : entry' ∈ entries) :
    entry.edit = entry'.edit ∨ entry.edit.span.Apart entry'.edit.span := by
  have sorted : entries.Pairwise fun first second =>
      first.edit = second.edit ∨ first.edit.span.Apart second.edit.span := by
    have inOrder := List.pairwise_map.mp (accounted.ordered.sublist accounted.accounts.inOrder)
    refine inOrder.imp fun {first second} before => .inr (.inl ?_)
    rw [first.place, second.place]
    exact before
  have symmetric := sorted.imp fun either => either.imp Eq.symm Span.Apart.symm
  exact sorted.forall_of_forall_of_flip (fun _ _ => .inl rfl) symmetric isEntry isEntry'

/-- No other edit takes up a declarator that is replaced, if no clearing does. -/
theorem eq_of_contains {entry : Entry} {other : Edit} (isEntry : entry ∈ entries)
    (free : ¬TakenUp scene.clearings entry.binding.span)
    (member : other ∈ (scene.change bindings).edits) (replaces : other.isInsertion = false)
    (contains : other.span.contains entry.edit.span = true) : other = entry.edit := by
  rcases cases_of_mem_edits accounted member with cleared | ⟨entry', isEntry', rfl⟩ | declared
  · rw [entry.place] at contains
    exact absurd ⟨other, cleared, replaces, contains⟩ free
  · rcases accounted.apart isEntry' isEntry with same | apart
    · exact same
    · have filled := (accounted.region_entry isEntry).filled accounted.laid
      have := Span.contains_iff.mp contains
      unfold Span.Apart at apart
      omega
  · rw [isInsertion_of_mem_declarations declared] at replaces
    cases replaces

/-- The substitutions of the bindings are reported, and no others. -/
theorem substitutions :
    (scene.change bindings).substitutions = entries.map Entry.substitution := by
  have reported := accounted.accounts.reported
  rw [substitutions_clearedChange, List.nil_append] at reported
  rw [← reported]
  exact List.append_nil _

end Accounted

/-- Where nothing is cleared and no binding is replaced, the default export is declared, if the
module has none, and nothing else is edited. -/
theorem edits_of_idle (accounted : scene.Accounted bindings []) (none : scene.clearings = []) :
    (scene.change bindings).edits = scene.exportEdits := by
  obtain ⟨framed, draws⟩ := accounted.accounts.idle rfl
  obtain ⟨unread, undrawn⟩ := idle_clearedChange none
  have undeclared : scene.undeclared [] = [] := by
    simp [Scene.undeclared]
  have edited := accounted.accounts.edited
  rw [edits_clearedChange, none] at edited
  have whole : (scene.change bindings).edits =
      (scene.bindingChanges scene.clearedChange bindings).edits ++
        scene.declarations (scene.bindingChanges scene.clearedChange bindings) := rfl
  rw [whole, edited, declarations, framed, draws, unread, undrawn]
  simp [undeclared, preludeEdits]

/-- A module with a default export lacks none, and nor does one without components. -/
theorem exportEdits_eq_nil (grounded : scene.Grounded)
    (exported : scene.module.body.any isDefaultExport = true ∨ components scene.module = []) :
    scene.exportEdits = [] := by
  unfold exportEdits
  rcases exported with exported | none
  · rw [exported]
  · rw [grounded.actors, none]
    dsimp only
    split
    · rename_i found
      simp [primary?] at found
    · rfl

end Scene

/-! ## The whole -/

/-- The bindings of a module stand at regions. -/
theorem region_of_mem_classify {timing : Timing} {binding : Binding}
    (member : binding ∈ classify module timing) : module.Region binding.span := by
  obtain ⟨component, isComponent, _, declarator, isDeclarator, same⟩ :=
    exists_of_mem_classify member
  obtain ⟨node, views, stands⟩ := standsIn_of_mem_components isComponent
  have held : module.Holds ⟨_, declarator⟩ :=
    (component.inside_declarator views isDeclarator).trans stands
  rw [same]
  exact held.region_declarator

variable {source : List Char}

/-- The bindings of a module that is read have their entries. -/
theorem exists_accounted (timing : Timing) (framesPerSecond : Nat)
    (read : parse source = .ok module) :
    module.source = source ∧
      ∃ entries, (Scene.of module framesPerSecond).Accounted (classify module timing) entries := by
  obtain ⟨isSource, grounded⟩ := Scene.grounded_of framesPerSecond read
  let scene := Scene.of module framesPerSecond
  obtain ⟨entries, accounts⟩ :=
    scene.exists_accounts scene.clearedChange (classify module timing)
  refine ⟨isSource, entries, grounded, accounts, ?_, ordered_classify grounded.laid⟩
  intro binding isBinding
  exact region_of_mem_classify isBinding

/-- Every character of a source is in the text of the driven module, once and in its place, but
for those of stretches that may be gone. The bindings that are replaced are those with a
substitution, in order. -/
theorem keeps_drive (timing : Timing) (framesPerSecond : Nat) (read : parse source = .ok module) :
    let driven := drive module (classify module timing) framesPerSecond
    ∃ bound : List Binding, bound.Sublist (classify module timing) ∧
      bound.map (·.name) = driven.substitutions.map (·.name) ∧
      Keeps (MayGo module bound) 0 source driven.text.toList := by
  obtain ⟨rfl, entries, accounted⟩ := exists_accounted timing framesPerSecond read
  refine ⟨entries.map Entry.binding, accounted.accounts.inOrder, ?_, ?_⟩
  · dsimp only [drive]
    rw [accounted.substitutions, List.map_map, List.map_map]
    exact List.map_congr_left fun entry _ => entry.named.symm
  · dsimp only [drive]
    rw [String.toList_ofList]
    exact Edit.keeps_apply accounted.sound

/-- A source in which nothing may be gone, and that does not lack a default export, comes out
unchanged if no binding has a substitution. -/
theorem drive_unchanged (timing : Timing) (framesPerSecond : Nat)
    (read : parse source = .ok module) (untouched : ∀ span, ¬MayGo module [] span)
    (exported : module.body.any Scene.isDefaultExport = true ∨ components module = []) :
    let driven := drive module (classify module timing) framesPerSecond
    driven.substitutions = [] → driven.text.toList = source := by
  intro driven unreplaced
  obtain ⟨rfl, entries, accounted⟩ := exists_accounted timing framesPerSecond read
  have uncleared : (Scene.of module framesPerSecond).clearings = [] := by
    refine List.eq_nil_iff_forall_not_mem.mpr fun edit isClearing => ?_
    exact untouched _ (Scene.mayGo_of_mem_clearings accounted.laid isClearing)
  obtain rfl : entries = [] :=
    List.map_eq_nil_iff.mp (accounted.substitutions.symm.trans unreplaced)
  have edits := Scene.edits_of_idle accounted uncleared
  rw [Scene.exportEdits_eq_nil accounted.toGrounded exported] at edits
  dsimp only [driven, drive]
  rw [edits, String.toList_ofList]
  exact Edit.apply_nil _

/-- Every substitution belongs to a binding, in the order of the bindings, and the confidence is
their share. Where no clearing takes up the declarator of the binding, the text has the reported
expression in its place. -/
theorem substitutes_drive (timing : Timing) (framesPerSecond : Nat)
    (read : parse source = .ok module) :
    let bindings := classify module timing
    let driven := drive module bindings framesPerSecond
    ∃ entries : List Entry, driven.substitutions = entries.map Entry.substitution ∧
      (entries.map Entry.binding).Sublist bindings ∧
      driven.confidence = (if bindings.isEmpty then 1.0
        else Float.ofNat entries.length / Float.ofNat bindings.length) ∧
      ∀ entry ∈ entries, ¬TakenUp (Scene.of module framesPerSecond).clearings entry.binding.span →
        ∃ stub, Stub entry.binding stub ∧
          Shows (MayGo module (entries.map Entry.binding)) source entry.binding.span
            (entry.binding.name ++ " = " ++ entry.substitution.expression ++ stub).toList
            driven.text.toList := by
  obtain ⟨rfl, entries, accounted⟩ := exists_accounted timing framesPerSecond read
  refine ⟨entries, accounted.substitutions, accounted.accounts.inOrder, ?_, ?_⟩
  · dsimp only [drive]
    rw [accounted.substitutions, List.length_map]
  · intro entry isEntry free
    have shows := Edit.shows_apply accounted.nested accounted.sound (accounted.mem_edits isEntry)
      (Scene.not_isInsertion_of_region accounted.laid (accounted.region_entry isEntry))
      fun other member => accounted.eq_of_contains isEntry free member
    obtain ⟨stub, isStub, written⟩ := entry.written
    rw [entry.place, written] at shows
    refine ⟨stub, isStub, ?_⟩
    dsimp only [drive]
    rwa [String.toList_ofList]

/-- Where there are as many substitutions as bindings, none of the declarators stays as written: each
binding has its substitution, and where no clearing takes up its declarator, the text has the
reported expression there. -/
theorem substitutes_every (timing : Timing) (framesPerSecond : Nat)
    (read : parse source = .ok module) :
    let bindings := classify module timing
    let driven := drive module bindings framesPerSecond
    driven.substitutions.length = bindings.length →
      List.Forall₂ (fun binding substitution => substitution.name = binding.name ∧
        (¬TakenUp (Scene.of module framesPerSecond).clearings binding.span →
          ∃ stub, Stub binding stub ∧ Shows (MayGo module bindings) source binding.span
            (binding.name ++ " = " ++ substitution.expression ++ stub).toList
            driven.text.toList)) bindings driven.substitutions := by
  intro bindings driven complete
  obtain ⟨entries, reported, inOrder, -, shown⟩ := substitutes_drive timing framesPerSecond read
  have all : entries.map Entry.binding = bindings := by
    apply inOrder.eq_of_length
    rw [List.length_map, ← List.length_map (f := Entry.substitution), ← reported]
    exact complete
  rw [all] at shown
  rw [show driven.substitutions = _ from reported, ← all, List.forall₂_map_left_iff,
    List.forall₂_map_right_iff, List.forall₂_same, all]
  exact fun entry isEntry => ⟨entry.named, shown entry isEntry⟩

end StopMotion.Frame
