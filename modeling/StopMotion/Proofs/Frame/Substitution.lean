import StopMotion.Proofs.Frame.Formula
import StopMotion.Proofs.State.Collection
import StopMotion.Proofs.Syntax.Region

/-!
# What substitutions say

The expression that a binding's name is bound to is woven from the first value of the
binding, what it is derived from and the fields of its records, and from a few words. What
may be copied and named is left open here.
-/

namespace StopMotion.Frame

open StopMotion.Syntax StopMotion.State

variable {source : List Char} {copies : Span → Prop} {names : String → Prop}

/-- Texts in a row. -/
theorem Worded.joinAll {texts : List String}
    (worded : ∀ text ∈ texts, Worded source copies names text) :
    Worded source copies names (String.join texts) := by
  have onto (soFar : String) (before : Worded source copies names soFar) :
      Worded source copies names (texts.foldl (· ++ ·) soFar) := by
    induction texts generalizing soFar with
    | nil => exact before
    | cons text rest inductionHypothesis =>
        exact inductionHypothesis (fun other member => worded other (by simp [member])) _
          (before.join (worded text (by simp)))
  exact onto "" .nothing

namespace Scene

variable {scene : Scene} {edits : List Edit} {binding : Binding}

/-- The expression at a span is one of the module and has that span. -/
theorem spec_of_exprAt? {span : Span} {expr : Expr} (found : scene.exprAt? span = some expr) :
    scene.module.Holds ⟨_, expr⟩ ∧ expr.span = span := by
  unfold exprAt? at found
  split at found
  · cases found
  · have same := List.find?_some found
    exact ⟨Module.mem_exprs_iff.mp (List.mem_of_find?_eq_some found), by simpa using same⟩

/-- A seeded draw says the name of the function and an index. -/
theorem worded_draw {index : String} {salt : Nat} (seeded : names scene.seeded)
    (indexed : Worded source copies names index) :
    Worded source copies names (scene.draw index salt) :=
  (((((Worded.name seeded).join (.sign (by decide))).join indexed).join (.sign (by decide))).join
    (.said (.count salt))).join (.sign (by decide))

/-- What may be copied and named for a binding suffices for its substitution: its first value
and what it is derived from are woven, its records are quoted and may be copied, and the
names that stand for a draw, an index and a function that is called may be said. -/
structure Allows (scene : Scene) (edits : List Edit) (binding : Binding) (copies : Span → Prop)
    (names : String → Prop) : Prop where
  initial : ∀ init, scene.exprAt? binding.initial.span = some init →
    Worded scene.module.source copies names
      (Edit.render edits scene.module.source binding.initial.span)
  derived : ∀ expr site, binding.rule = .derived expr site →
    Worded scene.module.source copies names (Edit.render edits scene.module.source expr.span)
  quoted : ∀ collection, binding.collection = some collection →
    collection.Quoted scene.module
  copied : ∀ collection fields, binding.collection = some collection →
    collection.element = .record fields → ∀ field ∈ fields, ∀ span : Span,
      field.value.span.contains span = true → copies span
  seeded : names scene.seeded
  item : ∀ collection, binding.collection = some collection →
    names (collection.index.getD "i")
  called : ∀ init name, scene.exprAt? binding.initial.span = some init →
    init.bare.name? = some name → (scene.locals.function? name).isSome = true → names name

/-- The first value of a binding. -/
theorem Allows.worded_firstValue (allows : scene.Allows edits binding copies names) :
    Worded scene.module.source copies names
      (scene.firstValue edits binding (scene.exprAt? binding.initial.span)) := by
  unfold firstValue
  cases found : scene.exprAt? binding.initial.span with
  | none => exact Worded.sign (by decide : "undefined" ∈ signs)
  | some init =>
      have text := allows.initial init found
      dsimp only
      split
      · split
        · exact .between (by decide) text (by decide)
        · exact text
      · rename_i name _ isNamed
        obtain ⟨isName, isFunction⟩ := Option.filter_eq_some_iff.mp isNamed
        exact (Worded.name (allows.called init name found isName isFunction)).join
          (.sign (by decide))
      · exact text

/-- The first value of a field. -/
theorem worded_fieldValue {name index : String} {field : RecordField}
    (laid : scene.module.Laid)
    (quoted : field.value.text = scene.module.text field.value.span)
    (copied : ∀ span : Span, field.value.span.contains span = true → copies span)
    (seeded : names scene.seeded) (indexed : names index) :
    Worded scene.module.source copies names (scene.fieldValue name index field).1 := by
  unfold fieldValue
  cases found : scene.exprAt? field.value.span with
  | none =>
      dsimp only
      rw [quoted, Module.text, Span.text]
      split
      · rename_i text cut
        rw [Worded, String.toList_ofList]
        exact .copied (copied _ (Span.contains_refl _)) cut
      · exact .nothing
  | some expr =>
      dsimp only
      rw [Edit.slice, Worded, String.toList_ofList]
      -- The draws are expressions of the module, so they do not overlap.
      have held := (spec_of_exprAt? found).1
      have isDraw {edit : Edit} (member : edit ∈ (randomCalls expr).mapIdx fun count span =>
          Edit.mk span (scene.draw index (Hash.salt [name, field.name, toString count]))) :
          scene.module.Region edit.span ∧ ∃ salt, edit.text = scene.draw index salt := by
        obtain ⟨count, inList, rfl⟩ := List.mem_mapIdx.mp member
        obtain ⟨call, isCall, same⟩ := List.mem_map.mp (List.getElem_mem inList)
        obtain ⟨node, inside, _, isExpr⟩ :=
          Node.exists_of_mem_collect _ (List.mem_filter.mp isCall).1
        have callHeld := held.inside inside
        rw [Node.eq_of_asExpr? (Option.mem_toList.mp isExpr)] at callHeld
        refine ⟨?_, _, rfl⟩
        rw [← same]
        exact callHeld.region_expr
      refine Edit.woven_spliced ⟨fun edit member => ?_, fun first isFirst second isSecond _ _ => ?_⟩
        (fun span inside _ => copied span inside) fun edit member _ _ => ?_
      · exact Nat.le_of_lt ((isDraw member).1.filled laid)
      · exact (isDraw isFirst).1.nests laid (isDraw isSecond).1
      · obtain ⟨salt, text⟩ := (isDraw member).2
        rw [text]
        exact worded_draw seeded (.name indexed)

/-- The text of a collection whose records move. -/
theorem Allows.worded_recordsText {counter : String} {collection : Collection}
    {fields : List RecordField} {motions : List FieldMotion} {perFrame : Float}
    (allows : scene.Allows edits binding copies names) (laid : scene.module.Laid)
    (given : binding.collection = some collection) (isRecord : collection.element = .record fields)
    (named : names counter) :
    Worded scene.module.source copies names
      (scene.recordsText counter binding collection fields motions perFrame).1 := by
  have item := allows.item collection given
  let values := fields.map fun field =>
    (field.name, scene.fieldValue binding.name (collection.index.getD "i") field)
  have wordedValue {pair : String × String × Bool} (member : pair ∈ values) :
      Worded scene.module.source copies names pair.2.1 := by
    obtain ⟨field, isField, rfl⟩ := List.mem_map.mp member
    exact worded_fieldValue laid (allows.quoted collection given fields isRecord field isField)
      (allows.copied collection fields given isRecord field isField) allows.seeded item
  have indent : Worded scene.module.source copies names
      (Text.indentAt scene.module.source binding.span.start) := .said (.indent _)
  unfold recordsText
  dsimp only
  refine (((((((Worded.sign (by decide)).join (.said (.count _))).join (.sign (by decide))).join
    (.name item)).join (.sign (by decide))).join (.joinAll fun line member => ?_)).join
    indent).join (.sign (by decide))
  obtain ⟨pair, isPair, rfl⟩ := List.mem_map.mp member
  have key : Worded scene.module.source copies names (propertyKey pair.1 ++ ": ") :=
    .said (.key pair.1)
  have regroup (first second third fourth fifth sixth : String) :
      first ++ second ++ third ++ fourth ++ fifth ++ sixth =
        first ++ second ++ (third ++ fourth) ++ fifth ++ sixth := by
    simp only [String.append_assoc]
  rw [regroup]
  refine (((indent.join (.sign (by decide))).join key).join ?_).join (.sign (by decide))
  split
  · refine Formula.worded_text (given_fieldForm item (wordedValue isPair)
      fun name value known => ?_) named
    obtain ⟨found, isFound, rfl⟩ := Option.map_eq_some_iff.mp known
    obtain ⟨front, behind, parts, _⟩ := List.lookup_eq_some_iff.mp isFound
    exact @wordedValue (name, found) (by simp [values, parts])
  · exact wordedValue isPair

/-- A change that binds a name to an expression or leaves the source as it is. -/
def Change.Binds (scene : Scene) (edits : List Edit) (binding : Binding)
    (worded : String → Prop) (change : Change) : Prop :=
  (change.edits = [] ∧ change.substitutions = []) ∨
    ∃ expression note, worded expression ∧
      change.edits = (scene.bind edits binding expression note).edits ∧
      change.substitutions = [⟨binding.name, expression, note⟩]

/-- A binding that a timer moves is bound to an expression that its first value, its records
and the counter allow. -/
theorem Allows.binds_periodicChange {position : Nat} {counter : String} {intervalMs : Float}
    {motion : Motion} (allows : scene.Allows edits binding copies names)
    (laid : scene.module.Laid)
    (named : position ∈
      (scene.periodicChange edits binding position counter intervalMs motion).framed →
        names counter) :
    Change.Binds scene edits binding (Worded scene.module.source copies names)
      (scene.periodicChange edits binding position counter intervalMs motion) := by
  have first := allows.worded_firstValue
  unfold periodicChange at named ⊢
  dsimp only at named ⊢
  split at named
  · rename_i formula _ _ isForm
    refine .inr ⟨_, none, ?_, rfl, rfl⟩
    exact Formula.worded_text (given_scalarForm? (by exact first) isForm)
      (named (List.mem_append_right _ List.mem_cons_self))
  · rename_i motions collection given _
    split at named
    · rename_i fields isRecord
      refine .inr ⟨_, none, ?_, rfl, rfl⟩
      exact allows.worded_recordsText laid given isRecord
        (named (List.mem_append_right _ List.mem_cons_self))
    · exact .inl ⟨rfl, rfl⟩
  · exact .inl ⟨rfl, rfl⟩
  · exact .inl ⟨rfl, rfl⟩

/-- A binding is bound to an expression that what is known of it allows, or left as written. -/
theorem Allows.binds_ruleChange (allows : scene.Allows edits binding copies names)
    (laid : scene.module.Laid) (position : Nat) (counter : String)
    (named : position ∈ (scene.ruleChange edits binding position counter).framed →
      names counter) :
    Change.Binds scene edits binding (Worded scene.module.source copies names)
      (scene.ruleChange edits binding position counter) := by
  have first := allows.worded_firstValue
  unfold ruleChange at named ⊢
  dsimp only at named ⊢
  cases rule : binding.rule with
  | unclassified reason => exact .inl ⟨rfl, rfl⟩
  | periodic intervalMs motion =>
      rw [rule] at named
      exact allows.binds_periodicChange laid named
  | handler events => exact .inr ⟨_, _, first, rfl, rfl⟩
  | constant => exact .inr ⟨_, _, first, rfl, rfl⟩
  | derived expr site =>
      have text := allows.derived expr site rule
      cases site with
      | memoBody => exact .inr ⟨_, none, .between (by decide) text (by decide), rfl, rfl⟩
      | effect => exact .inr ⟨_, none, text, rfl, rfl⟩
      | memo => exact .inr ⟨_, none, text, rfl, rfl⟩

/-- The change of a binding, in the component that holds it if there is one. -/
theorem Allows.binds_bindingChange (allows : scene.Allows edits binding copies names)
    (laid : scene.module.Laid)
    (named : ∀ position actor, scene.actorAt? binding.span = some position →
      scene.actors[position]? = some actor →
        position ∈ (scene.bindingChange edits binding).framed → names actor.counter) :
    Change.Binds scene edits binding (Worded scene.module.source copies names)
      (scene.bindingChange edits binding) := by
  cases found : scene.actorAt? binding.span with
  | none =>
      simp only [bindingChange, found]
      exact .inl ⟨rfl, rfl⟩
  | some position =>
      have inBounds := (List.findIdx?_eq_some_iff_getElem.mp found).choose
      have isActor : scene.actors[position]? = some scene.actors[position] :=
        List.getElem?_eq_getElem inBounds
      have change : scene.bindingChange edits binding =
          { notes := binding.notes.map fun note => ticked binding.name ++ ": " ++ note } ++
            scene.ruleChange edits binding position scene.actors[position].counter := by
        simp only [bindingChange, found, isActor, Option.map_some, Option.getD_some]
      rw [change] at named ⊢
      exact allows.binds_ruleChange laid position _ (named position _ found isActor)

end Scene

end StopMotion.Frame
