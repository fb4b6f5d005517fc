import StopMotion.Frame.Drive

/-!
# The account of the bindings

The bindings are gone through one by one. Each is left as written, or its declarator is replaced
and the substitution is reported; nothing else is edited, and a component reads the frame or
draws a number only for a binding that is replaced. So the substitutions belong to bindings, in
the order of these, and every one of them has an edit of its own.
-/

namespace StopMotion.Frame

open StopMotion.Syntax StopMotion.State

/-- What stands behind the expression of a binding: nothing, or a setter that does nothing. -/
inductive Stub (binding : Binding) : String → Prop where
  | none : Stub binding ""
  | setter {setter : String} (isSetter : binding.setter = some setter) :
      Stub binding (", " ++ setter ++ " = (..._args: unknown[]) => \x7b\x7d")

/-- A binding that is replaced: the substitution that is reported for it, and the edit that puts
it in the place of the declarator. -/
structure Entry where
  binding : Binding
  substitution : Substitution
  edit : Edit
  named : substitution.name = binding.name
  place : edit.span = binding.span
  written : ∃ stub, Stub binding stub ∧
    edit.text = binding.name ++ " = " ++ substitution.expression ++ stub

/-- What some bindings turn an earlier change into, by the entries of those that are replaced. -/
structure Accounts (earlier later : Change) (bindings : List Binding) (entries : List Entry) :
    Prop where
  reported : later.substitutions = earlier.substitutions ++ entries.map Entry.substitution
  inOrder : (entries.map Entry.binding).Sublist bindings
  edited : later.edits = earlier.edits ++ entries.map Entry.edit
  idle : entries = [] → later.framed = earlier.framed ∧ later.draws = earlier.draws

namespace Accounts

variable {first second third : Change} {bindings others : List Binding}
  {entries more : List Entry}

theorem refl (change : Change) : Accounts change change [] [] where
  reported := by simp
  inOrder := .slnil
  edited := by simp
  idle := fun _ => ⟨rfl, rfl⟩

/-- Bindings that are gone through behind others. -/
theorem trans (before : Accounts first second bindings entries)
    (behind : Accounts second third others more) :
    Accounts first third (bindings ++ others) (entries ++ more) where
  reported := by rw [behind.reported, before.reported, List.map_append, List.append_assoc]
  inOrder := by
    rw [List.map_append]
    exact before.inOrder.append behind.inOrder
  edited := by rw [behind.edited, before.edited, List.map_append, List.append_assoc]
  idle := by
    intro none
    obtain ⟨rfl, rfl⟩ := List.append_eq_nil_iff.mp none
    obtain ⟨framed, draws⟩ := before.idle rfl
    obtain ⟨framed', draws'⟩ := behind.idle rfl
    exact ⟨framed'.trans framed, draws'.trans draws⟩

end Accounts

namespace Scene

variable {scene : Scene} {edits : List Edit} {binding : Binding}

/-- A change that only leaves notes, or that replaces the declarator and says so. -/
inductive Settles (binding : Binding) (change : Change) : Prop where
  | left (unedited : change.edits = []) (unreported : change.substitutions = [])
      (unframed : change.framed = []) (undrawn : change.draws = false)
  | replaced (entry : Entry) (isEntry : entry.binding = binding)
      (edited : change.edits = [entry.edit])
      (reported : change.substitutions = [entry.substitution])

/-- Whatever a binding is bound to, that is reported. -/
theorem settles_of_bind {change : Change} (expression : String) (note : Option String)
    (edited : change.edits = (scene.bind edits binding expression note).edits)
    (reported : change.substitutions = [⟨binding.name, expression, note⟩]) :
    Settles binding change := by
  refine .replaced ⟨binding, ⟨binding.name, expression, note⟩, _, rfl, rfl, _, ?_, rfl⟩ rfl
    edited reported
  cases isSetter : binding.setter with
  | none => exact .none
  | some setter =>
      dsimp only
      split
      · exact .setter isSetter
      · exact .none

theorem settles_periodicChange (position : Nat) (counter : String) (intervalMs : Float)
    (motion : Motion) :
    Settles binding
      (scene.periodicChange edits binding position counter intervalMs motion) := by
  unfold periodicChange
  dsimp only
  split
  · exact settles_of_bind _ none rfl rfl
  · split
    · exact settles_of_bind _ none rfl rfl
    · exact .left rfl rfl rfl rfl
  · exact .left rfl rfl rfl rfl
  · exact .left rfl rfl rfl rfl

theorem settles_ruleChange (position : Nat) (counter : String) :
    Settles binding (scene.ruleChange edits binding position counter) := by
  unfold ruleChange
  dsimp only
  split
  · exact .left rfl rfl rfl rfl
  · exact settles_periodicChange ..
  · exact settles_of_bind _ _ rfl rfl
  · exact settles_of_bind _ none rfl rfl
  · split
    · exact settles_of_bind _ none rfl rfl
    · exact settles_of_bind _ none rfl rfl
    · exact settles_of_bind _ none rfl rfl

/-- Notes in front change nothing about what a binding is bound to. -/
theorem Settles.noted {change : Change} (settles : Settles binding change)
    (notes : List String) : Settles binding ({ notes } ++ change) := by
  cases settles with
  | left unedited unreported unframed undrawn => exact .left unedited unreported unframed undrawn
  | replaced entry isEntry edited reported => exact .replaced entry isEntry edited reported

theorem settles_bindingChange : Settles binding (scene.bindingChange edits binding) := by
  unfold bindingChange
  split
  · exact .left rfl rfl rfl rfl
  · exact (settles_ruleChange ..).noted _

/-- A binding adds to the change what its entry says, if it has one. -/
theorem accounts_step (change : Change) (binding : Binding) :
    ∃ entries, Accounts change (change ++ scene.bindingChange change.edits binding) [binding]
      entries := by
  have settles : Settles binding (scene.bindingChange change.edits binding) :=
    settles_bindingChange
  cases settles with
  | left unedited unreported unframed undrawn =>
      refine ⟨[], ?_, List.nil_sublist _, ?_, fun _ => ⟨?_, ?_⟩⟩
      · exact congrArg (change.substitutions ++ ·) unreported
      · exact congrArg (change.edits ++ ·) unedited
      · exact (congrArg (change.framed ++ ·) unframed).trans (List.append_nil _)
      · exact (congrArg (change.draws || ·) undrawn).trans (Bool.or_false _)
  | replaced entry isEntry edited reported =>
      refine ⟨[entry], ?_, ?_, ?_, fun none => absurd none (List.cons_ne_nil _ _)⟩
      · exact congrArg (change.substitutions ++ ·) reported
      · rw [← isEntry]
        exact List.Sublist.refl _
      · exact congrArg (change.edits ++ ·) edited

/-- All bindings together. -/
theorem exists_accounts (change : Change) (bindings : List Binding) :
    ∃ entries, Accounts change (scene.bindingChanges change bindings) bindings entries := by
  induction bindings generalizing change with
  | nil => exact ⟨[], .refl change⟩
  | cons binding rest inductionHypothesis =>
      obtain ⟨entries, step⟩ := scene.accounts_step change binding
      obtain ⟨more, behind⟩ :=
        inductionHypothesis (change ++ scene.bindingChange change.edits binding)
      exact ⟨entries ++ more, step.trans behind⟩

end Scene

end StopMotion.Frame
