import StopMotion.Syntax.Grammar.Pattern

/-!
# Steps that are given up less often

The rules of a greater depth answer what those of a smaller one answer, and refuse what they
refuse; only where the smaller depth is given up may they go on. `Deepens` says this of two steps,
and it passes from the steps of a rule to the rule, whatever the rule does with their answers.
-/

namespace StopMotion.Syntax

namespace Parse

variable {α β σ : Type}

/-- The second step does what the first one does wherever the first one is not given up. -/
def Deepens (shallow deep : Parse α) : Prop :=
  ∀ state, (∃ error, shallow state = .error error ∧ error.isGivenUp = true) ∨
    deep state = shallow state

namespace Deepens

variable {shallow deep : Parse α}

theorem refl {step : Parse α} : Deepens step step := fun _ => .inr rfl

/-- What the first step answers, the second one answers. -/
theorem of_ok (deepens : Deepens shallow deep) {state next : ParseState} {value : α}
    (run : shallow state = .ok (value, next)) : deep state = .ok (value, next) := by
  rcases deepens state with ⟨error, refused, _⟩ | same
  · rw [run] at refused
    cases refused
  · rw [same, run]

/-- A step that is given up from the start deepens to every other. -/
theorem of_givenUp (givenUp : ∀ state, ∃ error, shallow state = .error error ∧
    error.isGivenUp = true) : Deepens shallow deep :=
  fun state => .inl (givenUp state)

theorem bind {shallowMore deepMore : α → Parse β} (first : Deepens shallow deep)
    (rest : ∀ value, Deepens (shallowMore value) (deepMore value)) :
    Deepens (shallow >>= shallowMore) (deep >>= deepMore) := by
  intro state
  change (∃ error, Except.bind (shallow state) (fun answer => shallowMore answer.1 answer.2) =
      .error error ∧ _) ∨
    Except.bind (deep state) (fun answer => deepMore answer.1 answer.2) =
      Except.bind (shallow state) (fun answer => shallowMore answer.1 answer.2)
  rcases first state with ⟨error, refused, givenUp⟩ | same
  · rw [refused]
    exact .inl ⟨error, rfl, givenUp⟩
  · rw [same]
    cases shallow state with
    | error error => exact .inr rfl
    | ok answered => exact rest answered.1 answered.2

/-- What follows the same step. -/
theorem behind {step : Parse α} {shallowMore deepMore : α → Parse β}
    (rest : ∀ value, Deepens (shallowMore value) (deepMore value)) :
    Deepens (step >>= shallowMore) (step >>= deepMore) :=
  refl.bind rest

/-- The same after a step. -/
theorem before {more : α → Parse β} (first : Deepens shallow deep) :
    Deepens (shallow >>= more) (deep >>= more) :=
  first.bind fun _ => refl

theorem map {change : α → β} (first : Deepens shallow deep) :
    Deepens (change <$> shallow) (change <$> deep) := by
  intro state
  change (∃ error, Except.bind (shallow state) (fun answer => Except.ok (change answer.1, answer.2))
      = .error error ∧ _) ∨
    Except.bind (deep state) (fun answer => Except.ok (change answer.1, answer.2)) =
      Except.bind (shallow state) (fun answer => Except.ok (change answer.1, answer.2))
  rcases first state with ⟨error, refused, givenUp⟩ | same
  · rw [refused]
    exact .inl ⟨error, rfl, givenUp⟩
  · exact .inr (by rw [same])

theorem ite {condition : Prop} [Decidable condition] {shallow' deep' : Parse α}
    (yes : Deepens shallow deep) (no : Deepens shallow' deep') :
    Deepens (if condition then shallow else shallow') (if condition then deep else deep') := by
  split
  · exact yes
  · exact no

theorem speculate {shallow deep : Parse (Option α)} (deepens : Deepens shallow deep) :
    Deepens (speculate shallow) (speculate deep) := by
  intro state
  unfold Parse.speculate
  rcases deepens state with ⟨error, refused, givenUp⟩ | same
  · rw [refused]
    exact .inl ⟨error, if_pos givenUp, givenUp⟩
  · exact .inr (by rw [same])

theorem withGenerator {isGenerator : Bool} (deepens : Deepens shallow deep) :
    Deepens (withGenerator isGenerator shallow) (withGenerator isGenerator deep) :=
  .behind fun _ => .behind fun _ => deepens.before

/-! ## Repetition -/

/-- As often as it is repeated, and once more or not at all where it is not given up. -/
theorem repeating {shallow deep : σ → Parse (σ ⊕ α)} {start : σ}
    (each : ∀ soFar, Deepens (shallow soFar) (deep soFar)) :
    Deepens (repeating start shallow) (repeating start deep) := by
  have bounded (count : Nat) (soFar : σ) :
      Deepens (repeatAtMost shallow count soFar) (repeatAtMost deep count soFar) := by
    induction count generalizing soFar with
    | zero => exact refl
    | succ count inductionHypothesis =>
        refine (each soFar).bind fun answer => ?_
        cases answer with
        | inl soFar => exact inductionHypothesis soFar
        | inr result => exact refl
  exact .behind fun _ => bounded _ start

theorem many {stop : Parse Bool} (item : Deepens shallow deep) :
    Deepens (many stop shallow) (many stop deep) :=
  .repeating fun _ => .behind fun _ => .ite .refl item.before

theorem commaList {close : Punct} (item : Deepens shallow deep) :
    Deepens (commaList close shallow) (commaList close deep) :=
  item.before.many

theorem elements (item : Deepens shallow deep) :
    Deepens (Rules.elements shallow) (Rules.elements deep) :=
  .many (.behind fun _ => .ite .refl item.before)

end Deepens

end Parse

/-- Rules each of which deepens. -/
structure Rules.Deepen (shallow deep : Rules) : Prop where
  statement : Parse.Deepens shallow.statement deep.statement
  assignment (noIn : Bool) : Parse.Deepens (shallow.assignment noIn) (deep.assignment noIn)
  binary (least : Nat) (noIn : Bool) :
    Parse.Deepens (shallow.binary least noIn) (deep.binary least noIn)
  unary : Parse.Deepens shallow.unary deep.unary
  access : Parse.Deepens shallow.access deep.access
  construction : Parse.Deepens shallow.construction deep.construction
  target : Parse.Deepens shallow.target deep.target
  element (start : Nat) : Parse.Deepens (shallow.element start) (deep.element start)

end StopMotion.Syntax
