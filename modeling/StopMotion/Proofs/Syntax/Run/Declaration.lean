import StopMotion.Proofs.Syntax.Run.Arrow
import StopMotion.Proofs.Syntax.Run.Statement

/-!
# Declarations on a known text

What the rules for declarations answer on a constant with an initial value.
-/

namespace StopMotion.Syntax.Rules

open Parse

variable {rules : Rules} {state : ParseState} {kind last : TokenKind}
  {newline newline₃ lastNewline : Bool}
  {text text₁ text₂ text₃ text₄ lastText : List Char} {start : Nat} {name : String}

/-- A declarator that gives a name an initial value. -/
def Introduces (name : String) (holds : Expr → Prop) (declared : Node .declarator) : Prop :=
  ∃ span nameSpan found value, declared =
    .declares span (.bindName nameSpan found) (.present value) ∧ found.text = name ∧ holds value

/-- A name with an initial value. -/
theorem declarator_runs {noIn : Bool} {holds : Expr → ParseState → Prop}
    (sees : Sees state (.word name) newline text)
    (binds : canBind name = true) (assign : Spells text (.punct .assign) false text₂)
    (first : SpellsAfter (.punct .assign) text₂ kind newline₃ text₃)
    (init : ∀ next, Sees next kind newline₃ text₃ →
      Runs (rules.assignment noIn) next holds) :
    Runs (rules.declarator noIn) state fun answer next =>
      ∃ span nameSpan found value, answer =
        .declares span (.bindName nameSpan found) (.present value) ∧ found.text = name ∧
          holds value next := by
  have stands : Stands state [.word name, .punct .assign] text₂ :=
    sees.stands ⟨_, assign.after, rfl⟩
  unfold declarator
  rw [runs_here]
  apply (bindingTarget_readsName binds stands).bind
  rintro _ next ⟨⟨nameSpan, found, rfl, isName⟩, standsAssign⟩
  apply (eat_stands_other standsAssign rfl).bind
  rintro _ _ ⟨rfl, rfl⟩
  apply (skipAnnotation_none (by rw [standsAssign.kind]; rfl)).bind
  rintro _ next rfl
  obtain ⟨_, seesAssign⟩ := standsAssign.one
  apply (eat_after seesAssign first).bind
  rintro _ next ⟨rfl, seesFirst⟩
  rw [if_pos rfl]
  have value : Runs (some <$> rules.assignment noIn) next fun answer after =>
      ∃ value, answer = some value ∧ holds value after := by
    apply Runs.map
    apply (init next seesFirst).mono
    intro value after held
    exact ⟨value, rfl, held⟩
  apply value.bind
  rintro _ after ⟨value, rfl, held⟩
  rw [runs_spanFrom]
  exact .pure ⟨_, nameSpan, found, value, rfl, isName, held⟩

/-- The declaration of one constant. -/
theorem varStmt_one {holds : Expr → Prop} (sees : Sees state (.word "const") newline text)
    (named : Spells text (.word name) false text₁) (binds : canBind name = true)
    (assign : Spells text₁ (.punct .assign) false text₂)
    (first : SpellsAfter (.punct .assign) text₂ kind newline₃ text₃)
    (init : ∀ next, Sees next kind newline₃ text₃ →
      Runs (rules.assignment false) next fun value after =>
        holds value ∧ Stands after [.punct .semicolon] text₄)
    (behind : Spells text₄ last lastNewline lastText) :
    Runs (rules.varStmt start) state fun statement next =>
      (∃ span declared, statement = .varStmt span .constKind (.cons declared .nil) ∧
        Introduces name holds declared) ∧ Sees next last lastNewline lastText := by
  have declarators : Runs (rules.varDecl false) state fun answer next =>
      (∃ declared, answer = (.constKind, .cons declared .nil) ∧ Introduces name holds declared) ∧
        Stands next [.punct .semicolon] text₄ := by
    unfold varDecl
    apply (anyName_runs sees named).bind
    rintro _ next ⟨rfl, seesName⟩
    have one : Runs (repeating [] fun declarators => do
        let declarators := (← rules.declarator false) :: declarators
        if ← eat .comma then
          return .inl declarators
        else
          return .inr declarators.reverse) next fun answer after =>
        (∃ declared, answer = [declared] ∧ Introduces name holds declared) ∧
          Stands after [.punct .semicolon] text₄ := by
      apply repeating_once
      apply (declarator_runs seesName binds assign first init).bind
      rintro _ after ⟨span, nameSpan, found, value, rfl, isName, held, stands⟩
      apply (eat_stands_other stands rfl).bind
      rintro _ _ ⟨rfl, rfl⟩
      exact .pure ⟨_, rfl, ⟨_, rfl, span, nameSpan, found, value, rfl, isName, held⟩, stands⟩
    apply one.bind
    rintro _ after ⟨⟨declared, rfl, isDeclared⟩, stands⟩
    exact .pure ⟨⟨declared, rfl, isDeclared⟩, stands⟩
  unfold varStmt
  apply declarators.bind
  rintro _ after ⟨⟨declared, rfl, isDeclared⟩, stands⟩
  obtain ⟨_, seesSemicolon⟩ := stands.one
  apply (semicolon_runs seesSemicolon behind).bind
  intro _ after seesAfter
  rw [runs_spanFrom]
  exact .pure ⟨⟨_, declared, rfl, isDeclared⟩, seesAfter⟩

end StopMotion.Syntax.Rules
