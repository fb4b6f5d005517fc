import StopMotion.Proofs.Syntax.Grammar.Statement
import StopMotion.Syntax.Grammar

/-!
# Layout of a module

The rules of every depth lay what they answer and are not given up where what is left to
read fits the depth. The depth that a source is given fits the whole of it, so its reading
comes to an answer, and the statements of a module that is read are laid in its source.
-/

namespace StopMotion.Syntax

variable {source : List Char} {bound limit : Nat} {state : ParseState}

namespace Rules

open Parse

/-- Nothing fits the depth of rules that refuse everything. -/
theorem sound_bottom : bottom.Sound source 0 := by
  have none {α : Type} {plan : α → Plan} {step : Parse α} : Lays source 0 plan step :=
    fun bound state ready le => by
      have := ready.fits
      omega
  exact
    { statement := none
      assignment := fun _ => none
      binary := fun _ _ => none
      unary := none
      access := none
      construction := none
      target := none
      element := fun _ _ _ _ _ fits => absurd fits (Nat.not_lt_zero _) }

/-- Every rule lays its answer if the rules it calls do, and it fits one more. -/
theorem sound_next {below : Unit → Rules} (sound : (below ()).Sound source limit) :
    (next below).Sound source (limit + 1) where
  statement := sound.anyStmt.mono (by omega)
  assignment := sound.assignmentExpr
  binary := sound.binaryExpr
  unary := sound.unaryExpr
  access := sound.accessChain
  construction := sound.newExpr
  target := sound.bindingTarget
  element start state place opens behind fits :=
    sound.jsxElement start state place opens behind (Nat.le_of_lt_succ fits)

theorem sound_ofDepth (depth : Nat) : (ofDepth depth).Sound source depth := by
  induction depth with
  | zero => exact sound_bottom
  | succ depth inductionHypothesis => exact sound_next inductionHypothesis

end Rules

namespace Parse

/-- A reading begins ready. -/
theorem ready_start {first : Token} {cursor : Cursor}
    (read : readToken true (Cursor.start source) = .ok (first, cursor)) :
    Ready source (3 * source.length + 1) ⟨source, cursor, first, 0, false⟩ := by
  have read := read_readToken (Cursor.start_in source) read
  exact ⟨⟨rfl, read.place⟩, read.stands, read.ends, Nat.zero_le _, .inl rfl,
    Nat.lt_succ_of_le (Nat.mul_le_mul_left 3 read.shorter)⟩

theorem atEnd?_yields : Yields atEnd? state fun answer next =>
    (answer = false ∧ next = state) ∨ (answer = true ∧ next = state) := by
  change (state.token.kind.isEnd = false ∧ state = state) ∨
    (state.token.kind.isEnd = true ∧ state = state)
  cases state.token.kind.isEnd
  · exact .inl ⟨rfl, rfl⟩
  · exact .inr ⟨rfl, rfl⟩

/-- The statements up to the end of a source are laid. -/
theorem statements_yields (ready : Ready source (3 * source.length + 1) state) :
    Yields (many atEnd? (Rules.ofDepth (3 * source.length + 3)).statement) state fun body next =>
      Covers source (3 * source.length + 1) state (.all Node.plan body) next := by
  have sound : (Rules.ofDepth (3 * source.length + 3)).Sound source (3 * source.length + 3) :=
    Rules.sound_ofDepth _
  refine (many_yields ready (fun _ _ => atEnd?_yields) sound.statement (by omega)).mono
      fun body last held => ?_
  obtain ⟨_, covers, rfl⟩ := held
  exact covers

end Parse

/-- The reading of the statements of a source is not given up. -/
theorem settles_readStatements : Settles (readStatements source) := by
  refine settles_readToken.bind_ok fun answer firstRead => ?_
  have yields := Parse.statements_yields (Parse.ready_start firstRead)
  exact Settles.bind (fun _ => yields.of_error) fun _ => settles_ok _

/-- The reading of a source is not given up. -/
theorem settles_parse : Settles (parse source) :=
  settles_readStatements.bind fun _ => settles_ok _

/-- The statements of a source that is read are laid in it. -/
theorem laid_readStatements {body : List Stmt} (read : readStatements source = .ok body) :
    (Node.ofList body).plan.Laid source 0 (Text.size source) := by
  unfold readStatements at read
  obtain ⟨⟨first, cursor⟩, firstRead, read⟩ := bind_eq_ok read
  obtain ⟨⟨body', last⟩, run, read⟩ := bind_eq_ok read
  cases read
  have covers := (Parse.statements_yields (Parse.ready_start firstRead)).of_run run
  rw [Node.plan_ofList]
  apply covers.laid.mono (Nat.zero_le _)
  have behind := covers.ready.behind
  have ordered := covers.ready.stands.ordered
  have ends := covers.ready.ends
  have inside := covers.ready.place.cursor.le_size
  omega

/-- The nodes of a module are laid in its source. -/
theorem plan_laid_parse {module : Module} (read : parse source = .ok module) :
    module.source = source ∧
      (Node.ofList module.body).plan.Laid source 0 (Text.size source) := by
  obtain ⟨body, bodyRead, read⟩ := bind_eq_ok read
  cases read
  exact ⟨rfl, laid_readStatements bodyRead⟩

/-- The statements of a module are laid in its source. -/
theorem laid_parse {module : Module} (read : parse source = .ok module) :
    module.source = source ∧
      (Node.ofList module.body).outline.Laid source 0 (Text.size source) := by
  obtain ⟨isSource, laid⟩ := plan_laid_parse read
  rw [← Node.forest_plan]
  exact ⟨isSource, laid.forest⟩

end StopMotion.Syntax
