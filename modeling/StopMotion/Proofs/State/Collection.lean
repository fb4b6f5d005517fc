import StopMotion.State.Collection

/-!
# The source of collections

However an initial value spells out a collection, the values of its records are quoted from
the source.
-/

namespace StopMotion.State

open StopMotion.Syntax

/-- An element whose fields are quoted from the source. -/
def ElementShape.Quoted (module : Module) (element : ElementShape) : Prop :=
  ∀ fields, element = .record fields →
    ∀ field ∈ fields, field.value.text = module.text field.value.span

/-- A collection whose records are quoted from the source. -/
def Collection.Quoted (module : Module) (collection : Collection) : Prop :=
  collection.element.Quoted module

variable {module : Module} {locals : Locals} {bound : Bound} {collection : Collection}

/-- What a list of optional answers holds was answered for one of the questions. -/
theorem exists_of_mem_mapM {α β : Type} {answer : α → Option β} {questions : List α}
    {answers : List β} (all : questions.mapM answer = some answers) {found : β}
    (member : found ∈ answers) : ∃ question ∈ questions, answer question = some found := by
  induction questions generalizing answers with
  | nil =>
      cases all
      cases member
  | cons question rest inductionHypothesis =>
      rw [List.mapM_cons] at all
      obtain ⟨first, isFirst, all⟩ := Option.bind_eq_some_iff.mp all
      obtain ⟨others, areOthers, same⟩ := Option.bind_eq_some_iff.mp all
      cases same
      rcases List.mem_cons.mp member with rfl | more
      · exact ⟨question, by simp, isFirst⟩
      · obtain ⟨other, isOther, answered⟩ := inductionHypothesis areOthers more
        exact ⟨other, by simp [isOther], answered⟩

/-- The elements that an expression makes are quoted. -/
theorem quoted_of_elementOf? {value : Expr} {element : ElementShape}
    (found : elementOf? module value = some element) : element.Quoted module := by
  rintro fields rfl field member
  unfold elementOf? at found
  split at found
  · rename_i entries _
    obtain ⟨fields', made, same⟩ := Option.bind_eq_some_iff.mp found
    cases same
    obtain ⟨entry, _, isField⟩ := exists_of_mem_mapM made member
    split at isField
    · obtain ⟨name, _, rfl⟩ := Option.map_eq_some_iff.mp isField
      rfl
    · cases isField
  · cases found

theorem quoted_of_ofCallback? {callback : Expr} {count : Nat}
    (found : ofCallback? module callback count = some collection) : collection.Quoted module := by
  obtain ⟨callable, _, found⟩ := Option.bind_eq_some_iff.mp found
  split at found
  · cases found
  · obtain ⟨result, _, found⟩ := Option.bind_eq_some_iff.mp found
    obtain ⟨element, isElement, same⟩ := Option.bind_eq_some_iff.mp found
    cases same
    exact quoted_of_elementOf? isElement

theorem quoted_of_ofCall? {expr : Expr}
    (found : ofCall? module locals bound expr = some collection) : collection.Quoted module := by
  obtain ⟨⟨callee, arguments⟩, _, found⟩ := Option.bind_eq_some_iff.mp found
  dsimp only at found
  split at found
  · obtain ⟨count, _, found⟩ := Option.bind_eq_some_iff.mp found
    exact quoted_of_ofCallback? found
  · split at found
    · split at found
      · obtain ⟨count, _, found⟩ := Option.bind_eq_some_iff.mp found
        exact quoted_of_ofCallback? found
      · cases found
    · cases found

theorem quoted_of_ofLoop? {array : String} {stmt : Stmt}
    (found : ofLoop? module locals bound array stmt = some collection) :
    collection.Quoted module := by
  cases stmt with
  | forStmt span init test step body =>
      cases init with
      | absent => cases found
      | present init =>
          cases test with
          | absent => cases found
          | present test =>
              obtain ⟨counter, _, found⟩ := Option.bind_eq_some_iff.mp found
              obtain ⟨count, _, found⟩ := Option.bind_eq_some_iff.mp found
              obtain ⟨value, _, found⟩ := Option.bind_eq_some_iff.mp found
              obtain ⟨element, isElement, same⟩ := Option.bind_eq_some_iff.mp found
              cases same
              exact quoted_of_elementOf? isElement
  | _ => cases found

theorem quoted_of_ofResult? {ofValue : Bound → Expr → Option Collection} {callable : Callable}
    {arguments : List Expr}
    (quotes : ∀ bound expr collection, ofValue bound expr = some collection →
      collection.Quoted module)
    (found : ofResult? module locals ofValue callable arguments bound = some collection) :
    collection.Quoted module := by
  obtain ⟨result, _, found⟩ := Option.bind_eq_some_iff.mp found
  split at found
  · rename_i made isMade
    cases found
    exact quotes _ _ _ isMade
  · obtain ⟨array, _, found⟩ := Option.bind_eq_some_iff.mp found
    obtain ⟨stmt, _, found⟩ := List.exists_of_findSome?_eq_some found
    exact quoted_of_ofLoop? found

theorem quoted_of_ofValue? {depth : Nat} {expr : Expr}
    (found : ofValue? module locals depth bound expr = some collection) :
    collection.Quoted module := by
  induction depth generalizing bound expr collection with
  | zero => cases found
  | succ depth inductionHypothesis =>
      have ofFunction {callable : Callable} {arguments : List Expr}
          (found : ofResult? module locals (ofValue? module locals depth) callable arguments bound =
            some collection) : collection.Quoted module :=
        quoted_of_ofResult? (fun _ _ _ => inductionHypothesis) found
      unfold ofValue? at found
      dsimp only at found
      split at found
      · split at found
        · exact ofFunction found
        · cases found
      · split at found
        · exact ofFunction found
        · exact quoted_of_ofCall? found

/-- A collection that is recognised is quoted from the source. -/
theorem quoted_of_collection? {init : Expr}
    (found : collection? module locals init = some collection) : collection.Quoted module :=
  quoted_of_ofValue? found

end StopMotion.State
