import StopMotion.Frame.Removal
import StopMotion.Proofs.Syntax.Region

/-!
# Regions of removals

Every removal is one of four kinds, and its statement or attribute is a node of the module. So
it takes up a region of the module, and leaves nothing there or an empty block.
-/

namespace StopMotion.Frame

open StopMotion.Syntax StopMotion.State

/-- Whether a statement of a module mounts a component, given the names of roots. -/
def mountsStmt (roots : List String) : Stmt → Bool
  | .exprStmt _ value => mounts roots value
  | .varStmt _ _ declarators =>
    !declarators.toList.isEmpty && declarators.toList.all (declaresMount roots)
  | _ => false

/-- The names that a statement declares. -/
def rootNames : Stmt → List String
  | .varStmt _ _ declarators => declarators.toList.filterMap declaredName?
  | _ => []

/-- The statements of a module that mount a component, given the names of roots. Those that
are declared by one of them are roots for the statements behind it. -/
def mountStmts (roots : List String) : List Stmt → List Stmt
  | [] => []
  | stmt :: rest =>
    if mountsStmt roots stmt then stmt :: mountStmts (roots ++ rootNames stmt) rest
    else mountStmts roots rest

/-- The statements that mount a component are removed, and no others. -/
theorem mountDeletions_eq (source : List Char) (roots : List String) (stmts : List Stmt) :
    mountDeletions source roots stmts =
      (mountStmts roots stmts).map fun stmt => lineDeletion source stmt.span := by
  induction stmts generalizing roots with
  | nil => rfl
  | cons stmt rest inductionHypothesis =>
      have step : mountDeletions source roots (stmt :: rest) =
          if mountsStmt roots stmt then
            lineDeletion source stmt.span :: mountDeletions source (roots ++ rootNames stmt) rest
          else mountDeletions source roots rest := by
        cases stmt <;> rfl
      rw [step, mountStmts]
      split
      · rw [inductionHypothesis, List.map_cons]
      · exact inductionHypothesis roots

/-- The statements that mount a component are expressions or declare variables. -/
theorem spec_of_mem_mountStmts {stmt : Stmt} {roots : List String} {stmts : List Stmt}
    (member : stmt ∈ mountStmts roots stmts) :
    stmt ∈ stmts ∧ ∃ roots, mountsStmt roots stmt = true := by
  induction stmts generalizing roots with
  | nil => cases member
  | cons first rest inductionHypothesis =>
      have behind {roots : List String} (member : stmt ∈ mountStmts roots rest) :
          stmt ∈ first :: rest ∧ ∃ roots, mountsStmt roots stmt = true := by
        obtain ⟨isStmt, mount⟩ := inductionHypothesis member
        exact ⟨List.mem_cons_of_mem _ isStmt, mount⟩
      unfold mountStmts at member
      split at member
      · rename_i isMount
        rcases List.mem_cons.mp member with rfl | more
        · exact ⟨List.mem_cons_self, roots, isMount⟩
        · exact behind more
      · exact behind member

/-- The name of an attribute. -/
def attributeName? : Node .jsxAttribute → Option String
  | .attrFlag _ name | .attrString _ name _ _ | .attrExpr _ name _ | .attrElement _ name _ =>
    some name
  | .attrSpread .. => none

/-- The removals from a module: of what mounts, of effects and timers, and of the attributes for
events with the blanks before them. -/
inductive Removes (module : Module) : Edit → Prop where
  | mount {stmt : Stmt} (isMount : stmt ∈ mountStmts [] module.body) :
      Removes module (lineDeletion module.source stmt.span)
  | work {stmt : Stmt} (held : module.Holds ⟨_, stmt⟩) (removable : isRemovable stmt = true) :
      Removes module (lineDeletion module.source stmt.span)
  | sole {stmt : Stmt} (held : module.Holds ⟨_, stmt⟩) (removable : isRemovable stmt = true) :
      Removes module ⟨stmt.span, "\x7b\x7d"⟩
  | event {node : Node .jsxAttribute} {name : String} {start : Nat}
      (held : module.Holds ⟨_, node⟩) (named : attributeName? node = some name)
      (isEvent : isEventName name = true)
      (blank : Text.Run Text.isBlank module.source start node.span.start) :
      Removes module (.deletion ⟨start, node.span.stop⟩)

variable {module : Module} {edit : Edit}

/-- The removal of a statement takes up the statement or its lines. -/
theorem removes_of_stmtDeletion? {sole : List Span} {stmt : Stmt}
    (held : module.Holds ⟨_, stmt⟩)
    (found : stmtDeletion? module.source sole stmt = some edit) : Removes module edit := by
  unfold stmtDeletion? at found
  split at found
  · rename_i removable
    split at found <;> cases found
    · exact .sole held removable
    · exact .work held removable
  · cases found

/-- The removal of an attribute takes the blanks before it with it. -/
theorem removes_of_attributeDeletion? {node : Node .jsxAttribute} (laid : module.Laid)
    (held : module.Holds ⟨_, node⟩)
    (found : attributeDeletion? module.source node = some edit) : Removes module edit := by
  obtain ⟨_, shape⟩ := node.outline_attribute
  obtain ⟨before, c, behind, joined, starts, _⟩ :=
    (Forest.Laid.of_mem laid (held.spot_mem shape)).2.2.opens
  have cut : Text.splitAt? node.span.start module.source = some (before, c :: behind) := by
    rw [joined, ← starts, Text.splitAt?_append]
  have blank : Text.Run Text.isBlank module.source (Text.size (Text.trimEnd before))
      node.span.start := by
    rw [joined, ← starts]
    exact Text.run_of_trimEnd before (c :: behind)
  cases node with
  | attrSpread span operand => cases found
  | attrFlag span name | attrString span name | attrExpr span name | attrElement span name =>
      simp only [attributeDeletion?] at found
      split at found
      · rename_i isEvent
        cases found
        have cut : Text.splitAt? span.start module.source = some (before, c :: behind) := cut
        rw [cut]
        exact .event held rfl isEvent blank
      · cases found

/-- What is asked for where a statement stands is the removal of the statement. -/
theorem removes_of_stmtPick (sole : List Span) {c : Category} {node : Node c}
    (held : module.Holds ⟨c, node⟩)
    (found : edit ∈ (match node.asStmt?.bind (stmtDeletion? module.source sole) with
      | some edit => ({ found := [edit], goesInside := false } : Pick Edit)
      | none => {}).found) : Removes module edit := by
  cases deletion : node.asStmt?.bind (stmtDeletion? module.source sole) with
  | none =>
      rw [deletion] at found
      cases found
  | some removal =>
      rw [deletion] at found
      obtain rfl := List.mem_singleton.mp found
      obtain ⟨stmt, isStmt, deletion⟩ := Option.bind_eq_some_iff.mp deletion
      rw [@Node.eq_of_asStmt? ⟨c, node⟩ stmt isStmt] at held
      exact removes_of_stmtDeletion? held deletion

theorem removes_of_mem_pickDeletions {sole : List Span} {node : AnyNode} (laid : module.Laid)
    (held : module.Holds node)
    (found : edit ∈ (pickDeletions module.source sole node.2).found) : Removes module edit := by
  obtain ⟨c, node⟩ := node
  cases node with
  | tag span name attributes children =>
      obtain ⟨single, isAttribute, found⟩ := List.mem_filterMap.mp found
      refine removes_of_attributeDeletion? laid (held.inside ?_) found
      exact .part List.mem_cons_self (Node.inside_of_mem_toList isAttribute)
  | _ => exact removes_of_stmtPick sole held found

/-- Every removal is of one of the kinds. -/
theorem removes_of_mem_deletions (laid : module.Laid) (member : edit ∈ deletions module) :
    Removes module edit := by
  rcases List.mem_append.mp member with mount | work
  · rw [mountDeletions_eq] at mount
    obtain ⟨stmt, isMount, rfl⟩ := List.mem_map.mp mount
    exact .mount isMount
  · obtain ⟨node, held, _, found⟩ := Module.exists_of_mem_visit work
    exact removes_of_mem_pickDeletions laid held found

/-! ## Regions -/

/-- An edit of a region that leaves nothing there, or an empty block. -/
def Clears (module : Module) (edit : Edit) : Prop :=
  module.Region edit.span ∧ (edit.text = "" ∨ edit.text = "\x7b\x7d")

/-- A statement that is an expression or declares variables. -/
def IsSimple (stmt : Stmt) : Prop :=
  ∃ inside, stmt.outline = .one .simple stmt.span inside

/-- The removal of a simple statement with its lines. -/
theorem clears_lineDeletion {stmt : Stmt} (held : module.Holds ⟨_, stmt⟩)
    (simple : IsSimple stmt) : Clears module (lineDeletion module.source stmt.span) := by
  obtain ⟨_, shape⟩ := simple
  exact ⟨⟨_, held.spot_mem shape, by simp, .lines rfl⟩, .inl rfl⟩

/-- What is nothing but an effect or a timer is a simple statement. -/
theorem isSimple_of_isRemovable {stmt : Stmt} (removable : isRemovable stmt = true) :
    IsSimple stmt := by
  cases stmt <;> first | exact ⟨_, rfl⟩ | simp [isRemovable] at removable

/-- What mounts a component is a simple statement. -/
theorem isSimple_of_mountsStmt {stmt : Stmt} {roots : List String}
    (isMount : mountsStmt roots stmt = true) : IsSimple stmt := by
  cases stmt <;> first | exact ⟨_, rfl⟩ | simp [mountsStmt] at isMount

/-- Every removal clears a region. -/
theorem clears_of_mem_deletions (laid : module.Laid) (member : edit ∈ deletions module) :
    Clears module edit := by
  cases removes_of_mem_deletions laid member with
  | mount isMount =>
      obtain ⟨isStmt, roots, mount⟩ := spec_of_mem_mountStmts isMount
      exact clears_lineDeletion (Module.holds_of_mem isStmt) (isSimple_of_mountsStmt mount)
  | work held removable => exact clears_lineDeletion held (isSimple_of_isRemovable removable)
  | sole held removable =>
      obtain ⟨_, shape⟩ := isSimple_of_isRemovable removable
      exact ⟨⟨_, held.spot_mem shape, by simp, .exact⟩, .inr rfl⟩
  | @event node _ _ held _ _ blank =>
      obtain ⟨_, shape⟩ := node.outline_attribute
      exact ⟨⟨_, held.spot_mem shape, by simp, .blanks rfl blank⟩, .inl rfl⟩

end StopMotion.Frame
