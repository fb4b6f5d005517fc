import StopMotion.Proofs.Syntax.Visit
import StopMotion.Validation.Scope

/-!
# Names that are declared

Which names a pattern binds and which names are hoisted to the function around are found out by
walks through the nodes of a few categories. A walk is told by what it finds at a single node and
by the parts it goes on to, and what it gathers is then what is found at the nodes it reaches.
-/

namespace StopMotion.Validation

open Syntax (AnyNode Category Node VarKind)

/-! ## Walks -/

/-- A node that is reached from another one by going on to some of the parts. -/
inductive Reaches (next : AnyNode → List AnyNode) (inner : AnyNode) : AnyNode → Prop where
  | self : Reaches next inner inner
  | part {outer part : AnyNode} (isPart : part ∈ next outer) (reaches : Reaches next inner part) :
      Reaches next inner outer

/-- What a walk through the nodes of some categories gathers is found at the nodes it reaches. -/
theorem mem_walk_iff {α : Type} {walk own : AnyNode → List α} {next : AnyNode → List AnyNode}
    {passes : Category → Bool}
    (step : ∀ node, passes node.1 → walk node = own node ++ (next node).flatMap walk)
    (parts : ∀ node, ∀ part ∈ next node, part ∈ node.2.parts ∧ passes part.1) {value : α}
    {node : AnyNode} (isPassed : passes node.1) :
    value ∈ walk node ↔ ∃ inner, Reaches next inner node ∧ value ∈ own inner := by
  constructor
  · apply Node.induction_parts (fun node => passes node.1 → value ∈ walk node →
      ∃ inner, Reaches next inner node ∧ value ∈ own inner) _ node.2 isPassed
    intro node inductionHypothesis isPassed isIn
    rw [step node isPassed] at isIn
    rcases List.mem_append.mp isIn with isOwn | deeper
    · exact ⟨node, .self, isOwn⟩
    · obtain ⟨part, isNext, isIn⟩ := List.mem_flatMap.mp deeper
      obtain ⟨isPart, passesPart⟩ := parts node part isNext
      obtain ⟨inner, reaches, isOwn⟩ := inductionHypothesis part isPart passesPart isIn
      exact ⟨inner, .part isNext reaches, isOwn⟩
  · rintro ⟨inner, reaches, isOwn⟩
    induction reaches with
    | self =>
        rw [step inner isPassed]
        exact List.mem_append_left _ isOwn
    | @part outer part isNext _ inductionHypothesis =>
        rw [step outer isPassed]
        apply List.mem_append_right
        exact List.mem_flatMap.mpr
          ⟨part, isNext, inductionHypothesis (parts outer part isNext).2⟩

/-! ## Names that are bound -/

/-- Whether names are bound in nodes of a category. -/
def binds : Category → Bool
  | .pattern | .patternEntry | .declarator | .loopHead => true
  | .list c | .option c => binds c
  | _ => false

/-- The parts of a node in which names are bound. A pattern in the head of a loop is assigned
to. -/
def boundParts : {c : Category} → Node c → List AnyNode
  | _, .headPattern _ => []
  | _, node => node.parts.filter fun part => binds part.1

/-- The name that a node itself binds. -/
def boundHere : {c : Category} → Node c → List String
  | _, .bindName _ name => [name.text]
  | _, _ => []

theorem bound_step {c : Category} (isBinding : binds c) (node : Node c) :
    bound node = boundHere node ++ (boundParts node).flatMap fun part => bound part.2 := by
  cases node with
  | cons head tail =>
      have both : boundParts (.cons head tail) = [⟨_, head⟩, ⟨_, tail⟩] :=
        List.filter_eq_self.mpr
          (List.forall_mem_cons.mpr ⟨isBinding, List.forall_mem_singleton.mpr isBinding⟩)
      rw [both]
      exact congrArg _ (List.append_nil _).symm
  | present value =>
      have all : boundParts (.present value) = [⟨_, value⟩] :=
        List.filter_eq_self.mpr (List.forall_mem_singleton.mpr isBinding)
      rw [all]
      exact (List.append_nil _).symm
  | nil | absent | bindName | bindExpr | headExpr | headPattern => rfl
  | bindArray | bindObject | bindDefault | bindRest | boundKey | boundRest | declares | headVar =>
      exact (List.append_nil _).symm
  | _ => cases isBinding

/-- A pattern binds the names that stand in it for values to be bound. -/
theorem mem_bound_iff {c : Category} (isBinding : binds c) {node : Node c} {name : String} :
    name ∈ bound node ↔
      ∃ inner, Reaches (fun node => boundParts node.2) inner ⟨c, node⟩ ∧
        name ∈ boundHere inner.2 := by
  have parts (node : AnyNode) (part : AnyNode) (isPart : part ∈ boundParts node.2) :
      part ∈ node.2.parts ∧ binds part.1 := by
    unfold boundParts at isPart
    split at isPart
    · cases isPart
    · exact List.mem_filter.mp isPart
  exact @mem_walk_iff _ (fun node => bound node.2) (fun node => boundHere node.2) _ binds
    (fun node isBinding => bound_step isBinding node.2) parts name ⟨c, node⟩ isBinding

/-! ## Names that are hoisted -/

/-- Whether statements are nodes of a category, or parts of such nodes. -/
def isStatement : Category → Bool
  | .stmt | .arm | .loopHead => true
  | .list c | .option c => isStatement c
  | _ => false

/-- The parts of a node that are statements of the same function. What is exported is declared by
the module itself, so nothing is hoisted from there. -/
def nestedParts : {c : Category} → Node c → List AnyNode
  | _, .exportDecl .. => []
  | _, node => node.parts.filter fun part => isStatement part.1

/-- The names that a node itself declares with `var`. -/
def varsHere : {c : Category} → Node c → List String
  | _, .varStmt _ .varKind declarators | _, .headVar .varKind declarators => bound declarators
  | _, _ => []

theorem hoisted_step {c : Category} (isNested : isStatement c) (node : Node c) :
    hoisted node = varsHere node ++ (nestedParts node).flatMap fun part => hoisted part.2 := by
  cases node with
  | cons head tail =>
      have both : nestedParts (.cons head tail) = [⟨_, head⟩, ⟨_, tail⟩] :=
        List.filter_eq_self.mpr
          (List.forall_mem_cons.mpr ⟨isNested, List.forall_mem_singleton.mpr isNested⟩)
      rw [both]
      exact congrArg _ (List.append_nil _).symm
  | present value =>
      have all : nestedParts (.present value) = [⟨_, value⟩] :=
        List.filter_eq_self.mpr (List.forall_mem_singleton.mpr isNested)
      rw [all]
      exact (List.append_nil _).symm
  | varStmt _ kind _ | headVar kind _ =>
      cases kind with
      | varKind => exact (List.append_nil _).symm
      | _ => rfl
  | ifStmt | forStmt | forEach =>
      exact congrArg _ (List.append_nil _).symm
  | tryStmt _ body _ handler finalizer =>
      exact (List.append_assoc ..).trans (congrArg _ (congrArg _ (List.append_nil _).symm))
  | block | whileStmt | doWhile | labeled | switchStmt | switchArm =>
      exact (List.append_nil _).symm
  | importStmt | exportDecl | exportExpr | exportFunction | exportClass | exportNamed | exportAll
  | functionStmt | classStmt | typeOnly | enumStmt | exprStmt | returnStmt | throwStmt | breakStmt
  | continueStmt | emptyStmt | debugger | headExpr | headPattern | nil | absent => rfl
  | _ => cases isNested

/-- The names that are hoisted from a statement are those that it declares with `var`, itself or
in a statement inside it. -/
theorem mem_hoisted_iff {c : Category} (isNested : isStatement c) {node : Node c} {name : String} :
    name ∈ hoisted node ↔
      ∃ inner, Reaches (fun node => nestedParts node.2) inner ⟨c, node⟩ ∧
        name ∈ varsHere inner.2 := by
  have parts (node : AnyNode) (part : AnyNode) (isPart : part ∈ nestedParts node.2) :
      part ∈ node.2.parts ∧ isStatement part.1 := by
    unfold nestedParts at isPart
    split at isPart
    · cases isPart
    · exact List.mem_filter.mp isPart
  exact @mem_walk_iff _ (fun node => hoisted node.2) (fun node => varsHere node.2) _ isStatement
    (fun node isNested => hoisted_step isNested node.2) parts name ⟨c, node⟩ isNested

end StopMotion.Validation
