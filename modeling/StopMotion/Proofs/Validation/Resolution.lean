import StopMotion.Proofs.Syntax.Region
import StopMotion.Proofs.Validation.Scope

/-!
# What a name stands for

The scopes around an occurrence of a name, as they are drawn by the outline of a module, but with
the declarations themselves in place of their texts. An occurrence stands for what the innermost
scope that declares its name declares by it.

Every name that a scope declares is declared by a node of the module, and no scope knows others.
-/

namespace StopMotion.Validation

open Syntax (AnyNode Category Name Node Module)

/-! ## Declarations -/

/-- The names that a pattern, a declarator or the head of a loop binds, where they stand. -/
def boundNames : {c : Category} → Node c → List Name
  | _, .cons head tail => boundNames head ++ boundNames tail
  | _, .present value => boundNames value
  | _, .bindName _ name => [name]
  | _, .bindArray _ elements => boundNames elements
  | _, .bindObject _ entries => boundNames entries
  | _, .bindDefault _ target _ => boundNames target
  | _, .bindRest _ target => boundNames target
  | _, .boundKey _ value => boundNames value
  | _, .boundRest target => boundNames target
  | _, .declares _ target _ => boundNames target
  | _, .headVar _ declarators => boundNames declarators
  | _, _ => []

/-- The name of a function or class, where it stands. -/
def ownName : {c : Category} → Node c → List Name
  | _, .func _ name _ _ _ _ _ | _, .klass _ name _ _ => name.toList
  | _, _ => []

/-- The names that a statement declares for the list it stands in, where they stand. -/
def declaredNames : {c : Category} → Node c → List Name
  | _, .cons head tail => declaredNames head ++ declaredNames tail
  | _, .varStmt _ _ declarators => boundNames declarators
  | _, .functionStmt _ value | _, .exportFunction _ value => ownName value
  | _, .classStmt _ value | _, .exportClass _ value => ownName value
  | _, .enumStmt _ name => [name]
  | _, .typeOnly _ name => name.toList
  | _, .importStmt _ specifiers _ _ => specifiers.map (·.binding)
  | _, .exportDecl _ declaration => declaredNames declaration
  | _, _ => []

/-- The names that are declared with `var` in statements or inside them, where they stand. -/
def hoistedNames : {c : Category} → Node c → List Name
  | _, .cons head tail => hoistedNames head ++ hoistedNames tail
  | _, .present value => hoistedNames value
  | _, .varStmt _ .varKind declarators => boundNames declarators
  | _, .headVar .varKind declarators => boundNames declarators
  | _, .block _ body => hoistedNames body
  | _, .ifStmt _ _ consequent alternative => hoistedNames consequent ++ hoistedNames alternative
  | _, .forStmt _ init _ _ body => hoistedNames init ++ hoistedNames body
  | _, .forEach _ left _ body _ => hoistedNames left ++ hoistedNames body
  | _, .whileStmt _ _ body | _, .doWhile _ body _ | _, .labeled _ _ body => hoistedNames body
  | _, .tryStmt _ body _ handler finalizer =>
    hoistedNames body ++ hoistedNames handler ++ hoistedNames finalizer
  | _, .switchStmt _ _ arms => hoistedNames arms
  | _, .switchArm _ body => hoistedNames body
  | _, _ => []

/-- The names that the body of a function or module declares, where they stand. -/
def namesInBody {c : Category} (body : Node c) : List Name :=
  declaredNames body ++ hoistedNames body

/-- The names that the arms of a switch declare, where they stand. -/
def namesInArms : {c : Category} → Node c → List Name
  | _, .cons head tail => namesInArms head ++ namesInArms tail
  | _, .switchArm _ body => declaredNames body
  | _, _ => []

/-- The names that the body of an arrow function declares, where they stand. -/
def namesInArrow : Node .arrowBody → List Name
  | .bodyBlock _ body => namesInBody body
  | .bodyExpr _ => []

/-- The names that the statements of an optional list declare for it, where they stand. -/
def namesThere : Node (.option (.list .stmt)) → List Name
  | .present body => declaredNames body
  | .absent => []

/-- The names that declarators in the head of a loop declare for those behind them, where they
stand. -/
def namesInHead (role : Role) {c : Category} (node : Node c) : List Name :=
  match role with
  | .head => boundNames node
  | _ => []

@[simp] theorem map_boundNames {c : Category} (node : Node c) :
    (boundNames node).map (·.text) = bound node := by
  induction node with
  | cons _ _ inHead inTail =>
      exact List.map_append.trans (congrArg₂ _ inHead inTail)
  | present _ inside | bindArray _ _ inside | bindObject _ _ inside | bindRest _ _ inside
  | boundRest _ inside | headVar _ _ inside | bindDefault _ _ _ inside _ | boundKey _ _ _ inside
  | declares _ _ _ inside _ => exact inside
  | _ => rfl

@[simp] theorem map_ownName {c : Category} (node : Node c) :
    (ownName node).map (·.text) = givenName node := by
  cases node with
  | func _ name | klass _ name => cases name <;> rfl
  | _ => rfl

@[simp] theorem map_declaredNames {c : Category} (node : Node c) :
    (declaredNames node).map (·.text) = declared node := by
  induction node with
  | cons _ _ inHead inTail =>
      exact List.map_append.trans (congrArg₂ _ inHead inTail)
  | exportDecl _ _ inside => exact inside
  | varStmt _ _ declarators => exact map_boundNames declarators
  | functionStmt _ value | exportFunction _ value => exact map_ownName value
  | classStmt _ value | exportClass _ value => exact map_ownName value
  | typeOnly _ name => cases name <;> rfl
  | importStmt => exact List.map_map
  | _ => rfl

@[simp] theorem map_hoistedNames {c : Category} (node : Node c) :
    (hoistedNames node).map (·.text) = hoisted node := by
  induction node with
  | varStmt _ kind declarators | headVar kind declarators =>
      cases kind with
      | varKind => exact map_boundNames declarators
      | _ => rfl
  | cons _ _ first second | ifStmt _ _ _ _ _ first second | forStmt _ _ _ _ _ first _ _ second
  | forEach _ _ _ _ _ first _ second =>
      exact List.map_append.trans (congrArg₂ _ first second)
  | tryStmt _ _ _ _ _ first _ second third =>
      have both := List.map_append.trans (congrArg₂ _ first second)
      exact List.map_append.trans (congrArg₂ _ both third)
  | present _ inside | block _ _ inside | whileStmt _ _ _ _ inside | doWhile _ _ _ inside _
  | labeled _ _ _ inside | switchStmt _ _ _ _ inside | switchArm _ _ _ inside => exact inside
  | _ => rfl

@[simp] theorem map_namesInBody {c : Category} (body : Node c) :
    (namesInBody body).map (·.text) = declaredInBody body := by
  simp [namesInBody, declaredInBody]

@[simp] theorem map_namesInArms {c : Category} (node : Node c) :
    (namesInArms node).map (·.text) = declaredInArms node := by
  induction node with
  | cons _ _ inHead inTail =>
      exact List.map_append.trans (congrArg₂ _ inHead inTail)
  | switchArm _ body => exact map_declaredNames body
  | _ => rfl

@[simp] theorem map_namesInArrow (body : Node .arrowBody) :
    (namesInArrow body).map (·.text) = declaredInArrow body := by
  cases body with
  | bodyBlock _ body => exact map_namesInBody body
  | bodyExpr => rfl

@[simp] theorem map_namesThere (body : Node (.option (.list .stmt))) :
    (namesThere body).map (·.text) = declaredThere body := by
  cases body with
  | present body => exact map_declaredNames body
  | absent => rfl

@[simp] theorem map_namesInHead (role : Role) {c : Category} (node : Node c) :
    (namesInHead role node).map (·.text) = declaredInHead role node := by
  cases role with
  | head => exact map_boundNames node
  | _ => rfl

/-! ## Scopes -/

/-- A part of a node, what it is to the node, and the names that the node declares for it. Of two
declarations of one name the later one counts. -/
structure Scoped where
  part : AnyNode
  role : Role := .binds
  names : List Name := []

/-- A scoped part by the texts of the names. -/
def Scoped.branch (inner : Scoped) : Branch :=
  ⟨inner.part, inner.role, inner.names.map (·.text)⟩

/-- The parts of a node with what the node declares for them. A function has a name `arguments`
that stands nowhere. -/
def scopedParts (role : Role) : {c : Category} → Node c → List Scoped
  | _, .cons head tail =>
    [⟨⟨_, head⟩, role, namesInHead role head⟩, ⟨⟨_, tail⟩, role, namesInHead role head⟩]
  | _, .present value => [{ part := ⟨_, value⟩, role }]
  | _, .block _ body => [{ part := ⟨_, body⟩, names := declaredNames body }]
  | _, .forStmt _ init test step body =>
    { part := ⟨_, init⟩ } :: [⟨_, test⟩, ⟨_, step⟩, ⟨_, body⟩].map fun part =>
      { part, names := boundNames init }
  | _, .forEach _ left right body _ =>
    [{ part := ⟨_, right⟩ }, { part := ⟨_, left⟩ },
      { part := ⟨_, body⟩, names := boundNames left }]
  | _, .tryStmt _ body param handler finalizer =>
    [{ part := ⟨_, body⟩, names := declaredNames body },
      { part := ⟨_, param⟩, names := boundNames param },
      { part := ⟨_, handler⟩, names := namesThere handler ++ boundNames param },
      { part := ⟨_, finalizer⟩, names := namesThere finalizer }]
  | _, .switchStmt _ subject arms =>
    [{ part := ⟨_, subject⟩ }, { part := ⟨_, arms⟩, names := namesInArms arms }]
  | _, .headVar _ declarators => [{ part := ⟨_, declarators⟩, role := .head }]
  | _, .headPattern target => [{ part := ⟨_, target⟩, role := .assigned }]
  | _, .func span name params body _ _ _ => [⟨_, params⟩, ⟨_, body⟩].map fun part =>
    { part, names := ⟨"arguments", span⟩ :: name.toList ++ boundNames params ++
        namesInBody body }
  | _, .klass _ name superClass members => [⟨_, superClass⟩, ⟨_, members⟩].map fun part =>
    { part, names := name.toList }
  | _, .bindArray _ elements => [{ part := ⟨_, elements⟩, role }]
  | _, .bindObject _ entries => [{ part := ⟨_, entries⟩, role }]
  | _, .bindDefault _ target value => [{ part := ⟨_, target⟩, role }, { part := ⟨_, value⟩ }]
  | _, .bindRest _ target => [{ part := ⟨_, target⟩, role }]
  | _, .boundKey key value => [{ part := ⟨_, key⟩ }, { part := ⟨_, value⟩, role }]
  | _, .boundRest target => [{ part := ⟨_, target⟩, role }]
  | _, .arrow _ params body _ => [⟨_, params⟩, ⟨_, body⟩].map fun part =>
    { part, names := boundNames params ++ namesInArrow body }
  | _, .assign _ _ target value =>
    [{ part := ⟨_, target⟩, role := .assigned }, { part := ⟨_, value⟩ }]
  | _, node => node.parts.map fun part => { part }

variable {role : Role} {c : Category}

theorem branch_mk {part : AnyNode} {names : List Name} {texts : List String}
    (same : names.map (·.text) = texts) :
    Scoped.branch ⟨part, role, names⟩ = ⟨part, role, texts⟩ :=
  congrArg _ same

theorem map_branch_mk {parts : List AnyNode} {names : List Name} {texts : List String}
    (same : names.map (·.text) = texts) :
    (parts.map fun part => ({ part, names } : Scoped)).map Scoped.branch =
      parts.map fun part => { part, names := texts } := by
  rw [List.map_map]
  exact List.map_congr_left fun _ _ => branch_mk same

/-- The scopes are those of the outline. -/
theorem branches_subset (node : Node c) :
    branches role node ⊆ (scopedParts role node).map Scoped.branch := by
  have same {found : List Branch} (isSame : (scopedParts role node).map Scoped.branch = found) :
      found ⊆ (scopedParts role node).map Scoped.branch :=
    isSame ▸ List.Subset.refl _
  have all {parts : List AnyNode} : (parts.map fun part => ({ part } : Branch)) ⊆
      (parts.map fun part => ({ part } : Scoped)).map Scoped.branch :=
    (map_branch_mk rfl).symm ▸ List.Subset.refl _
  cases node with
  | cons head =>
      have inHead := map_namesInHead role head
      exact same (congrArg₂ _ (branch_mk inHead) (congrArg₂ _ (branch_mk inHead) rfl))
  | block _ body => exact same (congrArg₂ _ (branch_mk (map_declaredNames body)) rfl)
  | forStmt _ init => exact same (congrArg₂ _ rfl (map_branch_mk (map_boundNames init)))
  | forEach _ left =>
      exact same (congrArg₂ _ rfl (congrArg₂ _ rfl
        (congrArg₂ _ (branch_mk (map_boundNames left)) rfl)))
  | switchStmt _ _ arms =>
      exact same (congrArg₂ _ rfl (congrArg₂ _ (branch_mk (map_namesInArms arms)) rfl))
  | klass _ name => exact same (map_branch_mk (by cases name <;> rfl))
  | arrow _ params body =>
      have ofArrow : (boundNames params ++ namesInArrow body).map (·.text) =
          bound params ++ declaredInArrow body := by simp
      exact same (map_branch_mk ofArrow)
  | func span name params body =>
      have ofFunction : (⟨"arguments", span⟩ :: name.toList ++ boundNames params ++
          namesInBody body).map (·.text) = "arguments" :: (name.map (·.text)).toList ++
            bound params ++ declaredInBody body := by
        cases name <;> simp
      exact same (map_branch_mk ofFunction)
  | tryStmt span body param handler finalizer =>
      have inBody := map_declaredNames body
      have caught := map_boundNames param
      have atLast := map_namesThere finalizer
      have inHandler : (namesThere handler ++ boundNames param).map (·.text) =
          declaredThere handler ++ bound param := by simp
      have found : (scopedParts role (.tryStmt span body param handler finalizer)).map
          Scoped.branch =
          [{ part := ⟨_, body⟩, names := declared body },
            { part := ⟨_, param⟩, names := bound param },
            { part := ⟨_, handler⟩, names := declaredThere handler ++ bound param },
            { part := ⟨_, finalizer⟩, names := declaredThere finalizer }] :=
        congrArg₂ List.cons (branch_mk inBody) (congrArg₂ List.cons (branch_mk caught)
          (congrArg₂ List.cons (branch_mk inHandler) (congrArg₂ List.cons (branch_mk atLast) rfl)))
      rw [found]
      cases handler with
      | absent =>
          exact List.cons_subset_cons _ (List.subset_cons_of_subset _
            (List.subset_cons_of_subset _ (List.Subset.refl _)))
      | present => exact List.Subset.refl _
  | unary _ op operand =>
      cases op with
      | typeOf =>
          cases operand with
          | name => exact List.nil_subset _
          | _ => exact all
      | _ => exact all
  | present | headVar | headPattern | bindArray | bindObject | bindDefault | bindRest | boundKey
  | boundRest | assign => exact List.Subset.refl _
  | _ => exact all

/-- Every part of a node is in its scopes, and nothing else is. -/
theorem mem_scopedParts_iff (node : Node c) {part : AnyNode} :
    part ∈ (scopedParts role node).map (·.part) ↔ part ∈ node.parts := by
  have all {parts : List AnyNode} {names : List Name} :
      part ∈ (parts.map fun part => ({ part, names } : Scoped)).map (·.part) ↔ part ∈ parts := by
    rw [List.map_map]
    exact iff_of_eq (congrArg _ (List.map_id _))
  cases node with
  | forEach => exact (List.Perm.swap ..).mem_iff
  | cons | present | block | forStmt | tryStmt | switchStmt | headVar | headPattern | bindArray
  | bindObject | bindDefault | bindRest | boundKey | boundRest | assign => exact Iff.rfl
  | _ => exact all

/-! ## Names that a module binds -/

/-- The names that a node itself declares. -/
def ownDeclarations : {c : Category} → Node c → List Name
  | _, .importStmt _ specifiers _ _ => specifiers.map (·.binding)
  | _, .typeOnly _ name => name.toList
  | _, .enumStmt _ name => [name]
  | _, .declares _ target _ => boundNames target
  | _, .tryStmt _ _ param _ _ => boundNames param
  | _, .func span name params _ _ _ _ => ⟨"arguments", span⟩ :: name.toList ++ boundNames params
  | _, .klass _ name _ _ => name.toList
  | _, .arrow _ params _ _ => boundNames params
  | _, _ => []

/-- The names that are declared anywhere in a module. -/
def bindings (module : Module) : List Name :=
  module.body.flatMap fun stmt => stmt.collect fun node => { found := ownDeclarations node }

/-- A name that a node or one inside of it declares. -/
def DeclaredIn (outer : AnyNode) (name : Name) : Prop :=
  ∃ inner, Node.Inside inner outer ∧ name ∈ ownDeclarations inner.2

variable {name : Name} {node : AnyNode} {module : Module}

theorem DeclaredIn.part {part : AnyNode} (isPart : part ∈ node.2.parts)
    (inPart : DeclaredIn part name) : DeclaredIn node name := by
  obtain ⟨inner, inside, isOwn⟩ := inPart
  exact ⟨inner, .part isPart inside, isOwn⟩

theorem DeclaredIn.mem_bindings (declared : DeclaredIn node name) (held : module.Holds node) :
    name ∈ bindings module := by
  obtain ⟨inner, inside, isOwn⟩ := declared
  have single : Node.isSequence inner.1 = false := by
    obtain ⟨_, inner⟩ := inner
    cases inner with
    | nil | cons | absent | present => cases isOwn
    | _ => rfl
  obtain ⟨middle, _, _, _, found, rfl | stops⟩ := (held.inside inside).exists_visited
    (fun node => { found := ownDeclarations node }) single
  · exact found name isOwn
  · cases stops

/-- Whether what nodes of a category bind is declared there. -/
def isDeclaring : Category → Bool
  | .declarator | .loopHead => true
  | .list c | .option c => isDeclaring c
  | _ => false

theorem declaredIn_of_mem_boundNames {node : Node c} (declaring : isDeclaring c)
    (isBound : name ∈ boundNames node) : DeclaredIn ⟨c, node⟩ name := by
  induction node with
  | cons _ _ inHead inTail =>
      rcases List.mem_append.mp isBound with isBound | isBound
      · exact (inHead declaring isBound).part (.head _)
      · exact (inTail declaring isBound).part (.tail _ (.head _))
  | present _ inside => exact (inside declaring isBound).part (.head _)
  | headVar _ _ inside => exact (inside rfl isBound).part (.head _)
  | declares => exact ⟨_, .self, isBound⟩
  | nil | absent | headExpr | headPattern => cases isBound
  | _ => cases declaring

theorem mem_ownDeclarations_of_mem_ownName {node : Node c} (isOwn : name ∈ ownName node) :
    name ∈ ownDeclarations node := by
  cases node with
  | func => exact List.mem_cons_of_mem _ (List.mem_append_left _ isOwn)
  | klass => exact isOwn
  | _ => cases isOwn

theorem declaredIn_of_mem_declaredNames {node : Node c} (isDeclared : name ∈ declaredNames node) :
    DeclaredIn ⟨c, node⟩ name := by
  induction node with
  | cons _ _ inHead inTail =>
      rcases List.mem_append.mp isDeclared with isDeclared | isDeclared
      · exact (inHead isDeclared).part (.head _)
      · exact (inTail isDeclared).part (.tail _ (.head _))
  | exportDecl _ _ inside => exact (inside isDeclared).part (.head _)
  | varStmt =>
      exact (declaredIn_of_mem_boundNames rfl isDeclared).part (.head _)
  | functionStmt _ value | exportFunction _ value | classStmt _ value | exportClass _ value =>
      exact DeclaredIn.part (.head _)
        ⟨⟨_, value⟩, .self, mem_ownDeclarations_of_mem_ownName isDeclared⟩
  | importStmt | typeOnly | enumStmt => exact ⟨_, .self, isDeclared⟩
  | _ => cases isDeclared

theorem declaredIn_of_mem_hoistedNames {node : Node c} (isHoisted : name ∈ hoistedNames node) :
    DeclaredIn ⟨c, node⟩ name := by
  induction node with
  | varStmt _ kind | headVar kind =>
      cases kind with
      | varKind => exact (declaredIn_of_mem_boundNames rfl isHoisted).part (.head _)
      | _ => cases isHoisted
  | cons _ _ first second =>
      exact (List.mem_append.mp isHoisted).elim (fun isHoisted => (first isHoisted).part (.head _))
        fun isHoisted => (second isHoisted).part (.tail _ (.head _))
  | ifStmt _ _ _ _ _ first second =>
      exact (List.mem_append.mp isHoisted).elim
        (fun isHoisted => (first isHoisted).part (.tail _ (.head _)))
        fun isHoisted => (second isHoisted).part (.tail _ (.tail _ (.head _)))
  | forStmt _ _ _ _ _ first _ _ second =>
      exact (List.mem_append.mp isHoisted).elim (fun isHoisted => (first isHoisted).part (.head _))
        fun isHoisted => (second isHoisted).part (.tail _ (.tail _ (.tail _ (.head _))))
  | forEach _ _ _ _ _ first _ second =>
      exact (List.mem_append.mp isHoisted).elim (fun isHoisted => (first isHoisted).part (.head _))
        fun isHoisted => (second isHoisted).part (.tail _ (.tail _ (.head _)))
  | tryStmt _ _ _ _ _ first _ second third =>
      rcases List.mem_append.mp isHoisted with isHoisted | isHoisted
      · exact (List.mem_append.mp isHoisted).elim
          (fun isHoisted => (first isHoisted).part (.head _))
          fun isHoisted => (second isHoisted).part (.tail _ (.tail _ (.head _)))
      · exact (third isHoisted).part (.tail _ (.tail _ (.tail _ (.head _))))
  | whileStmt _ _ _ _ inside | switchStmt _ _ _ _ inside | switchArm _ _ _ inside =>
      exact (inside isHoisted).part (.tail _ (.head _))
  | doWhile _ _ _ inside _ => exact (inside isHoisted).part (.tail _ (.head _))
  | present _ inside | block _ _ inside | labeled _ _ _ inside =>
      exact (inside isHoisted).part (.head _)
  | _ => cases isHoisted

theorem declaredIn_of_mem_namesInBody {node : Node c} (isDeclared : name ∈ namesInBody node) :
    DeclaredIn ⟨c, node⟩ name :=
  (List.mem_append.mp isDeclared).elim declaredIn_of_mem_declaredNames
    declaredIn_of_mem_hoistedNames

theorem declaredIn_of_mem_namesInArms {node : Node c} (isDeclared : name ∈ namesInArms node) :
    DeclaredIn ⟨c, node⟩ name := by
  induction node with
  | cons _ _ inHead inTail =>
      rcases List.mem_append.mp isDeclared with isDeclared | isDeclared
      · exact (inHead isDeclared).part (.head _)
      · exact (inTail isDeclared).part (.tail _ (.head _))
  | switchArm => exact (declaredIn_of_mem_declaredNames isDeclared).part (.tail _ (.head _))
  | _ => cases isDeclared

theorem declaredIn_of_mem_namesInArrow {body : Node .arrowBody}
    (isDeclared : name ∈ namesInArrow body) : DeclaredIn ⟨_, body⟩ name := by
  cases body with
  | bodyBlock => exact (declaredIn_of_mem_namesInBody isDeclared).part (.head _)
  | bodyExpr => cases isDeclared

theorem declaredIn_of_mem_namesThere {body : Node (.option (.list .stmt))}
    (isDeclared : name ∈ namesThere body) : DeclaredIn ⟨_, body⟩ name := by
  cases body with
  | present => exact (declaredIn_of_mem_declaredNames isDeclared).part (.head _)
  | absent => cases isDeclared

/-- Names are only bound for parts in the head of a loop if the parts are declarators. -/
theorem declaredIn_of_mem_namesInHead {node : Node c} (declaring : role = .head → isDeclaring c)
    (isDeclared : name ∈ namesInHead role node) : DeclaredIn ⟨c, node⟩ name := by
  cases role with
  | head => exact declaredIn_of_mem_boundNames (declaring rfl) isDeclared
  | _ => cases isDeclared

/-- What a node declares for its parts is declared by the node or inside of it. -/
theorem declaredIn_of_mem_scopedParts (node : Node c) (declaring : role = .head → isDeclaring c) :
    ∀ inner ∈ scopedParts role node, ∀ name ∈ inner.names, DeclaredIn ⟨c, node⟩ name := by
  let Declares (inner : Scoped) := ∀ name ∈ inner.names, DeclaredIn ⟨c, node⟩ name
  have silent {part : AnyNode} {role : Role} : Declares { part, role } := List.forall_mem_nil _
  have all {parts : List AnyNode} {names : List Name}
      (each : ∀ name ∈ names, DeclaredIn ⟨c, node⟩ name) :
      ∀ inner ∈ parts.map fun part => ({ part, names } : Scoped), Declares inner :=
    List.forall_mem_map.mpr fun _ _ => each
  have one {first : Scoped} (declares : Declares first) : ∀ inner ∈ [first], Declares inner :=
    List.forall_mem_singleton.mpr declares
  have both {first : Scoped} {rest : List Scoped} (declares : Declares first)
      (others : ∀ inner ∈ rest, Declares inner) : ∀ inner ∈ first :: rest, Declares inner :=
    List.forall_mem_cons.mpr ⟨declares, others⟩
  cases node with
  | cons head tail =>
      have inHead : ∀ name ∈ namesInHead role head, DeclaredIn ⟨_, .cons head tail⟩ name :=
        fun name isDeclared =>
          (@declaredIn_of_mem_namesInHead role _ name head declaring isDeclared).part (.head _)
      exact both inHead (one inHead)
  | block =>
      exact one fun _ isDeclared => (declaredIn_of_mem_declaredNames isDeclared).part (.head _)
  | forStmt =>
      exact both silent (all fun _ isBound =>
        (declaredIn_of_mem_boundNames rfl isBound).part (.head _))
  | forEach =>
      exact both silent (both silent (one fun _ isBound =>
        (declaredIn_of_mem_boundNames rfl isBound).part (.head _)))
  | tryStmt =>
      refine both (fun _ isDeclared => (declaredIn_of_mem_declaredNames isDeclared).part (.head _))
        (both (fun _ isBound => ⟨_, .self, isBound⟩) (both (fun name isDeclared => ?_)
          (one fun _ isDeclared => (declaredIn_of_mem_namesThere isDeclared).part
            (.tail _ (.tail _ (.tail _ (.head _)))))))
      rcases List.mem_append.mp isDeclared with isDeclared | isBound
      · exact (declaredIn_of_mem_namesThere isDeclared).part (.tail _ (.tail _ (.head _)))
      · exact ⟨_, .self, isBound⟩
  | switchStmt =>
      exact both silent (one fun _ isDeclared =>
        (declaredIn_of_mem_namesInArms isDeclared).part (.tail _ (.head _)))
  | func =>
      refine all fun name isDeclared => (List.mem_append.mp isDeclared).elim
        (fun isOwn => ⟨_, .self, isOwn⟩) fun isDeclared => ?_
      exact (declaredIn_of_mem_namesInBody isDeclared).part (.tail _ (.head _))
  | klass => exact all fun _ isOwn => ⟨_, .self, isOwn⟩
  | arrow =>
      refine all fun name isDeclared => (List.mem_append.mp isDeclared).elim
        (fun isOwn => ⟨_, .self, isOwn⟩) fun isDeclared => ?_
      exact (declaredIn_of_mem_namesInArrow isDeclared).part (.tail _ (.head _))
  | present | headVar | headPattern | bindArray | bindObject | bindRest | boundRest =>
      exact one silent
  | bindDefault | boundKey | assign => exact both silent (one silent)
  | _ => exact all (List.forall_mem_nil _)

/-- Only declarators are the head of a loop. -/
theorem isDeclaring_of_mem_scopedParts (node : Node c) (declaring : role = .head → isDeclaring c) :
    ∀ inner ∈ scopedParts role node, inner.role = .head → isDeclaring inner.part.1 := by
  let Declares (inner : Scoped) := inner.role = .head → isDeclaring inner.part.1
  have other {part : AnyNode} {names : List Name} : Declares { part, names } := nofun
  have all {parts : List AnyNode} {names : List Name} :
      ∀ inner ∈ parts.map fun part => ({ part, names } : Scoped), Declares inner :=
    List.forall_mem_map.mpr fun _ _ => other
  have one {first : Scoped} (declares : Declares first) : ∀ inner ∈ [first], Declares inner :=
    List.forall_mem_singleton.mpr declares
  have two {first second : Scoped} (declares : Declares first) (declares' : Declares second) :
      ∀ inner ∈ [first, second], Declares inner :=
    List.forall_mem_cons.mpr ⟨declares, one declares'⟩
  cases node with
  | cons => exact two declaring declaring
  | present => exact one declaring
  | headVar => exact one fun _ => rfl
  | headPattern => exact one nofun
  | bindArray | bindObject | bindRest | boundRest =>
      exact one fun isHead => nomatch declaring isHead
  | bindDefault => exact two (fun isHead => nomatch declaring isHead) other
  | boundKey => exact two other fun isHead => nomatch declaring isHead
  | assign => exact two nofun other
  | block => exact one other
  | switchStmt => exact two other other
  | forStmt => exact List.forall_mem_cons.mpr ⟨other, all⟩
  | forEach => exact List.forall_mem_cons.mpr ⟨other, two other other⟩
  | tryStmt =>
      exact List.forall_mem_cons.mpr ⟨other, List.forall_mem_cons.mpr ⟨other, two other other⟩⟩
  | _ => exact all

/-! ## Places -/

/-- A node, what it is to what it stands in, and the names declared around it, scope by scope from
the inside. -/
structure Place where
  node : AnyNode
  role : Role := .binds
  scopes : List (List Name)

namespace Place

/-- The module as a whole. -/
def top (module : Module) : Place :=
  { node := module.root, scopes := [namesInBody module.root.2] }

/-- A part of a node. -/
def enter (place : Place) (inner : Scoped) : Place :=
  ⟨inner.part, inner.role, inner.names :: place.scopes⟩

/-- The end of a way through the parts, each by its number. -/
def follow (place : Place) : List Nat → Option Place
  | [] => some place
  | index :: way =>
    (scopedParts place.role place.node.2)[index]?.bind fun inner => (place.enter inner).follow way

variable {place last : Place} {inner outer : AnyNode} {way : List Nat} {text : String}

/-- A place in a module knows no names but those that the module binds. -/
structure Stands (module : Module) (place : Place) : Prop where
  held : module.Holds place.node
  declaring : place.role = .head → isDeclaring place.node.1
  bound : ∀ names ∈ place.scopes, ∀ name ∈ names, name ∈ bindings module

theorem Stands.enter {inner : Scoped} (stands : place.Stands module)
    (isPart : inner ∈ scopedParts place.role place.node.2) : (place.enter inner).Stands module where
  held := (Node.Inside.part ((mem_scopedParts_iff place.node.2).mp (List.mem_map_of_mem isPart))
    .self).trans stands.held
  declaring := isDeclaring_of_mem_scopedParts place.node.2 stands.declaring inner isPart
  bound := List.forall_mem_cons.mpr ⟨fun name isDeclared =>
    (declaredIn_of_mem_scopedParts place.node.2 stands.declaring inner isPart name
      isDeclared).mem_bindings stands.held, stands.bound⟩

/-- Every way leads to a place in the module. -/
theorem Stands.follow (stands : place.Stands module) (followed : place.follow way = some last) :
    last.Stands module := by
  induction way generalizing place with
  | nil =>
      cases followed
      exact stands
  | cons index way inductionHypothesis =>
      obtain ⟨inner, isPart, followed⟩ := Option.bind_eq_some_iff.mp followed
      exact inductionHypothesis (stands.enter (List.mem_of_getElem? isPart)) followed

/-- A way leads to every node. -/
theorem exists_follow (inside : Node.Inside inner outer) (isOuter : place.node = outer) :
    ∃ way last, place.follow way = some last ∧ last.node = inner := by
  induction inside generalizing place with
  | self => exact ⟨[], place, rfl, isOuter⟩
  | part isPart _ inductionHypothesis =>
      subst isOuter
      obtain ⟨part, isScoped, isPart⟩ :=
        List.mem_map.mp ((@mem_scopedParts_iff place.role _ place.node.2 _).mpr isPart)
      obtain ⟨index, isIndex⟩ := List.mem_iff_getElem?.mp isScoped
      obtain ⟨way, last, followed, isInner⟩ := @inductionHypothesis (place.enter part) isPart
      exact ⟨index :: way, last, Option.bind_eq_some_iff.mpr ⟨part, isIndex, followed⟩, isInner⟩

/-- A way leads to every reference that the outline shows, and the scopes there hold the names that
the outline has around it. -/
theorem exists_follow_of_occurs {role : Role} {occurrence : Occurrence}
    (occurs : Occurs role outer occurrence) (isOuter : place.node = outer)
    (isRole : place.role = role) :
    ∃ way last, place.follow way = some last ∧
      occurrence.name ∈ references last.role last.node.2 ∧
      last.scopes.flatten.map (·.text) =
        occurrence.around ++ place.scopes.flatten.map (·.text) := by
  induction occurs generalizing place with
  | here isReference =>
      subst isOuter isRole
      exact ⟨[], place, rfl, List.mem_of_getElem? isReference, rfl⟩
  | inside isBranch _ inductionHypothesis =>
      subst isOuter isRole
      obtain ⟨part, isPart, rfl⟩ :=
        List.mem_map.mp (branches_subset _ (List.mem_of_getElem? isBranch))
      obtain ⟨index, isIndex⟩ := List.mem_iff_getElem?.mp isPart
      obtain ⟨way, last, followed, isReference, around⟩ :=
        @inductionHypothesis (place.enter part) rfl rfl
      refine ⟨index :: way, last, Option.bind_eq_some_iff.mpr ⟨part, isIndex, followed⟩,
        isReference, around.trans ?_⟩
      simp [enter, Occurrence.inside, Scoped.branch]

end Place

end StopMotion.Validation
