import Mathlib.Data.List.Nodup
import Mathlib.Data.List.Pairwise
import StopMotion.Proofs.Validation.Declaration
import StopMotion.Validation.Report

/-!
# References and what they see

The names that a module is said to use without declaring them. A reference stands at the end of a
way through the tree, and what it sees is what the nodes on the way declare for the parts that the
way goes through. Each reference is found once, and it is reported if nothing on the way declares
its name.

A static block of a class is no scope, and in the head of a loop a declarator does not see the
names of those behind it.
-/

namespace StopMotion.Validation

open Syntax (AnyNode Category Name Node TagName Module)

/-! ## References -/

/-- The name that the tag of an element refers to. -/
def tagReference : Option TagName → List Name
  | some (.plain name) => if isComponentTag name.text then [name] else []
  | some (.member parts) => parts.head?.toList
  | _ => []

/-- The names that a node itself refers to. An object refers to those that it takes for values. -/
def references (role : Role) : {c : Category} → Node c → List Name
  | _, .exportNamed _ specifiers none => specifiers.map (·.source)
  | _, .bindName _ name =>
    match role with
    | .assigned => [name]
    | _ => []
  | _, .name _ name => [name]
  | _, .object _ entries => entries.toList.filterMap fun
    | .shorthand _ name => some name
    | _ => none
  | _, .tag _ name _ _ => tagReference name
  | _, _ => []

/-- A part of a node, what it is to the node, and the names that the node declares for it. -/
structure Branch where
  part : AnyNode
  role : Role := .binds
  names : List String := []

/-- The names that the statements of an optional list declare for it. -/
def declaredThere : Node (.option (.list .stmt)) → List String
  | .present body => declared body
  | .absent => []

/-- The names that the declarators in the head of a loop declare for themselves and for those
behind them. -/
def declaredInHead (role : Role) {c : Category} (node : Node c) : List String :=
  match role with
  | .head => bound node
  | _ => []

/-- The parts of a node in which names are referred to. The operand of `typeof` may be a name that
nothing declares, and nothing is caught without a handler. -/
def branches (role : Role) : {c : Category} → Node c → List Branch
  | _, .cons head tail =>
    [⟨⟨_, head⟩, role, declaredInHead role head⟩, ⟨⟨_, tail⟩, role, declaredInHead role head⟩]
  | _, .present value => [{ part := ⟨_, value⟩, role }]
  | _, .block _ body => [{ part := ⟨_, body⟩, names := declared body }]
  | _, .forStmt _ init test step body =>
    { part := ⟨_, init⟩ } :: [⟨_, test⟩, ⟨_, step⟩, ⟨_, body⟩].map fun part =>
      { part, names := bound init }
  | _, .forEach _ left right body _ =>
    [{ part := ⟨_, right⟩ }, { part := ⟨_, left⟩ }, { part := ⟨_, body⟩, names := bound left }]
  | _, .tryStmt _ body param (.present handler) finalizer =>
    [{ part := ⟨_, body⟩, names := declared body }, { part := ⟨_, param⟩, names := bound param },
      { part := ⟨_, .present handler⟩, names := declared handler ++ bound param },
      { part := ⟨_, finalizer⟩, names := declaredThere finalizer }]
  | _, .tryStmt _ body _ .absent finalizer =>
    [{ part := ⟨_, body⟩, names := declared body },
      { part := ⟨_, finalizer⟩, names := declaredThere finalizer }]
  | _, .switchStmt _ subject arms =>
    [{ part := ⟨_, subject⟩ }, { part := ⟨_, arms⟩, names := declaredInArms arms }]
  | _, .headVar _ declarators => [{ part := ⟨_, declarators⟩, role := .head }]
  | _, .headPattern target => [{ part := ⟨_, target⟩, role := .assigned }]
  | _, .func _ name params body _ _ _ => [⟨_, params⟩, ⟨_, body⟩].map fun part =>
    { part, names := "arguments" :: (name.map (·.text)).toList ++ bound params ++
        declaredInBody body }
  | _, .klass _ name superClass members => [⟨_, superClass⟩, ⟨_, members⟩].map fun part =>
    { part, names := (name.map (·.text)).toList }
  | _, .bindArray _ elements => [{ part := ⟨_, elements⟩, role }]
  | _, .bindObject _ entries => [{ part := ⟨_, entries⟩, role }]
  | _, .bindDefault _ target value => [{ part := ⟨_, target⟩, role }, { part := ⟨_, value⟩ }]
  | _, .bindRest _ target => [{ part := ⟨_, target⟩, role }]
  | _, .boundKey key value => [{ part := ⟨_, key⟩ }, { part := ⟨_, value⟩, role }]
  | _, .boundRest target => [{ part := ⟨_, target⟩, role }]
  | _, .arrow _ params body _ => [⟨_, params⟩, ⟨_, body⟩].map fun part =>
    { part, names := bound params ++ declaredInArrow body }
  | _, .unary _ .typeOf (.name ..) => []
  | _, .assign _ _ target value =>
    [{ part := ⟨_, target⟩, role := .assigned }, { part := ⟨_, value⟩ }]
  | _, node => node.parts.map fun part => { part }

/-- The names that are unresolved in a branch. -/
def Branch.unresolved (branch : Branch) (visible : List String) : List Name :=
  (outline branch.role branch.part.2).unresolved (branch.names ++ visible)

theorem unresolved_ofNames (names : List Name) (visible : List String) :
    (Outline.ofNames names).unresolved visible =
      names.filter fun name => !visible.contains name.text := by
  induction names with
  | nil => rfl
  | cons name rest inductionHypothesis =>
      rw [Outline.ofNames, Outline.unresolved, Outline.unresolved, inductionHypothesis,
        List.filter_cons]
      cases visible.contains name.text <;> rfl

theorem unresolved_mention (name : Name) (visible : List String) :
    (Outline.mention name).unresolved visible =
      [name].filter fun name => !visible.contains name.text := by
  rw [Outline.unresolved, List.filter_singleton]
  cases visible.contains name.text <;> rfl

theorem unresolved_tagMention (name : Option TagName) (visible : List String) :
    (tagMention name).unresolved visible =
      (tagReference name).filter fun name => !visible.contains name.text := by
  cases name with
  | none => rfl
  | some tag =>
      cases tag with
      | plain name =>
          rw [tagMention, tagReference]
          by_cases isComponent : isComponentTag name.text
          · rw [if_pos isComponent, if_pos isComponent, unresolved_mention]
          · rw [if_neg isComponent, if_neg isComponent]
            rfl
      | member parts =>
          cases parts with
          | nil => rfl
          | cons root _ => exact unresolved_mention root visible
      | namespaced => rfl

theorem unresolved_finalizer (finalizer : Node (.option (.list .stmt))) (visible : List String) :
    (outline.outlineFinalizer finalizer).unresolved visible =
      [({ part := ⟨_, finalizer⟩, names := declaredThere finalizer } : Branch)].flatMap
        (Branch.unresolved · visible) := by
  cases finalizer <;> exact (List.append_nil _).symm

/-- A handler sees what is caught, but what is caught does not see the handler. -/
theorem unresolved_handler (param : Node (.option .pattern)) (handler : Node (.list .stmt))
    (visible : List String) :
    (Outline.scope (bound param) ((outline .binds param).beside
        (.scope (declared handler) (outline .binds handler)))).unresolved visible =
      [({ part := ⟨_, param⟩, names := bound param } : Branch),
        { part := ⟨_, .present handler⟩, names := declared handler ++ bound param }].flatMap
        (Branch.unresolved · visible) := by
  have inHandler : (outline .binds handler).unresolved
      (declared handler ++ (bound param ++ visible)) =
        Branch.unresolved
          { part := ⟨_, .present handler⟩, names := declared handler ++ bound param } visible := by
    rw [← List.append_assoc]
    rfl
  exact congrArg _ (inHandler.trans (List.append_nil _).symm)

/-- What is unresolved at a node is referred to by the node itself or unresolved in a branch. -/
theorem unresolved_step (role : Role) {c : Category} (node : Node c) (visible : List String) :
    (outline role node).unresolved visible =
      (references role node).filter (fun name => !visible.contains name.text) ++
        (branches role node).flatMap (Branch.unresolved · visible) := by
  have one {role : Role} {c : Category} {first : Node c} :
      (outline role first).unresolved visible =
        [({ part := ⟨_, first⟩, role } : Branch)].flatMap (Branch.unresolved · visible) :=
    (List.append_nil _).symm
  have two {role role' : Role} {c c' : Category} {first : Node c} {second : Node c'} :
      ((outline role first).beside (outline role' second)).unresolved visible =
        [({ part := ⟨_, first⟩, role } : Branch), { part := ⟨_, second⟩, role := role' }].flatMap
          (Branch.unresolved · visible) :=
    congrArg _ (List.append_nil _).symm
  have three {c c' d : Category} {first : Node c} {second : Node c'} {third : Node d} :
      ((outline .binds first).beside
          ((outline .binds second).beside (outline .binds third))).unresolved visible =
        [({ part := ⟨_, first⟩ } : Branch), { part := ⟨_, second⟩ }, { part := ⟨_, third⟩ }].flatMap
          (Branch.unresolved · visible) :=
    congrArg _ (congrArg _ (List.append_nil _).symm)
  have within {role : Role} {names : List String} {c c' : Category} {first : Node c}
      {second : Node c'} :
      (Outline.scope names ((outline role first).beside (outline role second))).unresolved visible =
        [(⟨⟨_, first⟩, role, names⟩ : Branch), ⟨⟨_, second⟩, role, names⟩].flatMap
          (Branch.unresolved · visible) :=
    congrArg _ (List.append_nil _).symm
  cases node with
  | nil | absent | importStmt | exportAll | typeOnly | enumStmt | breakStmt | continueStmt
  | emptyStmt | debugger | keyName | keyPrivate | keyString | keyNumber | number | string | boolean
  | null | regex | this | super | metaProperty | shorthand | attrFlag | attrString | childText => rfl
  | exportDecl | exportExpr | exportFunction | exportClass | varStmt | functionStmt | classStmt
  | exprStmt | returnStmt | throwStmt | labeled | headVar | headExpr | headPattern | bindArray
  | bindObject | bindRest | bindExpr | boundRest | keyComputed | template | array | functionExpr
  | classExpr | update | member | privateMember | sequence | paren | spread | awaited | yielded
  | assertion | jsx | bodyExpr | bodyBlock | spreadEntry | attrExpr | attrElement | attrSpread
  | childExpr | childSpread | childElement | present => exact one
  | whileStmt | doWhile | switchArm | declares | methodMember | fieldMember | staticBlock
  | bindDefault | boundKey | tagged | binary | assign | call | newCall | index | keyed
  | methodEntry => exact two
  | ifStmt | conditional => exact three
  | func | klass | arrow => exact within
  | cons =>
      cases role with
      | head => exact within
      | _ => exact two
  | block => exact (List.append_nil _).symm
  | switchStmt => exact congrArg _ (List.append_nil _).symm
  | forEach => exact congrArg _ (congrArg _ (List.append_nil _).symm)
  | forStmt => exact congrArg _ (congrArg _ (congrArg _ (List.append_nil _).symm))
  | tryStmt _ _ param handler finalizer =>
      have atLast := unresolved_finalizer finalizer visible
      cases handler with
      | absent => exact congrArg _ atLast
      | present handler =>
          have caught := unresolved_handler param handler visible
          exact congrArg _ ((congrArg₂ _ caught atLast).trans List.flatMap_append.symm)
  | unary _ op operand =>
      cases op with
      | typeOf =>
          cases operand with
          | name => rfl
          | _ => exact one
      | _ => exact one
  | exportNamed _ specifiers source =>
      cases source with
      | none => exact (unresolved_ofNames _ visible).trans (List.append_nil _).symm
      | some => rfl
  | bindName _ name =>
      cases role with
      | assigned => exact (unresolved_mention name visible).trans (List.append_nil _).symm
      | _ => rfl
  | name _ name => exact (unresolved_mention name visible).trans (List.append_nil _).symm
  | object _ entries => exact congrArg₂ _ (unresolved_ofNames _ visible) one
  | tag _ name attributes children =>
      exact congrArg₂ _ (unresolved_tagMention name visible) two

/-- Names are only referred to in parts of a node. -/
theorem forall_mem_branches (role : Role) {c : Category} (node : Node c) :
    ∀ branch ∈ branches role node, branch.part ∈ node.parts := by
  have one {role : Role} {names : List String} {part : AnyNode} {parts : List AnyNode}
      (isPart : part ∈ parts) : ∀ branch ∈ [(⟨part, role, names⟩ : Branch)], branch.part ∈ parts :=
    List.forall_mem_singleton.mpr isPart
  have two {first second : Branch} {parts : List AnyNode} (isFirst : first.part ∈ parts)
      (isSecond : second.part ∈ parts) : ∀ branch ∈ [first, second], branch.part ∈ parts :=
    List.forall_mem_cons.mpr ⟨isFirst, List.forall_mem_singleton.mpr isSecond⟩
  have all {names : List String} {parts : List AnyNode} :
      ∀ branch ∈ parts.map fun part => ({ part, names } : Branch), branch.part ∈ parts :=
    List.forall_mem_map.mpr fun _ => id
  cases node with
  | present | block | headVar | headPattern | bindArray | bindObject | bindRest | boundRest =>
      exact one (.head _)
  | cons | switchStmt | bindDefault | boundKey | assign =>
      exact two (.head _) (.tail _ (.head _))
  | func | klass | arrow => exact all
  | forStmt =>
      exact List.forall_mem_cons.mpr ⟨.head _, List.forall_mem_map.mpr fun _ => .tail _⟩
  | forEach =>
      exact List.forall_mem_cons.mpr ⟨.tail _ (.head _),
        two (.head _) (.tail _ (.tail _ (.head _)))⟩
  | tryStmt _ _ _ handler =>
      cases handler with
      | absent => exact two (.head _) (.tail _ (.tail _ (.tail _ (.head _))))
      | present =>
          exact List.forall_mem_cons.mpr ⟨.head _, List.forall_mem_cons.mpr ⟨.tail _ (.head _),
            two (.tail _ (.tail _ (.head _))) (.tail _ (.tail _ (.tail _ (.head _))))⟩⟩
  | unary _ op operand =>
      cases op with
      | typeOf =>
          cases operand with
          | name => exact List.forall_mem_nil _
          | _ => exact all
      | _ => exact all
  | _ => exact all

/-! ## Occurrences -/

/-- A reference in a node: the way to it, by the number of each branch and of the reference itself,
its name, and the names that are declared on the way. -/
structure Occurrence where
  way : List Nat
  name : Name
  around : List String

namespace Occurrence

/-- A reference in a branch of a node. -/
def inside (index : Nat) (names : List String) (occurrence : Occurrence) : Occurrence :=
  ⟨index :: occurrence.way, occurrence.name, occurrence.around ++ names⟩

/-- Whether the name of a reference is declared around it or visible anyway. -/
def isKnown (occurrence : Occurrence) (visible : List String) : Bool :=
  (occurrence.around ++ visible).contains occurrence.name.text

end Occurrence

/-- A reference that stands in a node. -/
inductive Occurs : Role → AnyNode → Occurrence → Prop where
  | here {role : Role} {node : AnyNode} {index : Nat} {name : Name}
      (isReference : (references role node.2)[index]? = some name) :
      Occurs role node ⟨[index], name, []⟩
  | inside {role : Role} {node : AnyNode} {index : Nat} {branch : Branch} {occurrence : Occurrence}
      (isBranch : (branches role node.2)[index]? = some branch)
      (occurs : Occurs branch.role branch.part occurrence) :
      Occurs role node (occurrence.inside index branch.names)

theorem Occurs.way_ne_nil {role : Role} {node : AnyNode} {occurrence : Occurrence}
    (occurs : Occurs role node occurrence) : occurrence.way ≠ [] := by
  cases occurs <;> exact List.cons_ne_nil _ _

/-- The references in a node, each of them once. -/
structure Lists (role : Role) (node : AnyNode) (found : List Occurrence) : Prop where
  mem_iff (occurrence : Occurrence) : occurrence ∈ found ↔ Occurs role node occurrence
  nodup : (found.map (·.way)).Nodup
  unresolved (visible : List String) : (outline role node.2).unresolved visible =
    (found.filter fun occurrence => !occurrence.isKnown visible).map (·.name)

/-- The references in a node, from those in its branches. -/
def gathered (role : Role) (node : AnyNode) (found : Branch → List Occurrence) : List Occurrence :=
  (references role node.2).zipIdx.map (fun (name, index) => ⟨[index], name, []⟩) ++
    (branches role node.2).zipIdx.flatMap fun (branch, index) =>
      (found branch).map (·.inside index branch.names)

section

variable {role : Role} {node : AnyNode} {found : Branch → List Occurrence}
  (lists : ∀ branch ∈ branches role node.2, Lists branch.role branch.part (found branch))

include lists

theorem mem_gathered_iff (occurrence : Occurrence) :
    occurrence ∈ gathered role node found ↔ Occurs role node occurrence := by
  rw [gathered, List.mem_append, List.mem_map, List.mem_flatMap]
  constructor
  · rintro (⟨⟨name, index⟩, isReference, rfl⟩ | ⟨⟨branch, index⟩, isBranch, isFound⟩)
    · exact .here (List.mem_zipIdx_iff_getElem?.mp isReference)
    · obtain ⟨inner, isInner, rfl⟩ := List.mem_map.mp isFound
      have occurs := ((lists branch (List.fst_mem_of_mem_zipIdx isBranch)).mem_iff inner).mp isInner
      exact .inside (List.mem_zipIdx_iff_getElem?.mp isBranch) occurs
  · intro occurs
    cases occurs with
    | @here _ _ index name isReference =>
        exact .inl ⟨(name, index), List.mem_zipIdx_iff_getElem?.mpr isReference, rfl⟩
    | @inside _ _ index branch inner isBranch occurs =>
        have isInner := ((lists branch (List.mem_of_getElem? isBranch)).mem_iff inner).mpr occurs
        exact .inr ⟨(branch, index), List.mem_zipIdx_iff_getElem?.mpr isBranch,
          List.mem_map.mpr ⟨inner, isInner, rfl⟩⟩

/-- The way to a reference in a branch begins with the number of the branch and goes on. -/
theorem exists_way {branch : Branch} {index : Nat} {way : List Nat}
    (isBranch : branch ∈ branches role node.2)
    (isWay : way ∈ ((found branch).map (·.inside index branch.names)).map (·.way)) :
    ∃ rest ≠ [], way = index :: rest := by
  rw [List.map_map] at isWay
  obtain ⟨inner, isInner, rfl⟩ := List.mem_map.mp isWay
  exact ⟨inner.way, (((lists branch isBranch).mem_iff inner).mp isInner).way_ne_nil, rfl⟩

theorem nodup_gathered : ((gathered role node found).map (·.way)).Nodup := by
  rw [gathered, List.map_append, List.map_map, List.map_flatMap, List.nodup_append',
    List.nodup_flatMap]
  constructor
  · apply List.pairwise_map.mpr
    apply (Node.pairwise_zipIdx (references role node.2)).imp
    intro first second differs same
    exact differs (List.cons.inj same).1
  constructor
  · constructor
    · rintro ⟨branch, index⟩ isBranch
      have nodup := (lists branch (List.fst_mem_of_mem_zipIdx isBranch)).nodup
      have longer := nodup.map (List.cons_injective (a := index))
      rw [List.map_map] at longer ⊢
      exact longer
    · apply (Node.pairwise_zipIdx (branches role node.2)).imp_of_mem
      intro first second isFirst isSecond differs way inFirst inSecond
      obtain ⟨_, _, rfl⟩ := exists_way lists (List.fst_mem_of_mem_zipIdx isFirst) inFirst
      obtain ⟨_, _, same⟩ := exists_way lists (List.fst_mem_of_mem_zipIdx isSecond) inSecond
      exact differs (List.cons.inj same).1
  · intro way isHere isDeeper
    obtain ⟨_, _, rfl⟩ := List.mem_map.mp isHere
    obtain ⟨⟨branch, index⟩, isBranch, isWay⟩ := List.mem_flatMap.mp isDeeper
    obtain ⟨rest, goesOn, same⟩ := exists_way lists (List.fst_mem_of_mem_zipIdx isBranch) isWay
    exact goesOn (List.cons.inj same).2.symm

theorem unresolved_gathered (visible : List String) :
    (outline role node.2).unresolved visible =
      ((gathered role node found).filter fun occurrence => !occurrence.isKnown visible).map
        (·.name) := by
  have here : (references role node.2).filter (fun name => !visible.contains name.text) =
      (((references role node.2).zipIdx.map fun (name, index) =>
        (⟨[index], name, []⟩ : Occurrence)).filter fun occurrence =>
          !occurrence.isKnown visible).map (·.name) := by
    rw [List.filter_map, List.map_map]
    conv_lhs => rw [← List.zipIdx_map_fst 0 (references role node.2), List.filter_map]
    rfl
  have deeper : (branches role node.2).flatMap (Branch.unresolved · visible) =
      (((branches role node.2).zipIdx.flatMap fun (branch, index) =>
        (found branch).map (·.inside index branch.names)).filter fun occurrence =>
          !occurrence.isKnown visible).map (·.name) := by
    rw [List.filter_flatMap, List.map_flatMap]
    conv_lhs => rw [← List.zipIdx_map_fst 0 (branches role node.2), List.flatMap_map]
    apply List.flatMap_congr
    rintro ⟨branch, index⟩ isBranch
    rw [Branch.unresolved,
      (lists branch (List.fst_mem_of_mem_zipIdx isBranch)).unresolved, List.filter_map, List.map_map]
    have same (occurrence : Occurrence) :
        occurrence.isKnown (branch.names ++ visible) =
          (occurrence.inside index branch.names).isKnown visible := by
      rw [Occurrence.isKnown, Occurrence.isKnown, Occurrence.inside, List.append_assoc]
    simp only [same]
    rfl
  rw [unresolved_step, here, deeper, gathered, List.filter_append, List.map_append]

end

theorem exists_lists (role : Role) {c : Category} (node : Node c) :
    ∃ found, Lists role ⟨c, node⟩ found := by
  apply Node.induction_parts fun node => ∀ role, ∃ found, Lists role node found
  intro node inductionHypothesis role
  have each (branch : Branch) (isBranch : branch ∈ branches role node.2) :
      ∃ found, Lists branch.role branch.part found :=
    inductionHypothesis branch.part (forall_mem_branches role node.2 branch isBranch) _
  choose! found lists using each
  exact ⟨_, mem_gathered_iff lists, nodup_gathered lists, unresolved_gathered lists⟩

/-- What a function declares with `var`, in whatever statement of it, is known throughout the
function. -/
theorem known_of_var {role : Role} {span bodySpan : Span} {name : Option Name}
    {params : Node (.list .pattern)} {body : Node (.list .stmt)} {isAsync isGenerator : Bool}
    {occurrence : Occurrence} {inner : AnyNode}
    (occurs : Occurs role ⟨_, .func span name params body bodySpan isAsync isGenerator⟩ occurrence)
    (reaches : Reaches (fun node => nestedParts node.2) inner ⟨_, body⟩)
    (isVar : occurrence.name.text ∈ varsHere inner.2) :
    occurrence.name.text ∈ occurrence.around := by
  have isHoisted : occurrence.name.text ∈ hoisted body :=
    (mem_hoisted_iff rfl).mpr ⟨inner, reaches, isVar⟩
  cases occurs with
  | here isReference => cases isReference
  | inside isBranch _ =>
      obtain ⟨part, _, rfl⟩ := List.mem_map.mp (List.mem_of_getElem? isBranch)
      apply List.mem_append_right
      apply List.mem_append_right
      exact List.mem_append_right _ isHoisted

/-- The names that are reported as undeclared are those of the references in a module that no node
around declares, the module does not declare and nothing declares outside, each reference once. -/
theorem undeclared_listed (module : Module) :
    ∃ found : List Occurrence,
      (∀ occurrence, occurrence ∈ found ↔
        Occurs .binds ⟨_, Node.ofList module.body⟩ occurrence ∧
          occurrence.name.text ∉ occurrence.around ∧
          occurrence.name.text ∉ declaredInBody (Node.ofList module.body) ∧
          occurrence.name.text ∉ globals) ∧
      (found.map (·.way)).Nodup ∧ undeclared module = found.map (·.name) := by
  obtain ⟨found, lists⟩ := exists_lists .binds (Node.ofList module.body)
  let visible := declaredInBody (Node.ofList module.body) ++ globals
  refine ⟨found.filter fun occurrence => !occurrence.isKnown visible, ?_, ?_, lists.unresolved _⟩
  · intro occurrence
    rw [List.mem_filter, lists.mem_iff, Occurrence.isKnown]
    simp [visible]
  · exact lists.nodup.sublist (List.filter_sublist.map _)

end StopMotion.Validation
