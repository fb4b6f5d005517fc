import Mathlib.Data.List.Basic
import Mathlib.Tactic.Choose
import StopMotion.Proofs.Syntax.Layout
import StopMotion.Syntax.Visit

/-!
# What a visit of a tree sees

A visit gathers what it finds at a node and then, if it goes inside, what it finds at the
parts of the node. Stated over the list of parts, everything that is said about visits is
said once and not for every kind of node.

A visit that goes inside everywhere comes to every node that a way leads to, once and from the
outside in.
-/

namespace StopMotion.Syntax

/-- A node of any category. -/
abbrev AnyNode := Σ c : Category, Node c

namespace Node

/-- The parts of a node, in the order in which they are visited. -/
def parts : {c : Category} → Node c → List AnyNode
  | _, .cons head tail => [⟨_, head⟩, ⟨_, tail⟩]
  | _, .present value => [⟨_, value⟩]
  | _, .exportDecl _ declaration => [⟨_, declaration⟩]
  | _, .exportExpr _ value => [⟨_, value⟩]
  | _, .exportFunction _ value => [⟨_, value⟩]
  | _, .exportClass _ value => [⟨_, value⟩]
  | _, .varStmt _ _ declarators => [⟨_, declarators⟩]
  | _, .functionStmt _ value => [⟨_, value⟩]
  | _, .classStmt _ value => [⟨_, value⟩]
  | _, .exprStmt _ value => [⟨_, value⟩]
  | _, .block _ body => [⟨_, body⟩]
  | _, .ifStmt _ test consequent alternative => [⟨_, test⟩, ⟨_, consequent⟩, ⟨_, alternative⟩]
  | _, .forStmt _ init test step body => [⟨_, init⟩, ⟨_, test⟩, ⟨_, step⟩, ⟨_, body⟩]
  | _, .forEach _ left right body _ => [⟨_, left⟩, ⟨_, right⟩, ⟨_, body⟩]
  | _, .whileStmt _ test body => [⟨_, test⟩, ⟨_, body⟩]
  | _, .doWhile _ body test => [⟨_, test⟩, ⟨_, body⟩]
  | _, .returnStmt _ value => [⟨_, value⟩]
  | _, .throwStmt _ value => [⟨_, value⟩]
  | _, .tryStmt _ body param handler finalizer =>
    [⟨_, body⟩, ⟨_, param⟩, ⟨_, handler⟩, ⟨_, finalizer⟩]
  | _, .switchStmt _ subject arms => [⟨_, subject⟩, ⟨_, arms⟩]
  | _, .labeled _ _ body => [⟨_, body⟩]
  | _, .switchArm test body => [⟨_, test⟩, ⟨_, body⟩]
  | _, .headVar _ declarators => [⟨_, declarators⟩]
  | _, .headExpr value => [⟨_, value⟩]
  | _, .headPattern target => [⟨_, target⟩]
  | _, .declares _ target init => [⟨_, target⟩, ⟨_, init⟩]
  | _, .func _ _ params body _ _ _ => [⟨_, params⟩, ⟨_, body⟩]
  | _, .klass _ _ superClass members => [⟨_, superClass⟩, ⟨_, members⟩]
  | _, .methodMember _ key _ value => [⟨_, key⟩, ⟨_, value⟩]
  | _, .fieldMember _ key _ init => [⟨_, key⟩, ⟨_, init⟩]
  | _, .staticBlock _ key body => [⟨_, key⟩, ⟨_, body⟩]
  | _, .bindArray _ elements => [⟨_, elements⟩]
  | _, .bindObject _ entries => [⟨_, entries⟩]
  | _, .bindDefault _ target value => [⟨_, target⟩, ⟨_, value⟩]
  | _, .bindRest _ target => [⟨_, target⟩]
  | _, .bindExpr _ target => [⟨_, target⟩]
  | _, .boundKey key value => [⟨_, key⟩, ⟨_, value⟩]
  | _, .boundRest target => [⟨_, target⟩]
  | _, .keyComputed value => [⟨_, value⟩]
  | _, .template _ _ substitutions => [⟨_, substitutions⟩]
  | _, .tagged _ callee _ substitutions => [⟨_, callee⟩, ⟨_, substitutions⟩]
  | _, .array _ elements => [⟨_, elements⟩]
  | _, .object _ entries => [⟨_, entries⟩]
  | _, .functionExpr _ value => [⟨_, value⟩]
  | _, .arrow _ params body _ => [⟨_, params⟩, ⟨_, body⟩]
  | _, .classExpr _ value => [⟨_, value⟩]
  | _, .unary _ _ operand => [⟨_, operand⟩]
  | _, .update _ _ _ operand => [⟨_, operand⟩]
  | _, .binary _ _ left right => [⟨_, left⟩, ⟨_, right⟩]
  | _, .assign _ _ target value => [⟨_, target⟩, ⟨_, value⟩]
  | _, .conditional _ test consequent alternative =>
    [⟨_, test⟩, ⟨_, consequent⟩, ⟨_, alternative⟩]
  | _, .call _ callee arguments _ => [⟨_, callee⟩, ⟨_, arguments⟩]
  | _, .newCall _ callee arguments => [⟨_, callee⟩, ⟨_, arguments⟩]
  | _, .member _ owner _ _ => [⟨_, owner⟩]
  | _, .privateMember _ owner _ _ => [⟨_, owner⟩]
  | _, .index _ owner property _ => [⟨_, owner⟩, ⟨_, property⟩]
  | _, .sequence _ items => [⟨_, items⟩]
  | _, .paren _ inner => [⟨_, inner⟩]
  | _, .spread _ operand => [⟨_, operand⟩]
  | _, .awaited _ operand => [⟨_, operand⟩]
  | _, .yielded _ operand => [⟨_, operand⟩]
  | _, .assertion _ operand => [⟨_, operand⟩]
  | _, .jsx _ value => [⟨_, value⟩]
  | _, .bodyExpr value => [⟨_, value⟩]
  | _, .bodyBlock _ body => [⟨_, body⟩]
  | _, .keyed _ key value => [⟨_, key⟩, ⟨_, value⟩]
  | _, .spreadEntry _ operand => [⟨_, operand⟩]
  | _, .methodEntry _ key value => [⟨_, key⟩, ⟨_, value⟩]
  | _, .tag _ _ attributes children => [⟨_, attributes⟩, ⟨_, children⟩]
  | _, .attrExpr _ _ value => [⟨_, value⟩]
  | _, .attrElement _ _ value => [⟨_, value⟩]
  | _, .attrSpread _ operand => [⟨_, operand⟩]
  | _, .childExpr _ value => [⟨_, value⟩]
  | _, .childSpread operand => [⟨_, operand⟩]
  | _, .childElement value => [⟨_, value⟩]
  | _, _ => []

/-- Whether a node is a sequence or an optional part, which a visit passes through. -/
def isSequence : Category → Bool
  | .list _ | .option _ => true
  | _ => false

/-- What a visit finds at a node itself. -/
def own {α : Type} (pick : {c : Category} → Node c → Pick α) {c : Category} (node : Node c) :
    Pick α :=
  if isSequence c then {} else pick node

variable {α : Type} {pick : {c : Category} → Node c → Pick α}

theorem own_of_single {node : AnyNode} (single : isSequence node.1 = false) :
    node.2.own pick = pick node.2 := by
  simp [own, single]

/-- What a visit gathers in some nodes. -/
def gathered (pick : {c : Category} → Node c → Pick α) (nodes : List AnyNode) : List α :=
  nodes.flatMap fun node => node.2.collect pick

/-- A visit gathers what it finds at a node and, if it goes inside, at the parts of the
node. -/
theorem collect_eq {c : Category} (node : Node c) :
    node.collect pick =
      (node.own pick).around fun _ => gathered pick node.parts := by
  have none {found : Pick α} : found.found = found.around fun _ => [] := by
    simp only [Pick.around, List.append_nil, ite_self]
  have one {found : Pick α} {c : Category} {first : Node c} :
      (found.around fun _ => first.collect pick) =
        found.around fun _ => gathered pick [⟨_, first⟩] := by simp [gathered]
  have two {found : Pick α} {c c' : Category} {first : Node c} {second : Node c'} :
      (found.around fun _ => first.collect pick ++ second.collect pick) =
        found.around fun _ => gathered pick [⟨_, first⟩, ⟨_, second⟩] := by simp [gathered]
  have three {found : Pick α} {c c' d : Category} {first : Node c} {second : Node c'}
      {third : Node d} :
      (found.around fun _ => first.collect pick ++ second.collect pick ++ third.collect pick) =
        found.around fun _ => gathered pick [⟨_, first⟩, ⟨_, second⟩, ⟨_, third⟩] := by
    simp [gathered]
  have four {found : Pick α} {c c' d d' : Category} {first : Node c} {second : Node c'}
      {third : Node d} {fourth : Node d'} :
      (found.around fun _ => first.collect pick ++ second.collect pick ++ third.collect pick ++
          fourth.collect pick) =
        found.around fun _ =>
          gathered pick [⟨_, first⟩, ⟨_, second⟩, ⟨_, third⟩, ⟨_, fourth⟩] := by
    simp [gathered]
  cases node with
  | nil | absent => rfl
  | cons head tail => exact @two {} _ _ head tail
  | present value => exact @one {} _ value
  | ifStmt | forEach | conditional => exact three
  | forStmt | tryStmt => exact four
  | whileStmt | doWhile | switchStmt | switchArm | declares | func | klass | methodMember
  | fieldMember | staticBlock | bindDefault | boundKey | tagged | arrow | binary | assign | call
  | newCall | index | keyed | methodEntry | tag => exact two
  | importStmt | exportNamed | exportAll | typeOnly | enumStmt | breakStmt | continueStmt
  | emptyStmt | debugger | bindName | keyName | keyPrivate | keyString | keyNumber | name | number
  | string | boolean | null | regex | this | super | metaProperty | shorthand | attrFlag
  | attrString | childText => exact none
  | _ => exact one

/-! ## Nodes inside of nodes -/

/-- The first node is the second one or stands somewhere inside of it. -/
inductive Inside (inner : AnyNode) : AnyNode → Prop where
  | self : Inside inner inner
  | part {outer part : AnyNode} (isPart : part ∈ outer.2.parts) (inside : Inside inner part) :
      Inside inner outer

theorem Inside.trans {inner middle outer : AnyNode} (first : Inside inner middle)
    (second : Inside middle outer) : Inside inner outer := by
  induction second with
  | self => exact first
  | part isPart _ inductionHypothesis => exact .part isPart inductionHypothesis

/-- A node of a sequence stands inside of it. -/
theorem inside_of_mem_toList {c : Category} {node : Node c} :
    {nodes : Node (.list c)} → node ∈ nodes.toList → Inside ⟨_, node⟩ ⟨_, nodes⟩
  | .cons head tail, isNode => by
    rcases List.mem_cons.mp isNode with rfl | more
    · exact @Inside.part _ _ ⟨_, node⟩ List.mem_cons_self .self
    · exact .part (List.mem_cons_of_mem _ List.mem_cons_self) (inside_of_mem_toList more)

/-- A sequence is made of its nodes. -/
theorem ofList_toList {c : Category} : (nodes : Node (.list c)) → ofList nodes.toList = nodes
  | .nil => rfl
  | .cons head tail => by rw [toList_cons, ofList, ofList_toList tail]

/-- What stands in parentheses and assertions. -/
theorem inside_bare {c : Category} (node : Node c) : Inside ⟨c, node.bare⟩ ⟨c, node⟩ := by
  induction node with
  | paren | assertion =>
      rename_i inductionHypothesis
      exact .part List.mem_cons_self inductionHypothesis
  | _ => exact .self

/-- A node that is an expression. -/
theorem eq_of_asExpr? {node : AnyNode} {expr : Expr} (isExpr : node.2.asExpr? = some expr) :
    node = ⟨_, expr⟩ := by
  obtain ⟨c, node⟩ := node
  cases c with
  | expr =>
      obtain rfl : node = expr := Option.some.inj isExpr
      rfl
  | _ => cases isExpr

/-- A node that is a statement. -/
theorem eq_of_asStmt? {node : AnyNode} {stmt : Stmt} (isStmt : node.2.asStmt? = some stmt) :
    node = ⟨_, stmt⟩ := by
  obtain ⟨c, node⟩ := node
  cases c with
  | stmt =>
      obtain rfl : node = stmt := Option.some.inj isStmt
      rfl
  | _ => cases isStmt

/-- A visit of a sequence gathers what visits of its nodes do. -/
theorem collect_ofList {c : Category} (nodes : List (Node c)) :
    (ofList nodes).collect pick = nodes.flatMap fun node => node.collect pick := by
  induction nodes with
  | nil => rfl
  | cons head tail inductionHypothesis =>
      rw [List.flatMap_cons, ← inductionHypothesis]
      rfl

/-- What holds of a node when it holds of its parts holds of every node. -/
theorem induction_parts (holds : AnyNode → Prop)
    (step : ∀ node : AnyNode, (∀ part ∈ node.2.parts, holds part) → holds node) {c : Category}
    (node : Node c) : holds ⟨c, node⟩ := by
  induction node with
  | ifStmt _ _ _ _ first second third | forEach _ _ _ _ _ first second third
  | conditional _ _ _ _ first second third =>
      exact step _ (List.forall_mem_cons.mpr ⟨first, List.forall_mem_cons.mpr ⟨second,
        List.forall_mem_singleton.mpr third⟩⟩)
  | forStmt _ _ _ _ _ first second third fourth
  | tryStmt _ _ _ _ _ first second third fourth =>
      exact step _ (List.forall_mem_cons.mpr ⟨first, List.forall_mem_cons.mpr ⟨second,
        List.forall_mem_cons.mpr ⟨third, List.forall_mem_singleton.mpr fourth⟩⟩⟩)
  | cons _ _ first second | whileStmt _ _ _ first second | doWhile _ _ _ second first
  | switchStmt _ _ _ first second
  | switchArm _ _ first second | declares _ _ _ first second | func _ _ _ _ _ _ _ first second
  | klass _ _ _ _ first second | methodMember _ _ _ _ first second
  | fieldMember _ _ _ _ first second | staticBlock _ _ _ first second
  | bindDefault _ _ _ first second | boundKey _ _ first second | tagged _ _ _ _ first second
  | arrow _ _ _ _ first second | binary _ _ _ _ first second | assign _ _ _ _ first second
  | call _ _ _ _ first second | newCall _ _ _ first second | index _ _ _ _ first second
  | keyed _ _ _ first second | methodEntry _ _ _ first second | tag _ _ _ _ first second =>
      exact step _ (List.forall_mem_cons.mpr ⟨first, List.forall_mem_singleton.mpr second⟩)
  | nil | absent | importStmt | exportNamed | exportAll | typeOnly | enumStmt | breakStmt
  | continueStmt | emptyStmt | debugger | bindName | keyName | keyPrivate | keyString | keyNumber
  | name | number | string | boolean | null | regex | this | super | metaProperty | shorthand
  | attrFlag | attrString | childText => exact step _ (List.forall_mem_nil _)
  | _ => exact step _ (List.forall_mem_singleton.mpr (by assumption))

/-- What a visit gathers it found at a node inside of the one visited. -/
theorem exists_of_mem_collect {x : α} {c : Category} (node : Node c)
    (member : x ∈ node.collect pick) :
    ∃ inner : AnyNode, Inside inner ⟨c, node⟩ ∧ isSequence inner.1 = false ∧
      x ∈ (pick inner.2).found := by
  refine induction_parts (fun node => x ∈ node.2.collect pick →
    ∃ inner : AnyNode, Inside inner node ∧ isSequence inner.1 = false ∧
      x ∈ (pick inner.2).found) (fun node inductionHypothesis member => ?_) node member
  rw [collect_eq, Pick.around] at member
  have deeper (inParts : x ∈ gathered pick node.2.parts) :
      ∃ inner : AnyNode, Inside inner node ∧ isSequence inner.1 = false ∧
        x ∈ (pick inner.2).found := by
    obtain ⟨part, isPart, found⟩ := List.mem_flatMap.mp inParts
    obtain ⟨inner, inside, single, found⟩ := inductionHypothesis part isPart found
    exact ⟨inner, .part isPart inside, single, found⟩
  have here (found : x ∈ (node.2.own pick).found) :
      ∃ inner : AnyNode, Inside inner node ∧ isSequence inner.1 = false ∧
        x ∈ (pick inner.2).found := by
    cases single : isSequence node.1 with
    | true => simp [own, single] at found
    | false =>
        rw [own_of_single single] at found
        exact ⟨node, .self, single, found⟩
  split at member
  · rcases List.mem_append.mp member with found | inParts
    · exact here found
    · exact deeper inParts
  · exact here member

/-- A visit comes to every node, or it finds something around the node where it does not go
inside. -/
theorem exists_collected {inner outer : AnyNode} (inside : Inside inner outer)
    (single : isSequence inner.1 = false) :
    ∃ middle : AnyNode, Inside inner middle ∧ Inside middle outer ∧
      isSequence middle.1 = false ∧ (∀ x ∈ (pick middle.2).found, x ∈ outer.2.collect pick) ∧
        (middle = inner ∨ (pick middle.2).goesInside = false) := by
  have found_mem {node : AnyNode} (single : isSequence node.1 = false) {x : α}
      (found : x ∈ (pick node.2).found) : x ∈ node.2.collect pick := by
    rw [collect_eq, Pick.around, own_of_single single]
    split
    · exact List.mem_append_left _ found
    · exact found
  induction inside with
  | self => exact ⟨inner, .self, .self, single, fun x => found_mem single, .inl rfl⟩
  | @part node part isPart inside inductionHypothesis =>
      by_cases goes : (node.2.own pick).goesInside = true
      · obtain ⟨middle, within, around, middleSingle, found, stops⟩ := inductionHypothesis
        refine ⟨middle, within, .part isPart around, middleSingle, fun x isFound => ?_, stops⟩
        rw [collect_eq, Pick.around, if_pos goes]
        exact List.mem_append_right _ (List.mem_flatMap.mpr ⟨part, isPart, found x isFound⟩)
      · have nodeSingle : isSequence node.1 = false := by
          cases sequence : isSequence node.1 with
          | true => simp [own, sequence] at goes
          | false => rfl
        refine ⟨node, .part isPart inside, .self, nodeSingle,
            fun x => found_mem nodeSingle, .inr ?_⟩
        rw [own_of_single nodeSingle] at goes
        simpa using goes

/-! ## Every node once -/

/-- The node that a way leads to; at each step the way gives the position of a part. -/
def at? : AnyNode → List Nat → Option AnyNode
  | node, [] => some node
  | node, position :: way => node.2.parts[position]?.bind fun part => at? part way

/-- What `pick` finds in a node, each with the way to where it is found: everything there is, and
nothing behind something that is found further inside. -/
structure Lists (pick : AnyNode → Option α) (root : AnyNode) (sites : List (List Nat × α)) :
    Prop where
  mem_iff (way : List Nat) (x : α) :
    (way, x) ∈ sites ↔ ∃ node, at? root way = some node ∧ pick node = some x
  outerFirst : sites.Pairwise fun earlier later => ¬ later.1 <+: earlier.1
  collected : root.2.collect (fun node => { found := (pick ⟨_, node⟩).toList }) =
    sites.map (·.2)

theorem pairwise_zipIdx {β : Type} (items : List β) :
    items.zipIdx.Pairwise fun first second => first.2 ≠ second.2 := by
  have nodup : (items.zipIdx.map Prod.snd).Nodup := by
    rw [List.zipIdx_map_snd]
    exact List.nodup_range'
  exact List.pairwise_map.mp nodup

/-- What is found at a node and, with a way to each of its parts, in its parts. -/
def sitesFrom (pick : AnyNode → Option α) (node : AnyNode)
    (inPart : AnyNode → List (List Nat × α)) : List (List Nat × α) :=
  (pick node).toList.map (fun x => ([], x)) ++
    node.2.parts.zipIdx.flatMap fun (part, position) =>
      (inPart part).map fun (way, x) => (position :: way, x)

section

variable {pick : AnyNode → Option α} {node : AnyNode} {inPart : AnyNode → List (List Nat × α)}
  (lists : ∀ part ∈ node.2.parts, Lists pick part (inPart part))

include lists

theorem mem_sitesFrom_iff (way : List Nat) (x : α) :
    (way, x) ∈ sitesFrom pick node inPart ↔
      ∃ inner, at? node way = some inner ∧ pick inner = some x := by
  rw [sitesFrom, List.mem_append, List.mem_map, List.mem_flatMap]
  constructor
  · rintro (⟨_, isFound, same⟩ | ⟨⟨part, position⟩, isPart, isFound⟩)
    · obtain ⟨rfl, rfl⟩ := Prod.mk.inj same
      exact ⟨node, rfl, Option.mem_toList.mp isFound⟩
    · obtain ⟨⟨rest, _⟩, isInner, same⟩ := List.mem_map.mp isFound
      obtain ⟨rfl, rfl⟩ := Prod.mk.inj same
      obtain ⟨inner, leads, isFound⟩ :=
        ((lists part (List.fst_mem_of_mem_zipIdx isPart)).mem_iff rest _).mp isInner
      exact ⟨inner, Option.bind_eq_some_iff.mpr
        ⟨part, List.mem_zipIdx_iff_getElem?.mp isPart, leads⟩, isFound⟩
  · rintro ⟨inner, leads, isFound⟩
    cases way with
    | nil =>
        cases leads
        exact .inl ⟨x, Option.mem_toList.mpr isFound, rfl⟩
    | cons position rest =>
        obtain ⟨part, isPart, leads⟩ := Option.bind_eq_some_iff.mp leads
        have isInner := ((lists part (List.mem_of_getElem? isPart)).mem_iff rest x).mpr
          ⟨inner, leads, isFound⟩
        exact .inr ⟨(part, position), List.mem_zipIdx_iff_getElem?.mpr isPart,
          List.mem_map.mpr ⟨(rest, x), isInner, rfl⟩⟩

theorem outerFirst_sitesFrom :
    (sitesFrom pick node inPart).Pairwise fun earlier later => ¬ later.1 <+: earlier.1 := by
  rw [sitesFrom, List.pairwise_append, List.pairwise_flatMap]
  refine ⟨?_, ⟨?_, ?_⟩, ?_⟩
  · cases pick node with
    | none => exact .nil
    | some x => exact List.pairwise_singleton _ _
  · rintro ⟨part, position⟩ isPart
    refine List.pairwise_map.mpr ?_
    refine (lists part (List.fst_mem_of_mem_zipIdx isPart)).outerFirst.imp ?_
    exact fun notBefore before => notBefore (List.cons_prefix_cons.mp before).2
  · -- The ways into two parts differ in their first step.
    refine (pairwise_zipIdx node.2.parts).imp ?_
    intro first second differs earlier isEarlier later isLater before
    obtain ⟨_, _, rfl⟩ := List.mem_map.mp isEarlier
    obtain ⟨_, _, rfl⟩ := List.mem_map.mp isLater
    exact differs (List.cons_prefix_cons.mp before).1.symm
  · intro earlier isEarlier later isLater before
    obtain ⟨_, _, rfl⟩ := List.mem_map.mp isEarlier
    obtain ⟨_, _, isInner⟩ := List.mem_flatMap.mp isLater
    obtain ⟨_, _, rfl⟩ := List.mem_map.mp isInner
    exact List.cons_ne_nil _ _ (List.prefix_nil.mp before)

theorem collect_sitesFrom (single : isSequence node.1 = true → pick node = none) :
    node.2.collect (fun inner => { found := (pick ⟨_, inner⟩).toList }) =
      (sitesFrom pick node inPart).map (·.2) := by
  have here : (node.2.own fun inner => { found := (pick ⟨_, inner⟩).toList }) =
      { found := (pick node).toList } := by
    cases sequence : isSequence node.1 with
    | true => simp [own, sequence, single sequence]
    | false => exact own_of_single sequence
  have inside : gathered (fun inner => { found := (pick ⟨_, inner⟩).toList }) node.2.parts =
      node.2.parts.zipIdx.flatMap fun (part, _) => (inPart part).map (·.2) := by
    rw [gathered]
    conv => lhs; rw [← List.zipIdx_map_fst 0 node.2.parts, List.flatMap_map]
    refine List.flatMap_congr fun (part, position) isPart => ?_
    exact (lists part (List.fst_mem_of_mem_zipIdx isPart)).collected
  rw [collect_eq, here, sitesFrom, List.map_append, List.map_map, List.map_flatMap]
  refine congrArg₂ _ (List.map_id _).symm (inside.trans ?_)
  refine List.flatMap_congr fun (part, position) _ => ?_
  rw [List.map_map]
  rfl

end

/-- A visit that goes inside everywhere finds everything there is, each once, and what it finds at a
node before what it finds further inside. -/
theorem exists_lists (pick : AnyNode → Option α)
    (single : ∀ node : AnyNode, isSequence node.1 = true → pick node = none) {c : Category}
    (node : Node c) : ∃ sites, Lists pick ⟨c, node⟩ sites := by
  refine induction_parts (fun node => ∃ sites, Lists pick node sites) ?_ node
  intro node inductionHypothesis
  choose! inPart lists using inductionHypothesis
  exact ⟨_, mem_sitesFrom_iff lists, outerFirst_sitesFrom lists,
    collect_sitesFrom lists (single node)⟩

/-- Every expression that stands anywhere in some statements is visited once, and before the
expressions that stand inside of it. -/
theorem exprs_visited (body : List Stmt) :
    ∃ sites : List (List Nat × Expr),
      body.flatMap Node.exprs = sites.map (·.2) ∧
      (∀ way expr, (way, expr) ∈ sites ↔
        at? ⟨_, ofList body⟩ way = some ⟨_, expr⟩) ∧
      (sites.map (·.1)).Nodup ∧
      sites.Pairwise fun earlier later => ¬ later.1 <+: earlier.1 := by
  obtain ⟨sites, lists⟩ := exists_lists (fun node => node.2.asExpr?)
    (fun node sequence => by
      obtain ⟨c, node⟩ := node
      cases c <;> first | rfl | cases sequence) (ofList body)
  refine ⟨sites, ?_, fun way expr => ?_, ?_, lists.outerFirst⟩
  · rw [← lists.collected, collect_ofList]
    rfl
  · rw [lists.mem_iff]
    constructor
    · rintro ⟨node, leads, isExpr⟩
      rw [leads, eq_of_asExpr? isExpr]
    · exact fun leads => ⟨_, leads, rfl⟩
  · refine List.pairwise_map.mpr (lists.outerFirst.imp fun notBefore same => ?_)
    exact notBefore (same ▸ List.prefix_refl _)

end Node

/-! ## Layout of parts -/

open Drawing in
/-- Of what is drawn for a node, what is drawn for a part of it is a part. -/
structure Drawing.Parthood {α : Type} [Drawing α] (isPart : α → α → Prop) : Prop where
  refl (whole : α) : isPart whole whole
  trans {small middle big : α} : isPart small middle → isPart middle big → isPart small big
  left (first second : α) : isPart first (first ++ second)
  right (first second : α) : isPart second (first ++ second)
  inside (role : Role) (span : Span) (inside : α) : isPart inside (stretch role span inside)
  front (role : Role) (span : Span) (inside inner : α) :
    isPart inner (around (stretch role span inside) inner)
  behind (role : Role) (span : Span) (inside inner : α) :
    isPart (stretch role span inside) (around (stretch role span inside) inner)

/-- What is drawn for the parts of a node is part of what is drawn for the node. -/
theorem Drawing.Parthood.of_parts {α : Type} [Drawing α] {isPart : α → α → Prop}
    (parthood : Parthood isPart) {c : Category} (node : Node c) :
    ∀ part ∈ node.parts, isPart part.2.draw node.draw := by
  have one {c : Category} {first : Node c} {big : α} (inFirst : isPart first.draw big) :
      ∀ part ∈ [(⟨c, first⟩ : AnyNode)], isPart part.2.draw big :=
    List.forall_mem_singleton.mpr inFirst
  have two {c c' : Category} {first : Node c} {second : Node c'} {big : α}
      (inFirst : isPart first.draw big) (inSecond : isPart second.draw big) :
      ∀ part ∈ [(⟨c, first⟩ : AnyNode), ⟨c', second⟩], isPart part.2.draw big :=
    List.forall_mem_cons.mpr ⟨inFirst, List.forall_mem_singleton.mpr inSecond⟩
  have three {c c' d : Category} {first : Node c} {second : Node c'} {third : Node d} {big : α}
      (inFirst : isPart first.draw big) (inSecond : isPart second.draw big)
      (inThird : isPart third.draw big) :
      ∀ part ∈ [(⟨c, first⟩ : AnyNode), ⟨c', second⟩, ⟨d, third⟩], isPart part.2.draw big :=
    List.forall_mem_cons.mpr ⟨inFirst, two inSecond inThird⟩
  have four {c c' d d' : Category} {first : Node c} {second : Node c'} {third : Node d}
      {fourth : Node d'} {big : α} (inFirst : isPart first.draw big)
      (inSecond : isPart second.draw big) (inThird : isPart third.draw big)
      (inFourth : isPart fourth.draw big) :
      ∀ part ∈ [(⟨c, first⟩ : AnyNode), ⟨c', second⟩, ⟨d, third⟩, ⟨d', fourth⟩],
        isPart part.2.draw big :=
    List.forall_mem_cons.mpr ⟨inFirst, three inSecond inThird inFourth⟩
  have left {role : Role} {span : Span} {first second : α} :
      isPart first (stretch role span (first ++ second)) :=
    parthood.trans (parthood.left ..) (parthood.inside ..)
  have right {role : Role} {span : Span} {first second : α} :
      isPart second (stretch role span (first ++ second)) :=
    parthood.trans (parthood.right ..) (parthood.inside ..)
  have within {small middle big : α} := @parthood.trans small middle big
  cases node with
  | cons | switchArm | boundKey => exact two (parthood.left ..) (parthood.right ..)
  | present | headVar | headExpr | headPattern | boundRest | keyComputed | bodyExpr | childSpread
  | childElement => exact one (parthood.refl _)
  | ifStmt | forEach | conditional =>
      exact three (within (parthood.left ..) left) (within (parthood.right ..) left) right
  | forStmt | tryStmt =>
      exact four (within (parthood.left ..) (within (parthood.left ..) left))
        (within (parthood.right ..) (within (parthood.left ..) left))
        (within (parthood.right ..) left) right
  | doWhile => exact two right left
  | func | staticBlock => exact two left (within (parthood.inside ..) right)
  | methodMember _ _ _ value | methodEntry _ _ value =>
      cases value with
      | func =>
          exact two (within (parthood.front ..) (parthood.inside ..))
            (within (parthood.behind ..) (parthood.inside ..))
  | whileStmt | switchStmt | declares | klass | fieldMember | bindDefault | tagged | arrow
  | binary | assign | call | newCall | index | keyed | tag => exact two left right
  | nil | absent | importStmt | exportNamed | exportAll | typeOnly | enumStmt | breakStmt
  | continueStmt | emptyStmt | debugger | bindName | keyName | keyPrivate | keyString | keyNumber
  | name | number | string | boolean | null | regex | this | super | metaProperty | shorthand
  | attrFlag | attrString | childText => exact List.forall_mem_nil _
  | _ => exact one (parthood.inside ..)

/-- What is drawn for a node is part of what is drawn for everything it stands inside of. -/
theorem Drawing.Parthood.of_inside {α : Type} [Drawing α] {isPart : α → α → Prop}
    (parthood : Parthood isPart) {inner outer : AnyNode} (inside : Node.Inside inner outer) :
    isPart inner.2.draw outer.2.draw := by
  induction inside with
  | self => exact parthood.refl _
  | part isPart _ inductionHypothesis =>
      exact parthood.trans inductionHypothesis (parthood.of_parts _ _ isPart)

/-- Stretches are laid somewhere whenever others are, and are among these. -/
def Forest.Part (small big : Forest) : Prop :=
  (∀ {source : List Char} {low high : Nat}, big.Laid source low high →
    ∃ low high, small.Laid source low high) ∧
  ∀ spot ∈ small.spots, spot ∈ big.spots

theorem Forest.parthood : Drawing.Parthood Forest.Part where
  refl _ := ⟨fun laid => ⟨_, _, laid⟩, fun _ => id⟩
  trans first second := by
    refine ⟨fun laid => ?_, fun spot member => second.2 spot (first.2 spot member)⟩
    obtain ⟨_, _, laid⟩ := second.1 laid
    exact first.1 laid
  left _ _ := ⟨fun laid => ⟨_, _, laid.of_append_left⟩, fun spot member => by simp [member]⟩
  right _ _ := ⟨fun laid => ⟨_, _, laid.of_append_right⟩, fun spot member => by simp [member]⟩
  inside _ _ _ :=
    ⟨fun laid => ⟨_, _, laid.2.2.2.1⟩, fun spot member => List.mem_cons_of_mem _
      (List.mem_append_left _ member)⟩
  front _ _ inside inner := by
    refine ⟨fun laid => ⟨_, _, Laid.of_append_left laid.2.2.2.1⟩, fun spot member => ?_⟩
    refine List.mem_cons_of_mem _ (List.mem_append_left _ ?_)
    rw [spots_append]
    exact List.mem_append_left _ member
  behind _ _ inside inner := by
    refine ⟨fun laid => ?_, fun spot member => ?_⟩
    · obtain ⟨begins, ends, snug, within, _⟩ := laid
      exact ⟨_, _, begins, ends, snug, within.of_append_right, trivial⟩
    · rcases List.mem_cons.mp member with rfl | deeper
      · exact List.mem_cons_self
      · refine List.mem_cons_of_mem _ (List.mem_append.mpr ?_)
        refine (List.mem_append.mp deeper).imp (fun isInside => ?_) id
        rw [spots_append]
        exact List.mem_append_right _ isInside

namespace Node

/-- The stretches of a node are among those of what it stands inside of. -/
theorem Inside.outline_part {inner outer : AnyNode} (inside : Inside inner outer) :
    inner.2.outline.Part outer.2.outline :=
  Forest.parthood.of_inside inside

/-- The stretch of an expression. -/
theorem outline_expr (expr : Expr) :
    ∃ inside, expr.outline = .one .expr expr.span inside := by
  cases expr <;> exact ⟨_, rfl⟩

/-- The stretch of a declarator. -/
theorem outline_declarator (declarator : Node .declarator) :
    ∃ inside, declarator.outline = .one .declarator declarator.span inside := by
  cases declarator
  exact ⟨_, rfl⟩

/-- The stretch of an attribute. -/
theorem outline_attribute (node : Node .jsxAttribute) :
    ∃ inside, node.outline = .one .attribute node.span inside := by
  cases node <;> exact ⟨_, rfl⟩

/-- The nodes of a sequence that is laid stand in order. -/
theorem ordered_of_laid {c : Category} {source : List Char} {low high : Nat}
    (single : ∀ node : Node c, ∃ role inside, node.outline = .one role node.span inside)
    {nodes : List (Node c)} (laid : (ofList nodes).outline.Laid source low high) :
    nodes.Pairwise fun first second => first.span.stop ≤ second.span.start := by
  induction nodes generalizing low with
  | nil => exact .nil
  | cons head tail inductionHypothesis =>
      obtain ⟨role, inside, shape⟩ := single head
      have behind : (ofList tail).outline.Laid source head.span.stop high := by
        have whole : (head.outline ++ (ofList tail).outline).Laid source low high := laid
        rw [shape] at whole
        exact whole.2.2.2.2
      refine .cons (fun node member => ?_) (inductionHypothesis behind)
      obtain ⟨role', inside', shape'⟩ := single node
      have inTail : Inside ⟨_, node⟩ ⟨_, ofList tail⟩ :=
        inside_of_mem_toList (by rwa [toList_ofList])
      have spot : ⟨role', node.span⟩ ∈ (ofList tail).outline.spots :=
        inTail.outline_part.2 _ (by
          rw [shape']
          exact List.mem_cons_self)
      exact (behind.of_mem spot).1

/-- The stretch of a statement. -/
theorem outline_stmt (stmt : Stmt) :
    ∃ role inside, stmt.outline = .one role stmt.span inside ∧ role.isStmt = true := by
  cases stmt <;> exact ⟨_, _, rfl, rfl⟩

end Node

end StopMotion.Syntax
