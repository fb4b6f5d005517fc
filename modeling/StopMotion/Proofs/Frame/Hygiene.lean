import StopMotion.Frame.Drive
import StopMotion.Proofs.Frame.Fresh
import StopMotion.Proofs.State.Component

/-!
# What the names that are put in mean

A name that is put into a module means what the innermost scope around its place declares by it. A
name that is chosen anew is declared by no scope of the module, so it means the declaration that is
put in with it. A component that has a counter of its own keeps its name, and there the counter
means the component's unless a scope inside the component declares the name again. The index of a
draw is declared by a loop or by a callback around the draw.

The scopes are those of the validator: the parameters of a function are declared in one scope with
its body, and a static block of a class is none.
-/

namespace StopMotion.Validation

open Syntax (AnyNode)
open StopMotion.Frame (Named)

/-! ## Ways -/

/-- A way through the branches of a node to a place inside of it, with the names that are declared
for each branch, from the outside to the inside. -/
inductive Way (place : AnyNode) : Role → AnyNode → List (List String) → Prop where
  | here {role : Role} : Way place role place []
  | into {role : Role} {node : AnyNode} {branch : Branch} {scopes : List (List String)}
      (isBranch : branch ∈ branches role node.2) (way : Way place branch.role branch.part scopes) :
      Way place role node (branch.names :: scopes)

/-- What is declared on a way stands in the node where the way begins. -/
theorem Way.named {place outer : AnyNode} {role : Role} {scopes : List (List String)}
    (way : Way place role outer scopes) :
    ∀ scope ∈ scopes, ∀ name ∈ scope, name = "arguments" ∨ Named name outer := by
  induction way with
  | here => exact List.forall_mem_nil _
  | @into role node branch scopes isBranch _ inductionHypothesis =>
      intro scope isScope name isDeclared
      rcases List.mem_cons.mp isScope with rfl | isScope
      · exact namedIn_of_mem_branches role node.2 branch isBranch name isDeclared
      · apply (inductionHypothesis scope isScope name isDeclared).imp_right
        exact Named.part (forall_mem_branches role node.2 branch isBranch)

/-- A name means the declaration in a scope, at the end of a way on from there: the scope declares
it and no scope further inside does. -/
def Means (name : String) (scope : List String) (inner : List (List String)) : Prop :=
  name ∈ scope ∧ ∀ further ∈ inner, name ∉ further

end StopMotion.Validation

namespace StopMotion.Frame

open Syntax (AnyNode Category Node Module)
open State (Callable Component boundName? components isHookCall)
open Validation (Branch Way Means bound branches declaredInBody)

/-! ## Names that are put in -/

variable {module : Module} {framesPerSecond : Nat}

/-- A name that does not stand in a module is declared nowhere in it. -/
theorem not_mem_of_not_mem_namesOf {name : String} (absent : name ∉ namesOf module)
    (differs : name ≠ "arguments") {place outer : AnyNode} {role : Validation.Role}
    {scopes : List (List String)} (held : module.Holds outer)
    (way : Way place role outer scopes) : ∀ scope ∈ scopes, name ∉ scope := by
  intro scope isScope isDeclared
  rcases way.named scope isScope name isDeclared with same | named
  · exact differs same
  · exact absent (mem_namesOf_iff.mpr (named.inside held))

theorem seeded_not_mem : (Scene.of module framesPerSecond).seeded ∉ namesOf module :=
  fresh_not_mem _ _ _

theorem head?_seeded : (Scene.of module framesPerSecond).seeded.toList.head? = some 's' :=
  List.mem_singleton.mp (head?_fresh (namesOf module) "seededRandom" [] (by decide))

/-- The function that draws seeded numbers is what its name means everywhere in the module. -/
theorem seeded_means {place : AnyNode} {scopes : List (List String)}
    (way : Way place .binds module.root scopes) :
    let seeded := (Scene.of module framesPerSecond).seeded
    Means seeded (seeded :: declaredInBody (Node.ofList module.body)) scopes := by
  intro seeded
  have differs : seeded ≠ "arguments" := by
    intro same
    have begins : seeded.toList.head? = some 's' := head?_seeded
    rw [same] at begins
    exact absurd begins (by decide)
  exact ⟨List.mem_cons_self, not_mem_of_not_mem_namesOf seeded_not_mem differs .self way⟩

/-! ## Counters -/

theorem mem_bound_of_boundName? {c : Category} {node : Node c} {name : String}
    (isBound : boundName? node = some name) : name ∈ bound node := by
  fun_induction boundName? node with
  | case1 =>
      cases isBound
      exact List.mem_cons_self
  | case2 _ _ _ inductionHypothesis => exact inductionHypothesis isBound
  | case3 => cases isBound

/-- What is gathered in the nodes of a list has what is gathered in each of them. -/
theorem mem_gathered_ofList {gather : {c : Category} → Node c → List String}
    (each : ∀ {c : Category} (head : Node c) (tail : Node (.list c)),
      gather (.cons head tail) = gather head ++ gather tail)
    {c : Category} {nodes : List (Node c)} {node : Node c} {name : String} (isNode : node ∈ nodes)
    (isGathered : name ∈ gather node) : name ∈ gather (Node.ofList nodes) := by
  induction nodes with
  | nil => cases isNode
  | cons head tail inductionHypothesis =>
      rw [Node.ofList, each]
      rcases List.mem_cons.mp isNode with rfl | isNode
      · exact List.mem_append_left _ isGathered
      · exact List.mem_append_right _ (inductionHypothesis isNode)

theorem mem_bound_of_mem {c : Category} {nodes : Node (.list c)} {node : Node c} {name : String}
    (isNode : node ∈ nodes.toList) (isBound : name ∈ bound node) : name ∈ bound nodes := by
  rw [← nodes.ofList_toList]
  exact mem_gathered_ofList (fun _ _ => rfl) isNode isBound

/-- The counter that a component has is declared by a statement of its body. -/
theorem exists_of_ownCounter? {component : Component} {own : String}
    (found : ownCounter? component = some own) :
    ∃ stmt ∈ component.callable.stmts, own ∈ Validation.declared stmt := by
  obtain ⟨stmt, isStmt, found⟩ := List.exists_of_findSome?_eq_some found
  refine ⟨stmt, isStmt, ?_⟩
  split at found
  · obtain ⟨declarator, isDeclarator, found⟩ := List.exists_of_findSome?_eq_some found
    apply mem_bound_of_mem isDeclarator
    unfold counterName? at found
    split at found
    · split at found
      · have isBound := mem_bound_of_boundName? found
        exact isBound
      · cases found
    · cases found
  · cases found

/-- What a statement of a callable declares is declared for the branches of the callable. -/
theorem mem_names_of_mem_declared {callable : Callable} {node : AnyNode} {name : String}
    (views : callable.Views node) {branch : Branch} (isBranch : branch ∈ branches .binds node.2)
    {stmt : Syntax.Stmt} (isStmt : stmt ∈ callable.stmts)
    (isDeclared : name ∈ Validation.declared stmt) : name ∈ branch.names := by
  have inBody : name ∈ Validation.declared (Node.ofList callable.stmts) :=
    mem_gathered_ofList (fun _ _ => rfl) isStmt isDeclared
  cases views with
  | function value =>
      cases value
      obtain ⟨part, -, rfl⟩ := List.mem_map.mp isBranch
      rw [Callable.ofFunction, Callable.stmts, Node.ofList_toList] at inBody
      exact List.mem_append_right _ (List.mem_append_left _ inBody)
  | value => cases isStmt
  | block =>
      obtain ⟨part, -, rfl⟩ := List.mem_map.mp isBranch
      rw [Callable.stmts, Node.ofList_toList] at inBody
      exact List.mem_append_right _ (List.mem_append_left _ inBody)

theorem exists_of_mem_actors {actor : Actor}
    (member : actor ∈ (Scene.of module framesPerSecond).actors) :
    actor.component ∈ components module ∧
      if actor.hasCounter then ownCounter? actor.component = some actor.counter
      else actor.counter = fresh (namesOf module) "frame" ["currentFrame"] := by
  obtain ⟨component, isComponent, rfl⟩ := List.mem_map.mp member
  unfold Actor.of
  cases found : ownCounter? component with
  | none => exact ⟨isComponent, rfl⟩
  | some own => exact ⟨isComponent, found⟩

/-- The names that are declared for a branch of a component, with its counter. -/
def Actor.scope (actor : Actor) (branch : Branch) : List String :=
  if actor.hasCounter then branch.names else actor.counter :: branch.names

/-- The counter means what the component declares by it, unless a scope inside the component
declares the name of a counter that the component has itself. -/
theorem counter_means {actor : Actor} (member : actor ∈ (Scene.of module framesPerSecond).actors)
    {component place : AnyNode} (views : actor.component.callable.Views component)
    (held : module.Holds component) {branch : Branch}
    (isBranch : branch ∈ branches .binds component.2) {scopes : List (List String)}
    (way : Way place branch.role branch.part scopes) :
    Means actor.counter (actor.scope branch) scopes ↔
      (actor.hasCounter = true → ∀ scope ∈ scopes, actor.counter ∉ scope) := by
  obtain ⟨-, isCounter⟩ := exists_of_mem_actors member
  unfold Actor.scope
  cases has : actor.hasCounter with
  | true =>
      rw [has, if_pos rfl] at isCounter
      obtain ⟨stmt, isStmt, inStmt⟩ := exists_of_ownCounter? isCounter
      have isDeclared : actor.counter ∈ branch.names :=
        mem_names_of_mem_declared views isBranch isStmt inStmt
      exact ⟨fun means _ => means.2, fun spared => ⟨isDeclared, spared rfl⟩⟩
  | false =>
      rw [has, if_neg (by decide)] at isCounter
      have differs : actor.counter ≠ "arguments" := by
        intro same
        have begins := head?_fresh (namesOf module) "frame" ["currentFrame"] (by decide)
        rw [← isCounter, same] at begins
        exact absurd begins (by decide)
      have absent : actor.counter ∉ namesOf module := isCounter ▸ fresh_not_mem _ _ _
      have inside : module.Holds branch.part :=
        held.inside (.part (Validation.forall_mem_branches .binds component.2 branch isBranch) .self)
      have spared := not_mem_of_not_mem_namesOf absent differs inside way
      exact ⟨fun _ => nofun, fun _ => ⟨List.mem_cons_self, spared⟩⟩

/-- The counters and the function that draws seeded numbers have different names. -/
theorem counter_ne_seeded {actor : Actor}
    (member : actor ∈ (Scene.of module framesPerSecond).actors) :
    actor.counter ≠ (Scene.of module framesPerSecond).seeded := by
  intro same
  obtain ⟨isComponent, isCounter⟩ := exists_of_mem_actors member
  cases has : actor.hasCounter with
  | true =>
      rw [has, if_pos rfl] at isCounter
      obtain ⟨node, views, held⟩ := State.standsIn_of_mem_components isComponent
      obtain ⟨stmt, isStmt, inStmt⟩ := exists_of_ownCounter? isCounter
      have named : Named actor.counter module.root :=
        (Validation.named_of_mem_declared inStmt).inside ((views.inside_stmt isStmt).trans held)
      exact seeded_not_mem (same ▸ mem_namesOf_iff.mpr named)
  | false =>
      rw [has, if_neg (by decide)] at isCounter
      have begins := head?_fresh (namesOf module) "frame" ["currentFrame"] (by decide)
      rw [← isCounter, same, head?_seeded] at begins
      exact absurd begins (by decide)

/-! ## Indices -/

/-- The node that declares the index of a counted part: a loop, or the callback of an iteration. -/
inductive Counted.DeclaredBy (part : Counted) : AnyNode → Prop where
  | loop {kind : Syntax.VarKind} {declarators : Node (.list .declarator)}
      {test step : Node (.option .expr)} {body : Node .stmt} :
      DeclaredBy part ⟨_, .forStmt part.span (.present (.headVar kind declarators)) test step body⟩
  | callback {callback : Syntax.Expr} {callable : Callable} {node : AnyNode}
      (isPart : callback.span = part.span) (isCallable : Callable.ofExpr? callback = some callable)
      (views : callable.Views node) : DeclaredBy part node

/-- The parameters of a callable are declared for its branches. -/
theorem exists_branch_of_paramName? {callable : Callable} {node : AnyNode} {position : Nat}
    {name : String} (views : callable.Views node)
    (isParam : callable.paramName? position = some name) :
    ∃ branch ∈ branches .binds node.2, name ∈ branch.names := by
  obtain ⟨param, isAt, isName⟩ := Option.bind_eq_some_iff.mp isParam
  have isParam : param ∈ callable.params := List.mem_of_getElem? isAt
  have inParam := mem_bound_of_boundName? isName
  cases views with
  | function value =>
      cases value
      refine ⟨_, List.mem_cons_self, List.mem_append_left _ (List.mem_append_right _ ?_)⟩
      exact mem_bound_of_mem isParam inParam
  | value | block =>
      refine ⟨_, List.mem_cons_self, List.mem_append_left _ ?_⟩
      exact mem_bound_of_mem isParam inParam

/-- The callback that a call counts over declares the index. -/
theorem exists_of_countedCallback? {span : Span} {callee : Syntax.Expr}
    {arguments : Node (.list .expr)} {isOptional : Bool} {part : Counted}
    (held : module.Holds ⟨_, Node.call span callee arguments isOptional⟩)
    (found : countedCallback? callee arguments.toList = some part) :
    ∃ node : AnyNode, module.Holds node ∧ part.DeclaredBy node ∧
      ∃ branch ∈ branches .binds node.2, part.index ∈ branch.names := by
  unfold countedCallback? at found
  obtain ⟨⟨position, param⟩, -, found⟩ := Option.bind_eq_some_iff.mp found
  obtain ⟨callback, isAt, found⟩ := Option.bind_eq_some_iff.mp found
  obtain ⟨callable, isCallable, found⟩ := Option.bind_eq_some_iff.mp found
  obtain ⟨index, isIndex, found⟩ := Option.bind_eq_some_iff.mp found
  cases found
  obtain ⟨node, views, inside⟩ := Callable.standsIn_of_ofExpr? isCallable
  have inCall : Node.Inside ⟨_, callback⟩ ⟨_, Node.call span callee arguments isOptional⟩ :=
    .part (.tail _ (.head _)) (Node.inside_of_mem_toList (List.mem_of_getElem? isAt))
  exact ⟨node, (inside.trans inCall).trans held, .callback rfl isCallable views,
    exists_branch_of_paramName? views isIndex⟩

/-- The index of a counted part is declared for what the part repeats. -/
theorem exists_of_mem_countedParts {part : Counted} (member : part ∈ countedParts module) :
    ∃ node : AnyNode, module.Holds node ∧ part.DeclaredBy node ∧
      ∃ branch ∈ branches .binds node.2, part.index ∈ branch.names := by
  obtain ⟨⟨c, node⟩, held, -, found⟩ := Module.exists_of_mem_visit member
  replace found : counted? node = some part := Option.mem_toList.mp found
  cases node with
  | call => exact exists_of_countedCallback? held found
  | forStmt span init test step body =>
      cases init with
      | absent => cases found
      | present head =>
          cases head with
          | headVar kind declarators =>
              cases declarators with
              | nil => cases found
              | cons declarator rest =>
                  cases declarator
                  obtain ⟨index, isIndex, rfl⟩ := Option.map_eq_some_iff.mp found
                  have inTarget := mem_bound_of_boundName? isIndex
                  refine ⟨_, held, .loop, _, List.mem_cons_of_mem _ List.mem_cons_self, ?_⟩
                  exact List.mem_append_left _ inTarget
          | _ => cases found
  | _ => cases found

/-- The index at a place is zero or declared by a loop or a callback around the place. -/
theorem index_declared (module : Module) (span : Span) :
    let index := indexAt (countedParts module) span
    index = "0" ∨ ∃ part ∈ countedParts module, part.span.contains span = true ∧
      part.index = index ∧ ∃ node : AnyNode, module.Holds node ∧ part.DeclaredBy node ∧
        ∃ branch ∈ branches .binds node.2, index ∈ branch.names := by
  intro index
  cases found : (countedParts module).reverse.find? fun part => part.span.contains span with
  | none =>
      left
      unfold index indexAt
      rw [found]
      rfl
  | some part =>
      right
      have isIndex : part.index = index := by
        unfold index indexAt
        rw [found]
        rfl
      have isPart := List.mem_reverse.mp (List.mem_of_find?_eq_some found)
      have contains : part.span.contains span = true := by
        simpa using List.find?_some found
      refine ⟨part, isPart, contains, isIndex, ?_⟩
      rw [← isIndex]
      exact exists_of_mem_countedParts isPart

end StopMotion.Frame
