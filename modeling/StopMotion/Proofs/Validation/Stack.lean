import StopMotion.Proofs.Validation.Scope

/-!
# Scopes on a stack

The names that nothing declares, found by one visit of a module that keeps a stack of scopes. A
construct that declares names for itself puts a scope on the stack, declares them there, visits its
parts and takes the scope away again.

Every visit of a construct leaves the stack as it was, and what it finds is what the outline of the
construct leaves unresolved in the scopes around. Only the head of a loop leaves names behind: it
declares them in the scope that the loop has opened.
-/

namespace StopMotion.Validation

open Syntax (Category Element Expr Function Module Name Node Pattern Stmt)

/-! ## Searches -/

/-- The state of a search for names that nothing declares: the names of the scopes around, the
innermost scope first, and the names that were found. -/
structure NameSearch where
  scopes : List (List String) := []
  found : List Name := []

/-- The names that an object literal takes for values. -/
def shorthandNames (entries : List (Node .entry)) : List Name :=
  entries.filterMap fun
    | .shorthand _ name => some name
    | _ => none

namespace NameSearch

/-- Opens a scope. -/
def enter (search : NameSearch) : NameSearch :=
  { search with scopes := [] :: search.scopes }

/-- Closes the innermost scope. -/
def leave (search : NameSearch) : NameSearch :=
  { search with scopes := search.scopes.tail }

/-- Declares names in the innermost scope, if there is one. -/
def declare (search : NameSearch) (names : List String) : NameSearch :=
  match search.scopes with
  | [] => search
  | scope :: around => { search with scopes := (scope ++ names) :: around }

/-- Whether a name is declared in a scope or outside every module. -/
def knows (search : NameSearch) (text : String) : Bool :=
  search.scopes.any (·.contains text) || globals.contains text

/-- The search after it has found more names. -/
def report (search : NameSearch) (names : List Name) : NameSearch :=
  { search with found := search.found ++ names }

/-- Comes to a reference. -/
def refer (search : NameSearch) (name : Name) : NameSearch :=
  if search.knows name.text then search else search.report [name]

/-- Comes to references one after the other. -/
def referAll (search : NameSearch) (names : List Name) : NameSearch :=
  names.foldl refer search

/-- Goes through a node and everything inside it. The names of a list of statements are declared
before the list is gone through, those of the declarators in the head of a loop one after the
other. -/
def visit (role : Role) : {c : Category} → Node c → NameSearch → NameSearch
  | _, .cons head tail => fun search =>
    match role with
    | .head => search.declare (bound head) |>.visit .binds head |>.visit .head tail
    | role => search.visit role head |>.visit role tail
  | _, .present value => visit role value
  -- Statements.
  | _, .exportDecl _ declaration => visit .binds declaration
  | _, .exportExpr _ value => visit .binds value
  | _, .exportFunction _ value => visit .binds value
  | _, .exportClass _ value => visit .binds value
  | _, .exportNamed _ specifiers none => fun search => search.referAll (specifiers.map (·.source))
  | _, .varStmt _ _ declarators => visit .binds declarators
  | _, .functionStmt _ value => visit .binds value
  | _, .classStmt _ value => visit .binds value
  | _, .exprStmt _ value => visit .binds value
  | _, .block _ body => fun search =>
    search.enter |>.declare (declared body) |>.visit .binds body |>.leave
  | _, .ifStmt _ test consequent alternative => fun search =>
    search.visit .binds test |>.visit .binds consequent |>.visit .binds alternative
  | _, .forStmt _ init test step body => fun search =>
    search.enter |>.visit .binds init |>.visit .binds test |>.visit .binds step
      |>.visit .binds body |>.leave
  | _, .forEach _ left right body _ => fun search =>
    search.visit .binds right |>.enter |>.visit .binds left |>.visit .binds body |>.leave
  | _, .whileStmt _ test body => fun search => search.visit .binds test |>.visit .binds body
  | _, .doWhile _ body test => fun search => search.visit .binds test |>.visit .binds body
  | _, .returnStmt _ value => visit .binds value
  | _, .throwStmt _ value => visit .binds value
  | _, .tryStmt _ body param (.present handler) finalizer => fun search =>
    search.enter |>.declare (declared body) |>.visit .binds body |>.leave
      |>.enter |>.declare (bound param) |>.visit .binds param |>.declare (declared handler)
      |>.visit .binds handler |>.leave |> visitFinalizer finalizer
  | _, .tryStmt _ body _ .absent finalizer => fun search =>
    search.enter |>.declare (declared body) |>.visit .binds body |>.leave
      |> visitFinalizer finalizer
  | _, .switchStmt _ subject arms => fun search =>
    search.visit .binds subject |>.enter |>.declare (declaredInArms arms) |>.visit .binds arms
      |>.leave
  | _, .labeled _ _ body => visit .binds body
  | _, .switchArm test body => fun search => search.visit .binds test |>.visit .binds body
  | _, .headVar _ declarators => visit .head declarators
  | _, .headExpr value => visit .binds value
  | _, .headPattern target => visit .assigned target
  | _, .declares _ target init => fun search => search.visit .binds target |>.visit .binds init
  -- Functions and classes.
  | _, .func _ name params body _ _ _ => fun search =>
    search.enter |>.declare ["arguments"] |>.declare (name.map (·.text)).toList
      |>.declare (bound params) |>.declare (declaredInBody body) |>.visit .binds params
      |>.visit .binds body |>.leave
  | _, .klass _ name superClass members => fun search =>
    search.enter |>.declare (name.map (·.text)).toList |>.visit .binds superClass
      |>.visit .binds members |>.leave
  | _, .methodMember _ key _ value => fun search => search.visit .binds key |>.visit .binds value
  | _, .fieldMember _ key _ init => fun search => search.visit .binds key |>.visit .binds init
  | _, .staticBlock _ key body => fun search => search.visit .binds key |>.visit .binds body
  -- Patterns.
  | _, .bindName _ name => fun search =>
    match role with
    | .assigned => search.refer name
    | _ => search
  | _, .bindArray _ elements => visit role elements
  | _, .bindObject _ entries => visit role entries
  | _, .bindDefault _ target value => fun search => search.visit role target |>.visit .binds value
  | _, .bindRest _ target => visit role target
  | _, .bindExpr _ target => visit .binds target
  | _, .boundKey key value => fun search => search.visit .binds key |>.visit role value
  | _, .boundRest target => visit role target
  | _, .keyComputed value => visit .binds value
  -- Expressions. The operand of `typeof` may be a name that nothing declares.
  | _, .name _ name => fun search => search.refer name
  | _, .template _ _ substitutions => visit .binds substitutions
  | _, .tagged _ callee _ substitutions => fun search =>
    search.visit .binds callee |>.visit .binds substitutions
  | _, .array _ elements => visit .binds elements
  | _, .object _ entries => fun search =>
    search.referAll (shorthandNames entries.toList) |>.visit .binds entries
  | _, .functionExpr _ value => visit .binds value
  | _, .arrow _ params body _ => fun search =>
    search.enter |>.declare (bound params) |>.declare (declaredInArrow body)
      |>.visit .binds params |>.visit .binds body |>.leave
  | _, .classExpr _ value => visit .binds value
  | _, .unary _ .typeOf (.name ..) => id
  | _, .unary _ _ operand => visit .binds operand
  | _, .update _ _ _ operand => visit .binds operand
  | _, .binary _ _ left right => fun search => search.visit .binds left |>.visit .binds right
  | _, .assign _ _ target value => fun search =>
    search.visit .assigned target |>.visit .binds value
  | _, .conditional _ test consequent alternative => fun search =>
    search.visit .binds test |>.visit .binds consequent |>.visit .binds alternative
  | _, .call _ callee arguments _ => fun search =>
    search.visit .binds callee |>.visit .binds arguments
  | _, .newCall _ callee arguments => fun search =>
    search.visit .binds callee |>.visit .binds arguments
  | _, .member _ owner _ _ => visit .binds owner
  | _, .privateMember _ owner _ _ => visit .binds owner
  | _, .index _ owner property _ => fun search =>
    search.visit .binds owner |>.visit .binds property
  | _, .sequence _ items => visit .binds items
  | _, .paren _ inner => visit .binds inner
  | _, .spread _ operand => visit .binds operand
  | _, .awaited _ operand => visit .binds operand
  | _, .yielded _ operand => visit .binds operand
  | _, .assertion _ operand => visit .binds operand
  | _, .jsx _ value => visit .binds value
  | _, .bodyExpr value => visit .binds value
  | _, .bodyBlock _ body => visit .binds body
  | _, .keyed _ key value => fun search => search.visit .binds key |>.visit .binds value
  | _, .spreadEntry _ operand => visit .binds operand
  | _, .methodEntry _ key value => fun search => search.visit .binds key |>.visit .binds value
  -- Elements.
  | _, .tag _ name attributes children => fun search =>
    search.referAll (tagReference name) |>.visit .binds attributes |>.visit .binds children
  | _, .attrExpr _ _ value => visit .binds value
  | _, .attrElement _ _ value => visit .binds value
  | _, .attrSpread _ operand => visit .binds operand
  | _, .childExpr _ value => visit .binds value
  | _, .childSpread operand => visit .binds operand
  | _, .childElement value => visit .binds value
  | _, _ => id
where
  /-- Goes through a block that is always run at the end. -/
  visitFinalizer : {c : Category} → Node c → NameSearch → NameSearch
  | _, .present body => fun search =>
    search.enter |>.declare (declared body) |>.visit .binds body |>.leave
  | _, _ => id

/-- A search through a module, which is a scope as well. -/
def ofModule (module : Module) : NameSearch :=
  let body := Node.ofList module.body
  enter {} |>.declare (declaredInBody body) |>.visit .binds body |>.leave

/-! ## Visible names -/

/-- The names that are visible, those of the innermost scope first. -/
def visible (search : NameSearch) : List String :=
  search.scopes.foldr (· ++ ·) globals

variable {search : NameSearch} {names names' : List String} {found found' : List Name}

theorem knows_eq (search : NameSearch) (text : String) :
    search.knows text = search.visible.contains text := by
  obtain ⟨scopes, found⟩ := search
  induction scopes with
  | nil => rfl
  | cons scope around inductionHypothesis =>
      have same : (scope ++ visible ⟨around, found⟩).contains text =
          (scope.contains text || (visible ⟨around, found⟩).contains text) := by
        simp [List.contains_eq_mem]
      exact (Bool.or_assoc ..).trans ((congrArg _ inductionHypothesis).trans same.symm)

@[simp] theorem report_nil (search : NameSearch) : search.report [] = search := by
  simp [report]

@[simp] theorem report_report :
    (search.report found).report found' = search.report (found ++ found') := by
  simp [report]

@[simp] theorem visible_report : (search.report found).visible = search.visible := rfl

theorem declare_report :
    (search.report found).declare names = (search.declare names).report found := by
  obtain ⟨_ | _, _⟩ := search <;> rfl

@[simp] theorem declare_nil (search : NameSearch) : search.declare [] = search := by
  obtain ⟨_ | _, _⟩ := search <;> simp [declare]

theorem declare_declare :
    (search.declare names).declare names' = search.declare (names ++ names') := by
  obtain ⟨_ | _, _⟩ := search <;> simp [declare]

theorem mem_visible_declare (hasScope : search.scopes ≠ []) (text : String) :
    text ∈ (search.declare names).visible ↔ text ∈ names ++ search.visible := by
  obtain ⟨_ | ⟨scope, around⟩, found⟩ := search
  · contradiction
  · simp [declare, visible, or_left_comm]

theorem declare_ne_nil (hasScope : search.scopes ≠ []) : (search.declare names).scopes ≠ [] := by
  obtain ⟨_ | _, _⟩ := search
  · contradiction
  · exact List.cons_ne_nil _ _

/-- Of some references those are found whose names are not visible. -/
theorem referAll_eq (search : NameSearch) (names : List Name) :
    search.referAll names =
      search.report (names.filter fun name => !search.visible.contains name.text) := by
  induction names generalizing search with
  | nil => exact (report_nil search).symm
  | cons name rest inductionHypothesis =>
      have first : search.referAll (name :: rest) = (search.refer name).referAll rest := rfl
      rw [first, refer, knows_eq, List.filter_cons]
      cases search.visible.contains name.text with
      | true => exact inductionHypothesis search
      | false => simp [inductionHypothesis]

end NameSearch

/-- What is unresolved is a matter of the visible names and not of their order. -/
theorem Outline.unresolved_congr (outline : Outline) {visible visible' : List String}
    (same : ∀ text, text ∈ visible ↔ text ∈ visible') :
    outline.unresolved visible = outline.unresolved visible' := by
  induction outline generalizing visible visible' with
  | silent => rfl
  | mention name =>
      have isSame : visible.contains name.text = visible'.contains name.text := by
        simp [List.contains_eq_mem, same]
      rw [unresolved, unresolved, isSame]
  | beside first second firstHypothesis secondHypothesis =>
      exact congrArg₂ (· ++ ·) (firstHypothesis same) (secondHypothesis same)
  | scope names inside inductionHypothesis =>
      exact inductionHypothesis fun text => by simp [same]

/-! ## Steps of a search -/

open NameSearch (visit)

/-- A step of a search that leaves the scopes as they are and finds what an outline leaves
unresolved. -/
def Follows (step : NameSearch → NameSearch) (outline : Outline) : Prop :=
  ∀ search, step search = search.report (outline.unresolved search.visible)

/-- A step that declares names in the innermost scope on its way. -/
def Declares (names : List String) (step : NameSearch → NameSearch) (outline : Outline) : Prop :=
  ∀ search, search.scopes ≠ [] →
    step search = (search.declare names).report (outline.unresolved search.visible)

section

variable {first second : NameSearch → NameSearch} {outline outline' : Outline}
  {names names' : List String}

namespace Follows

theorem silent : Follows id .silent :=
  fun search => search.report_nil.symm

theorem referAll {names : List Name} {mentions : Outline}
    (mentioned : ∀ visible, mentions.unresolved visible =
      names.filter fun name => !visible.contains name.text) :
    Follows (·.referAll names) mentions :=
  fun search => (search.referAll_eq names).trans (congrArg _ (mentioned _).symm)

theorem beside (follows : Follows first outline) (follows' : Follows second outline') :
    Follows (fun search => second (first search)) (outline.beside outline') := by
  intro search
  calc second (first search)
    _ = (first search).report (outline'.unresolved (first search).visible) := follows' _
    _ = (search.report (outline.unresolved search.visible)).report
          (outline'.unresolved search.visible) := by rw [follows]; rfl
    _ = search.report ((outline.beside outline').unresolved search.visible) :=
        NameSearch.report_report

/-- A step between the opening and the closing of a scope. -/
theorem scope (names : List String) (follows : Follows first outline) :
    Follows (fun search => (first (search.enter.declare names)).leave) (outline.scope names) :=
  fun _ => congrArg NameSearch.leave (follows _)

/-- What is caught is declared before its own visit, and the names of the handler after it. -/
theorem handler (follows : Follows first outline) (follows' : Follows second outline') :
    Follows (fun search => (second ((first (search.enter.declare names)).declare names')).leave)
      (.scope names (outline.beside (outline'.scope names'))) := by
  intro search
  have caught : (first (search.enter.declare names)).declare names' =
      (search.enter.declare (names ++ names')).report
        (outline.unresolved (names ++ search.visible)) := by
    rw [follows, NameSearch.declare_report, NameSearch.declare_declare]
    rfl
  -- The stack has one scope for what the outline draws as two.
  have inHandler : outline'.unresolved ((names ++ names') ++ search.visible) =
      outline'.unresolved (names' ++ (names ++ search.visible)) :=
    outline'.unresolved_congr fun text => by simp [or_left_comm]
  calc (second ((first (search.enter.declare names)).declare names')).leave
    _ = (search.report (outline.unresolved (names ++ search.visible))).report
          (outline'.unresolved ((names ++ names') ++ search.visible)) := by
        rw [caught, follows']; rfl
    _ = search.report ((Outline.scope names (outline.beside
          (outline'.scope names'))).unresolved search.visible) := by
        rw [inHandler, NameSearch.report_report]; rfl

/-- What the head of a loop declares is declared for the body. -/
theorem loop (declares : Declares names first outline) (follows : Follows second outline') :
    Follows (fun search => (second (first search.enter)).leave)
      (outline.beside (outline'.scope names)) := by
  intro search
  calc (second (first search.enter)).leave
    _ = (search.report (outline.unresolved search.visible)).report
          (outline'.unresolved (names ++ search.visible)) := by
        rw [declares _ (List.cons_ne_nil _ _), follows]; rfl
    _ = search.report ((outline.beside (outline'.scope names)).unresolved search.visible) :=
        NameSearch.report_report

theorem declares (follows : Follows first outline) : Declares [] first outline := by
  intro search _
  rw [follows, search.declare_nil]

end Follows

/-- A declarator is visited when its names are declared and those of the ones behind it are not. -/
theorem Declares.cons (follows : Follows first outline)
    (declares : Declares names' second outline') :
    Declares (names ++ names') (fun search => second (first (search.declare names)))
      (.scope names (outline.beside outline')) := by
  intro search hasScope
  -- The names come to the end of the scope on the stack, and to the front of those in the outline.
  have same (inside : Outline) : inside.unresolved (search.declare names).visible =
      inside.unresolved (names ++ search.visible) :=
    inside.unresolved_congr (NameSearch.mem_visible_declare hasScope)
  have stillScope : (first (search.declare names)).scopes ≠ [] := by
    rw [follows]
    exact NameSearch.declare_ne_nil hasScope
  calc second (first (search.declare names))
    _ = (((search.declare names).report
          (outline.unresolved (search.declare names).visible)).declare names').report
            (outline'.unresolved (search.declare names).visible) := by
        rw [declares _ stillScope, follows]; rfl
    _ = (search.declare (names ++ names')).report
          (outline.unresolved (names ++ search.visible) ++
            outline'.unresolved (names ++ search.visible)) := by
        rw [NameSearch.declare_report, NameSearch.declare_declare, NameSearch.report_report,
          same, same]

end

/-! ## Visits -/

/-- Whether a visit leaves the scopes as they are. -/
def Role.restores (role : Role) : Category → Bool
  | .loopHead => false
  | .list c | .option c => role.restores c
  | _ => !(role matches .head)

/-- Whether a visit goes through the head of a loop. -/
def Role.entersLoop (role : Role) : Category → Bool
  | .loopHead | .option .loopHead => (role matches .binds)
  | .list .declarator => (role matches .head)
  | _ => false

theorem Role.not_restores_head (c : Category) : ¬Role.head.restores c := by
  induction c with
  | list _ inside | option _ inside => exact inside
  | _ => exact Bool.false_ne_true

/-- Every visit of a node goes along with its outline. -/
structure Agrees {c : Category} (node : Node c) : Prop where
  follows (role : Role) (restores : role.restores c) :
    Follows (visit role node) (outline role node)
  declares (role : Role) (enters : role.entersLoop c) :
    Declares (bound node) (visit role node) (outline role node)

theorem follows_visitFinalizer {finalizer : Node (.option (.list .stmt))}
    (agrees : Agrees finalizer) :
    Follows (visit.visitFinalizer finalizer) (outline.outlineFinalizer finalizer) := by
  have follows := agrees.follows .binds rfl
  cases finalizer with
  | absent => exact .silent
  | present => exact follows.scope _

section

variable {role : Role} {c : Category} {node : Node c} (agrees : ∀ part ∈ node.parts, Agrees part.2)

include agrees

/-- A node outside the heads of loops leaves the scopes as they are if this holds of its parts. -/
theorem follows_of_parts (restores : role.restores c) :
    Follows (visit role node) (outline role node) := by
  have one {c' : Category} {part : Node c'} (isPart : ⟨c', part⟩ ∈ node.parts)
      (restores : Role.binds.restores c') : Follows (visit .binds part) (outline .binds part) :=
    (agrees _ isPart).follows .binds restores
  have two {c' d : Category} {first : Node c'} {second : Node d}
      (isFirst : ⟨c', first⟩ ∈ node.parts) (isSecond : ⟨d, second⟩ ∈ node.parts)
      (restores : Role.binds.restores c') (restores' : Role.binds.restores d) :
      Follows (fun search => search.visit .binds first |>.visit .binds second)
        ((outline .binds first).beside (outline .binds second)) :=
    (one isFirst restores).beside (one isSecond restores')
  cases node with
  | nil | absent | importStmt | exportAll | typeOnly | enumStmt | breakStmt | continueStmt
  | emptyStmt | debugger | keyName | keyPrivate | keyString | keyNumber | number | string | boolean
  | null | regex | this | super | metaProperty | shorthand | attrFlag | attrString | childText =>
      exact .silent
  | exportDecl | exportExpr | exportFunction | exportClass | varStmt | functionStmt | classStmt
  | exprStmt | returnStmt | throwStmt | labeled | bindExpr | keyComputed | template | array
  | functionExpr | classExpr | update | member | privateMember | sequence | paren | spread | awaited
  | yielded | assertion | jsx | bodyExpr | bodyBlock | spreadEntry | attrExpr | attrElement
  | attrSpread | childExpr | childSpread | childElement => exact one (.head _) rfl
  | whileStmt | doWhile | switchArm | declares | methodMember | fieldMember | staticBlock | tagged
  | binary | call | newCall | index | keyed | methodEntry =>
      exact two (.head _) (.tail _ (.head _)) rfl rfl
  | ifStmt | conditional =>
      exact (one (.head _) rfl).beside
        (two (.tail _ (.head _)) (.tail _ (.tail _ (.head _))) rfl rfl)
  | cons head tail =>
      have inHead := (agrees ⟨_, head⟩ (.head _)).follows role restores
      have inTail := (agrees ⟨_, tail⟩ (.tail _ (.head _))).follows role restores
      cases role with
      -- A list in the head of a loop leaves names behind.
      | head => exact absurd restores (Role.not_restores_head _)
      | _ => exact inHead.beside inTail
  | present inner | bindArray _ inner | bindObject _ inner | bindRest _ inner | boundRest inner =>
      exact (agrees ⟨_, inner⟩ (.head _)).follows role restores
  | bindDefault _ target =>
      exact ((agrees ⟨_, target⟩ (.head _)).follows role restores).beside
        (one (.tail _ (.head _)) rfl)
  | boundKey _ value =>
      exact (one (.head _) rfl).beside
        ((agrees ⟨_, value⟩ (.tail _ (.head _))).follows role restores)
  | assign _ _ target =>
      exact ((agrees ⟨_, target⟩ (.head _)).follows .assigned rfl).beside
        (one (.tail _ (.head _)) rfl)
  -- References.
  | name _ name => exact .referAll (unresolved_mention name)
  | bindName _ name =>
      cases role with
      | assigned => exact .referAll (unresolved_mention name)
      | _ => exact .silent
  | exportNamed _ _ source =>
      cases source with
      | none => exact .referAll (unresolved_ofNames _)
      | some => exact .silent
  | object => exact (Follows.referAll (unresolved_ofNames _)).beside (one (.head _) rfl)
  | tag _ name =>
      exact (Follows.referAll (unresolved_tagMention name)).beside
        (two (.head _) (.tail _ (.head _)) rfl rfl)
  | unary _ op operand =>
      cases op with
      | typeOf =>
          cases operand with
          | name => exact .silent
          | _ => exact one (.head _) rfl
      | _ => exact one (.head _) rfl
  -- Scopes.
  | block => exact (one (.head _) rfl).scope _
  | func _ name params body =>
      exact (two (.head _) (.tail _ (.head _)) rfl rfl).scope
        ("arguments" :: (name.map (·.text)).toList ++ bound params ++ declaredInBody body)
  | klass => exact (two (.head _) (.tail _ (.head _)) rfl rfl).scope _
  | arrow _ params body =>
      exact (two (.head _) (.tail _ (.head _)) rfl rfl).scope (bound params ++ declaredInArrow body)
  | switchStmt =>
      exact (one (.head _) rfl).beside ((one (.tail _ (.head _)) rfl).scope _)
  | forStmt =>
      have head := (agrees _ (.head _)).declares .binds rfl
      have body := (one (.tail _ (.head _)) rfl).beside
        (two (.tail _ (.tail _ (.head _))) (.tail _ (.tail _ (.tail _ (.head _)))) rfl rfl)
      exact .loop head body
  | forEach =>
      have head := (agrees _ (.head _)).declares .binds rfl
      have body := one (.tail _ (.tail _ (.head _))) rfl
      exact (one (.tail _ (.head _)) rfl).beside (.loop head body)
  | tryStmt _ body param handler finalizer =>
      have tried := (one (.head _) rfl).scope (declared body)
      have caught := one (.tail _ (.head _)) rfl
      have handled := one (.tail _ (.tail _ (.head _))) rfl
      have atLast : Follows (visit.visitFinalizer finalizer) _ :=
        follows_visitFinalizer (agrees _ (.tail _ (.tail _ (.tail _ (.head _)))))
      cases handler with
      | absent => exact tried.beside atLast
      | present handler =>
          have inHandler : Follows (visit .binds handler) (outline .binds handler) := handled
          exact tried.beside ((caught.handler inHandler).beside atLast)
  | headVar | headExpr | headPattern => cases restores

/-- The head of a loop declares what it binds, one declarator after the other. -/
theorem declares_of_parts (enters : role.entersLoop c) :
    Declares (bound node) (visit role node) (outline role node) := by
  cases node with
  | nil | absent => exact Follows.silent.declares
  | @cons c head tail =>
      cases c with
      | declarator =>
          cases role with
          | head =>
              have inHead := (agrees ⟨_, head⟩ (.head _)).follows .binds rfl
              have inTail := (agrees ⟨_, tail⟩ (.tail _ (.head _))).declares .head rfl
              cases head with
              | declares => exact .cons inHead inTail
          | _ => cases enters
      | _ => cases enters
  | @present c value =>
      have inValue := (agrees ⟨_, value⟩ (.head _)).declares role
      cases c with
      | loopHead => exact inValue enters
      | _ => cases enters
  | headVar => exact (agrees _ (.head _)).declares .head rfl
  | headExpr => exact ((agrees _ (.head _)).follows .binds rfl).declares
  | headPattern => exact ((agrees _ (.head _)).follows .assigned rfl).declares
  | _ => cases enters

end

/-- Both kinds of visits at once: the head of a loop holds expressions, and expressions hold the
heads of loops. -/
theorem agrees {c : Category} (node : Node c) : Agrees node := by
  apply Node.induction_parts fun node => Agrees node.2
  intro node inductionHypothesis
  exact ⟨fun _ => follows_of_parts inductionHypothesis,
    fun _ => declares_of_parts inductionHypothesis⟩

/-! ## Constructs -/

/-- A visit of a node that takes away all that it puts on the stack. -/
structure Restores (role : Role) {c : Category} (node : Node c) : Prop where
  /-- There are as many scopes as before, and each has the names that it had. -/
  scopes (search : NameSearch) : (search.visit role node).scopes = search.scopes
  /-- What the node declares is not known behind it. -/
  knows (search : NameSearch) (text : String) :
    (search.visit role node).knows text = search.knows text
  /-- What is found is a matter of the node and the scopes around it. -/
  found (search : NameSearch) : (search.visit role node).found =
    search.found ++ (outline role node).unresolved search.visible

theorem Follows.restores {role : Role} {c : Category} {node : Node c}
    (follows : Follows (visit role node) (outline role node)) : Restores role node where
  scopes search := by
    rw [follows]
    rfl
  knows search text := by
    rw [follows]
    rfl
  found search := by
    rw [follows]
    rfl

/-- A search through a module closes all scopes and finds the undeclared names. -/
theorem ofModule_eq (module : Module) : NameSearch.ofModule module = ⟨[], undeclared module⟩ :=
  ((agrees (Node.ofList module.body)).follows .binds rfl).scope _ {}

/-- Constructs of every kind leave the stack as it was, and the search that goes through them finds
the undeclared names of a module. -/
theorem constructs_restore (module : Module) :
    (∀ statement : Stmt, Restores .binds statement) ∧
    (∀ expr : Expr, Restores .binds expr) ∧
    (∀ pattern : Pattern, Restores .binds pattern ∧ Restores .assigned pattern) ∧
    (∀ function : Function, Restores .binds function) ∧
    (∀ construct : Syntax.Class, Restores .binds construct) ∧
    (∀ element : Element, Restores .binds element) ∧
    NameSearch.ofModule module = ⟨[], undeclared module⟩ := by
  have each {c : Category} (role : Role) (restores : role.restores c) (node : Node c) :
      Restores role node :=
    ((agrees node).follows role restores).restores
  exact ⟨each .binds rfl, each .binds rfl, fun pattern => ⟨each .binds rfl pattern,
    each .assigned rfl pattern⟩, each .binds rfl, each .binds rfl, each .binds rfl,
    ofModule_eq module⟩

-- What a block declares is unknown behind the block.
example (span : Span) :
    let name : Name := ⟨"inner", span⟩
    let block : Stmt := .block span (.cons
      (.varStmt span .constKind (.cons (.declares span (.bindName span name) .absent) .nil)) .nil)
    (NameSearch.ofModule ⟨[], [block, .exprStmt span (.name span name)]⟩).found = [name] := by
  rfl

end StopMotion.Validation
