import StopMotion.Syntax.Tree

/-!
# Visiting the nodes of a tree

`Node.collect` goes through a node and everything inside it, outer nodes before inner
ones and the parts of a node in order, except that the condition of a loop comes
before its body. At every node it gathers what `pick` finds there and goes inside only
if `pick` says so. Sequences and optional parts are passed through and never picked.
-/

namespace StopMotion.Syntax

/-- What a visit finds at a node, and whether it goes inside. -/
structure Pick (α : Type) where
  found : List α := []
  goesInside : Bool := true

/-- What a visit gathers at a node whose inside holds `inside`. -/
def Pick.around {α : Type} (pick : Pick α) (inside : Unit → List α) : List α :=
  if pick.goesInside then pick.found ++ inside () else pick.found

/-- Gathers what `pick` finds in a node and everything inside it. -/
def Node.collect {α : Type} (pick : {c : Category} → Node c → Pick α) :
    {c : Category} → Node c → List α
  | _, .nil | _, .absent => []
  | _, .cons head tail => collect pick head ++ collect pick tail
  | _, .present value => collect pick value
  | _, node@(.importStmt ..) | _, node@(.exportNamed ..) | _, node@(.exportAll ..)
  | _, node@(.typeOnly ..) | _, node@(.enumStmt ..) | _, node@(.breakStmt ..)
  | _, node@(.continueStmt ..) | _, node@(.emptyStmt _) | _, node@(.debugger _)
  | _, node@(.bindName ..) | _, node@(.keyName _) | _, node@(.keyPrivate _)
  | _, node@(.keyString ..) | _, node@(.keyNumber ..) | _, node@(.name ..)
  | _, node@(.number ..) | _, node@(.string ..) | _, node@(.boolean ..) | _, node@(.null _)
  | _, node@(.regex _) | _, node@(.this _) | _, node@(.super _) | _, node@(.metaProperty _)
  | _, node@(.shorthand ..) | _, node@(.attrFlag ..) | _, node@(.attrString ..)
  | _, node@(.childText ..) => (pick node).found
  | _, node@(.exportDecl _ declaration) => (pick node).around fun _ => collect pick declaration
  | _, node@(.exportExpr _ value) => (pick node).around fun _ => collect pick value
  | _, node@(.exportFunction _ value) => (pick node).around fun _ => collect pick value
  | _, node@(.exportClass _ value) => (pick node).around fun _ => collect pick value
  | _, node@(.varStmt _ _ declarators) => (pick node).around fun _ => collect pick declarators
  | _, node@(.functionStmt _ value) => (pick node).around fun _ => collect pick value
  | _, node@(.classStmt _ value) => (pick node).around fun _ => collect pick value
  | _, node@(.exprStmt _ value) => (pick node).around fun _ => collect pick value
  | _, node@(.block _ body) => (pick node).around fun _ => collect pick body
  | _, node@(.ifStmt _ test consequent alternative) => (pick node).around fun _ =>
    collect pick test ++ collect pick consequent ++ collect pick alternative
  | _, node@(.forStmt _ init test step body) => (pick node).around fun _ =>
    collect pick init ++ collect pick test ++ collect pick step ++ collect pick body
  | _, node@(.forEach _ left right body _) => (pick node).around fun _ =>
    collect pick left ++ collect pick right ++ collect pick body
  | _, node@(.whileStmt _ test body) => (pick node).around fun _ =>
    collect pick test ++ collect pick body
  | _, node@(.doWhile _ body test) => (pick node).around fun _ =>
    collect pick test ++ collect pick body
  | _, node@(.returnStmt _ value) => (pick node).around fun _ => collect pick value
  | _, node@(.throwStmt _ value) => (pick node).around fun _ => collect pick value
  | _, node@(.tryStmt _ body param handler finalizer) => (pick node).around fun _ =>
    collect pick body ++ collect pick param ++ collect pick handler ++ collect pick finalizer
  | _, node@(.switchStmt _ subject arms) => (pick node).around fun _ =>
    collect pick subject ++ collect pick arms
  | _, node@(.labeled _ _ body) => (pick node).around fun _ => collect pick body
  | _, node@(.switchArm test body) => (pick node).around fun _ =>
    collect pick test ++ collect pick body
  | _, node@(.headVar _ declarators) => (pick node).around fun _ => collect pick declarators
  | _, node@(.headExpr value) => (pick node).around fun _ => collect pick value
  | _, node@(.headPattern target) => (pick node).around fun _ => collect pick target
  | _, node@(.declares _ target init) => (pick node).around fun _ =>
    collect pick target ++ collect pick init
  | _, node@(.func _ _ params body _ _ _) => (pick node).around fun _ =>
    collect pick params ++ collect pick body
  | _, node@(.klass _ _ superClass members) => (pick node).around fun _ =>
    collect pick superClass ++ collect pick members
  | _, node@(.methodMember _ key _ value) => (pick node).around fun _ =>
    collect pick key ++ collect pick value
  | _, node@(.fieldMember _ key _ init) => (pick node).around fun _ =>
    collect pick key ++ collect pick init
  | _, node@(.staticBlock _ key body) => (pick node).around fun _ =>
    collect pick key ++ collect pick body
  | _, node@(.bindArray _ elements) => (pick node).around fun _ => collect pick elements
  | _, node@(.bindObject _ entries) => (pick node).around fun _ => collect pick entries
  | _, node@(.bindDefault _ target value) => (pick node).around fun _ =>
    collect pick target ++ collect pick value
  | _, node@(.bindRest _ target) => (pick node).around fun _ => collect pick target
  | _, node@(.bindExpr _ target) => (pick node).around fun _ => collect pick target
  | _, node@(.boundKey key value) => (pick node).around fun _ =>
    collect pick key ++ collect pick value
  | _, node@(.boundRest target) => (pick node).around fun _ => collect pick target
  | _, node@(.keyComputed value) => (pick node).around fun _ => collect pick value
  | _, node@(.template _ _ substitutions) => (pick node).around fun _ =>
    collect pick substitutions
  | _, node@(.tagged _ callee _ substitutions) => (pick node).around fun _ =>
    collect pick callee ++ collect pick substitutions
  | _, node@(.array _ elements) => (pick node).around fun _ => collect pick elements
  | _, node@(.object _ entries) => (pick node).around fun _ => collect pick entries
  | _, node@(.functionExpr _ value) => (pick node).around fun _ => collect pick value
  | _, node@(.arrow _ params body _) => (pick node).around fun _ =>
    collect pick params ++ collect pick body
  | _, node@(.classExpr _ value) => (pick node).around fun _ => collect pick value
  | _, node@(.unary _ _ operand) => (pick node).around fun _ => collect pick operand
  | _, node@(.update _ _ _ operand) => (pick node).around fun _ => collect pick operand
  | _, node@(.binary _ _ left right) => (pick node).around fun _ =>
    collect pick left ++ collect pick right
  | _, node@(.assign _ _ target value) => (pick node).around fun _ =>
    collect pick target ++ collect pick value
  | _, node@(.conditional _ test consequent alternative) => (pick node).around fun _ =>
    collect pick test ++ collect pick consequent ++ collect pick alternative
  | _, node@(.call _ callee arguments _) => (pick node).around fun _ =>
    collect pick callee ++ collect pick arguments
  | _, node@(.newCall _ callee arguments) => (pick node).around fun _ =>
    collect pick callee ++ collect pick arguments
  | _, node@(.member _ owner _ _) => (pick node).around fun _ => collect pick owner
  | _, node@(.privateMember _ owner _ _) => (pick node).around fun _ => collect pick owner
  | _, node@(.index _ owner property _) => (pick node).around fun _ =>
    collect pick owner ++ collect pick property
  | _, node@(.sequence _ items) => (pick node).around fun _ => collect pick items
  | _, node@(.paren _ inner) => (pick node).around fun _ => collect pick inner
  | _, node@(.spread _ operand) => (pick node).around fun _ => collect pick operand
  | _, node@(.awaited _ operand) => (pick node).around fun _ => collect pick operand
  | _, node@(.yielded _ operand) => (pick node).around fun _ => collect pick operand
  | _, node@(.assertion _ operand) => (pick node).around fun _ => collect pick operand
  | _, node@(.jsx _ value) => (pick node).around fun _ => collect pick value
  | _, node@(.bodyExpr value) => (pick node).around fun _ => collect pick value
  | _, node@(.bodyBlock _ body) => (pick node).around fun _ => collect pick body
  | _, node@(.keyed _ key value) => (pick node).around fun _ =>
    collect pick key ++ collect pick value
  | _, node@(.spreadEntry _ operand) => (pick node).around fun _ => collect pick operand
  | _, node@(.methodEntry _ key value) => (pick node).around fun _ =>
    collect pick key ++ collect pick value
  | _, node@(.tag _ _ attributes children) => (pick node).around fun _ =>
    collect pick attributes ++ collect pick children
  | _, node@(.attrExpr _ _ value) => (pick node).around fun _ => collect pick value
  | _, node@(.attrElement _ _ value) => (pick node).around fun _ => collect pick value
  | _, node@(.attrSpread _ operand) => (pick node).around fun _ => collect pick operand
  | _, node@(.childExpr _ value) => (pick node).around fun _ => collect pick value
  | _, node@(.childSpread operand) => (pick node).around fun _ => collect pick operand
  | _, node@(.childElement value) => (pick node).around fun _ => collect pick value

/-- The expression that a node is, if it is one. -/
def Node.asExpr? : {c : Category} → Node c → Option Expr
  | .expr, node => some node
  | _, _ => none

/-- The statement that a node is, if it is one. -/
def Node.asStmt? : {c : Category} → Node c → Option Stmt
  | .stmt, node => some node
  | _, _ => none

/-- Every expression in a node, an expression before those inside it. -/
def Node.exprs {c : Category} (node : Node c) : List Expr :=
  node.collect fun inner => { found := inner.asExpr?.toList }

/-- Every statement in a node, a statement before those inside it. -/
def Node.stmts {c : Category} (node : Node c) : List Stmt :=
  node.collect fun inner => { found := inner.asStmt?.toList }

end StopMotion.Syntax
