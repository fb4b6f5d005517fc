import StopMotion.Validation.Outline

/-!
# Scopes of a module

The outline of a module. A function, a block, the head of a loop, a handler, a switch and
a class are scopes. The declarations of a list of statements hold throughout the list,
those with `var` throughout the function around it.
-/

namespace StopMotion.Validation

open StopMotion.Syntax

/-! ## Declared names -/

/-- The names that a pattern, a declarator or the head of a loop binds. -/
def bound : {c : Category} → Node c → List String
  | _, .cons head tail => bound head ++ bound tail
  | _, .present value => bound value
  | _, .bindName _ name => [name.text]
  | _, .bindArray _ elements => bound elements
  | _, .bindObject _ entries => bound entries
  | _, .bindDefault _ target _ => bound target
  | _, .bindRest _ target => bound target
  | _, .boundKey _ value => bound value
  | _, .boundRest target => bound target
  | _, .declares _ target _ => bound target
  | _, .headVar _ declarators => bound declarators
  | _, _ => []

/-- The name that a function or class has, if it has one. -/
def givenName : {c : Category} → Node c → List String
  | _, .func _ name _ _ _ _ _ | _, .klass _ name _ _ => (name.map (·.text)).toList
  | _, _ => []

/-- The names that a statement declares for the list it stands in, or the statements of a list
do. -/
def declared : {c : Category} → Node c → List String
  | _, .cons head tail => declared head ++ declared tail
  | _, .varStmt _ _ declarators => bound declarators
  | _, .functionStmt _ value | _, .exportFunction _ value => givenName value
  | _, .classStmt _ value | _, .exportClass _ value => givenName value
  | _, .enumStmt _ name => [name.text]
  | _, .typeOnly _ name => (name.map (·.text)).toList
  | _, .importStmt _ specifiers _ _ => specifiers.map (·.binding.text)
  | _, .exportDecl _ declaration => declared declaration
  | _, _ => []

/-- The names that are declared with `var` in statements or inside them, functions and classes
apart. -/
def hoisted : {c : Category} → Node c → List String
  | _, .cons head tail => hoisted head ++ hoisted tail
  | _, .present value => hoisted value
  | _, .varStmt _ .varKind declarators => bound declarators
  | _, .headVar .varKind declarators => bound declarators
  | _, .block _ body => hoisted body
  | _, .ifStmt _ _ consequent alternative => hoisted consequent ++ hoisted alternative
  | _, .forStmt _ init _ _ body => hoisted init ++ hoisted body
  | _, .forEach _ left _ body _ => hoisted left ++ hoisted body
  | _, .whileStmt _ _ body | _, .doWhile _ body _ | _, .labeled _ _ body => hoisted body
  | _, .tryStmt _ body _ handler finalizer =>
    hoisted body ++ hoisted handler ++ hoisted finalizer
  | _, .switchStmt _ _ arms => hoisted arms
  | _, .switchArm _ body => hoisted body
  | _, _ => []

/-- The names that the body of a function or module declares. -/
def declaredInBody {c : Category} (body : Node c) : List String :=
  declared body ++ hoisted body

/-- The names that the arms of a switch declare. -/
def declaredInArms : {c : Category} → Node c → List String
  | _, .cons head tail => declaredInArms head ++ declaredInArms tail
  | _, .switchArm _ body => declared body
  | _, _ => []

/-- The names that the body of an arrow function declares. -/
def declaredInArrow : Node .arrowBody → List String
  | .bodyBlock _ body => declaredInBody body
  | .bodyExpr _ => []

/-! ## Outlines -/

/-- What a pattern or a list is to its surroundings: patterns bind names or are assigned to,
and in the head of a loop a declarator sees the names of those before it. -/
inductive Role where
  | binds
  | assigned
  | head

/-- Whether a tag with a plain name is a component. -/
def isComponentTag (name : String) : Bool :=
  name.toList.head?.any fun c => c.isUpper || c == '_' || c == '$'

/-- The name that the tag of an element mentions. -/
def tagMention : Option TagName → Outline
  | some (.plain name) => if isComponentTag name.text then .mention name else .silent
  | some (.member (root :: _)) => .mention root
  | _ => .silent

/-- The names that an object literal mentions without a value. -/
def shorthandMentions (entries : List (Node .entry)) : Outline :=
  .ofNames (entries.filterMap fun
    | .shorthand _ name => some name
    | _ => none)

/-- The outline of a node. The operand of `typeof` may be a name that nothing declares. -/
def outline (role : Role) : {c : Category} → Node c → Outline
  | _, .nil | _, .absent => .silent
  | _, .cons head tail =>
    match role with
    | .head => .scope (bound head) (.beside (outline .head head) (outline .head tail))
    | role => .beside (outline role head) (outline role tail)
  | _, .present value => outline role value
  -- Statements.
  | _, .exportDecl _ declaration => outline .binds declaration
  | _, .exportExpr _ value => outline .binds value
  | _, .exportFunction _ value => outline .binds value
  | _, .exportClass _ value => outline .binds value
  | _, .exportNamed _ specifiers none => .ofNames (specifiers.map (·.source))
  | _, .varStmt _ _ declarators => outline .binds declarators
  | _, .functionStmt _ value => outline .binds value
  | _, .classStmt _ value => outline .binds value
  | _, .exprStmt _ value => outline .binds value
  | _, .block _ body => .scope (declared body) (outline .binds body)
  | _, .ifStmt _ test consequent alternative =>
    .beside (outline .binds test)
      (.beside (outline .binds consequent) (outline .binds alternative))
  | _, .forStmt _ init test step body =>
    .beside (outline .binds init)
      (.scope (bound init)
        (.beside (outline .binds test) (.beside (outline .binds step) (outline .binds body))))
  | _, .forEach _ left right body _ =>
    .beside (outline .binds right)
      (.beside (outline .binds left) (.scope (bound left) (outline .binds body)))
  | _, .whileStmt _ test body => .beside (outline .binds test) (outline .binds body)
  | _, .doWhile _ body test => .beside (outline .binds test) (outline .binds body)
  | _, .returnStmt _ value => outline .binds value
  | _, .throwStmt _ value => outline .binds value
  | _, .tryStmt _ body param (.present handler) finalizer =>
    .beside (.scope (declared body) (outline .binds body))
      (.beside
        (.scope (bound param)
          (.beside (outline .binds param) (.scope (declared handler) (outline .binds handler))))
        (outlineFinalizer finalizer))
  | _, .tryStmt _ body _ .absent finalizer =>
    .beside (.scope (declared body) (outline .binds body)) (outlineFinalizer finalizer)
  | _, .switchStmt _ subject arms =>
    .beside (outline .binds subject) (.scope (declaredInArms arms) (outline .binds arms))
  | _, .labeled _ _ body => outline .binds body
  | _, .switchArm test body => .beside (outline .binds test) (outline .binds body)
  | _, .headVar _ declarators => outline .head declarators
  | _, .headExpr value => outline .binds value
  | _, .headPattern target => outline .assigned target
  | _, .declares _ target init => .beside (outline .binds target) (outline .binds init)
  -- Functions and classes.
  | _, .func _ name params body _ _ _ =>
    .scope ("arguments" :: (name.map (·.text)).toList ++ bound params ++ declaredInBody body)
      (.beside (outline .binds params) (outline .binds body))
  | _, .klass _ name superClass members =>
    .scope (name.map (·.text)).toList
      (.beside (outline .binds superClass) (outline .binds members))
  | _, .methodMember _ key _ value => .beside (outline .binds key) (outline .binds value)
  | _, .fieldMember _ key _ init => .beside (outline .binds key) (outline .binds init)
  | _, .staticBlock _ key body => .beside (outline .binds key) (outline .binds body)
  -- Patterns.
  | _, .bindName _ name =>
    match role with
    | .assigned => .mention name
    | _ => .silent
  | _, .bindArray _ elements => outline role elements
  | _, .bindObject _ entries => outline role entries
  | _, .bindDefault _ target value => .beside (outline role target) (outline .binds value)
  | _, .bindRest _ target => outline role target
  | _, .bindExpr _ target => outline .binds target
  | _, .boundKey key value => .beside (outline .binds key) (outline role value)
  | _, .boundRest target => outline role target
  | _, .keyComputed value => outline .binds value
  -- Expressions.
  | _, .name _ name => .mention name
  | _, .template _ _ substitutions => outline .binds substitutions
  | _, .tagged _ callee _ substitutions =>
    .beside (outline .binds callee) (outline .binds substitutions)
  | _, .array _ elements => outline .binds elements
  | _, .object _ entries =>
    .beside (shorthandMentions entries.toList) (outline .binds entries)
  | _, .functionExpr _ value => outline .binds value
  | _, .arrow _ params body _ =>
    .scope (bound params ++ declaredInArrow body)
      (.beside (outline .binds params) (outline .binds body))
  | _, .classExpr _ value => outline .binds value
  | _, .unary _ .typeOf (.name ..) => .silent
  | _, .unary _ _ operand => outline .binds operand
  | _, .update _ _ _ operand => outline .binds operand
  | _, .binary _ _ left right => .beside (outline .binds left) (outline .binds right)
  | _, .assign _ _ target value => .beside (outline .assigned target) (outline .binds value)
  | _, .conditional _ test consequent alternative =>
    .beside (outline .binds test)
      (.beside (outline .binds consequent) (outline .binds alternative))
  | _, .call _ callee arguments _ => .beside (outline .binds callee) (outline .binds arguments)
  | _, .newCall _ callee arguments => .beside (outline .binds callee) (outline .binds arguments)
  | _, .member _ owner _ _ => outline .binds owner
  | _, .privateMember _ owner _ _ => outline .binds owner
  | _, .index _ owner property _ => .beside (outline .binds owner) (outline .binds property)
  | _, .sequence _ items => outline .binds items
  | _, .paren _ inner => outline .binds inner
  | _, .spread _ operand => outline .binds operand
  | _, .awaited _ operand => outline .binds operand
  | _, .yielded _ operand => outline .binds operand
  | _, .assertion _ operand => outline .binds operand
  | _, .jsx _ value => outline .binds value
  | _, .bodyExpr value => outline .binds value
  | _, .bodyBlock _ body => outline .binds body
  | _, .keyed _ key value => .beside (outline .binds key) (outline .binds value)
  | _, .spreadEntry _ operand => outline .binds operand
  | _, .methodEntry _ key value => .beside (outline .binds key) (outline .binds value)
  -- Elements.
  | _, .tag _ name attributes children =>
    .beside (tagMention name) (.beside (outline .binds attributes) (outline .binds children))
  | _, .attrExpr _ _ value => outline .binds value
  | _, .attrElement _ _ value => outline .binds value
  | _, .attrSpread _ operand => outline .binds operand
  | _, .childExpr _ value => outline .binds value
  | _, .childSpread operand => outline .binds operand
  | _, .childElement value => outline .binds value
  | _, _ => .silent
where
  /-- The outline of a block that is always run at the end. -/
  outlineFinalizer : {c : Category} → Node c → Outline
  | _, .present body => .scope (declared body) (outline .binds body)
  | _, _ => .silent

end StopMotion.Validation
