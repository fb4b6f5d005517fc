import StopMotion.Syntax.Operator
import StopMotion.Text.Slice

/-!
# The tree of a module

One family of types, indexed by syntactic category, holds every node of a tree, so a
recursion over a module is one recursion and a fact about all nodes is one induction.
Statements, expressions, patterns and JSX nodes carry the span they were read from: a
later pass can report a place and splice a replacement into the source without printing
the tree. Types are read over and leave no node.
-/

namespace StopMotion.Syntax

/-- An occurrence of a name. -/
structure Name where
  text : String
  span : Span
  deriving DecidableEq, Repr, Inhabited

/-- The keyword of a variable declaration. -/
inductive VarKind where
  | constKind | letKind | varKind
  deriving DecidableEq, Repr

/-- One imported binding. `imported` is the name in the other module; it is absent for
default and namespace imports. -/
structure ImportSpec where
  binding : Name
  imported : Option String
  isNamespace : Bool

/-- One entry of an export list. -/
structure ExportSpec where
  source : Name
  exported : String

/-- The name of a JSX tag. -/
inductive TagName where
  | plain (name : Name)
  | member (parts : List Name)
  | namespaced (text : String) (span : Span)

/-- A tag name as written. -/
def TagName.text : TagName → String
  | plain name => name.text
  | member parts => ".".intercalate (parts.map (·.text))
  | namespaced text _ => text

/-- The syntactic categories: what a node can stand for, lists and options of them
included. -/
inductive Category where
  | stmt | arm | loopHead | declarator
  | function | classDef | classMember
  | pattern | patternEntry | key
  | expr | arrowBody | entry
  | element | jsxAttribute | child
  | list (of : Category)
  | option (of : Category)
  deriving DecidableEq, Repr

open Category in
/-- The nodes of each category. -/
inductive Node : Category → Type where
  -- Sequences and optional parts.
  | nil {c : Category} : Node (list c)
  | cons {c : Category} (head : Node c) (tail : Node (list c)) : Node (list c)
  | absent {c : Category} : Node (option c)
  | present {c : Category} (value : Node c) : Node (option c)
  -- Statements. A span includes a closing semicolon.
  | importStmt (span : Span) (specifiers : List ImportSpec) (source : String)
      (typeOnly : Bool) : Node stmt
  | exportDecl (span : Span) (declaration : Node stmt) : Node stmt
  | exportExpr (span : Span) (value : Node expr) : Node stmt
  | exportFunction (span : Span) (value : Node function) : Node stmt
  | exportClass (span : Span) (value : Node classDef) : Node stmt
  | exportNamed (span : Span) (specifiers : List ExportSpec) (source : Option String) : Node stmt
  | exportAll (span : Span) (renamed : Option Name) (source : String) : Node stmt
  | varStmt (span : Span) (kind : VarKind) (declarators : Node (list declarator)) : Node stmt
  | functionStmt (span : Span) (value : Node function) : Node stmt
  | classStmt (span : Span) (value : Node classDef) : Node stmt
  | typeOnly (span : Span) (name : Option Name) : Node stmt
  | enumStmt (span : Span) (name : Name) : Node stmt
  | exprStmt (span : Span) (value : Node expr) : Node stmt
  | block (span : Span) (body : Node (list stmt)) : Node stmt
  | ifStmt (span : Span) (test : Node expr) (consequent : Node stmt)
      (alternative : Node (option stmt)) : Node stmt
  | forStmt (span : Span) (init : Node (option loopHead)) (test update : Node (option expr))
      (body : Node stmt) : Node stmt
  | forEach (span : Span) (left : Node loopHead) (right : Node expr) (body : Node stmt)
      (overValues : Bool) : Node stmt
  | whileStmt (span : Span) (test : Node expr) (body : Node stmt) : Node stmt
  | doWhile (span : Span) (body : Node stmt) (test : Node expr) : Node stmt
  | returnStmt (span : Span) (value : Node (option expr)) : Node stmt
  | throwStmt (span : Span) (value : Node expr) : Node stmt
  | tryStmt (span : Span) (body : Node (list stmt)) (param : Node (option pattern))
      (handler finalizer : Node (option (list stmt))) : Node stmt
  | switchStmt (span : Span) (subject : Node expr) (arms : Node (list arm)) : Node stmt
  | labeled (span : Span) (label : Name) (body : Node stmt) : Node stmt
  | breakStmt (span : Span) (label : Option Name) : Node stmt
  | continueStmt (span : Span) (label : Option Name) : Node stmt
  | emptyStmt (span : Span) : Node stmt
  | debugger (span : Span) : Node stmt
  -- Parts of statements. The default arm of a switch has no test.
  | switchArm (test : Node (option expr)) (body : Node (list stmt)) : Node arm
  | headVar (kind : VarKind) (declarators : Node (list declarator)) : Node loopHead
  | headExpr (value : Node expr) : Node loopHead
  | headPattern (target : Node pattern) : Node loopHead
  | declares (span : Span) (target : Node pattern) (init : Node (option expr)) : Node declarator
  -- Functions and classes. Methods and accessors are functions without a name.
  | func (span : Span) (name : Option Name) (params : Node (list pattern))
      (body : Node (list stmt)) (bodySpan : Span) (isAsync isGenerator : Bool) : Node function
  | klass (span : Span) (name : Option Name) (superClass : Node (option expr))
      (members : Node (list classMember)) : Node classDef
  | methodMember (span : Span) (key : Node key) (isStatic : Bool) (value : Node function) :
      Node classMember
  | fieldMember (span : Span) (key : Node key) (isStatic : Bool) (init : Node (option expr)) :
      Node classMember
  | staticBlock (span : Span) (key : Node key) (body : Node (list stmt)) : Node classMember
  -- Patterns that bind names or take assignments.
  | bindName (span : Span) (name : Name) : Node pattern
  | bindArray (span : Span) (elements : Node (list (option pattern))) : Node pattern
  | bindObject (span : Span) (entries : Node (list patternEntry)) : Node pattern
  | bindDefault (span : Span) (target : Node pattern) (value : Node expr) : Node pattern
  | bindRest (span : Span) (target : Node pattern) : Node pattern
  | bindExpr (span : Span) (target : Node expr) : Node pattern
  | boundKey (key : Node key) (value : Node pattern) : Node patternEntry
  | boundRest (target : Node pattern) : Node patternEntry
  -- Property keys. A private key keeps its `#`.
  | keyName (name : Name) : Node key
  | keyPrivate (name : Name) : Node key
  | keyString (span : Span) (value : String) : Node key
  | keyNumber (span : Span) (value : Float) : Node key
  | keyComputed (value : Node expr) : Node key
  -- Expressions. `metaProperty` is `import.meta`, `new.target` and the callee of a dynamic
  -- import; `assertion` is an operand with a type assertion; a template has one chunk of
  -- text more than it has substitutions.
  | name (span : Span) (name : Name) : Node expr
  | number (span : Span) (value : Float) : Node expr
  | string (span : Span) (value : String) : Node expr
  | boolean (span : Span) (value : Bool) : Node expr
  | null (span : Span) : Node expr
  | regex (span : Span) : Node expr
  | this (span : Span) : Node expr
  | super (span : Span) : Node expr
  | metaProperty (span : Span) : Node expr
  | template (span : Span) (chunks : List String) (substitutions : Node (list expr)) : Node expr
  | tagged (span : Span) (tag : Node expr) (chunks : List String)
      (substitutions : Node (list expr)) : Node expr
  | array (span : Span) (elements : Node (list (option expr))) : Node expr
  | object (span : Span) (entries : Node (list entry)) : Node expr
  | functionExpr (span : Span) (value : Node function) : Node expr
  | arrow (span : Span) (params : Node (list pattern)) (body : Node arrowBody)
      (isAsync : Bool) : Node expr
  | classExpr (span : Span) (value : Node classDef) : Node expr
  | unary (span : Span) (op : UnaryOp) (operand : Node expr) : Node expr
  | update (span : Span) (op : UpdateOp) (isBefore : Bool) (operand : Node expr) : Node expr
  | binary (span : Span) (op : BinaryOp) (left right : Node expr) : Node expr
  | assign (span : Span) (op : AssignOp) (target : Node pattern) (value : Node expr) : Node expr
  | conditional (span : Span) (test consequent alternative : Node expr) : Node expr
  | call (span : Span) (callee : Node expr) (arguments : Node (list expr))
      (isOptional : Bool) : Node expr
  | newCall (span : Span) (callee : Node expr) (arguments : Node (list expr)) : Node expr
  | member (span : Span) (object : Node expr) (property : Name) (isOptional : Bool) : Node expr
  | privateMember (span : Span) (object : Node expr) (property : Name)
      (isOptional : Bool) : Node expr
  | index (span : Span) (object : Node expr) (property : Node expr) (isOptional : Bool) : Node expr
  | sequence (span : Span) (items : Node (list expr)) : Node expr
  | paren (span : Span) (inner : Node expr) : Node expr
  | spread (span : Span) (operand : Node expr) : Node expr
  | awaited (span : Span) (operand : Node expr) : Node expr
  | yielded (span : Span) (operand : Node (option expr)) : Node expr
  | assertion (span : Span) (operand : Node expr) : Node expr
  | jsx (span : Span) (value : Node element) : Node expr
  | bodyExpr (value : Node expr) : Node arrowBody
  | bodyBlock (span : Span) (body : Node (list stmt)) : Node arrowBody
  | keyed (span : Span) (key : Node key) (value : Node expr) : Node entry
  | shorthand (span : Span) (name : Name) : Node entry
  | spreadEntry (span : Span) (operand : Node expr) : Node entry
  | methodEntry (span : Span) (key : Node key) (value : Node function) : Node entry
  -- JSX. A fragment has no name.
  | tag (span : Span) (name : Option TagName) (attributes : Node (list jsxAttribute))
      (children : Node (list child)) : Node element
  | attrFlag (span : Span) (name : String) : Node jsxAttribute
  | attrString (span : Span) (name : String) (value : String) (valueSpan : Span) :
      Node jsxAttribute
  | attrExpr (span : Span) (name : String) (value : Node expr) : Node jsxAttribute
  | attrElement (span : Span) (name : String) (value : Node element) : Node jsxAttribute
  | attrSpread (span : Span) (operand : Node expr) : Node jsxAttribute
  | childText (span : Span) (value : String) : Node child
  | childExpr (span : Span) (value : Node (option expr)) : Node child
  | childSpread (operand : Node expr) : Node child
  | childElement (value : Node element) : Node child

/-- A statement. -/
abbrev Stmt := Node .stmt
/-- A function, method or accessor. -/
abbrev Function := Node .function
/-- A class. -/
abbrev Class := Node .classDef
/-- A pattern. -/
abbrev Pattern := Node .pattern
/-- A property key. -/
abbrev Key := Node .key
/-- An expression. -/
abbrev Expr := Node .expr
/-- A JSX element. -/
abbrev Element := Node .element

namespace Node

/-- What a node of a category unpacks to: a list for a sequence, an option for an optional
part, nothing for the others. -/
abbrev View : Category → Type
  | .list c => List (Node c)
  | .option c => Option (Node c)
  | _ => Unit

/-- Unpacks a sequence or an optional part. -/
def view : {c : Category} → Node c → View c
  | .list _, .nil => []
  | .list _, .cons head tail => head :: view tail
  | .option _, .absent => none
  | .option _, .present value => some value
  | .stmt, _ | .arm, _ | .loopHead, _ | .declarator, _ | .function, _ | .classDef, _
  | .classMember, _ | .pattern, _ | .patternEntry, _ | .key, _ | .expr, _ | .arrowBody, _
  | .entry, _ | .element, _ | .jsxAttribute, _ | .child, _ => ()

/-- The nodes of a sequence. -/
def toList {c : Category} (nodes : Node (.list c)) : List (Node c) := nodes.view

/-- The node of an optional part. -/
def toOption {c : Category} (node : Node (.option c)) : Option (Node c) := node.view

/-- A sequence of nodes. -/
def ofList {c : Category} : List (Node c) → Node (.list c)
  | [] => .nil
  | head :: tail => .cons head (ofList tail)

/-- An optional part. -/
def ofOption {c : Category} : Option (Node c) → Node (.option c)
  | none => .absent
  | some value => .present value

@[simp] theorem toList_nil {c : Category} : (nil : Node (.list c)).toList = [] := rfl

@[simp] theorem toList_cons {c : Category} (head : Node c) (tail : Node (.list c)) :
    (cons head tail).toList = head :: tail.toList := rfl

@[simp] theorem toList_ofList {c : Category} (nodes : List (Node c)) :
    (ofList nodes).toList = nodes := by
  induction nodes with
  | nil => rfl
  | cons head tail inductionHypothesis => simp [ofList, inductionHypothesis]

@[simp] theorem toOption_ofOption {c : Category} (node : Option (Node c)) :
    (ofOption node).toOption = node := by
  cases node <;> rfl

/-- The span of a node, for the categories whose nodes have one. -/
def span? {c : Category} : Node c → Option Span
  | importStmt span .. | exportDecl span .. | exportExpr span .. | exportFunction span ..
  | exportClass span .. | exportNamed span .. | exportAll span .. | varStmt span ..
  | functionStmt span .. | classStmt span .. | typeOnly span .. | enumStmt span ..
  | exprStmt span .. | block span .. | ifStmt span .. | forStmt span .. | forEach span ..
  | whileStmt span .. | doWhile span .. | returnStmt span .. | throwStmt span ..
  | tryStmt span .. | switchStmt span .. | labeled span .. | breakStmt span ..
  | continueStmt span .. | emptyStmt span | debugger span | declares span .. | func span ..
  | klass span .. | methodMember span .. | fieldMember span .. | staticBlock span ..
  | bindName span .. | bindArray span .. | bindObject span .. | bindDefault span ..
  | bindRest span .. | bindExpr span .. | name span .. | number span .. | string span ..
  | boolean span .. | null span | regex span | this span | super span | metaProperty span
  | template span .. | tagged span .. | array span .. | object span .. | functionExpr span ..
  | arrow span .. | classExpr span .. | unary span .. | update span .. | binary span ..
  | assign span .. | conditional span .. | call span .. | newCall span .. | member span ..
  | privateMember span .. | index span .. | sequence span .. | paren span .. | spread span ..
  | awaited span .. | yielded span .. | assertion span .. | jsx span .. | keyed span ..
  | shorthand span .. | spreadEntry span .. | methodEntry span .. | tag span ..
  | attrFlag span .. | attrString span .. | attrExpr span .. | attrElement span ..
  | attrSpread span .. | keyString span .. | keyNumber span .. | bodyBlock span ..
  | childText span .. | childExpr span .. => some span
  | keyName key | keyPrivate key => some key.span
  | _ => none

/-- The span of a node; an empty one where the category has none. -/
def span {c : Category} (node : Node c) : Span :=
  node.span?.getD default

/-- A statement with another span. -/
def withSpan (statement : Stmt) (span : Span) : Stmt :=
  match statement with
  | importStmt _ specifiers source isType => importStmt span specifiers source isType
  | exportDecl _ declaration => exportDecl span declaration
  | exportExpr _ value => exportExpr span value
  | exportFunction _ value => exportFunction span value
  | exportClass _ value => exportClass span value
  | exportNamed _ specifiers source => exportNamed span specifiers source
  | exportAll _ renamed source => exportAll span renamed source
  | varStmt _ kind declarators => varStmt span kind declarators
  | functionStmt _ value => functionStmt span value
  | classStmt _ value => classStmt span value
  | typeOnly _ declared => typeOnly span declared
  | enumStmt _ declared => enumStmt span declared
  | exprStmt _ value => exprStmt span value
  | block _ body => block span body
  | ifStmt _ test consequent alternative => ifStmt span test consequent alternative
  | forStmt _ init test step body => forStmt span init test step body
  | forEach _ left right body overValues => forEach span left right body overValues
  | whileStmt _ test body => whileStmt span test body
  | doWhile _ body test => doWhile span body test
  | returnStmt _ value => returnStmt span value
  | throwStmt _ value => throwStmt span value
  | tryStmt _ body param handler finalizer => tryStmt span body param handler finalizer
  | switchStmt _ subject arms => switchStmt span subject arms
  | labeled _ label body => labeled span label body
  | breakStmt _ label => breakStmt span label
  | continueStmt _ label => continueStmt span label
  | emptyStmt _ => emptyStmt span
  | debugger _ => debugger span

end Node

/-- The expression inside parentheses and type assertions. -/
def Node.bare : {c : Category} → Node c → Node c
  | _, .paren _ inner | _, .assertion _ inner => bare inner
  | _, other => other

/-- The names of a chain of plain member accesses joined by dots, as in `Math.random`. -/
def Node.dotted? : {c : Category} → Node c → Option String
  | _, .name _ found => some found.text
  | _, .member _ owner property _ =>
    (dotted? owner).map fun path => path ++ "." ++ property.text
  | _, _ => none

/-- The value of a number literal with any signs, parentheses and assertions around it. -/
def Node.literal? : {c : Category} → Node c → Option Float
  | _, .number _ value => some value
  | _, .unary _ .minus operand => (literal? operand).map fun value => -value
  | _, .unary _ .plus operand => literal? operand
  | _, .paren _ inner | _, .assertion _ inner => literal? inner
  | _, _ => none

/-- The name, if an expression is nothing but one. -/
def Node.name? : Expr → Option String
  | .name _ found => some found.text
  | _ => none

/-- The argument list of a call or construction. -/
def Node.arguments : Expr → List Expr
  | .call _ _ arguments _ | .newCall _ _ arguments => arguments.toList
  | _ => []

/-- The text of a key that is not computed and not a number. -/
def Node.keyText? : Key → Option String
  | .keyName key | .keyPrivate key => some key.text
  | .keyString _ value => some value
  | .keyNumber .. | .keyComputed _ => none

/-- A module: its source and the statements read from it. -/
structure Module where
  source : List Char
  body : List Stmt

/-- The source text of a span. -/
def Module.text (module : Module) (span : Span) : String :=
  span.text module.source

end StopMotion.Syntax
