import StopMotion.Syntax.Visit
import StopMotion.Text.Pieces

/-!
# Callables

One view of function declarations, function expressions, methods and arrow functions,
and the names by which calls of hooks and timers are known.
-/

namespace StopMotion.State

open StopMotion.Syntax

/-- What a callable evaluates when it is called. -/
inductive Body where
  | block (span : Span) (stmts : List Stmt)
  | expr (value : Expr)

/-- Anything that can be called. -/
structure Callable where
  params : List Pattern
  body : Body
  span : Span

/-- The name that a pattern binds, if it is a name with or without a default value. -/
def boundName? : {c : Category} → Node c → Option String
  | _, .bindName _ name => some name.text
  | _, .bindDefault _ target _ => boundName? target
  | _, _ => none

namespace Callable

/-- A function as a callable. -/
def ofFunction : Function → Callable
  | .func span _ params body bodySpan _ _ =>
    ⟨params.toList, .block bodySpan body.toList, span⟩

/-- The callable that an expression is, parentheses and assertions apart. -/
def ofExpr? (expr : Expr) : Option Callable :=
  match expr.bare with
  | .functionExpr _ value => some (ofFunction value)
  | .arrow span params (.bodyExpr value) _ => some ⟨params.toList, .expr value, span⟩
  | .arrow span params (.bodyBlock bodySpan body) _ =>
    some ⟨params.toList, .block bodySpan body.toList, span⟩
  | _ => none

/-- The statements of the body; none for an expression body. -/
def stmts (callable : Callable) : List Stmt :=
  match callable.body with
  | .block _ stmts => stmts
  | .expr _ => []

/-- What a call evaluates to: the expression body, or the value of a return that ends the
body. -/
def result? (callable : Callable) : Option Expr :=
  match callable.body with
  | .expr value => some value
  | .block _ stmts =>
    match stmts.getLast? with
    | some (.returnStmt _ value) => value.toOption
    | _ => none

/-- The name of a parameter that is a plain name. -/
def paramName? (callable : Callable) (position : Nat) : Option String :=
  callable.params[position]?.bind boundName?

/-- What `pick` finds in the body. -/
def collect {α : Type} (callable : Callable) (pick : {c : Category} → Node c → Pick α) :
    List α :=
  match callable.body with
  | .block _ stmts => stmts.flatMap fun stmt => stmt.collect pick
  | .expr value => value.collect pick

/-- Every expression in the body. -/
def exprs (callable : Callable) : List Expr :=
  callable.collect fun node => { found := node.asExpr?.toList }

end Callable

/-! ## Calls -/

/-- The callee and arguments of an expression that is a call. -/
def call? : Expr → Option (Expr × List Expr)
  | .call _ callee arguments _ => some (callee, arguments.toList)
  | _ => none

/-- The callee and arguments of a call, parentheses and assertions around it apart. -/
def bareCall? (expr : Expr) : Option (Expr × List Expr) :=
  call? expr.bare

/-- The dotted name of the callee of a call. -/
def calledName? (expr : Expr) : Option String :=
  (call? expr).bind fun (callee, _) => callee.dotted?

/-- Whether a call is one of a hook, by its own name or as a member of `React`. -/
def isHookCall (expr : Expr) (hook : String) : Bool :=
  match calledName? expr.bare with
  | some name => name == hook || name == "React." ++ hook
  | none => false

/-- Whether a text begins with a word and a capital letter behind it. -/
def beginsCapitalised (word text : String) : Bool :=
  match Text.after? word.toList text.toList with
  | some (c :: _) => c.isUpper
  | _ => false

/-- Whether a dotted name ends in the name of a hook, such as `useState`. -/
def isHookName (name : String) : Bool :=
  match Text.splitLast? '.' name.toList with
  | some (_, last) => beginsCapitalised "use" (String.ofList last)
  | none => beginsCapitalised "use" name

/-- Whether an attribute names an event, such as `onClick`. -/
def isEventName (name : String) : Bool :=
  beginsCapitalised "on" name

/-- The functions that start and stop timers. -/
inductive TimerFunction where
  | setInterval | setTimeout | requestAnimationFrame
  | clearInterval | clearTimeout | cancelAnimationFrame
  deriving DecidableEq, Repr

namespace TimerFunction

/-- The name of a timer function. -/
def text : TimerFunction → String
  | setInterval => "setInterval"
  | setTimeout => "setTimeout"
  | requestAnimationFrame => "requestAnimationFrame"
  | clearInterval => "clearInterval"
  | clearTimeout => "clearTimeout"
  | cancelAnimationFrame => "cancelAnimationFrame"

/-- All timer functions. -/
def all : List TimerFunction :=
  [setInterval, setTimeout, requestAnimationFrame, clearInterval, clearTimeout,
    cancelAnimationFrame]

/-- Whether the function starts a timer. -/
def starts : TimerFunction → Bool
  | setInterval | setTimeout | requestAnimationFrame => true
  | clearInterval | clearTimeout | cancelAnimationFrame => false

/-- The timer function that a callee names, by its own name or as a member of `window`. -/
def ofCallee? (callee : Expr) : Option TimerFunction :=
  match callee.dotted? with
  | none => none
  | some name =>
    let plain := (Text.afterString? "window." name).getD name
    all.find? fun timer => timer.text == plain

end TimerFunction

/-- Whether a callee is the `addEventListener` of something. -/
def isListenerCall (callee : Expr) : Bool :=
  match callee with
  | .member _ _ property _ => property.text == "addEventListener"
  | _ => false

end StopMotion.State
