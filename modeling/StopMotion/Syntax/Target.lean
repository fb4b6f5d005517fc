import StopMotion.Syntax.Token.Lexer
import StopMotion.Syntax.Tree

/-!
# Expressions as targets

The left side of an assignment is read as an expression first, because only the
operator behind it tells that it is a target. Names and member accesses are targets,
array and object literals are read again as the patterns they spell, and everything
else is refused.
-/

namespace StopMotion.Syntax

/-- The category a node has when it is read again as a target. -/
abbrev Category.asTarget : Category → Category
  | .expr => .pattern
  | .entry => .patternEntry
  | .list of => .list of.asTarget
  | .option of => .option of.asTarget
  | other => other

/-- Refuses a node as a target. -/
def refuseTarget {α : Type} (span : Span) : Reading α :=
  refuse span.start span.stop .invalidTarget

/-- Reads an expression, or a part of an array or object literal, as a target. A spread is
a rest pattern inside an array or object literal only. -/
def Node.asTarget : {c : Category} → Node c → Reading (Node c.asTarget)
  | _, .nil => .ok .nil
  | _, .cons head tail => do .ok (.cons (← asTarget head) (← asTarget tail))
  | _, .absent => .ok .absent
  | _, .present (.spread span operand) => do
    .ok (.present (.bindRest span (← asTarget operand)))
  | _, .present value => do .ok (.present (← asTarget value))
  | _, .name span found => .ok (.bindName span found)
  | _, .member span owner property isOptional =>
    .ok (.bindExpr span (.member span owner property isOptional))
  | _, .privateMember span owner property isOptional =>
    .ok (.bindExpr span (.privateMember span owner property isOptional))
  | _, .index span owner property isOptional =>
    .ok (.bindExpr span (.index span owner property isOptional))
  | _, .paren _ inner | _, .assertion _ inner => asTarget inner
  | _, .array span elements => do .ok (.bindArray span (← asTarget elements))
  | _, .object span entries => do .ok (.bindObject span (← asTarget entries))
  | _, .assign span .assign target value => .ok (.bindDefault span target value)
  | _, .keyed _ key value => do .ok (.boundKey key (← asTarget value))
  | _, .shorthand _ found => .ok (.boundKey (.keyName found) (.bindName found.span found))
  | _, .spreadEntry _ operand => do .ok (.boundRest (← asTarget operand))
  | _, .methodEntry span .. => refuse span.start span.stop .invalidDestructuring
  | _, other => refuseTarget other.span

/-- Whether an expression is a name or a member access, parentheses and assertions apart. -/
def Node.isSimple (expr : Expr) : Bool :=
  match expr.bare with
  | .name .. | .member .. | .privateMember .. | .index .. => true
  | _ => false

/-- Reads an expression as the target of a compound assignment. -/
def Node.asSimpleTarget (expr : Expr) : Reading Pattern :=
  if expr.isSimple then expr.asTarget else refuseTarget expr.span

end StopMotion.Syntax
