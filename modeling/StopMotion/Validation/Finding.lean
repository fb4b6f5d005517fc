import StopMotion.Syntax.Error

/-!
# Findings

What can be wrong with a component. A problem determines the layer that looks for it, how
severe it is and what is said about it; a finding is a problem at a place.
-/

namespace StopMotion.Validation

open StopMotion.Syntax (Cause)

/-- The layers of a validation, in their order. -/
inductive Layer where
  | syntactic
  | variableFlow
  | typeCheck
  | template
  | domain
  deriving DecidableEq, Repr

/-- How severe a finding is. -/
inductive Severity where
  | critical
  | major
  | minor
  deriving DecidableEq, Repr

/-- The kinds of findings. -/
inductive Kind where
  | syntactic
  | variableFlow
  | typeCheck
  | inconclusive
  | template
  | misuse
  deriving DecidableEq, Repr

/-- The name of a layer. -/
def Layer.name : Layer → String
  | syntactic => "syntax"
  | variableFlow => "variable-flow"
  | typeCheck => "type-check"
  | template => "template"
  | domain => "domain"

/-- The name of a severity. -/
def Severity.name : Severity → String
  | critical => "critical"
  | major => "major"
  | minor => "minor"

/-- The name of a kind of finding. -/
def Kind.name : Kind → String
  | syntactic => "syntax"
  | variableFlow => "variable-flow"
  | typeCheck => "type-check"
  | inconclusive => "type-check-inconclusive"
  | template => "template"
  | misuse => "api-misuse"

/-- Values whose text form is never meant to be seen. -/
inductive Sentinel where
  | undefinedValue
  | nullValue
  deriving DecidableEq, Repr

/-- The text form of a sentinel. -/
def Sentinel.text : Sentinel → String
  | undefinedValue => "undefined"
  | nullValue => "null"

/-- What can be wrong. -/
inductive Problem where
  /-- The source cannot be read. -/
  | unreadable (cause : Cause)
  /-- A name is mentioned and nowhere declared. -/
  | notDefined (name : String)
  /-- The type checker objects. -/
  | ofChecker (code message : String)
  /-- The type checker could not be asked. -/
  | uncheckable (reason : String)
  | interpolated (sentinel : Sentinel)
  | concatenated (sentinel : Sentinel)
  | attributeText (name : String) (sentinel : Sentinel)
  /-- A call gives another answer at every rendering. -/
  | nondeterministic (call : String)
  /-- A call is answered at a time of the wall clock. -/
  | wallClock (function : String)
  | fewArguments (count : Nat)
  | unequalRanges (inputs outputs : Nat)
  | springWithoutRate
  | counterOutside
  | counterNotCalled
  | counterMissing

namespace Problem

/-- The layer that looks for a problem. -/
def layer : Problem → Layer
  | unreadable _ => .syntactic
  | notDefined _ => .variableFlow
  | ofChecker .. | uncheckable _ => .typeCheck
  | interpolated _ | concatenated _ | attributeText .. => .template
  | nondeterministic _ | wallClock _ | fewArguments _ | unequalRanges .. | springWithoutRate
  | counterOutside | counterNotCalled | counterMissing => .domain

/-- How severe a problem is. -/
def severity (problem : Problem) : Severity :=
  match problem.layer with
  | .syntactic => .critical
  | .template => .minor
  | .variableFlow | .typeCheck | .domain => .major

/-- The kind of a problem. -/
def kind (problem : Problem) : Kind :=
  match problem with
  | uncheckable _ => .inconclusive
  | _ =>
    match problem.layer with
    | .syntactic => .syntactic
    | .variableFlow => .variableFlow
    | .typeCheck => .typeCheck
    | .template => .template
    | .domain => .misuse

/-- Whether a component with a problem must not be used. A checker that could not be asked
says nothing about the component. -/
def isBlocking (problem : Problem) : Bool :=
  match problem.severity with
  | .critical => true
  | .major => problem.kind != .inconclusive
  | .minor => false

/-- The wording of a problem. -/
def message : Problem → String
  | unreadable cause => cause.text
  | notDefined name => "`" ++ name ++ "` is not defined"
  | ofChecker code message => code ++ ": " ++ message
  | uncheckable reason => "type check inconclusive: " ++ reason
  | interpolated sentinel =>
    "template interpolates `" ++ sentinel.text ++ "`, which renders as the text \"" ++
      sentinel.text ++ "\""
  | concatenated sentinel =>
    "string concatenation with `" ++ sentinel.text ++ "` renders as the text \"" ++
      sentinel.text ++ "\""
  | attributeText name sentinel =>
    "attribute `" ++ name ++ "` is the literal string \"" ++ sentinel.text ++ "\""
  | nondeterministic call => "`" ++ call ++ "` is not deterministic across renders"
  | wallClock function =>
    "`" ++ function ++ "` drives state from wall-clock time; renders must be frame-driven"
  | fewArguments count =>
    "`interpolate` needs an input, an input range and an output range (got " ++
      toString count ++ " argument(s))"
  | unequalRanges inputs outputs =>
    "`interpolate` input range has " ++ toString inputs ++ " point(s) but output range has " ++
      toString outputs
  | springWithoutRate => "`spring` is called without `fps`"
  | counterOutside => "`useCurrentFrame()` is called outside a component"
  | counterNotCalled => "`useCurrentFrame` is referenced without being called"
  | counterMissing => "`frame` is used but `useCurrentFrame()` is never called"

end Problem

/-- A problem at a place. -/
structure Concern where
  span : Span
  problem : Problem

/-- A problem at a place with the line and column where it begins. -/
structure Finding where
  problem : Problem
  span : Span
  line : Nat
  column : Nat

/-- A finding as one line. -/
def Finding.text (finding : Finding) : String :=
  toString finding.line ++ ":" ++ toString finding.column ++ " " ++
    finding.problem.severity.name ++ " [" ++ finding.problem.kind.name ++ "] " ++
    finding.problem.message

end StopMotion.Validation
