import StopMotion.Checker.Output
import StopMotion.Syntax.Grammar
import StopMotion.Text.LineIndex
import StopMotion.Validation.Misuse
import StopMotion.Validation.Scope
import StopMotion.Validation.Sentinels

/-!
# Validation of a component

A source that cannot be read has one finding. Any other goes through all layers in order:
undeclared names, the type checker, sentinels in texts, the rules of the renderer. The
checker runs in a monad of the caller's, so a caller sees when it is asked and for
what.
-/

namespace StopMotion.Validation

open StopMotion.Syntax StopMotion.Checker

/-- The outcome of a validation. -/
structure Report where
  identifier : String
  findings : List Finding

namespace Report

/-- Whether nothing blocks the component. -/
def isValid (report : Report) : Bool :=
  !report.findings.any fun finding => finding.problem.isBlocking

/-- The number of findings of a severity. -/
def count (report : Report) (severity : Severity) : Nat :=
  report.findings.countP fun finding => finding.problem.severity == severity

/-- A report as one line. -/
def summary (report : Report) : String :=
  (if report.isValid then "valid" else "invalid") ++ ": " ++
    toString (report.count .critical) ++ " critical, " ++
    toString (report.count .major) ++ " major, " ++
    toString (report.count .minor) ++ " minor"

/-- The findings and the tally, a line for each. -/
def lines (report : Report) : List String :=
  (report.findings.map fun finding => report.identifier ++ ":" ++ finding.text) ++
    [report.identifier ++ ": " ++ report.summary]

end Report

/-- A concern with its line and column. -/
def locate (index : LineIndex) (concern : Concern) : Finding :=
  let (line, column) := index.lineCol concern.span.start
  ⟨concern.problem, concern.span, line, column⟩

/-- The names that are declared outside every module. -/
def globals : List String :=
  ["undefined", "NaN", "Infinity", "globalThis", "Math", "Date", "JSON", "Array", "Object",
    "String", "Number", "Boolean", "Symbol", "BigInt", "Map", "Set", "WeakMap", "WeakSet",
    "Promise", "Proxy", "Reflect", "RegExp", "Error", "TypeError", "RangeError", "SyntaxError",
    "Intl", "ArrayBuffer", "DataView", "Uint8Array", "Uint8ClampedArray", "Uint16Array",
    "Int8Array", "Int16Array", "Int32Array", "Uint32Array", "Float32Array", "Float64Array",
    "parseInt", "parseFloat", "isNaN", "isFinite", "encodeURIComponent", "decodeURIComponent",
    "encodeURI", "decodeURI", "atob", "btoa", "structuredClone", "queueMicrotask", "console",
    "window", "document", "navigator", "location", "history", "screen", "performance",
    "localStorage", "sessionStorage", "fetch", "URL", "URLSearchParams", "TextEncoder",
    "TextDecoder", "crypto", "alert", "Image", "Audio", "Event", "CustomEvent", "MouseEvent",
    "KeyboardEvent", "HTMLElement", "HTMLCanvasElement", "HTMLDivElement", "SVGElement",
    "CanvasRenderingContext2D", "ResizeObserver", "IntersectionObserver", "MutationObserver",
    "getComputedStyle", "devicePixelRatio", "innerWidth", "innerHeight", "setTimeout",
    "setInterval", "clearTimeout", "clearInterval", "requestAnimationFrame",
    "cancelAnimationFrame", "process"]

/-- The outline of a module, whose declarations hold throughout it. -/
def moduleOutline (module : Module) : Outline :=
  let body := Node.ofList module.body
  .scope (declaredInBody body) (outline .binds body)

/-- The mentions of a module that nothing declares. -/
def undeclared (module : Module) : List Name :=
  (moduleOutline module).unresolved globals

/-- The concerns of a type checker. A diagnostic at the place of an undeclared name says
nothing new. -/
def checkConcerns (text : List Char) (index : LineIndex) (known : List Span) :
    Verdict → List Concern
  | .ok diagnostics => diagnostics.filterMap fun diagnostic =>
    let place := index.offsetUnits16 text diagnostic.line diagnostic.column
    if known.any fun span => span.start == place then none
    else some ⟨Span.point place, .ofChecker diagnostic.code diagnostic.message⟩
  | .error reason => [⟨Span.point 0, .uncheckable reason⟩]

/-- The concerns about a module with a checker's verdict, layer by layer. -/
def concerns (module : Module) (index : LineIndex) (verdict : Verdict) : List Concern :=
  let undeclared := undeclared module
  let flow := undeclared.map fun name => Concern.mk name.span (.notDefined name.text)
  flow ++ checkConcerns module.source index (undeclared.map (·.span)) verdict ++
    sentinels module ++ misuses module

/-- Validates a text. The checker is asked at most once, and only about a text that can be
read. -/
def validate {m : Type → Type} [Monad m] (check : String → m Verdict) (text : String)
    (identifier : String) : m Report := do
  let source := text.toList
  let index := LineIndex.of source
  match parse source with
  | .error error =>
    return ⟨identifier, [locate index ⟨error.span, .unreadable error.cause⟩]⟩
  | .ok module =>
    let verdict ← check text
    return ⟨identifier, (concerns module index verdict).map (locate index)⟩

/-- A checker that finds nothing. -/
def acceptAll {m : Type → Type} [Monad m] : String → m Verdict :=
  fun _ => pure (.ok [])

end StopMotion.Validation
