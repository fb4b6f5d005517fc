import StopMotion.Artifact
import StopMotion.Frame.Drive
import StopMotion.Frame.Placeholder
import StopMotion.Repair.Quotes
import StopMotion.State.Classify
import StopMotion.Validation.Report

/-!
# Transpiling an artifact

An artifact is repaired, read, and driven by the frame; the result is repaired and
validated once more. What comes out passed the validation; what is rejected comes with
the report that says why.
-/

namespace StopMotion

open StopMotion.Syntax StopMotion.State StopMotion.Validation StopMotion.Checker

/-- A component driven by the frame, fit for use. -/
structure Transpiled where
  identifier : String
  text : String
  bindings : List Binding
  driven : Frame.Driven
  inputRepair : Repair.Outcome
  outputRepair : Repair.Outcome
  /-- Whether no binding could be driven and the placeholder took the artifact's place. -/
  usesPlaceholder : Bool
  report : Report

/-- The lines about all repairs. -/
def Transpiled.audit (transpiled : Transpiled) : List String :=
  transpiled.inputRepair.audit ++
    transpiled.outputRepair.audit.map fun line => "output: " ++ line

/-- An artifact that must not be used. `text` is what failed, if the artifact could be
read. -/
structure Rejection where
  report : Report
  text : Option String

namespace Rejection

/-- A rejection as one line. -/
def message (rejection : Rejection) : String :=
  "artifact '" ++ rejection.report.identifier ++ "' rejected: " ++ rejection.report.summary

/-- A rejection as one line with the first finding that blocks. -/
def detail (rejection : Rejection) : String :=
  let report := rejection.report
  let first :=
    match report.findings.find? fun finding => finding.problem.isBlocking with
    | some finding => "; first: " ++ finding.text
    | none => ""
  "artifact '" ++ report.identifier ++ "' rejected: " ++
    toString (report.count .critical) ++ " critical, " ++
    toString (report.count .major) ++ " major" ++ first

end Rejection

/-- The text that is put forward for an artifact, and whether it is the placeholder. -/
def candidate (identifier : String) (driven : Frame.Driven) : String × Bool :=
  if driven.confidence ≤ 0.0 then (Frame.placeholder identifier, true)
  else (driven.text, false)

/-- Transpiles an artifact for a number of frames a second, asking a checker about the text
that would be used. -/
def transpile {m : Type → Type} [Monad m] (check : String → m Verdict)
    (framesPerSecond : Nat) (artifact : Artifact) : m (Except Rejection Transpiled) := do
  let identifier := artifact.identifier
  let inputRepair := Repair.repair artifact.text.toList
  match parse inputRepair.text with
  | .error _ =>
    let report ← validate check (String.ofList inputRepair.text) identifier
    return .error ⟨report, none⟩
  | .ok module =>
    let bindings := classify module
    let driven := Frame.drive module bindings framesPerSecond
    let (candidate, usesPlaceholder) := candidate identifier driven
    let outputRepair := Repair.repair candidate.toList
    let text := String.ofList outputRepair.text
    let report ← validate check text identifier
    if report.isValid then
      return .ok { identifier, text, bindings, driven, inputRepair, outputRepair,
                   usesPlaceholder, report }
    else
      return .error ⟨report, some text⟩

end StopMotion
