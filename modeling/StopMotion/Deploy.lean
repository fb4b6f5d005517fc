import StopMotion.Settings
import StopMotion.Transpile

/-!
# Deploying

An artifact is transpiled, the project is recovered around it, and the payload is written.
A project that cannot be completed does not take the artifact.
-/

namespace StopMotion

open StopMotion.Project

variable {m : Type → Type} [Monad m] [Host m]

/-- An artifact in its project. -/
structure Deployment where
  transpiled : Transpiled
  integrity : IntegrityReport
  /-- Whether the payload was another one before. -/
  wrotePayload : Bool

/-- Why an artifact was not deployed. -/
inductive DeployFault where
  | rejected (rejection : Rejection)
  | project (fault : ProjectFault)

/-- The wording of a fault. -/
def DeployFault.text : DeployFault → String
  | rejected rejection => rejection.detail
  | project fault => fault.text

/-- Puts what was transpiled into a project under the id of a composition. -/
def install (settings : Settings) (transpiled : Transpiled) (composition project : String) :
    m (Except ProjectFault Deployment) := do
  match ← recover project settings.manifest
      (settings.plan composition (some transpiled.text)) with
  | .error fault => return .error fault
  | .ok integrity =>
    match integrity.fault? with
    | some fault => return .error fault
    | none =>
      match ← writePayload project settings.manifest transpiled.text with
      | .error fault => return .error fault
      | .ok wrotePayload => return .ok { transpiled, integrity, wrotePayload }

/-- Transpiles an artifact and puts it into a project. -/
def deploy (settings : Settings) (check : String → m Checker.Verdict) (artifact : Artifact)
    (project : String) : m (Except DeployFault Deployment) := do
  match ← transpile check settings.framesPerSecond artifact with
  | .error rejection => return .error (.rejected rejection)
  | .ok transpiled =>
    match ← install settings transpiled artifact.compositionId project with
    | .error fault => return .error (.project fault)
    | .ok deployment => return .ok deployment

/-- Reads an artifact from a file. Its identifier is the name of the file without the
extension. -/
def readArtifact (path : String) : m (Except ProjectFault Artifact) := do
  return match ← Host.read path with
    | .ok text => .ok ⟨text, (Path.stem? path).getD "artifact"⟩
    | .error error => .error (.unreadable path error)

end StopMotion
