import StopMotion.Disk.Files
import StopMotion.Frame.Placeholder
import StopMotion.Hash.Xxh3
import StopMotion.Project.Integrity
import StopMotion.Project.Lock
import StopMotion.Project.Template
import StopMotion.Text.Slice

/-!
# Recovery

What a project lacks is made: folders empty, the primary payload from the artifact or a
placeholder, other files from their templates. What is there and not malformed is left as
it is. After each pass over the manifest the project is surveyed again, until nothing is
lacking or the budget is spent.
-/

namespace StopMotion.Project

variable {m : Type → Type} [Monad m] [Host m]

/-- What a recovery works with. -/
structure RecoveryPlan where
  /-- The text for the primary payload, if there is an artifact. -/
  payload : Option String := none
  /-- The greatest number of passes. -/
  budget : Nat := 3
  composition : Composition := {}
  deriving DecidableEq, Repr

/-- Where the text for a file comes from. -/
def ManifestEntry.origin (entry : ManifestEntry) (plan : RecoveryPlan) : Origin :=
  if entry.isPrimary then
    if plan.payload.isSome then .artifact else .placeholder
  else
    match entry.template with
    | some template => .generated template
    | none => .emptyModule

/-- The text for a file. -/
def ManifestEntry.contents (entry : ManifestEntry) (manifest : Manifest)
    (plan : RecoveryPlan) : String :=
  match entry.origin plan with
  | .artifact => plan.payload.getD ""
  | .placeholder => Frame.placeholder plan.composition.id
  | .generated template => template.text entry.path manifest plan.composition
  | .emptyModule => "export \x7b\x7d;\n"

/-- Makes a file where no folder is. -/
def makeFile (project : String) (manifest : Manifest) (plan : RecoveryPlan)
    (entry : ManifestEntry) : m Action := do
  let path := entry.locate project
  let text := entry.contents manifest plan
  if ← Files.isFolder path then
    return .failed entry.path (.occupied path)
  else
    match ← Files.place path text with
    | .ok () => return .wroteFile entry.path (entry.origin plan) (Text.size text.toList)
    | .error error => return .failed entry.path (.host error)

/-- Makes an entry. -/
def makeEntry (project : String) (manifest : Manifest) (plan : RecoveryPlan)
    (entry : ManifestEntry) : m Action := do
  match entry.kind with
  | .file => makeFile project manifest plan entry
  | .folder =>
    match ← Files.makeFolders (entry.locate project) with
    | .ok () => return .madeFolder entry.path
    | .error error => return .failed entry.path (.host error)

/-- How far a recovery has come. -/
structure Progress where
  shortfall : Shortfall
  actions : List Action
  attempts : Nat
  deriving DecidableEq, Repr

/-- Makes every entry that is lacking, in the order of the manifest, and looks what is
still lacking. -/
def pass (project : String) (manifest : Manifest) (plan : RecoveryPlan)
    (progress : Progress) : m Progress := do
  let lacking := manifest.entries.filter fun entry =>
    progress.shortfall.paths.contains entry.path
  let actions ← lacking.mapM (makeEntry project manifest plan)
  let shortfall ← survey project manifest.entries
  return ⟨shortfall, progress.actions ++ actions, progress.attempts + 1⟩

/-- Makes passes until nothing is lacking, at most as many as are left. -/
def passes (project : String) (manifest : Manifest) (plan : RecoveryPlan) :
    (left : Nat) → Progress → m Progress
  | 0, progress => return progress
  | left + 1, progress => do
    if progress.shortfall.isComplete then return progress
    else passes project manifest plan left (← pass project manifest plan progress)

/-- What came of a recovery. -/
def Progress.report (progress : Progress) : IntegrityReport where
  shortfall := progress.shortfall
  actions := progress.actions
  state := if progress.shortfall.isComplete then .recovered else .partiallyRecovered
  attempts := progress.attempts

/-- Makes the folder of a project if it is not there. -/
def makeProject (project : String) : m (Except ProjectFault (List Action)) := do
  if ← Files.isFolder project then return .ok []
  else
    match ← Files.makeFolders project with
    | .ok () => return .ok [.madeProject project]
    | .error error => return .error (.notMade project error)

/-- Recovers a project. A complete project is left alone; a budget that does not suffice is
reported and is no fault. -/
def recover (project : String) (manifest : Manifest) (plan : RecoveryPlan) :
    m (Except ProjectFault IntegrityReport) := do
  let shortfall ← survey project manifest.entries
  if shortfall.isComplete then return .ok (.ofSurvey shortfall)
  else
    match ← makeProject project with
    | .error fault => return .error fault
    | .ok actions =>
      match ← withLock project
          (passes project manifest plan plan.budget ⟨shortfall, actions, 0⟩) with
      | .error fault => return .error fault
      | .ok progress => return .ok progress.report

/-- Whether a file holds a text already, told by fingerprints. -/
def holds (path text : String) : m Bool := do
  return match ← Host.read path with
    | .ok older => Hash.fingerprint older == Hash.fingerprint text
    | .error _ => false

/-- Puts a text into the primary payload unless it is there already. Tells whether it
wrote. -/
def writePayload (project : String) (manifest : Manifest) (text : String) :
    m (Except ProjectFault Bool) := do
  match manifest.primary? with
  | none => return .error .noPayload
  | some entry =>
    let path := entry.locate project
    if ← holds path text then return .ok false
    else
      match ← withLock project (Files.place path text) with
      | .error fault => return .error fault
      | .ok (.error error) => return .error (.notWritten path error)
      | .ok (.ok ()) => return .ok true

end StopMotion.Project
