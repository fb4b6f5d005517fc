import StopMotion.Disk.Host
import StopMotion.Project.Fault
import StopMotion.Project.Manifest

/-!
# Integrity

Which paths of its manifest a project lacks. A folder must be there; a file must be there
and hold something. Asking changes nothing.
-/

namespace StopMotion.Project

variable {m : Type → Type} [Monad m] [Host m]

/-- How an entry of a manifest is met. -/
inductive Presence where
  | present
  | missing
  /-- Something else is at the path, or an empty file. -/
  | malformed
  deriving DecidableEq, Repr

/-- How an entry is met by what is at its path. -/
def EntryKind.presence : EntryKind → Except HostError Found → Presence
  | _, .error _ => .missing
  | folder, .ok .folder => .present
  | file, .ok (.file bytes) => if bytes = 0 then .malformed else .present
  | folder, .ok (.file _) | file, .ok .folder => .malformed

/-- How an entry is met in a project. -/
def ManifestEntry.presence (entry : ManifestEntry) (project : String) : m Presence := do
  return entry.kind.presence (← Host.look (entry.locate project))

/-- The paths that a project lacks. -/
structure Shortfall where
  missing : List String
  malformed : List String
  deriving DecidableEq, Repr

namespace Shortfall

/-- Nothing is lacking. -/
def none : Shortfall := ⟨[], []⟩

/-- A shortfall with a path before it, if the path is not as it must be. -/
def add (path : String) : Presence → Shortfall → Shortfall
  | .present, rest => rest
  | .missing, rest => { rest with missing := path :: rest.missing }
  | .malformed, rest => { rest with malformed := path :: rest.malformed }

/-- All paths that are lacking. -/
def paths (shortfall : Shortfall) : List String :=
  shortfall.missing ++ shortfall.malformed

/-- Whether nothing is lacking. -/
def isComplete (shortfall : Shortfall) : Bool := shortfall.paths.isEmpty

end Shortfall

/-- What a project lacks of some entries. -/
def survey (project : String) : List ManifestEntry → m Shortfall
  | [] => return .none
  | entry :: rest => do
    let presence ← entry.presence project
    return (← survey project rest).add entry.path presence

/-- Where a check or a recovery ended. -/
inductive ProjectState where
  | checked
  | healthy
  | recovered
  | partiallyRecovered
  deriving DecidableEq, Repr

namespace ProjectState

/-- The name of a state in data. -/
def name : ProjectState → String
  | checked => "checked"
  | healthy => "healthy"
  | recovered => "recovered"
  | partiallyRecovered => "partially-recovered"

/-- The name of a state in prose. -/
def word : ProjectState → String
  | checked => "Checked"
  | healthy => "Healthy"
  | recovered => "Recovered"
  | partiallyRecovered => "PartiallyRecovered"

end ProjectState

/-- Where the text of a generated file comes from. -/
inductive Origin where
  | artifact
  | placeholder
  | generated (template : Template)
  | emptyModule
  deriving DecidableEq, Repr

/-- The name of an origin. -/
def Origin.name : Origin → String
  | artifact => "rewritten artifact"
  | placeholder => "placeholder"
  | generated template => template.name
  | emptyModule => "empty module"

/-- Why an entry could not be made. -/
inductive Hindrance where
  | host (error : HostError)
  /-- A folder is where a file must be. -/
  | occupied (path : String)
  deriving DecidableEq, Repr

/-- The wording of a hindrance. -/
def Hindrance.text : Hindrance → String
  | host error => error.text
  | occupied path => "a directory occupies file path " ++ path

/-- One thing that a recovery did. -/
inductive Action where
  | madeProject (project : String)
  | madeFolder (path : String)
  | wroteFile (path : String) (origin : Origin) (bytes : Nat)
  | failed (path : String) (hindrance : Hindrance)
  deriving DecidableEq, Repr

/-- An action as one line. -/
def Action.text : Action → String
  | madeProject project => "created project directory " ++ project
  | madeFolder path => "created directory " ++ path
  | wroteFile path origin bytes =>
    "wrote " ++ path ++ " from " ++ origin.name ++ " (" ++ toString bytes ++ " bytes)"
  | failed path hindrance => "failed to create " ++ path ++ ": " ++ hindrance.text

/-- What came of a check or a recovery. -/
structure IntegrityReport where
  shortfall : Shortfall
  actions : List Action
  state : ProjectState
  /-- The number of times that the lacking entries were made. -/
  attempts : Nat
  deriving DecidableEq, Repr

namespace IntegrityReport

/-- Whether nothing is lacking. -/
def isComplete (report : IntegrityReport) : Bool := report.shortfall.isComplete

/-- The name of whether nothing is lacking, in data. -/
def finalName (report : IntegrityReport) : String :=
  if report.isComplete then "complete" else "still-incomplete"

/-- The name of whether nothing is lacking, in prose. -/
def finalWord (report : IntegrityReport) : String :=
  if report.isComplete then "Complete" else "StillIncomplete"

/-- Why a report does not suffice to go on. -/
def fault? (report : IntegrityReport) : Option ProjectFault :=
  if report.isComplete then none
  else some (.exhausted report.attempts report.shortfall.paths)

/-- The report on a project that nothing was done to. -/
def ofSurvey (shortfall : Shortfall) : IntegrityReport where
  shortfall
  actions := []
  state := if shortfall.isComplete then .healthy else .checked
  attempts := 0

end IntegrityReport

/-- Checks a project against its manifest. -/
def check (project : String) (manifest : Manifest) : m IntegrityReport := do
  return .ofSurvey (← survey project manifest.entries)

end StopMotion.Project
