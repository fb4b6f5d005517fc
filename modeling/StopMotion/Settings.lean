import StopMotion.Checker.Process
import StopMotion.Document.Reader
import StopMotion.Number.Count
import StopMotion.Project.Recovery
import StopMotion.Render

/-!
# Settings

All that can be set: the composition, the manifest of a project, the type checker, the
budget of a recovery and the renderer. A document of settings gives some of them; what it
does not give has its usual value.
-/

namespace StopMotion

open StopMotion.Project

variable {m : Type → Type} [Monad m] [Host m]

/-- The settings. -/
structure Settings where
  framesPerSecond : Nat := 30
  frames : Nat := 300
  width : Nat := 1920
  height : Nat := 1080
  manifest : Manifest := .standard
  /-- Whether the type checker is asked at all. -/
  checks : Bool := true
  checker : Checker.TypeChecker :=
    ⟨"npx", ["tsc", "--noEmit", "--pretty", "false", "--jsx", "react-jsx", "--skipLibCheck"],
      10000⟩
  budget : Nat := 3
  renderer : Render.Renderer :=
    ⟨"npx", ["remotion", "render", "\x7bentry\x7d", "\x7bcomposition\x7d", "\x7bout\x7d"]⟩
  deriving DecidableEq, Repr

/-- Why there are no settings. -/
inductive SettingsFault where
  | unreadable (path : String) (error : HostError)
  /-- The file holds no document of settings. -/
  | malformed (path : String)
  | rateOutOfRange (framesPerSecond : Nat)
  | noFrames
  | emptyPicture (width height : Nat)
  | noChecker
  | noRenderer
  | manifest (fault : ManifestFault)
  deriving DecidableEq, Repr

/-- The wording of a fault. -/
def SettingsFault.text : SettingsFault → String
  | unreadable path error => "config error: read config '" ++ path ++ "': " ++ error.text
  | malformed path => "config error: parse config '" ++ path ++ "': not a configuration"
  | rateOutOfRange framesPerSecond =>
    "config error: fps must be in 1..=240, got " ++ toString framesPerSecond
  | noFrames => "config error: duration_frames must be > 0"
  | emptyPicture width height =>
    "config error: composition size must be non-zero, got " ++ toString width ++ "x" ++
      toString height
  | noChecker => "config error: oracle needs a command and a non-zero timeout_ms"
  | noRenderer => "config error: renderer program must not be empty"
  | manifest fault => "config error: " ++ fault.text

namespace Settings

/-- What makes settings unusable. -/
def fault? (settings : Settings) : Option SettingsFault :=
  if settings.framesPerSecond = 0 ∨ 240 < settings.framesPerSecond then
    some (.rateOutOfRange settings.framesPerSecond)
  else if settings.frames = 0 then some .noFrames
  else if settings.width = 0 ∨ settings.height = 0 then
    some (.emptyPicture settings.width settings.height)
  else if settings.checks ∧ (settings.checker.program = "" ∨ settings.checker.timeoutMs = 0) then
    some .noChecker
  else if settings.renderer.program = "" then some .noRenderer
  else settings.manifest.fault?.map .manifest

/-! ## Documents -/

open Document Number

/-- Some strings in a document. -/
def strings? : Decoder (List String) := list? string?

/-- What a document says about the type checker: whether it is asked, and how. -/
def checker? (usual : Settings) : Decoder (Bool × Checker.TypeChecker) := fun document => do
  let record ← record? ["enabled", "command", "args", "timeout_ms"] document
  return (← record.getD? "enabled" boolean? usual.checks,
    ⟨← record.getD? "command" string? usual.checker.program,
      ← record.getD? "args" strings? usual.checker.arguments,
      ← record.getD? "timeout_ms" (natural? greatest64) usual.checker.timeoutMs⟩)

/-- What a document says about recoveries. -/
def recovery? (usual : Settings) : Decoder Nat := fun document => do
  let record ← record? ["retry_budget"] document
  record.getD? "retry_budget" (natural? greatest32) usual.budget

/-- What a document says about the renderer. -/
def renderer? (usual : Settings) : Decoder Render.Renderer := fun document => do
  let record ← record? ["program", "args"] document
  return ⟨← record.getD? "program" string? usual.renderer.program,
    ← record.getD? "args" strings? usual.renderer.arguments⟩

/-- The keys of a document of settings. -/
def keys : List String :=
  ["fps", "duration_frames", "width", "height", "manifest", "oracle", "recovery", "renderer"]

/-- The settings in a document, with the usual values for what it does not give. -/
def ofDocument? : Decoder Settings := fun document => do
  let usual : Settings := {}
  let record ← record? keys document
  let count (key : String) (value : Nat) : Option Nat :=
    record.getD? key (natural? greatest32) value
  let (checks, checker) ← record.getD? "oracle" (checker? usual) (usual.checks, usual.checker)
  return {
    framesPerSecond := ← count "fps" usual.framesPerSecond
    frames := ← count "duration_frames" usual.frames
    width := ← count "width" usual.width
    height := ← count "height" usual.height
    manifest := ← record.getD? "manifest" Manifest.ofDocument? usual.manifest
    checks
    checker
    budget := ← record.getD? "recovery" (recovery? usual) usual.budget
    renderer := ← record.getD? "renderer" (renderer? usual) usual.renderer }

/-- Settings as a document that gives all of them. -/
def document (settings : Settings) : Document :=
  .object
    [("fps", .natural settings.framesPerSecond),
      ("duration_frames", .natural settings.frames),
      ("width", .natural settings.width),
      ("height", .natural settings.height),
      ("manifest", settings.manifest.document),
      ("oracle", .object
        [("enabled", .boolean settings.checks),
          ("command", .string settings.checker.program),
          ("args", .strings settings.checker.arguments),
          ("timeout_ms", .natural settings.checker.timeoutMs)]),
      ("recovery", .object [("retry_budget", .natural settings.budget)]),
      ("renderer", .object
        [("program", .string settings.renderer.program),
          ("args", .strings settings.renderer.arguments)])]

/-- The settings that the text of a file gives. -/
def ofText (path text : String) : Except SettingsFault Settings :=
  match (Document.read? text.toList).bind ofDocument? with
  | none => .error (.malformed path)
  | some settings =>
    match settings.fault? with
    | some fault => .error fault
    | none => .ok settings

/-- The settings in a file. -/
def load (path : String) : m (Except SettingsFault Settings) := do
  return match ← Host.read path with
    | .error error => .error (.unreadable path error)
    | .ok text => ofText path text

/-! ## Uses -/

/-- The settings of a composition. -/
def composition (settings : Settings) (id : String) : Composition where
  id
  framesPerSecond := settings.framesPerSecond
  frames := settings.frames
  width := settings.width
  height := settings.height

/-- The plan for a recovery around an artifact, if there is one. -/
def plan (settings : Settings) (id : String) (payload : Option String) : RecoveryPlan where
  payload
  budget := settings.budget
  composition := settings.composition id

/-- The type check that is set, from a folder if one is given. -/
def check (settings : Settings) (folder : Option String) (source : String) :
    m Checker.Verdict :=
  if settings.checks then settings.checker.verdict folder source else return .ok []

end Settings

end StopMotion
