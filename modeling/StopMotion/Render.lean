import StopMotion.Disk.Files
import StopMotion.Project.Manifest
import StopMotion.Text.Pieces

/-!
# Rendering

A renderer is a program that runs in the folder of a project. Its arguments are templates,
in which the entry point, the composition and the path of the video are filled in, one
after the other.
-/

namespace StopMotion.Render

open StopMotion.Project

variable {m : Type → Type} [Monad m] [Host m]

/-- A renderer. -/
structure Renderer where
  program : String
  arguments : List String
  deriving DecidableEq, Repr

/-- What is rendered, and where to. The entry point is relative to the project. -/
structure Job where
  entry : String
  composition : String
  out : String
  deriving DecidableEq, Repr

/-- The job for a project with a manifest. -/
def Job.ofManifest (manifest : Manifest) (composition out : String) : Job where
  entry := ((manifest.withTemplate? .entry).map (·.path)).getD "src/index.ts"
  composition
  out

/-- An argument with everything filled in. -/
def Job.fill (job : Job) (argument : String) : String :=
  let withEntry := Text.replaceAll "\x7bentry\x7d" job.entry argument
  let withComposition := Text.replaceAll "\x7bcomposition\x7d" job.composition withEntry
  Text.replaceAll "\x7bout\x7d" job.out withComposition

/-- The arguments of a renderer for a job. -/
def Renderer.argumentsFor (renderer : Renderer) (job : Job) : List String :=
  renderer.arguments.map job.fill

/-- Why a video was not rendered. -/
inductive RenderFault where
  /-- The folder of the video could not be made. -/
  | notMade (folder : String) (error : HostError)
  | notStarted (program : String) (error : HostError)
  | failed (program : String) (ended : Ended)
  deriving DecidableEq, Repr

/-- The last lines that a renderer wrote to its errors, twenty at most. -/
def lastLines (errors : String) : String :=
  let lines := Text.lines (Text.trimEnd errors.toList)
  let kept := lines.drop (lines.length - 20)
  String.ofList (Text.trim ("\n".toList.intercalate kept))

/-- The wording of a fault. -/
def RenderFault.text : RenderFault → String
  | notMade folder error =>
    "render error: create output dir '" ++ folder ++ "': " ++ error.text
  | notStarted program error =>
    "render error: failed to spawn `" ++ program ++ "` (is it installed and on PATH?): " ++
      error.text
  | failed program ended =>
    "render error: " ++ ended.complaint program (lastLines ended.errors)

/-- Renders a project. -/
def Renderer.render (renderer : Renderer) (project : String) (job : Job) :
    m (Except RenderFault Unit) := do
  match ← Files.makeParent job.out with
  | .error (folder, error) => return .error (.notMade folder error)
  | .ok () =>
    match ← Host.run ⟨renderer.program, renderer.argumentsFor job, project⟩ with
    | .error error => return .error (.notStarted renderer.program error)
    | .ok ended =>
      if ended.status = 0 then return .ok ()
      else return .error (.failed renderer.program ended)

end StopMotion.Render
