import StopMotion.Project.Manifest
import StopMotion.Text.Pieces
import StopMotion.Text.Quoted

/-!
# Generated files

The contents of the files of a project that are generated: the registry of compositions,
the entry point and the renderer's settings. A file imports another by the relative path
between the two.
-/

namespace StopMotion.Project

/-- The settings of a composition. -/
structure Composition where
  id : String := "Artifact"
  framesPerSecond : Nat := 30
  frames : Nat := 300
  width : Nat := 1920
  height : Nat := 1080
  deriving DecidableEq, Repr

/-! ## Import specifiers -/

/-- The parts of a path that say something. -/
def pathParts (path : String) : List String :=
  (Path.parts path).filter fun part => !part.isEmpty && part != "."

/-- A file name without its extension, if more than the extension is left. -/
def withoutExtension (name : String) : String :=
  match Text.splitLast? '.' name.toList with
  | some (stem, _) => if stem.isEmpty then name else String.ofList stem
  | none => name

/-- The number of parts with which two lists begin alike. -/
def commonLength : List String → List String → Nat
  | first :: rest, other :: others =>
    if first = other then commonLength rest others + 1 else 0
  | _, _ => 0

/-- The parts of a path, the last one without its extension. -/
def moduleParts (path : String) : List String :=
  let parts := pathParts path
  match parts.getLast? with
  | some last => parts.dropLast ++ [withoutExtension last]
  | none => []

/-- The specifier by which a file imports another; both paths are relative to the project. -/
def specifier (importer imported : String) : String :=
  let folder := (pathParts importer).dropLast
  let target := moduleParts imported
  let common := commonLength folder target.dropLast
  let up :=
    match folder.length - common with
    | 0 => ["."]
    | levels => List.replicate levels ".."
  "/".intercalate (up ++ target.drop common)

/-! ## Contents -/

/-- The registry of compositions at a path. -/
def rootText (path : String) (manifest : Manifest) (composition : Composition) : String :=
  let payload := (manifest.primary?.map (·.path)).getD "src/Artifact.tsx"
  "import \x7b Composition \x7d from 'remotion';\n" ++
  "import Artifact from '" ++ specifier path payload ++ "';\n" ++
  "\n" ++
  "export const RemotionRoot = () => \x7b\n" ++
  "  return (\n" ++
  "    <Composition\n" ++
  "      id=\x7b" ++ Text.quoted composition.id ++ "\x7d\n" ++
  "      component=\x7bArtifact\x7d\n" ++
  "      durationInFrames=\x7b" ++ toString composition.frames ++ "\x7d\n" ++
  "      fps=\x7b" ++ toString composition.framesPerSecond ++ "\x7d\n" ++
  "      width=\x7b" ++ toString composition.width ++ "\x7d\n" ++
  "      height=\x7b" ++ toString composition.height ++ "\x7d\n" ++
  "    />\n" ++
  "  );\n" ++
  "\x7d;\n"

/-- The entry point at a path. -/
def entryText (path : String) (manifest : Manifest) : String :=
  let root := ((manifest.withTemplate? .root).map (·.path)).getD "src/Root.tsx"
  "import \x7b registerRoot \x7d from 'remotion';\n" ++
  "import \x7b RemotionRoot \x7d from '" ++ specifier path root ++ "';\n" ++
  "\n" ++
  "registerRoot(RemotionRoot);\n"

/-- The renderer's settings. -/
def configText : String :=
  "import \x7b Config \x7d from '@remotion/cli/config';\n" ++
  "\n" ++
  "Config.setVideoImageFormat('jpeg');\n" ++
  "Config.setOverwriteOutput(true);\n"

/-- The contents of a file that a template generates at a path. -/
def Template.text (template : Template) (path : String) (manifest : Manifest)
    (composition : Composition) : String :=
  match template with
  | .root => rootText path manifest composition
  | .entry => entryText path manifest
  | .config => configText

end StopMotion.Project
