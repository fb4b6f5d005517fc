import StopMotion.Disk.Host
import StopMotion.Disk.Path

/-!
# Files and folders

What is done with files in several steps: questions about a path, and folders that are
made with all folders around them.
-/

namespace StopMotion.Files

variable {m : Type → Type} [Monad m] [Host m]

/-- Whether a folder is at a path. -/
def isFolder (path : String) : m Bool := do
  return match ← Host.look path with
    | .ok .folder => true
    | _ => false

/-- Whether a file is at a path. -/
def isFile (path : String) : m Bool := do
  return match ← Host.look path with
    | .ok (.file _) => true
    | _ => false

/-- Takes a refusal to make a folder as success if the folder is there. -/
def unlessThere (path : String) (error : HostError) : m (Except HostError Unit) := do
  if ← isFolder path then return .ok () else return .error error

/-- Makes the first folder of a chain, and those around it as far as they are missing. -/
def makeChain : List String → m (Except HostError Unit)
  | [] => return .ok ()
  | path :: around => do
    match ← Host.makeFolder path with
    | .ok () => return .ok ()
    | .error .notFound =>
      match ← makeChain around with
      | .error error => return .error error
      | .ok () =>
        match ← Host.makeFolder path with
        | .ok () => return .ok ()
        | .error error => unlessThere path error
    | .error error => unlessThere path error

/-- Makes a folder and those around it. -/
def makeFolders (path : String) : m (Except HostError Unit) :=
  makeChain (Path.chain path)

/-- Makes the folder that a path names something in, if it names one. A
refusal comes with that folder. -/
def makeParent (path : String) : m (Except (String × HostError) Unit) := do
  match Path.namedParent? path with
  | none => return .ok ()
  | some folder =>
    match ← makeFolders folder with
    | .ok () => return .ok ()
    | .error error => return .error (folder, error)

/-- Puts a whole file at a path and makes the folders around it. -/
def place (path text : String) : m (Except HostError Unit) := do
  match ← makeFolders ((Path.namedParent? path).getD ".") with
  | .error error => return .error error
  | .ok () => Host.replace path text

end StopMotion.Files
