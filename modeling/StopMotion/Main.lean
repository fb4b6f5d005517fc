import StopMotion.CommandLine.Run

/-!
# The program

The command line on the machine that it runs on. This host starts no other programs: it
refuses them as if they were not installed.
-/

namespace StopMotion.Machine

/-- The refusal that an error stands for. -/
def refusal : IO.Error → HostError
  | .noFileOrDirectory .. | .noSuchThing .. => .notFound
  | .alreadyExists .. => .alreadyThere
  | .resourceBusy .. => .busy
  | .permissionDenied .. => .denied
  | .userError _ => .notText
  | .inappropriateType _ code reason =>
    if code = 20 then .notFolder else if code = 21 then .isFolder else .other reason
  | error => .other (toString error)

/-- Does something and takes an error as a refusal. -/
def attempt {α : Type} (action : IO α) : IO (Except HostError α) := do
  try
    return .ok (← action)
  catch error =>
    return .error (refusal error)

/-- A name that no other process uses at the same time. -/
def freshName (start ending : String) : IO String := do
  return start ++ toString (← IO.monoNanosNow) ++ ending

/-- What is at a path. -/
def look (path : String) : IO Found := do
  let found ← (← IO.FS.realPath path).metadata
  return if found.type == .dir then .folder else .file found.byteSize.toNat

/-- The names in a folder. -/
def names (folder : String) : IO (List String) := do
  let entries ← (← IO.FS.realPath folder).readDir
  return entries.toList.map (·.fileName)

/-- Writes a file where there is nothing. -/
def createFile (path text : String) : IO Unit := do
  (← IO.FS.Handle.mk path .writeNew).putStr text

/-- Writes a file beside another one and moves it there. -/
def replaceFile (path text : String) : IO Unit := do
  let folder := (Path.namedParent? path).getD "."
  let scratch := Path.join folder (← freshName ".framewright-" ".tmp")
  createFile scratch text
  try
    IO.FS.rename scratch path
  catch error =>
    IO.FS.removeFile scratch
    throw error

/-- Makes a folder for scratch files. -/
def makeScratch (folder : Option String) : IO String := do
  let inside ← IO.FS.realPath (folder.getD "/tmp")
  let path := Path.join inside.toString (← freshName ".framewright-check-" "")
  IO.FS.createDir path
  return path

/-- Whether something is at a path. -/
def isThere (path : String) : IO Bool := do
  return match ← attempt (look path) with
    | .ok _ => true
    | .error _ => false

/-- Whether a process is running, as far as the machine tells. -/
def isRunning (process : Nat) : IO Bool := do
  if ← isThere "/proc" then isThere ("/proc/" ++ toString process) else return true

/-- The number of this process; zero if the machine does not tell it. -/
def ownProcess : IO Nat := do
  match ← attempt (IO.FS.readFile "/proc/self/stat") with
  | .ok line =>
    return (Number.count? Number.greatest32 (line.toList.takeWhile Char.isDigit)).getD 0
  | .error _ => return 0

instance : Host IO where
  look path := attempt (look path)
  read path := attempt (IO.FS.readFile path)
  list folder := attempt (names folder)
  makeFolder path := attempt (IO.FS.createDir path)
  write path text := attempt (IO.FS.writeFile path text)
  create path text := attempt (createFile path text)
  replace path text := attempt (replaceFile path text)
  remove path := attempt (IO.FS.removeFile path)
  makeScratch folder := attempt (makeScratch folder)
  removeScratch path := do
    let _ ← attempt (IO.FS.removeDirAll path)
  isRunning := isRunning
  ownProcess := ownProcess
  run _ := return .error .notFound
  runFor _ _ := return .error .notFound

end StopMotion.Machine

/-- Does what the words of the command line ask for and ends with the status of that. -/
def main (words : List String) : IO UInt32 := do
  let outcome ← StopMotion.CommandLine.run words
  (← IO.getStdout).putStr outcome.output
  (← IO.getStderr).putStr outcome.errors
  return outcome.status.toUInt32
