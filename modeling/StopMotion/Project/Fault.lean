import StopMotion.Disk.Host

/-!
# What goes wrong with a project

The reasons why something in a project could not be done, with the path that it was to be
done at.
-/

namespace StopMotion.Project

/-- Why something in a project was not done. -/
inductive ProjectFault where
  /-- An artifact could not be read. -/
  | unreadable (path : String) (error : HostError)
  /-- The folder of the project could not be made. -/
  | notMade (project : String) (error : HostError)
  /-- Another process holds the lock. -/
  | busy (lock : String)
  /-- The lock could not be taken, though nobody holds it. -/
  | notLocked (lock : String) (error : HostError)
  /-- The lock of a process that is gone could not be removed. -/
  | notReleased (lock : String) (error : HostError)
  /-- No file takes the artifact. -/
  | noPayload
  /-- The artifact could not be written. -/
  | notWritten (path : String) (error : HostError)
  /-- Some paths are still missing or malformed after a number of attempts. -/
  | exhausted (attempts : Nat) (paths : List String)
  deriving DecidableEq, Repr

/-- The wording of a fault. -/
def ProjectFault.text : ProjectFault → String
  | unreadable path error => "project error: read artifact '" ++ path ++ "': " ++ error.text
  | notMade project error =>
    "project error: create project dir '" ++ project ++ "': " ++ error.text
  | busy lock =>
    "project busy: '" ++ lock ++ "' is held by another recovery; delete it if none is running"
  | notLocked lock error => "project error: create lock '" ++ lock ++ "': " ++ error.text
  | notReleased lock error =>
    "project error: remove stale lock '" ++ lock ++ "': " ++ error.text
  | noPayload => "project error: manifest has no primary payload entry"
  | notWritten path error => "project error: write '" ++ path ++ "': " ++ error.text
  | exhausted attempts paths =>
    "recovery exhausted after " ++ toString attempts ++ " attempt(s); still missing: " ++
      ", ".intercalate paths

end StopMotion.Project
