/-!
# Hosts

What the project needs of the machine that it runs on: files and folders, other programs,
and whether a process is running. Everything that touches a project is written over this
interface, so it runs alike on a machine and on a model of one.
-/

namespace StopMotion

/-- Why a host refuses to do something with a path. -/
inductive HostError where
  | notFound
  | busy
  | alreadyThere
  | notFolder
  | isFolder
  | denied
  /-- A file holds something else than text. -/
  | notText
  /-- Any other reason, in the words of the host. -/
  | other (reason : String)
  deriving DecidableEq, Repr

/-- The wording of a refusal. -/
def HostError.text : HostError → String
  | notFound => "No such file or directory (os error 2)"
  | busy => "Device or resource busy (os error 16)"
  | alreadyThere => "File exists (os error 17)"
  | notFolder => "Not a directory (os error 20)"
  | isFolder => "Is a directory (os error 21)"
  | denied => "Permission denied (os error 13)"
  | notText => "stream did not contain valid UTF-8"
  | other reason => reason

/-- What is at a path. -/
inductive Found where
  | folder
  | file (bytes : Nat)
  deriving DecidableEq, Repr

/-- A program to run: with arguments, from a folder. -/
structure Command where
  program : String
  arguments : List String
  folder : String
  deriving DecidableEq, Repr

/-- What came of a program. It succeeded if its status is zero. -/
structure Ended where
  status : Nat
  output : String
  errors : String
  deriving DecidableEq, Repr

/-- How a program that failed is reported, with what it said. -/
def Ended.complaint (ended : Ended) (program said : String) : String :=
  "`" ++ program ++ "` exited with status exit status: " ++ toString ended.status ++ ": " ++ said

/-- A machine, as far as the project uses it. -/
class Host (m : Type → Type) where
  /-- What is at a path. -/
  look : String → m (Except HostError Found)
  /-- The text of a file. -/
  read : String → m (Except HostError String)
  /-- The names in a folder. -/
  list : String → m (Except HostError (List String))
  /-- Makes one folder. -/
  makeFolder : String → m (Except HostError Unit)
  /-- Writes a file, over an older one if there is one. -/
  write : String → String → m (Except HostError Unit)
  /-- Writes a file where there is nothing. -/
  create : String → String → m (Except HostError Unit)
  /-- Puts a file in the place of an older one at once. -/
  replace : String → String → m (Except HostError Unit)
  /-- Removes a file. -/
  remove : String → m (Except HostError Unit)
  /-- Makes a folder of its own for scratch files in a folder, or anywhere. Its path starts at
  the top. -/
  makeScratch : Option String → m (Except HostError String)
  /-- Removes a scratch folder with all that is in it. -/
  removeScratch : String → m Unit
  /-- Whether a process with a number is running, or may be. -/
  isRunning : Nat → m Bool
  /-- The number of this process. -/
  ownProcess : m Nat
  /-- Runs a program to its end. -/
  run : Command → m (Except HostError Ended)
  /-- Runs a program for a number of milliseconds at most; none if it did not end. -/
  runFor : Nat → Command → m (Except HostError (Option Ended))

end StopMotion
