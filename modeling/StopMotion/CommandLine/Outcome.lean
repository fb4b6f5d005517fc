import StopMotion.Deploy

/-!
# Outcomes

What a command prints and the status that it ends with: zero if all went well, one if
something was found wanting, two if it could not do its work.
-/

namespace StopMotion.CommandLine

open StopMotion.Project

/-- Why a command could not do its work. -/
inductive Fault where
  | settings (path : String) (fault : SettingsFault)
  | artifact (path : String) (fault : ProjectFault)
  | notRead (path : String) (error : HostError)
  | notListed (folder : String) (error : HostError)
  | notMade (folder : String) (error : HostError)
  | notWritten (path : String) (error : HostError)
  | project (fault : ProjectFault)
  | render (fault : Render.RenderFault)

/-- The wording of a fault. -/
def Fault.text : Fault → String
  | settings path fault => "load config '" ++ path ++ "': " ++ fault.text
  | artifact path fault => "read artifact '" ++ path ++ "': " ++ fault.text
  | notRead path error => "read '" ++ path ++ "': " ++ error.text
  | notListed folder error => "read dir '" ++ folder ++ "': " ++ error.text
  | notMade folder error => "create output dir '" ++ folder ++ "': " ++ error.text
  | notWritten path error => "write '" ++ path ++ "': " ++ error.text
  | project fault => fault.text
  | render fault => fault.text

/-- What a command prints, and its status. -/
structure Outcome where
  status : Nat := 0
  output : String := ""
  errors : String := ""
  deriving DecidableEq, Repr

/-- Lines as a text. -/
def unlines (lines : List String) : String :=
  String.join (lines.map (· ++ "\n"))

namespace Outcome

/-- The outcome of a command that could not go on after it had printed something. -/
def failed (fault : Fault) (printed : Outcome) : Outcome :=
  { printed with status := 2, errors := printed.errors ++ unlines ["error: " ++ fault.text] }

/-- The outcome of a command that could not begin. -/
def refused (fault : Fault) : Outcome := failed fault {}

end Outcome

end StopMotion.CommandLine
