import StopMotion.Disk.Host
import StopMotion.Disk.Path
import StopMotion.Text.Slice

/-!
# A tree of files

A model of a host: a tree of files and folders without links, programs as functions on
the tree, and a set of running processes. A path is walked part by part; every part but
the last must be a folder.
-/

namespace StopMotion

/-- Something in a tree. -/
inductive Entry where
  | folder
  | file (text : String)
  deriving DecidableEq, Repr

/-- A tree of files and folders. A place is the list of the names on the way to it from the
top, which is always a folder. Relative paths start at `home`. -/
structure FileTree where
  entries : List (List String × Entry)
  home : List String
  deriving Repr

namespace FileTree

/-- What is at a place. -/
def get? (tree : FileTree) (place : List String) : Option Entry :=
  if place.isEmpty then some .folder else tree.entries.lookup place

/-- A tree with something at a place. -/
def put (tree : FileTree) (place : List String) (entry : Entry) : FileTree :=
  { tree with
    entries :=
      if (tree.entries.lookup place).isSome then
        tree.entries.map fun (other, old) => (other, if other == place then entry else old)
      else tree.entries ++ [(place, entry)] }

/-- A tree without what is at a place. -/
def erase (tree : FileTree) (place : List String) : FileTree :=
  { tree with entries := tree.entries.filter fun (other, _) => other != place }

/-- A tree without a place and all that is inside it. -/
def eraseAll (tree : FileTree) (place : List String) : FileTree :=
  { tree with entries := tree.entries.filter fun (other, _) => !place.isPrefixOf other }

/-- The names in a folder. -/
def names (tree : FileTree) (place : List String) : List String :=
  tree.entries.filterMap fun (other, _) =>
    if other.dropLast == place && !other.isEmpty then other.getLast? else none

/-- The place that the parts of a path lead to from a place. -/
def walk (tree : FileTree) : (place : List String) → List String →
    Except HostError (List String)
  | place, [] => .ok place
  | place, part :: rest =>
    match tree.get? place with
    | none => .error .notFound
    | some (.file _) => .error .notFolder
    | some .folder =>
      if part = "" ∨ part = "." then walk tree place rest
      else if part = ".." then walk tree place.dropLast rest
      else walk tree (place ++ [part]) rest

/-- The place that a path leads to. -/
def locate (tree : FileTree) (path : String) : Except HostError (List String) :=
  if path.isEmpty then .error .notFound
  else tree.walk (if Path.isAbsolute path then [] else tree.home) (Path.parts path)

/-- What is at a path, with its place. -/
def find (tree : FileTree) (path : String) : Except HostError (List String × Entry) := do
  let place ← tree.locate path
  match tree.get? place with
  | some entry => return (place, entry)
  | none => throw .notFound

/-- The place that a path names, whether or not it ends in slashes. -/
def locateNew (tree : FileTree) (path : String) : Except HostError (List String) :=
  let trimmed := Path.trimSlashes path
  tree.locate (if trimmed.isEmpty then path else trimmed)

/-- Whether a path ends in a part that is no name. -/
def endsInDots (path : String) : Bool :=
  match (Path.parts (Path.trimSlashes path)).getLast? with
  | some last => last == "." || last == ".."
  | none => false

/-- A tree with one more folder. -/
def makeFolder (tree : FileTree) (path : String) : Except HostError FileTree := do
  let place ← tree.locateNew path
  match tree.get? place with
  | some _ => throw .alreadyThere
  | none => return tree.put place .folder

/-- The text of a file. -/
def read (tree : FileTree) (path : String) : Except HostError String := do
  match ← tree.find path with
  | (_, .file text) => return text
  | (_, .folder) => throw .isFolder

/-- A tree with a file, over an older one if there is one. -/
def write (tree : FileTree) (path text : String) : Except HostError FileTree := do
  let place ← tree.locateNew path
  if Path.endsInSlash path then throw .isFolder
  match tree.get? place with
  | some .folder => throw .isFolder
  | _ => return tree.put place (.file text)

/-- A tree with a file where there was nothing. -/
def create (tree : FileTree) (path text : String) : Except HostError FileTree := do
  let place ← tree.locateNew path
  match tree.get? place with
  | some _ => throw .alreadyThere
  | none => return tree.put place (.file text)

/-- A tree with a file that is moved over what was there. -/
def replace (tree : FileTree) (path text : String) : Except HostError FileTree := do
  let place ← tree.locateNew path
  if endsInDots path then throw .busy
  match tree.get? place with
  | some .folder => throw .isFolder
  | _ => return tree.put place (.file text)

/-- A tree without a file. -/
def remove (tree : FileTree) (path : String) : Except HostError FileTree := do
  match ← tree.find path with
  | (place, .file _) => return tree.erase place
  | (_, .folder) => throw .isFolder

/-- The names in the folder at a path. -/
def list (tree : FileTree) (path : String) : Except HostError (List String) := do
  match ← tree.find path with
  | (place, .folder) => return tree.names place
  | (_, .file _) => throw .notFolder

end FileTree

/-- The path of a place from the top. -/
def FileTree.pathOf (place : List String) : String :=
  "/" ++ "/".intercalate place

/-- A run of a program: what comes of it and after how many milliseconds, and the tree that it
leaves. -/
structure ProgramRun where
  ended : Ended
  milliseconds : Nat
  tree : FileTree

/-- A modelled machine. -/
structure World where
  tree : FileTree
  /-- What a program does. -/
  programs : Command → FileTree → Except HostError ProgramRun
  isRunning : Nat → Bool
  ownProcess : Nat

namespace World

/-- The name of scratch folders. -/
def scratchName : String := ".framewright-check-scratch"

/-- An answer about the tree. -/
def ask {α : Type} (question : FileTree → Except HostError α) :
    StateM World (Except HostError α) := fun world =>
  (question world.tree, world)

/-- A change of the tree. A change that is refused leaves the tree as it is. -/
def change (step : FileTree → Except HostError FileTree) :
    StateM World (Except HostError Unit) := fun world =>
  match step world.tree with
  | .ok tree => (.ok (), { world with tree })
  | .error error => (.error error, world)

/-- What is at a path, as a host says it. -/
def foundAt (path : String) (tree : FileTree) : Except HostError Found := do
  match ← tree.find path with
  | (_, .folder) => return .folder
  | (_, .file text) => return .file (Text.size text.toList)

/-- A scratch folder inside a folder. -/
def scratchIn (folder : Option String) : StateM World (Except HostError String) := do
  let inside := Path.join (folder.getD "/tmp") scratchName
  let path := Path.join (FileTree.pathOf (← get).tree.home) inside
  match ← change fun tree => tree.makeFolder path with
  | .ok () => return .ok path
  | .error error => return .error error

/-- Removes a folder with all that is in it. -/
def removeAll (path : String) : StateM World Unit := fun world =>
  match world.tree.locate path with
  | .ok place => ((), { world with tree := world.tree.eraseAll place })
  | .error _ => ((), world)

/-- A run of a program, if the folder for it is there. -/
def runOf (command : Command) (world : World) : Except HostError ProgramRun := do
  match ← world.tree.find command.folder with
  | (_, .folder) => world.programs command world.tree
  | (_, .file _) => throw .notFolder

/-- Runs a program and takes something from the run. -/
def run {α : Type} (command : Command) (result : ProgramRun → α) :
    StateM World (Except HostError α) := fun world =>
  match world.runOf command with
  | .ok run => (.ok (result run), { world with tree := run.tree })
  | .error error => (.error error, world)

instance : Host (StateM World) where
  look path := ask (foundAt path)
  read path := ask fun tree => tree.read path
  list path := ask fun tree => tree.list path
  makeFolder path := change fun tree => tree.makeFolder path
  write path text := change fun tree => tree.write path text
  create path text := change fun tree => tree.create path text
  replace path text := change fun tree => tree.replace path text
  remove path := change fun tree => tree.remove path
  makeScratch := scratchIn
  removeScratch := removeAll
  isRunning process := return (← get).isRunning process
  ownProcess := return (← get).ownProcess
  run command := World.run command (·.ended)
  runFor limit command := World.run command fun run =>
    if limit < run.milliseconds then none else some run.ended

end World

end StopMotion
