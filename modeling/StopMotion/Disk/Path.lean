/-!
# Paths

Paths as they are written, with slashes between their parts. Empty parts and parts that
are one dot say nothing, except that a path may begin with a dot.
-/

namespace StopMotion.Path

/-- The parts of a path between its slashes, empty ones included. -/
def parts (path : String) : List String :=
  split path.toList
where
  /-- The parts of the characters of a path. -/
  split : List Char → List String
    | [] => [""]
    | c :: rest =>
      if c = '/' then "" :: split rest
      else
        match split rest with
        | [] => [String.singleton c]
        | part :: more => (String.singleton c ++ part) :: more

/-- Whether a path starts at the top. -/
def isAbsolute (path : String) : Bool := path.toList.head? == some '/'

/-- A path without the slashes at its end. -/
def trimSlashes (path : String) : String :=
  String.ofList (path.toList.reverse.dropWhile (· == '/')).reverse

/-- Whether a path ends in a slash. -/
def endsInSlash (path : String) : Bool := path.toList.getLast? == some '/'

/-- A path inside a folder; a path that starts at the top stays as it is. -/
def join (folder path : String) : String :=
  if isAbsolute path then path
  else if folder.isEmpty || endsInSlash folder then folder ++ path
  else folder ++ "/" ++ path

/-- A reversed path without the slashes and lone dots that it begins with, the first character
of the path apart. -/
def dropBlankParts : List Char → List Char
  | [] => []
  | ['/'] => ['/']
  | '/' :: c :: rest => dropBlankParts (c :: rest)
  | ['.'] => ['.']
  | '.' :: '/' :: rest => dropBlankParts ('/' :: rest)
  | c :: rest => c :: rest
termination_by path => path.length

/-- The folder that a path names something in; none for the top and for the empty path. -/
def parent? (path : String) : Option String :=
  match dropBlankParts path.toList.reverse with
  | [] | ['/'] => none
  | trimmed => some (String.ofList (dropBlankParts (trimmed.dropWhile (· != '/'))).reverse)

/-- The folder that a path names something in, unless that is where relative paths start. -/
def namedParent? (path : String) : Option String :=
  (parent? path).filter fun parent => !parent.isEmpty

/-- A path and the folders around it, the innermost first, as far as they are named. -/
def ancestors : (fuel : Nat) → String → List String
  | 0, _ => []
  | fuel + 1, path =>
    if path.isEmpty then []
    else
      match parent? path with
      | some parent => path :: ancestors fuel parent
      | none => [path]

/-- A path and all folders around it, the innermost first. -/
def chain (path : String) : List String := ancestors (path.length + 1) path

/-- The last part of a path, if it is the name of something. -/
def name? (path : String) : Option String :=
  let name := String.ofList
    ((dropBlankParts path.toList.reverse).takeWhile (· != '/')).reverse
  if name.isEmpty || name == "." || name == ".." then none else some name

/-- A name before and behind its last dot. A dot at the start divides nothing. -/
def splitName (name : String) : String × Option String :=
  let reversed := name.toList.reverse
  let behind := reversed.takeWhile (· != '.')
  match reversed.drop behind.length with
  | _ :: c :: before =>
    (String.ofList (c :: before).reverse, some (String.ofList behind.reverse))
  | _ => (name, none)

/-- The name at the end of a path without its extension. -/
def stem? (path : String) : Option String :=
  (name? path).map fun name => (splitName name).1

/-- The extension of the name at the end of a path. -/
def extension? (path : String) : Option String :=
  (name? path).bind fun name => (splitName name).2

end StopMotion.Path
