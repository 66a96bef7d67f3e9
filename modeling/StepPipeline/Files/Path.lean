import StepPipeline.Text.Utf8

/-!
# Paths

A path is a text whose pieces stand between slashes. It is read in two ways: by the components it
names, where empty pieces and inner dots do not count, and by the steps of its resolution, where
every dot and a slash at the end ask for a directory.
-/
namespace StepPipeline.Path

/-- The pieces of a text between the slashes. -/
def splitSlash : List Char → List (List Char)
  | [] => [[]]
  | c :: rest =>
    if c = '/' then [] :: splitSlash rest
    else match splitSlash rest with
      | [] => [[c]]
      | piece :: more => (c :: piece) :: more

def pieces (path : String) : List String :=
  (splitSlash path.toList).map String.ofList

def isAbsolute (path : String) : Bool :=
  path.toList.head? = some '/'

inductive Component where
  | root
  /-- A dot at the beginning of a relative path. -/
  | current
  | parent
  | name (s : String)
  deriving DecidableEq, Repr

/-- The component that a piece behind the first one names, if any. -/
def component? (piece : String) : Option Component :=
  if piece = "" ∨ piece = "." then none
  else if piece = ".." then some .parent
  else some (.name piece)

/-- The components that a path names. -/
def components (path : String) : List Component :=
  match pieces path with
  | [] => []
  | first :: rest =>
    let start :=
      if isAbsolute path then [.root]
      else if first = "." then [.current]
      else (component? first).toList
    start ++ rest.filterMap component?

/-- The directions of components that begin nowhere in particular: names and `..`. -/
def directions : List Component → Option (List String)
  | [] => some []
  | .root :: _ => none
  | .current :: rest => directions rest
  | .parent :: rest => (directions rest).map (".." :: ·)
  | .name s :: rest => (directions rest).map (s :: ·)

/-- What `path` has beyond the components of `start`, if it begins with them. -/
def beyond (start : List Component) (path : List Component) : Option (List Component) :=
  if start.isPrefixOf path then some (path.drop start.length) else none

/-- A path as the system resolves it. -/
structure Route where
  absolute : Bool
  steps : List String
  deriving DecidableEq, Repr

/-- The steps of a path; a slash at the end asks for a directory, as a dot does. -/
def steps (path : String) : List String :=
  let named := (pieces path).filter (· ≠ "")
  if path.toList.getLast? = some '/' then named ++ ["."] else named

def route (path : String) : Route :=
  ⟨isAbsolute path, steps path⟩

/-- The path with one more name. -/
def push (path name : String) : String :=
  if isAbsolute name then name
  else if path = "" ∨ path.toList.getLast? = some '/' then path ++ name
  else path ++ "/" ++ name

/-- The path with names behind it. -/
def pushAll (path : String) (names : List String) : String :=
  names.foldl push path

/-- The text of an absolute path in normal form. -/
def ofNames (names : List String) : String :=
  "/" ++ "/".intercalate names

/-- The last component, if it is a name. -/
def fileName? (path : String) : Option String :=
  match (components path).getLast? with
  | some (.name s) => some s
  | _ => none

/-- What follows the last dot of the last name, unless nothing comes before the dot. -/
def extension? (path : String) : Option String :=
  match fileName? path with
  | none => none
  | some name =>
    let back := name.toList.reverse
    let ending := back.takeWhile (· ≠ '.')
    match back.drop ending.length with
    | [] | [_] => none
    | _ => some (String.ofList ending.reverse)

/-- A path in which `~`, alone or before a slash, stands for the home directory, if there is one. -/
def expandHome (home : Option String) (path : String) : String :=
  match home, path.toList with
  | some home, '~' :: rest =>
    if rest.isEmpty ∨ rest.head? = some '/' then home ++ String.ofList rest else path
  | _, _ => path

end StepPipeline.Path
