import StepPipeline.Files.Tree

/-!
# Laying out files

A layout is a list of entries that are made in order below a directory of a file system. Directories
above an entry are made with it; an entry that cannot be made is left out.
-/
namespace StepPipeline
namespace Layout

/-- An entry to be made. -/
inductive Entry where
  | directory (path : String)
  | link (path target : String)
  | file (path : String) (content : Bytes)

/-- Sets what a name of a directory leads to. -/
def setEntry (name : String) (node : FileTree) :
    List (String × FileTree) → List (String × FileTree)
  | [] => [(name, node)]
  | (n, t) :: rest => if name = n then (name, node) :: rest else (n, t) :: setEntry name node rest

/-- Sets what names lead to; the directories above must be there. -/
def setAt (node : FileTree) : List String → FileTree → FileTree
  | [], _ => node
  | name :: rest, .directory entries =>
    match rest, entries.lookup name with
    | [], _ => .directory (setEntry name node entries)
    | _, some child => .directory (setEntry name (setAt node rest child) entries)
    | _, none => .directory entries
  | _, tree => tree

/-- Where the steps lead from `here` if the last one may be missing. -/
def site (root : FileTree) (follow : Bool) (links : Nat) (here : List String) :
    List String → Option (List String)
  | [] => some here
  | step :: rest =>
    match root.at? here with
    | some (.directory entries) =>
      if step = "." then site root follow links here rest
      else if step = ".." then site root follow links here.dropLast rest
      else match entries.lookup step with
        | none =>
          if rest = [] ∧ step.utf8ByteSize ≤ FileTree.nameLimit ∧ !step.toList.contains '\x00' then
            some (here ++ [step])
          else none
        | some (.link target) =>
          if rest = [] ∧ !follow then some (here ++ [step])
          else match links with
            | 0 => none
            | links + 1 =>
              let start := if Path.isAbsolute target then [] else here
              site root follow links start (Path.steps target ++ rest)
        | some _ => site root follow links (here ++ [step]) rest
    | _ => none
termination_by steps => (links, steps.length)

/-- The steps of a path without dots. -/
def namedSteps (path : String) : List String :=
  (Path.pieces path).filter fun piece => piece ≠ "" ∧ piece ≠ "."

/-- Makes the directories `made ++ [step]`, `made ++ [step, next]` and so on. -/
def makeDirectories (root : FileTree) (made : List String) : List String → Option FileTree
  | [] => some root
  | step :: rest =>
    let path := made ++ [step]
    match root.walk true FileTree.linkLimit [] path with
    | .ok names =>
      match root.at? names with
      | some (.directory _) => makeDirectories root path rest
      | _ => none
    | .error _ =>
      match site root false FileTree.linkLimit [] path with
      | some names =>
        if (root.at? names).isSome then none
        else makeDirectories (setAt (.directory []) names root) path rest
      | none => none

/-- Makes a node at a path unless something is in the way. -/
def place (root : FileTree) (path : List String) (follow : Bool) (node : FileTree) : FileTree :=
  match makeDirectories root [] path.dropLast with
  | none => root
  | some root =>
    match site root follow FileTree.linkLimit [] path with
    | none => root
    | some names =>
      match root.at? names, follow with
      | none, _ | some (.file _), true => setAt node names root
      | _, _ => root

/-- Makes an entry below `base`. -/
def make (base : List String) (root : FileTree) (entry : Entry) : FileTree :=
  let below (path : String) := (if Path.isAbsolute path then [] else base) ++ namedSteps path
  match entry with
  | .directory path => (makeDirectories root [] (below path)).getD root
  | .link path target =>
    if target = "" ∨ target.toList.contains '\x00' ∨ FileTree.pathLimit ≤ target.utf8ByteSize then
      (makeDirectories root [] (below path).dropLast).getD root
    else place root (below path) false (.link target)
  | .file path content =>
    if path.toList.getLast? = some '/' then
      (makeDirectories root [] (below path).dropLast).getD root
    else place root (below path) true (.file content)

end Layout

/-- A file system whose current directory is `base`, with the layout below it. -/
def layOut (base : List String) (entries : List Layout.Entry) : FileSystem :=
  let empty := (Layout.makeDirectories (.directory []) [] base).getD (.directory [])
  ⟨entries.foldl (Layout.make base) empty, base⟩

end StepPipeline
