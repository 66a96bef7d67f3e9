import StepPipeline.Files.Path

/-!
# File trees and their resolution

A file system is a tree of directories, files and symbolic links, with a current directory. Paths
are resolved step by step, as the kernel does: links are followed where they are met, `..` is the
directory above the one reached so far, and no more than forty links are followed.
-/
namespace StepPipeline

inductive FileTree where
  | file (content : Bytes)
  | link (target : String)
  | directory (entries : List (String × FileTree))
  deriving Inhabited

inductive FileError where
  | notFound
  | permissionDenied
  | notDirectory
  | isDirectory
  | nameTooLong
  | tooManyLinks
  /-- A path that holds a NUL. -/
  | nulInPath
  /-- A file that is no text. -/
  | notText
  deriving DecidableEq, Repr

def FileError.message : FileError → String
  | notFound => "No such file or directory (os error 2)"
  | permissionDenied => "Permission denied (os error 13)"
  | notDirectory => "Not a directory (os error 20)"
  | isDirectory => "Is a directory (os error 21)"
  | nameTooLong => "File name too long (os error 36)"
  | tooManyLinks => "Too many levels of symbolic links (os error 40)"
  | nulInPath => "file name contained an unexpected NUL byte"
  | notText => "stream did not contain valid UTF-8"

namespace FileTree

def child? : FileTree → String → Option FileTree
  | directory entries, name => entries.lookup name
  | _, _ => none

/-- What the names lead to, without following links. -/
def at? (tree : FileTree) : List String → Option FileTree
  | [] => some tree
  | name :: rest => (tree.child? name).bind (·.at? rest)

/-- The octets that a name may have. -/
def nameLimit : Nat := 255

/-- The octets that a path must stay below. -/
def pathLimit : Nat := 4096

/-- The links that one resolution may follow. -/
def linkLimit : Nat := 40

/-- Where the steps lead from `here`. The last link is followed only if `follow`. -/
def walk (root : FileTree) (follow : Bool) (links : Nat) (here : List String) :
    List String → Except FileError (List String)
  | [] => .ok here
  | step :: rest =>
    match root.at? here with
    | some (.directory entries) =>
      if step = "." then walk root follow links here rest
      else if step = ".." then walk root follow links here.dropLast rest
      else match entries.lookup step with
        | none => .error (if nameLimit < step.utf8ByteSize then .nameTooLong else .notFound)
        | some (.link target) =>
          if rest = [] ∧ !follow then .ok (here ++ [step])
          else match links with
            | 0 => .error .tooManyLinks
            | links + 1 =>
              let start := if Path.isAbsolute target then [] else here
              walk root follow links start (Path.steps target ++ rest)
        | some _ => walk root follow links (here ++ [step]) rest
    | some _ => .error .notDirectory
    | none => .error .notFound
termination_by steps => (links, steps.length)

/-- The places that a walk from `here` comes by, links and what is not there among them. Links are
followed. -/
def visits (root : FileTree) (links : Nat) (here : List String) : List String → List (List String)
  | [] => []
  | step :: rest =>
    match root.at? here with
    | some (.directory entries) =>
      if step = "." then visits root links here rest
      else if step = ".." then visits root links here.dropLast rest
      else (here ++ [step]) ::
        match entries.lookup step with
        | none => []
        | some (.link target) =>
          match links with
          | 0 => []
          | links + 1 =>
            visits root links (if Path.isAbsolute target then [] else here)
              (Path.steps target ++ rest)
        | some _ => visits root links (here ++ [step]) rest
    | _ => []
termination_by steps => (links, steps.length)

/-- Whether the path to a place is too long for the system. -/
def tooFar (place : List String) : Bool :=
  pathLimit ≤ (Path.ofNames place).utf8ByteSize

end FileTree

structure FileSystem where
  root : FileTree
  /-- The names that lead to the current directory. -/
  current : List String

namespace FileSystem

def walk (fs : FileSystem) (follow : Bool) (r : Path.Route) : Except FileError (List String) :=
  fs.root.walk follow FileTree.linkLimit (if r.absolute then [] else fs.current) r.steps

/-- Where a path leads. The system refuses a path that holds a NUL, is empty or is too long. -/
def locate (fs : FileSystem) (follow : Bool) (path : String) : Except FileError (List String) :=
  if path.toList.contains '\x00' then .error .nulInPath
  else if path = "" then .error .notFound
  else if FileTree.pathLimit ≤ path.utf8ByteSize then .error .nameTooLong
  else fs.walk follow (Path.route path)

/-- The names that lead to what a path means. -/
def resolve (fs : FileSystem) (path : String) : Except FileError (List String) :=
  fs.locate true path

/-- What a path means. -/
def get (fs : FileSystem) (path : String) : Except FileError FileTree := do
  match fs.root.at? (← fs.resolve path) with
  | some tree => return tree
  | none => .error .notFound

/-- Whether a path means anything. -/
def isPresent (fs : FileSystem) (path : String) : Bool :=
  match fs.get path with
  | .ok _ => true
  | .error _ => false

def isDirectory (fs : FileSystem) (path : String) : Bool :=
  match fs.get path with
  | .ok (.directory _) => true
  | _ => false

/-- Where the resolution of a path begins. -/
def start (fs : FileSystem) (path : String) : List String :=
  if Path.isAbsolute path then [] else fs.current

/-- The places that the resolution of a path comes by. -/
def visits (fs : FileSystem) (path : String) : List (List String) :=
  fs.root.visits FileTree.linkLimit (fs.start path) (Path.steps path)

/-- The path to what a path means, in normal form and without links. On the way each place is looked
at by the path to it, so none of them may be too far. -/
def canonicalize (fs : FileSystem) (path : String) : Except FileError (List String) :=
  match fs.resolve path with
  | .error .nulInPath => .error .nulInPath
  | found => if (fs.visits path).any FileTree.tooFar then .error .nameTooLong else found

/-- The text of a file. -/
def readText (fs : FileSystem) (path : String) : Except FileError String := do
  match ← fs.get path with
  | .file content =>
    match Utf8.decode? content with
    | some text => return text
    | none => .error .notText
  | .directory _ => .error .isDirectory
  | .link _ => .error .tooManyLinks

/-- The target of the link that a path names, if it names one. -/
def linkTarget? (fs : FileSystem) (path : String) : Option String :=
  match fs.locate false path with
  | .ok names =>
    match fs.root.at? names with
    | some (.link target) => some target
    | _ => none
  | .error _ => none

end FileSystem

/-- A world with files. -/
class Filed (ω : Type) where
  files : ω → FileSystem

end StepPipeline
