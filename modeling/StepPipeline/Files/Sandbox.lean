import StepPipeline.Failure.Basic
import StepPipeline.Files.Tree

/-!
# Paths inside a sandbox

A relative path is joined onto a root so that the result cannot leave the root, neither by `..` nor
through a link. Links inside the root are followed on the way; the result names no link.
-/
namespace StepPipeline.Sandbox

/-- The directions from the root to the target of an absolute link, if it begins with the root as it
is given or in its canonical form. -/
def insideRoot (fs : FileSystem) (root target : String) : Option (List String) :=
  match Path.beyond (Path.components root) (Path.components target) with
  | some rest => Path.directions rest
  | none =>
    match fs.canonicalize root with
    | .ok names =>
      (Path.beyond (.root :: names.map .name) (Path.components target)).bind Path.directions
    | .error _ => none

/-- The names below the root to which `pending` directions lead from the names `resolved`, or none
if they leave the root or follow more than `links` links. -/
def follow (fs : FileSystem) (root : String) (links : Nat) (resolved : List String) :
    (pending : List String) → Option (List String)
  | [] => some resolved
  | step :: rest =>
    if step = ".." then
      match resolved with
      | [] => none
      | _ :: _ => follow fs root links resolved.dropLast rest
    else match fs.linkTarget? (Path.pushAll root (resolved ++ [step])) with
      | none => follow fs root links (resolved ++ [step]) rest
      | some target =>
        match links with
        | 0 => none
        | links + 1 =>
          if Path.isAbsolute target then
            match insideRoot fs root target with
            | none => none
            | some steps => follow fs root links [] (steps ++ rest)
          else
            match Path.directions (Path.components target) with
            | none => none
            | some steps => follow fs root links resolved (steps ++ rest)
termination_by pending => (links, pending.length)

/-- The names below the root to which a relative path leads. -/
def names (fs : FileSystem) (root relative : String) : Option (List String) :=
  (Path.directions (Path.components relative)).bind (follow fs root FileTree.linkLimit [])

/-- Joins a relative path onto a root, inside the root. -/
def join (fs : FileSystem) (root relative : String) : Except Failure String :=
  match names fs root relative with
  | some names => .ok (Path.pushAll root names)
  | none => .error (.of (.pathEscape root relative))

end StepPipeline.Sandbox
