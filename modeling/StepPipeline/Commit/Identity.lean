import StepPipeline.Document.Decode

/-!
# Commit identities

A name and an e-mail address; either may be absent, and an empty one counts as absent.
-/
namespace StepPipeline

structure Identity where
  name : Option String
  email : Option String
  deriving DecidableEq, Repr, Inhabited

/-- The text, unless it is absent or empty. -/
def nonempty (text : Option String) : Option String :=
  text.filter (· ≠ "")

namespace Identity

def none : Identity := ⟨.none, .none⟩

def isEmpty (identity : Identity) : Bool :=
  (nonempty identity.name).isNone && (nonempty identity.email).isNone

def toJson (identity : Identity) : Json :=
  .object (Json.optional "name" (identity.name.map .string)
    ++ Json.optional "email" (identity.email.map .string))

def record : Document.Record Identity where
  title := "struct GitUser"
  start := .none
  fields := [
    .of "name" .defaulted (.optional Document.Node.text) fun name i => { i with name },
    .of "email" .defaulted (.optional Document.Node.text) fun email i => { i with email }]

def decode : Document.Decoder Identity := record.decode

end Identity
end StepPipeline
