import StepPipeline.Commit.Identity
import StepPipeline.Pipeline.State

/-!
# Configuration of the commit step, and its message
-/
namespace StepPipeline

/-- What to commit, and how. -/
structure CommitConfig where
  /-- The working tree, relative to the working directory of the run. -/
  path : String
  message : Option String
  /-- Aliases of earlier steps whose outputs make up the message. -/
  messageFromSteps : List String
  author : Option Identity
  deriving DecidableEq, Repr, Inhabited

namespace CommitConfig

def toJson (config : CommitConfig) : Json :=
  .object ([("path", .string config.path)]
    ++ Json.optional "message" (config.message.map .string)
    ++ Json.unlessEmpty "messageFromSteps" (config.messageFromSteps.map .string)
    ++ Json.optional "author" (config.author.map Identity.toJson))

def record : Document.Record CommitConfig where
  title := "struct GitCommitConfig"
  start := ⟨"", none, [], none⟩
  fields := [
    .of "path" .required Document.Node.text fun path c => { c with path },
    .of "message" .defaulted (.optional Document.Node.text) fun message c => { c with message },
    .of "messageFromSteps" .defaulted (.list Document.Node.text)
      fun messageFromSteps c => { c with messageFromSteps },
    .of "author" .defaulted (.optional Identity.decode) fun author c => { c with author }]

def decode : Document.Decoder CommitConfig := record.decode

end CommitConfig

/-- The field of a step's output that contributes to a commit message. -/
def messageField : String := "commitMessage"

/-- The message of a commit that no step describes. -/
def fallbackMessage : String := "Promoter made some changes"

/-- A single description is the message; several are listed. -/
def composeMessage : List String → String
  | [] => fallbackMessage
  | [only] => only
  | parts =>
    parts.foldl (fun text part => text ++ "\n  * " ++ part)
      "Promoter applied multiple changes\n\nIncluding:\n"

/-- The descriptions that the outputs of the given steps hold, in order; a step without an output or
without a description is skipped. -/
def descriptions (state : State) : List String → Except Failure (List String)
  | [] => .ok []
  | aliasName :: rest => do
    let part ← state.text aliasName messageField
    return part.toList ++ (← descriptions state rest)

/-- The message of a commit: the literal one unless it is empty, else composed from the outputs. -/
def commitMessage (state : State) (config : CommitConfig) : Except Failure String :=
  match nonempty config.message with
  | some message => .ok message
  | none => (descriptions state config.messageFromSteps).map composeMessage

end StepPipeline
