import StepPipeline.Commit.Identity
import StepPipeline.Json.Reader

/-!
# Settings

The defaults of a user: the identity for commits that name no author, and the stem of the aliases of
steps that have none. The environment wins over the settings file.
-/
namespace StepPipeline

open Document (Record Node Decoder)

/-- The stem of aliases where nothing else is said. -/
def defaultAliasStem : String := "step"

structure Settings where
  identity : Identity
  aliasStem : String
  deriving DecidableEq, Repr

namespace Settings

def builtIn : Settings := ⟨.none, defaultAliasStem⟩

def toJson (s : Settings) : Json :=
  .object [("defaults", .object [
    ("git", .object (Json.optional "authorName" (s.identity.name.map .string)
      ++ Json.optional "authorEmail" (s.identity.email.map .string))),
    ("pipeline", .object [("aliasPrefix", .string s.aliasStem)])])]

def identityRecord : Record Identity where
  title := "struct GitDefaults"
  start := .none
  fields := [
    .of "authorName" .defaulted (.optional Node.text) fun name i => { i with name },
    .of "authorEmail" .defaulted (.optional Node.text) fun email i => { i with email }]

def stemRecord : Record String where
  title := "struct PipelineDefaults"
  start := defaultAliasStem
  fields := [.of "aliasPrefix" .defaulted Node.text fun stem _ => stem]

def defaultsRecord : Record Settings where
  title := "struct Defaults"
  start := builtIn
  fields := [
    .of "git" .defaulted identityRecord.decode fun identity s => { s with identity },
    .of "pipeline" .defaulted stemRecord.decode fun aliasStem s => { s with aliasStem }]

def record : Record Settings where
  title := "struct PromoterConfig"
  start := builtIn
  fields := [.of "defaults" .defaulted defaultsRecord.decode fun settings _ => settings]

def decode : Decoder Settings := record.decode

/-- The environment variables that name the author of commits. -/
def nameVariable : String := "PROMOTER_GIT_AUTHOR_NAME"
def emailVariable : String := "PROMOTER_GIT_AUTHOR_EMAIL"

/-- The settings as the environment overrides them; an empty variable counts as unset. -/
def overriddenBy (s : Settings) (lookup : String → Option String) : Settings :=
  { s with identity :=
    ⟨(nonempty (lookup nameVariable)).or s.identity.name,
      (nonempty (lookup emailVariable)).or s.identity.email⟩ }

end Settings
end StepPipeline
