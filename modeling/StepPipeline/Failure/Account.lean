import StepPipeline.Failure.Envelope

/-!
# What is told of a failure

A failure is told by a code, a message, details, hints, and whether a retry can help. A cause gives
all of these; but an account can also be made up of any code, with any message and any details.
-/
namespace StepPipeline

@[ext]
structure Account where
  code : Code
  message : String
  details : Json
  hints : List String
  retryable : Option Bool

namespace Account

/-- An account without hints, in which nothing is known about a retry. -/
def new (code : Code) (message : String) (details : Json) : Account :=
  ⟨code, message, details, [], none⟩

/-- The account as one of an operation. -/
def within (a : Account) (operation : String) : Account :=
  { a with message := operation ++ ": " ++ a.message }

/-- The account with one more hint. -/
def advise (a : Account) (hint : String) : Account :=
  { a with hints := a.hints ++ [hint] }

/-- The account, with what is known about a retry. -/
def mark (a : Account) (retryable : Option Bool) : Account :=
  { a with retryable }

/-- The account as a document. -/
def toJson (a : Account) : Json :=
  .object ([("code", .string a.code.name), ("message", .string a.message), ("details", a.details)]
    ++ Json.unlessEmpty "hints" (a.hints.map .hint)
    ++ Json.optional "retryable" (a.retryable.map .bool))

/-- The envelope in which the account is printed. -/
def envelope (a : Account) : Json :=
  .object [("success", .bool false), ("error", a.toJson)]

end Account

/-- The account of a failure. -/
def Failure.account (f : Failure) : Account :=
  ⟨f.code, f.message, f.details, f.hints, f.retryable⟩

namespace Failure

@[simp] theorem envelope_account (f : Failure) :
    f.account.envelope = (Envelope.failure f).toJson := rfl

@[simp] theorem account_within (f : Failure) (operation : String) :
    (f.within operation).account = f.account.within operation := rfl

@[simp] theorem account_advise (f : Failure) (hint : String) :
    (f.advise hint).account = f.account.advise hint := by
  simp only [account, Account.advise, hints_advise]
  rfl

end Failure
end StepPipeline
