import StepPipeline.Text.Blank

/-!
# Command lines

A command line has options and a command, which has options and arguments of its own. An option that
takes a value takes the rest of its word or the next word; `--` ends the options.
-/
namespace StepPipeline.Command

/-- What a command line asks for. -/
inductive Request where
  /-- Runs the pipeline of a file. -/
  | run (file workDir : String) (aliasStem : Option String)
  /-- Says which steps of a pipeline could be started. -/
  | validate (file : String) (aliasStem : Option String)
  /-- Lists the registered step types, or one of them. -/
  | steps (type : Option String)
  /-- Lists the failure codes, or explains one. -/
  | errors (code : Option String)
  deriving DecidableEq, Repr

structure Invocation where
  /-- The settings file, if one is named. -/
  config : Option String
  request : Request
  deriving DecidableEq, Repr

/-- Why a command line asks for no command. -/
inductive Stop where
  | version
  | help
  | invalid
  deriving DecidableEq, Repr

/-- An option with a value. -/
structure Opt where
  long : String
  short : Option Char

/-- The options that may stand at a place. -/
structure Level where
  options : List Opt
  /-- Whether the version may be asked for here. -/
  version : Bool

/-- The options and arguments found so far. -/
structure Found where
  values : List (String × String)
  arguments : List String
  deriving Repr

/-- Sets an option, which may be set once. -/
def Found.set (found : Found) (name value : String) : Except Stop Found :=
  if (found.values.lookup name).isSome then .error .invalid
  else .ok { found with values := (name, value) :: found.values }

/-- What a word is. -/
inductive Shape where
  | plain
  | ending
  /-- A long option, perhaps with a value. -/
  | long (name : String) (value : Option String)
  /-- One or more short options. -/
  | short (letters : List Char)
  deriving DecidableEq, Repr

def shapeOf (word : String) : Shape :=
  match word.toList with
  | ['-', '-'] => .ending
  | '-' :: '-' :: rest =>
    let name := rest.takeWhile (· ≠ '=')
    match rest.drop name.length with
    | _ :: value => .long (String.ofList name) (some (String.ofList value))
    | [] => .long (String.ofList name) none
  | '-' :: c :: rest => .short (c :: rest)
  | _ => .plain

/-- The value that is written behind a short option in its word. -/
def attached : List Char → Option String
  | [] => none
  | '=' :: rest => some (String.ofList rest)
  | rest => some (String.ofList rest)

/-- What a word with options asks for: the option that is set or awaits its value. -/
def Level.option (level : Level) : Shape → Except Stop (String × Option String)
  | .long name value =>
    if level.options.any (·.long = name) then .ok (name, value)
    else if name = "help" ∧ value = none then .error .help
    else if name = "version" ∧ level.version ∧ value = none then .error .version
    else .error .invalid
  | .short (c :: rest) =>
    match level.options.find? (·.short = some c) with
    | some opt => .ok (opt.long, attached rest)
    | none =>
      if c = 'h' then .error .help
      else if c = 'V' ∧ level.version then .error .version
      else .error .invalid
  | _ => .error .invalid

/-- Reads the words of a level up to the first argument that is a command, if `commands` says so. No
command takes more than one argument. -/
def Level.read (level : Level) (commands : Bool) (found : Found) :
    List String → Except Stop (Found × List String)
  | [] => .ok (found, [])
  | word :: rest =>
    match shapeOf word with
    | .plain =>
      if commands then .ok (found, word :: rest)
      else if found.arguments.isEmpty then
        level.read commands { found with arguments := [word] } rest
      else .error .invalid
    | .ending =>
      if commands then .error .invalid
      else .ok ({ found with arguments := found.arguments ++ rest }, [])
    | shape =>
      match level.option shape with
      | .error stop => .error stop
      | .ok (name, some value) => do level.read commands (← found.set name value) rest
      | .ok (name, none) =>
        match rest with
        | [] => .error .invalid
        | value :: rest =>
          if shapeOf value = .plain then do level.read commands (← found.set name value) rest
          else .error .invalid

def configOption : Opt := ⟨"config", none⟩

def topLevel : Level := ⟨[configOption], true⟩

def stemOption : Opt := ⟨"alias-prefix", none⟩

/-- The options of a command. -/
def levelOf (command : String) : Option Level :=
  match command with
  | "run" => some ⟨[configOption, ⟨"work-dir", some 'w'⟩, stemOption], false⟩
  | "validate" => some ⟨[configOption, stemOption], false⟩
  | "steps" | "errors" => some ⟨[configOption], false⟩
  | _ => none

def requestOf (command : String) (found : Found) : Except Stop Request :=
  let stem := found.values.lookup "alias-prefix"
  match command, found.arguments with
  | "run", [file] => .ok (.run file ((found.values.lookup "work-dir").getD ".") stem)
  | "validate", [file] => .ok (.validate file stem)
  | "steps", [] => .ok (.steps none)
  | "steps", [type] => .ok (.steps (some type))
  | "errors", [] => .ok (.errors none)
  | "errors", [code] => .ok (.errors (some code))
  | _, _ => .error .invalid

/-- Whether help can be had on the commands that words name one below the other. -/
def isHelpTopic : List String → Bool
  | [] => true
  | "help" :: rest => isHelpTopic rest
  | [command] => (levelOf command).isSome
  | _ => false

/-- Reads a command line. A settings file named behind the command counts before one named before
it. -/
def parse (args : List String) : Except Stop Invocation := do
  let (top, rest) ← topLevel.read true ⟨[], []⟩ args
  match rest with
  | [] => .error .invalid
  | "help" :: topic => .error (if isHelpTopic topic then .help else .invalid)
  | command :: rest =>
    match levelOf command with
    | none => .error .invalid
    | some level =>
      let (found, _) ← level.read false ⟨[], []⟩ rest
      let request ← requestOf command found
      return ⟨(found.values.lookup "config").or (top.values.lookup "config"), request⟩

end StepPipeline.Command
