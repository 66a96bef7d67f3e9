import StepPipeline.Process.Command

/-!
# A small shell

Enough of the common shell to rehearse commands: words with quotes and variables, lists and
pipelines, redirections, and a handful of everyday programs. Nothing is read from the terminal, and
waiting takes no time. The program itself starts no shell.
-/
namespace StepPipeline.Rehearsal.Shell

/-! ## Words -/

/-- A part of a word. The value of a variable outside quotes is split at blanks. -/
inductive Piece where
  | text (s : List Char)
  | variable (name : String) (quoted : Bool)
  deriving Repr

abbrev Word := List Piece

inductive Lexeme where
  | word (w : Word)
  | mark (s : String)
  deriving Repr

def isNameChar (c : Char) : Bool := c.isAlphanum || c = '_'

/-- The variable that follows a dollar sign, and the rest. -/
def readVariable (quoted : Bool) (cs : List Char) : Piece × List Char :=
  match cs with
  | '\x7b' :: rest =>
    (.variable (String.ofList (rest.takeWhile (· ≠ '\x7d'))) quoted,
      (rest.dropWhile (· ≠ '\x7d')).drop 1)
  | c :: rest =>
    if c.isDigit ∨ "$?#@*".toList.contains c then
      (.variable (String.ofList [c]) quoted, rest)
    else if isNameChar c then
      (.variable (String.ofList (cs.takeWhile isNameChar)) quoted, cs.dropWhile isNameChar)
    else (.text ['$'], cs)
  | [] => (.text ['$'], [])

/-- Reads a text between double quotes. -/
def readDouble : (limit : Nat) → List Char → Word × List Char
  | 0, cs => ([], cs)
  | _ + 1, [] => ([], [])
  | limit + 1, c :: rest =>
    if c = '"' then ([.text []], rest)
    else if c = '$' then
      let (piece, rest) := readVariable true rest
      let (more, rest) := readDouble limit rest
      (piece :: more, rest)
    else
      let (here, rest) := match c, rest with
        | '\\', d :: rest => (if "\\\"$\x60".toList.contains d then [d] else ['\\', d], rest)
        | _, _ => ([c], rest)
      let (more, rest) := readDouble limit rest
      (.text here :: more, rest)

def isMark (c : Char) : Bool := ";&|<>\n".toList.contains c

/-- Reads a word. -/
def readWord : (limit : Nat) → List Char → Word × List Char
  | 0, cs => ([], cs)
  | _ + 1, [] => ([], [])
  | limit + 1, c :: rest =>
    if c = ' ' ∨ c = '\t' ∨ isMark c then ([], c :: rest)
    else
      let (here, rest) := match c, rest with
        | '\'', rest =>
          ([Piece.text (rest.takeWhile (· ≠ '\''))], (rest.dropWhile (· ≠ '\'')).drop 1)
        | '"', rest => readDouble (rest.length + 1) rest
        | '$', rest => let (piece, rest) := readVariable false rest; ([piece], rest)
        | '\\', d :: rest => ([.text [d]], rest)
        | c, rest => ([.text [c]], rest)
      let (more, rest) := readWord limit rest
      (here ++ more, rest)

def lex : (limit : Nat) → List Char → List Lexeme
  | 0, _ => []
  | limit + 1, cs =>
    match cs with
    | [] => []
    | '#' :: rest => lex limit (rest.dropWhile (· ≠ '\n'))
    | '\n' :: rest => .mark ";" :: lex limit rest
    | '&' :: '&' :: rest => .mark "&&" :: lex limit rest
    | '|' :: '|' :: rest => .mark "||" :: lex limit rest
    | '2' :: '>' :: '&' :: '1' :: rest => .mark "2>&1" :: lex limit rest
    | '2' :: '>' :: rest => .mark "2>" :: lex limit rest
    | '1' :: '>' :: '&' :: '2' :: rest => .mark ">&2" :: lex limit rest
    | '>' :: '&' :: '2' :: rest => .mark ">&2" :: lex limit rest
    | '>' :: '>' :: rest => .mark ">>" :: lex limit rest
    | '1' :: '>' :: rest => .mark ">" :: lex limit rest
    | '>' :: rest => .mark ">" :: lex limit rest
    | '<' :: rest => .mark "<" :: lex limit rest
    | ';' :: rest => .mark ";" :: lex limit rest
    | '&' :: rest => .mark ";" :: lex limit rest
    | '|' :: rest => .mark "|" :: lex limit rest
    | c :: rest =>
      if c = ' ' ∨ c = '\t' then lex limit rest
      else
        let (w, rest) := readWord (cs.length + 1) cs
        .word w :: lex limit rest

/-! ## Running -/

structure Session where
  files : FileSystem
  /-- The physical directory. -/
  directory : List String
  env : List (String × String)
  /-- Files written so far. -/
  written : List (List String × Bytes)
  stdout : Bytes
  stderr : Bytes
  /-- The exit code of the last command. -/
  code : Nat
  /-- How the session ended, if it has. -/
  ended : Option ExitStatus

/-- The value of a variable, empty if it is not set. -/
def Session.value (s : Session) (name : String) : String :=
  if name = "?" then toString s.code
  else if name = "$" then "4711"
  else if name = "PWD" then Path.ofNames s.directory
  else (s.env.lookup name).getD ""

/-- What the shell says when it cannot do something. -/
def Session.complaint (s : Session) (text : String) : Bytes :=
  Utf8.encode ((s.env.lookup "0").getD "sh" ++ ": 1: " ++ text ++ "\n")

/-- The fields that a word expands to. -/
def expand (s : Session) (w : Word) : List String :=
  let split := w.foldl (fun (fields, current) piece =>
    match piece with
    | Piece.text t => (fields, some (current.getD [] ++ t))
    | .variable name true => (fields, some (current.getD [] ++ (s.value name).toList))
    | .variable name false =>
      (s.value name).toList.foldl (fun (fields, current) c =>
        if c = ' ' ∨ c = '\t' ∨ c = '\n' then (fields ++ current.toList, none)
        else (fields, some (current.getD [] ++ [c]))) (fields, current))
    (([] : List (List Char)), (none : Option (List Char)))
  (split.1 ++ split.2.toList).map String.ofList

/-- What a program writes, its exit code, and how the session ends if it does. -/
structure Result where
  out : Bytes
  err : Bytes
  code : Nat
  ended : Option ExitStatus

def Result.text (s : String) : Result := ⟨Utf8.encode s, [], 0, none⟩

def Result.done (code : Nat) : Result := ⟨[], [], code, none⟩

/-- The octets of a format with its escapes; `args` fill the places for them. -/
def format : (limit : Nat) → List Char → List String → Bytes
  | 0, _, _ => []
  | limit + 1, cs, args =>
    match cs with
    | [] => []
    | '%' :: 's' :: rest | '%' :: 'd' :: rest =>
      Utf8.encode (args.headD "") ++ format limit rest (args.drop 1)
    | '%' :: '%' :: rest => 0x25 :: format limit rest args
    | '\\' :: c :: rest =>
      let octal := ((c :: rest).take 3).takeWhile fun d => '0' ≤ d ∧ d ≤ '7'
      if octal.isEmpty then
        let here : Bytes := match c with
          | 'n' => [0x0A]
          | 't' => [0x09]
          | 'r' => [0x0D]
          | 'a' => [0x07]
          | 'b' => [0x08]
          | 'f' => [0x0C]
          | 'v' => [0x0B]
          | '\\' => [0x5C]
          | c => Utf8.encode (String.ofList ['\\', c])
        here ++ format limit rest args
      else
        (octal.foldl (fun n (d : Char) => n * 8 + (d.toNat - 0x30)) 0).toUInt8
          :: format limit ((c :: rest).drop octal.length) args
    | c :: rest => Utf8.encodeChar c ++ format limit rest args

/-- The places for arguments in a format. -/
def holes : List Char → Nat
  | '%' :: '%' :: rest => holes rest
  | '%' :: rest => holes rest + 1
  | _ :: rest => holes rest
  | [] => 0

/-- A format that is used again while arguments are left. -/
def formatAll (f : List Char) : (limit : Nat) → List String → Bytes
  | 0, _ => []
  | limit + 1, args =>
    let rest := args.drop (holes f)
    format (f.length + 1) f args
      ++ if holes f = 0 ∨ rest.isEmpty then [] else formatAll f limit rest

/-- The signals by name. -/
def signals : List (String × Nat) :=
  [("HUP", 1), ("INT", 2), ("QUIT", 3), ("ILL", 4), ("ABRT", 6), ("FPE", 8), ("KILL", 9),
    ("USR1", 10), ("SEGV", 11), ("USR2", 12), ("PIPE", 13), ("ALRM", 14), ("TERM", 15)]

def signalOf (arg : String) : Nat :=
  let name := String.ofList (arg.toList.dropWhile (· = '-'))
  (name.toNat?).getD ((signals.lookup name).getD 15)

/-- The content of a file, if there is one. -/
def Session.read? (s : Session) (path : String) : Option Bytes :=
  if path = "/dev/null" then some []
  else
    match s.files.canonicalize path with
    | .ok names =>
      (s.written.lookup names).or (match s.files.root.at? names with
        | some (.file content) => some content
        | _ => none)
    | .error _ => s.written.lookup (s.directory ++ [path])

/-- The first `count` octets of a file or of the input. -/
def headOf (s : Session) (count : Nat) (input : Bytes) : Option String → Bytes
  | some "/dev/zero" => List.replicate count 0
  | some path => ((s.read? path).getD []).take count
  | none => input.take count

/-- The octet that an argument names. -/
def octetOf (arg : String) : UInt8 :=
  ((format (arg.length + 1) arg.toList []).head?).getD 0

/-- Runs a program of the shell; none if it is not known. -/
def program (s : Session) (name : String) (args : List String) (input : Bytes) : Option Result :=
  match name, args with
  | ":", _ | "true", _ | "sleep", _ => some (.done 0)
  | "false", _ => some (.done 1)
  | "echo", "-n" :: args => some (.text (" ".intercalate args))
  | "echo", args => some (.text (" ".intercalate args ++ "\n"))
  | "printenv", [name] => some (match s.env.lookup name with
      | some value => .text (value ++ "\n")
      | none => .done 1)
  | "trap", _ => some (.done 0)
  | "test", ["-n", x] => some (.done (if x = "" then 1 else 0))
  | "test", ["-z", x] => some (.done (if x = "" then 0 else 1))
  | "test", ["-d", x] => some (.done (if s.files.isDirectory x then 0 else 1))
  | "test", ["-e", x] => some (.done (if (s.read? x).isSome ∨ s.files.isPresent x then 0 else 1))
  | "test", ["-f", x] => some (.done (if (s.read? x).isSome then 0 else 1))
  | "test", [x, "=", y] => some (.done (if x = y then 0 else 1))
  | "test", [x, "!=", y] => some (.done (if x = y then 1 else 0))
  | "printf", f :: args => some ⟨formatAll f.toList (args.length + 1) args, [], 0, none⟩
  | "pwd", _ => some (.text (Path.ofNames s.directory ++ "\n"))
  | "exit", args =>
    let code := ((args.head?.bind String.toNat?).getD s.code) % 256
    some ⟨[], [], code, some (.exited code)⟩
  | "kill", [pid] => some (if pid = "4711" then ⟨[], [], 0, some (.killed 15)⟩ else .done 1)
  | "kill", "-s" :: sig :: _ => some ⟨[], [], 0, some (.killed (signalOf sig))⟩
  | "kill", sig :: _ => some ⟨[], [], 0, some (.killed (signalOf sig))⟩
  | "cat", [] => some ⟨input, [], 0, none⟩
  | "cat", paths => some (paths.foldl (fun r path =>
      if path = "-" then { r with out := r.out ++ input }
      else match s.read? path with
        | some content => { r with out := r.out ++ content }
        | none =>
          let reason := if s.files.isDirectory path then "Is a directory"
            else "No such file or directory"
          { r with err := r.err ++ Utf8.encode ("cat: " ++ path ++ ": " ++ reason ++ "\n"), code := 1 })
        (.done 0))
  | "head", "-c" :: n :: rest =>
    some ⟨headOf s (n.toNat?.getD 0) input rest.head?, [], 0, none⟩
  | "tr", [old, new] =>
    let old := octetOf old
    let new := octetOf new
    some ⟨input.map fun b => if b = old then new else b, [], 0, none⟩
  | "wc", ["-c"] => some (.text (toString input.length ++ "\n"))
  | _, _ => none

/-- Where a stream of a command goes. -/
inductive Sink where
  | stdout
  | stderr
  | file (path : String)
  deriving DecidableEq, Repr

structure Command where
  words : List String
  out : Sink
  err : Sink
  input : Option String

/-- A command with the redirection that a mark and the word behind it make. -/
def Command.redirect (c : Command) (mark path : String) : Command :=
  match mark with
  | "2>" => { c with err := .file path }
  | "<" => { c with input := some path }
  | _ => { c with out := .file path }

/-- Reads a simple command with its redirections. -/
def command (s : Session) (c : Command) : List Lexeme → Command
  | [] => c
  | .word w :: rest => command s { c with words := c.words ++ expand s w } rest
  | .mark ">&2" :: rest => command s { c with out := .stderr } rest
  | .mark "2>&1" :: rest => command s { c with err := c.out } rest
  | .mark m :: .word w :: rest => command s (c.redirect m ((expand s w).headD "")) rest
  | .mark _ :: rest => command s c rest

/-- The names of a file that is written. -/
def target (s : Session) (path : String) : List String :=
  let named := (Path.pieces path).filter fun p => p ≠ "" ∧ p ≠ "."
  if Path.isAbsolute path then named else s.directory ++ named

/-- Sends octets to a sink; what goes to the standard output is returned. -/
def send (s : Session) (sink : Sink) (bytes : Bytes) : Session × Bytes :=
  match sink with
  | .stdout => (s, bytes)
  | .stderr => ({ s with stderr := s.stderr ++ bytes }, [])
  | .file "/dev/null" => (s, [])
  | .file path =>
    let names := target s path
    ({ s with written := (names, (s.written.lookup names).getD [] ++ bytes) :: s.written }, [])

/-- A variable set by a word of the form `name=value`. -/
def assignment? (word : String) : Option (String × String) :=
  let name := word.toList.takeWhile isNameChar
  match word.toList.drop name.length with
  | '=' :: value => if name.isEmpty then none else some (String.ofList name, String.ofList value)
  | _ => none

/-- The commands that the shell carries out itself. Its `echo` knows the escapes of formats. -/
def builtin? (s : Session) : (name : String) → (args : List String) → Option (Session × Result)
  | "cd", [path] =>
    match s.files.canonicalize path, s.files.isDirectory path with
    | .ok names, true =>
      some ({ s with directory := names, files := { s.files with current := names } }, .done 0)
    | _, _ => some (s, ⟨[], s.complaint ("cd: can't cd to " ++ path), 2, none⟩)
  | "touch", paths => some (paths.foldl (fun s path => (send s (.file path) []).1) s, .done 0)
  | "export", words => some ({ s with env := words.filterMap assignment? ++ s.env }, .done 0)
  | "echo", args =>
    let (args, ending) := match args with
      | "-n" :: args => (args, "")
      | args => (args, "\n")
    let line := (" ".intercalate args).toList.flatMap fun c => if c = '%' then ['%', '%'] else [c]
    some (s, ⟨format (line.length + 1) line [] ++ Utf8.encode ending, [], 0, none⟩)
  | _, _ => none

/-- The words of a command with `[` for `test`, and without `exec`. -/
def plainWords : List String → List String
  | "exec" :: rest => rest
  | "[" :: rest => "test" :: rest.dropLast
  | words => words

/-- Runs a simple command on an input. Returns what goes on to the next one. -/
def runSimple (s : Session) (lexemes : List Lexeme) (input : Bytes) : Session × Bytes :=
  let c := command s ⟨[], .stdout, .stderr, none⟩ lexemes
  let input := match c.input with
    | some path => (s.read? path).getD []
    | none => input
  let (s, result) := match plainWords c.words with
    | [] => (s, Result.done 0)
    | name :: args =>
      match assignment? name with
      | some binding => ({ s with env := binding :: s.env }, Result.done 0)
      | none =>
        let unknown : Result := ⟨[], s.complaint (name ++ ": not found"), 127, none⟩
        (builtin? s name args).getD (s, (program s name args input).getD unknown)
  let ended := match c.words, result.ended with
    | "exec" :: _ :: _, none => some (ExitStatus.exited result.code)
    | _, ended => ended
  let s := { s with code := result.code, ended }
  let (s, out) := send s c.out result.out
  let (s, err) := send s c.err result.err
  (s, out ++ err)

/-- The parts of a list between the marks that satisfy `p`, each with the mark before it. -/
def parts (p : String → Bool) (before : String) (acc : List Lexeme) :
    List Lexeme → List (String × List Lexeme)
  | [] => [(before, acc.reverse)]
  | .mark m :: rest =>
    if p m then (before, acc.reverse) :: parts p m [] rest else parts p before (.mark m :: acc) rest
  | lexeme :: rest => parts p before (lexeme :: acc) rest

def runPipeline (s : Session) (lexemes : List Lexeme) : Session :=
  let stages := (parts (· = "|") "" [] lexemes).map (·.2)
  let (s, out) := stages.foldl (fun (s, input) stage =>
    let (next, out) := runSimple s stage input
    (if stages.length = 1 then next else { next with ended := none }, out)) (s, ([] : Bytes))
  { s with stdout := s.stdout ++ out }

def runList (s : Session) : List (String × List Lexeme) → Session
  | [] => s
  | (mark, lexemes) :: rest =>
    if s.ended.isSome then s
    else
      let skipped := lexemes.isEmpty || (mark = "&&" && s.code ≠ 0) || (mark = "||" && s.code = 0)
      runList (if skipped then s else runPipeline s lexemes) rest

/-- The parameters of a script: its name, and its arguments by number and together. -/
def parameters (args : List String) : List (String × String) :=
  let together := " ".intercalate (args.drop 1)
  (args.headD "sh" :: args.drop 1).mapIdx (fun i arg => (toString i, arg))
    ++ [("#", toString (args.length - 1)), ("@", together), ("*", together)]

/-- Runs a script. -/
def run (s : Session) (script : String) : Session :=
  runList s (parts (fun m => m = ";" || m = "&&" || m = "||") ";" []
    (lex (script.length + 1) script.toList))

end StepPipeline.Rehearsal.Shell
