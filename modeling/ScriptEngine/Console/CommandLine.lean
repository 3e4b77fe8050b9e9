import ScriptEngine.Duration
import ScriptEngine.Host.FileTree
import ScriptEngine.Text.Letter
import ScriptEngine.Text.Quoted
/-!
# The command line

A command line names a command, gives flags anywhere, and gives the command its argument. A flag is written
`--name=value` or `--name value`; behind `--` there are no flags.
-/

namespace ScriptEngine

namespace Console

/-! ## Commands and options -/

/-- What the program is asked to do. -/
inductive Command where
  /-- Runs a script and then its timers, for at most a number of nanoseconds if that is positive. -/
  | run (file : Text) (wait : Int)
  /-- Runs code and prints its value. -/
  | eval (code : Text)
  /-- Reads and runs statements until the input ends. -/
  | repl (history : Text)
  /-- Prints the tokens of a script. -/
  | tokens (file : Text)
  /-- Prints the program that a script spells. -/
  | ast (file : Text)
  /-- Prints which functions a script defines and which builtins it calls. -/
  | inspect (file : Text)
  /-- Prints the builtins that fit a query, or all. -/
  | builtins (query : Text)
  /-- Prints the release. -/
  | version

/-- What flags may say; an empty text means that nothing was said. -/
structure Options where
  config : Text := ""
  envFile : Text := ""
  logLevel : Text := ""
  logFormat : Text := ""
  profile : Text := ""
  wait : Int := 0
  history : Text := ""

/-- A flag: what its value is called in messages and in the help, what it is for, and how its value is taken. -/
structure Flag where
  name : Text
  sort : Text
  placeholder : Text
  help : Text
  put : FileTree → Text → Options → Except Text Options

/-- The argument of a command. -/
structure Argument where
  name : Text
  isFile : Bool
  isRequired : Bool
  help : Text

/-- A command as the command line knows it. -/
structure CommandForm where
  name : Text
  help : Text
  argument : Option Argument
  flags : List Flag
  make : Text → Options → Command

/-- A flag whose value is a path. -/
def Flag.path (name placeholder help : Text) (put : Text → Options → Options) : Flag :=
  ⟨name, "file", placeholder, help, fun files t o =>
    .ok (put (if t = "-" then t else files.expanded t) o)⟩

/-- A flag whose value is a text. -/
def Flag.text (name placeholder help : Text) (put : Text → Options → Options) : Flag :=
  ⟨name, "string", placeholder, help, fun _ t o => .ok (put t o)⟩

/-- A flag whose value is a span of time. -/
def Flag.duration (name placeholder help : Text) (put : Int → Options → Options) : Flag :=
  ⟨name, "duration", placeholder, help, fun _ t o =>
    match Duration.parse t with
    | .ok d => .ok (put d o)
    | .error e => .error ("expected duration but got " ++ t.quoted ++ ": " ++ e.message)⟩

/-- The ways in which a run can be measured. -/
def profiles : List Text := ["block", "cpu", "goroutine", "mem", "mutex", "trace"]

/-- The flags of every command. -/
def commonFlags : List Flag := [
  .path "config" "FILE" "YAML configuration file" fun t o => { o with config := t },
  .path "env-file" "FILE" ".env file loaded before the process environment" fun t o =>
    { o with envFile := t },
  .text "log-level" "LEVEL" "Log level: debug, info, warn or error" fun t o => { o with logLevel := t },
  .text "log-format" "FORMAT" "Log format: text, json or pretty" fun t o => { o with logFormat := t },
  .text "profile" "KIND" ("Write a profile of the given kind (" ++ Text.join ", " profiles ++ ")") fun t o =>
    { o with profile := t }]

/-- The argument that names a script. -/
def scriptArgument (help : Text) : Argument := ⟨"file", true, true, help⟩

/-- Every command. -/
def commands : List CommandForm := [
  ⟨"run", "Run a script and its timers", some (scriptArgument "Script to run"),
    [.duration "wait" "0s" "Stop the timer loop after this long; zero waits until no timer runs" fun d o =>
      { o with wait := d }],
    fun file o => .run file o.wait⟩,
  ⟨"eval", "Evaluate code and print the result", some ⟨"code", false, true, "Code to evaluate"⟩, [],
    fun code _ => .eval code⟩,
  ⟨"repl", "Start an interactive session", none,
    [.text "history" "FILE" "History file; empty disables history" fun t o => { o with history := t }],
    fun _ o => .repl o.history⟩,
  ⟨"tokens", "Print the token stream of a script", some (scriptArgument "Script to tokenize"), [],
    fun file _ => .tokens file⟩,
  ⟨"ast", "Print the syntax tree of a script", some (scriptArgument "Script to parse"), [],
    fun file _ => .ast file⟩,
  ⟨"inspect", "Summarize the functions and builtin calls of a script",
    some (scriptArgument "Script to inspect"), [], fun file _ => .inspect file⟩,
  ⟨"builtins", "List builtins, fuzzy-filtered by an optional query",
    some ⟨"query", false, false, "Fuzzy filter, e.g. 'tmrstrt'"⟩, [], fun query _ => .builtins query⟩,
  ⟨"version", "Print build metadata", none, [], fun _ _ => .version⟩]

/-! ## Near misses -/

/-- One row of the table of distances between the beginnings of two words: the row for one more character `c`
of the first word, given the row before. -/
def distanceRow (c : Char) : Nat → List Char → List Nat → List Nat
  | left, d :: ds, diagonal :: above :: row =>
    let here := min (min (above + 1) (left + 1)) (if c = d then diagonal else diagonal + 1)
    here :: distanceRow c here ds (above :: row)
  | _, _, _ => []

/-- The least number of characters to insert, delete or change between two words. -/
def distance (a b : List Char) : Nat :=
  let rows := a.foldl (fun (row : List Nat) c =>
    let first := row.headD 0 + 1
    first :: distanceRow c first b row) (List.range (b.length + 1))
  rows.getLastD 0

/-- A message with the words that may have been meant: those that begin with the given word or are almost the
same. -/
def didYouMean (message word : Text) (candidates : List Text) : Text :=
  let near := candidates.filter fun c => c.startsWith word || distance c.chars word.chars ≤ 2
  match near with
  | [] => message
  | [c] => message ++ ", did you mean " ++ c.quoted ++ "?"
  | cs => message ++ ", did you mean one of " ++ Text.join ", " (cs.map Text.quoted) ++ "?"

/-! ## Reading -/

/-- What a command line asks for. -/
inductive Request where
  | help (command : Option CommandForm)
  | act (options : Options) (command : Command)

/-- What has been read of a command line. -/
structure Reading where
  options : Options
  command : Option CommandForm := none
  argument : Option Text := none
  isHelp : Bool := false

/-- An argument as messages show it. -/
def Argument.label (a : Argument) : Text :=
  if a.isRequired then "<" ++ a.name ++ ">" else "[<" ++ a.name ++ ">]"

/-- The argument that a word gives; one that names a script must be the path of a file. -/
def Argument.take (a : Argument) (files : FileTree) (w : Text) : Except Text Text :=
  if !a.isFile || w = "-" then .ok w
  else
    let path := files.expanded w
    match files.stat path with
    | .ok (.file _) => .ok path
    | .ok .directory => .error (a.label ++ ": " ++ path.quoted ++ " exists but is a directory")
    | .error t => .error (a.label ++ ": stat " ++ path ++ ": " ++ t.message)

/-- Takes a word that belongs to no flag: the command, or its argument. -/
def Reading.place (r : Reading) (files : FileTree) (w : Text) : Except Text Reading :=
  match r.command with
  | none =>
    match commands.find? (·.name = w) with
    | some c => .ok { r with command := some c }
    | none => .error (didYouMean ("unexpected argument " ++ w) w (commands.map (·.name)))
  | some c =>
    match c.argument, r.argument with
    | some a, none => (a.take files w).map fun t => { r with argument := some t }
    | _, _ => .error ("unexpected argument " ++ w)

/-- The flags that may stand where reading has come to. -/
def Reading.flags (r : Reading) : List Flag := commonFlags ++ (r.command.map (·.flags)).getD []

/-- The message about a flag that is not known. -/
def Reading.unknownFlag (r : Reading) (written : Text) : Text :=
  didYouMean ("unknown flag " ++ written) written
    ("--help" :: "-h" :: r.flags.map fun f => "--" ++ f.name)

/-- Takes the value of a flag. -/
def Reading.put (r : Reading) (files : FileTree) (f : Flag) (value : Text) : Except Text Reading :=
  match f.put files value r.options with
  | .ok o => .ok { r with options := o }
  | .error e => .error ("--" ++ f.name ++ ": " ++ e)

/-- The message about a flag without a value, given what comes in its place. -/
def Flag.noValue (f : Flag) (next : Option Text) : Text :=
  let label := "--" ++ f.name
  let expected := label ++ ": expected " ++ f.sort ++ " value but got "
  match next with
  | none => expected ++ "\"EOL\" (<EOL>)"
  | some w =>
    let sort : Text := if w.startsWith "--" then "long flag" else "short flag"
    expected ++ w.quoted ++ " (" ++ sort ++ "); perhaps try " ++ label ++ "=" ++ w.quoted ++ "?"

/-- Takes the flag that calls for help; a value must be a truth value, but either one calls for help. -/
def Reading.askHelp (r : Reading) (value : Option Text) : Except Text Reading :=
  match value.map Text.lower with
  | none => .ok { r with isHelp := true }
  | some v =>
    let truths : List Text := ["true", "1", "yes", "false", "0", "no"]
    if truths.contains v then .ok { r with isHelp := true }
    else .error ("--help: bool value must be true, 1, yes, false, 0 or no but got " ++ v.quoted)

/-- Whether a word is no flag. -/
def isPlain (w : Text) : Bool := w = "-" || !w.startsWith "-"

/-- Reads words one after the other; `ended` tells that no flags come any more. -/
def Reading.words (files : FileTree) (ended : Bool) (r : Reading) (ws : List Text) : Except Text Reading :=
  match ws with
  | [] => .ok r
  | w :: rest =>
    if ended || isPlain w then
      match r.place files w with
      | .ok r => Reading.words files ended r rest
      | .error e => .error e
    else if w = "--" then Reading.words files true r rest
    else if w.startsWith "--" then
      let (name, value) := match (w.drop 2).cut? "=" with
        | some (name, value) => (name, some value)
        | none => (w.drop 2, none)
      if name = "help" then
        match r.askHelp value with
        | .ok r => Reading.words files ended r rest
        | .error e => .error e
      else match r.flags.find? (·.name = name) with
        | none => .error (r.unknownFlag ("--" ++ name))
        | some f =>
          match value with
          | some v =>
            match r.put files f v with
            | .ok r => Reading.words files ended r rest
            | .error e => .error e
          | none =>
            match rest with
            | [] => .error (f.noValue none)
            | v :: after =>
              if isPlain v then
                match r.put files f v with
                | .ok r => Reading.words files ended r after
                | .error e => .error e
              else .error (f.noValue (some v))
    else
      match (w.bytes.drop 1).find? (· ≠ 0x68) with
      | none => Reading.words files ended { r with isHelp := true } rest
      | some b => .error (r.unknownFlag ("-" ++ Text.ofByte b))
termination_by ws.length

/-- The most words that a message lists. -/
def maxListed : Nat := 5

/-- The message about what is missing. -/
def expected (labels : List Text) : Text :=
  let shown := (labels.take maxListed).map Text.quoted
  let shown := if labels.length > maxListed then shown ++ [("..." : Text)] else shown
  match shown with
  | [one] => "expected " ++ one
  | all => "expected one of " ++ Text.join ",  " all

/-- What the words of a command line ask for. -/
def Request.read (files : FileTree) (history : Text) (ws : List Text) : Except Text Request := do
  let r ← Reading.words files false { options := { history := history } } ws
  if r.isHelp then return .help r.command
  match r.command with
  | none => throw (expected (commands.map (·.name)))
  | some c =>
    match c.argument, r.argument with
    | some a, none =>
      if a.isRequired then throw (expected [a.label])
      return .act r.options (c.make "" r.options)
    | _, given => return .act r.options (c.make (given.getD "") r.options)

end Console

end ScriptEngine
