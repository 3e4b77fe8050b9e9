import ScriptEngine.Console.CommandLine
import ScriptEngine.Console.Conversation
import ScriptEngine.Console.Help
import ScriptEngine.Console.Summary
import ScriptEngine.Settings
import ScriptEngine.Suggestion
/-!
# Sessions

A session runs one command line on a host: it reads the command line, loads the settings, and runs the command.
-/

namespace ScriptEngine

namespace Console

/-- What a session leaves behind: the host with all that was printed, what was written beside that, why the
session failed, and whether it ended by showing help. -/
structure Report where
  host : Host
  errors : Text := ""
  failure : Option Failure := none
  isHelp : Bool := false

/-- The depth of calls when the settings give none. -/
def defaultDepth : Nat := 512

/-- A machine with the settings of a session. Imports are looked for beside the script unless the settings name a
directory. -/
def machine (s : Settings) (h : Host) (source : Text) : Machine :=
  let dir := if s.importDir.isEmpty || s.importDir = "." then FileName.directory source else s.importDir
  let depth := if s.maxCallDepth > 0 then s.maxCallDepth.toNat else defaultDepth
  let h := { h with
    mail := s.mail
    timers := Scheduler.make s.maxTimers s.tickBuffer
    logger := ⟨.ofText s.logLevel, .ofText s.logFormat, h.logger.timeLayout, []⟩
    source := source }
  Machine.initial h depth dir

/-- The text of a script. -/
def script (h : Host) (path : Text) : Except Failure Text :=
  match h.files.read path with
  | .ok t => .ok t
  | .error t => .error (.plain ["read script: open " ++ path ++ ": " ++ t.message])

/-- The host with something printed. -/
def say (t : Text) (h : Host) : Host := { h with output := t :: h.output }

/-- The report of a machine that has done its work. -/
def closed (m : Machine) (failure : Option Failure) : Report := { host := m.close.host, failure := failure }

/-- The report of a failure. -/
def failed (h : Host) (f : Failure) : Report := { host := h, failure := some f }

/-- The line of a token: its place, its kind and its text. -/
def tokenLine (t : Token) : Text :=
  let line : Text := toString t.line
  Text.replicate (4 - line.length) " " ++ line ++ ":" ++ padded 3 (toString t.column) ++ " "
    ++ padded 10 t.kind.name ++ " " ++ t.literal.quoted ++ "\n"

/-- Reads a script as a program. -/
def program (s : Settings) (h : Host) (file : Text) : Except Failure Program := do
  let text ← script h file
  match Program.parse (machine s h file).catalog text with
  | (p, []) => return p
  | (_, fs) => throw (.script fs)

/-- The time for which timers run when no end is set: longer than any clock lasts. -/
def noEnd : Nat := 2 ^ 63 * 2 ^ 63

/-- Runs a script and then its timers. -/
def runScript (fuel : Nat) (s : Settings) (h : Host) (file : Text) (wait : Int) : Report :=
  match script h file with
  | .error f => failed h f
  | .ok text =>
    match (machine s h file).runSource fuel text file with
    | (.faults fs, m) => closed m (some (.script fs))
    | (.crashed why, m) => closed m (some (.crash why))
    | (_, m) =>
      match m.runLoop fuel (if wait > 0 then wait.toNat else noEnd) with
      | .done _ m | .failed _ m => closed m none
      | .crashed why m => closed m (some (.crash why))
      | .outOfFuel => closed m none

/-- Runs code and prints its value. -/
def runCode (fuel : Nat) (s : Settings) (h : Host) (code : Text) : Report :=
  match (machine s h "eval").runSource fuel code "eval" with
  | (.faults fs, m) => closed m (some (.script fs))
  | (.left f, m) => closed (tellResult f m) none
  | (.crashed why, m) => closed m (some (.crash why))
  | (.outOfFuel, m) => closed m none

/-- Talks over the lines of an input. Inputs are kept in a file, if one is named. -/
def runConversation (fuel : Nat) (s : Settings) (h : Host) (history input : Text) : Report :=
  let old := if history.isEmpty then [] else
    match h.files.read history with
    | .ok t => earlierInputs t
    | .error _ => []
  let c := (Conversation.start old (machine s h "repl")).talk fuel ((inputPieces input).map (·.text))
  let h := c.machine.close.host
  let h := if history.isEmpty then h else
    match h.files.write history (Text.concat (c.history.reverse.map (· ++ "\n"))) with
    | .ok files => { h with files := files }
    | .error _ => h
  { host := h, errors := c.errors, failure := c.crash.map .crash }

/-- Prints the tokens of a script. -/
def showTokens (h : Host) (file : Text) : Report :=
  match script h file with
  | .error f => failed h f
  | .ok text =>
    let (tokens, faults) := Token.scan text
    let shown := tokens.takeWhile (·.kind ≠ .eof)
    { host := say (Text.concat (shown.map tokenLine)) h
      failure := if faults.isEmpty then none else some (.plain (faults.map LexFault.describe)) }

/-- Prints the builtins that fit a query, or all. -/
def showBuiltins (h : Host) (query : Text) : Report :=
  let names := Builtin.registry.names
  let found := if query.isEmpty then names else Ranking.find query.lower names
  if found.isEmpty then failed h (.plain ["no builtin matches " ++ query.quoted])
  else
    let lines := (found.filterMap Builtin.registry.find?).map Signature.describe
    { host := say (Text.concat (lines.map (· ++ "\n"))) h }

/-- Runs a command with some settings; `input` is what a conversation reads. -/
def Command.perform (fuel : Nat) (s : Settings) (h : Host) (input : Text) : Command → Report
  | .run file wait => runScript fuel s h file wait
  | .eval code => runCode fuel s h code
  | .repl history => runConversation fuel s h history input
  | .tokens file => showTokens h file
  | .ast file =>
    match program s h file with
    | .ok p => { host := say (p.render ++ "\n") h }
    | .error f => failed h f
  | .inspect file =>
    match program s h file with
    | .ok p => { host := say (Summary.ofProgram p).render h }
    | .error f => failed h f
  | .builtins query => showBuiltins h query
  | .version => { host := say Release.current.report h }

/-- The name of the file in which conversations are kept when no other is named. -/
def historyName : Text := ".ebs_history"

/-- The path of that file, in the home directory of the user. -/
def historyPath (h : Host) : Text :=
  match Json.lookup "HOME" h.environment with
  | some home => if home.isEmpty then "" else FileName.join [home, historyName]
  | none => ""

/-- Runs a command line on a host; `input` is what a conversation reads. -/
def run (fuel : Nat) (h : Host) (input : Text) (words : List Text) : Report :=
  match Request.read h.files (historyPath h) words with
  | .error e => failed h (.plain [e])
  | .ok (.help c) => { host := say (help c) h, isHelp := true }
  | .ok (.act o command) =>
    match Settings.load h o.config o.envFile with
    | .error t => failed h (.plain [t.message])
    | .ok (s, h) =>
      let s := { s with
        logLevel := if o.logLevel.isEmpty then s.logLevel else o.logLevel
        logFormat := if o.logFormat.isEmpty then s.logFormat else o.logFormat }
      if !o.profile.isEmpty && !profiles.contains o.profile then
        failed h (.plain ["unknown profile kind " ++ o.profile.quoted])
      else command.perform fuel s h input

end Console

end ScriptEngine
