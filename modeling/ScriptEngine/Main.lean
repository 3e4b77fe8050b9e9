import ScriptEngine.Console.Session
import Std.Time.DateTime.Timestamp
/-!
# The program

The outermost layer: it gathers the files that a command line and the scripts on it name, runs the command line on
them, and puts back what was changed.
-/

namespace ScriptEngine

namespace Outer

/-- More fuel than any run uses up. -/
def fuel : Nat := 1000000000000

/-- Reads a file into a tree, if there is one. -/
def gather (files : FileTree) (path : Text) : IO FileTree := do
  if path.isEmpty || (files.stat path).isOk then return files
  try
    let bytes ← IO.FS.readBinFile path.toString
    let path := if path.startsWith (files.root ++ "/") then path.drop (files.root.size + 1) else path
    return files.place path ⟨bytes.toList⟩
  catch _ => return files

/-- The paths that a script may name: its string literals, seen from here and from its own directory. -/
def namedIn (path content : Text) : List Text :=
  let texts := ((Token.scan content).1.filter fun t => t.kind = .string).map (·.literal)
  texts ++ texts.map fun t => FileName.join [FileName.directory path, t]

/-- Reads files and the files named in them into a tree, to a depth. -/
def gatherAll : Nat → FileTree → List Text → IO FileTree
  | 0, files, _ => return files
  | depth + 1, files, paths => do
    let mut found := files
    let mut named : List Text := []
    for path in paths do
      if !(found.stat path).isOk then
        found ← gather found path
        if let .ok content := found.read path then named := named ++ namedIn path content
    if named.isEmpty then return found else gatherAll depth found named

/-- The words of a command line that may be paths. -/
def pathsIn (words : List Text) : List Text :=
  words.flatMap fun w => match w.cut? "=" with
    | some (_, value) => [w, value]
    | none => [w]

/-- The variables that the settings and the scripts may ask for. -/
def variableNames : List String :=
  ["HOME", "EBS_LOG_LEVEL", "EBS_LOG_FORMAT", "EBS_IMPORT_DIR", "SMTP_HOST", "SMTP_USER", "SMTP_PASS",
    "SMTP_FROM", "EBS_MAX_TIMERS", "EBS_MAX_DEPTH", "SMTP_PORT"]

/-- The values of variables. -/
def environment : IO (List (Text × Text)) := do
  let mut found := []
  for name in variableNames do
    if let some value ← IO.getEnv name then
      found := found ++ [(Text.ofString name, Text.ofString value)]
  return found

/-- Writes the files that are not as they were, and removes those that are gone. -/
def putBack (before after : FileTree) : IO Unit := do
  for (path, content) in after.files do
    if before.read path |>.toOption |>.all (· ≠ content) then
      IO.FS.writeBinFile path.toString ⟨content.bytes.toArray⟩
  for (path, _) in before.files do
    if !(after.stat path).isOk then IO.FS.removeFile path.toString

/-- Writes a text as it is. -/
def write (stream : IO.FS.Stream) (t : Text) : IO Unit := do
  stream.write ⟨t.bytes.toArray⟩
  stream.flush

/-- Whether a command line may start a conversation. -/
def readsInput (words : List Text) : Bool := words.any fun w => w == Text.ofString "repl"

end Outer

end ScriptEngine

open ScriptEngine in
/-- Runs the command line. -/
def main (args : List String) : IO UInt32 := do
  let words := args.map Text.ofString
  let root := Text.ofString (← IO.currentDir).toString
  let files ← Outer.gatherAll 8 (FileTree.empty root) (Outer.pathsIn words)
  let now : Date := ⟨(← Std.Time.Timestamp.now).toSecondsSinceUnixEpoch.val, 0, Zone.utc⟩
  let logger : Logger := ⟨.info, .pretty, Text.ofString "", []⟩
  let host := { Host.initial now logger with files := files, environment := ← Outer.environment }
  let input ← if Outer.readsInput words then (← IO.getStdin).readToEnd else pure ""
  let report := Console.run Outer.fuel host (Text.ofString input) words
  Outer.write (← IO.getStdout) report.host.printed
  let stderr ← IO.getStderr
  Outer.write stderr report.host.logged
  Outer.write stderr report.errors
  Outer.putBack files report.host.files
  match report.failure with
  | none => return 0
  | some f =>
    Outer.write stderr f.render
    return 1
