import ScriptEngine.Host.FileTree
import ScriptEngine.Plugin
import ScriptEngine.Timer
/-!
# The world around a script

Everything outside of memory that a script reads and changes: what it printed and logged, files, web
servers and sockets, the environment, timers, plugins and the clock.
-/

namespace ScriptEngine

/-- Open things, each under a name made of a mark and a number. -/
structure Handles (α : Type) where
  mark : Text
  next : Nat
  items : List (Text × α)
deriving Inhabited

namespace Handles

variable {α : Type}

/-- No open things. -/
def none (mark : Text) : Handles α := ⟨mark, 1, []⟩

/-- Adds a thing and gives its name. -/
def add (h : Handles α) (x : α) : Text × Handles α :=
  let name := h.mark ++ "#" ++ toString h.next
  (name, { h with next := h.next + 1, items := h.items ++ [(name, x)] })

/-- The thing with a name. -/
def get (h : Handles α) (name : Text) : Except Fault α :=
  match h.items.lookup name with
  | some x => .ok x
  | Option.none =>
    if name.startsWith (h.mark ++ "#") then
      .error (Fault.raised Fault.notFoundError (h.mark ++ " handle " ++ name ++ " is not open"))
    else
      .error (Fault.raised Fault.validationError (name.quoted ++ " is not a " ++ h.mark ++ " handle"))

/-- Replaces the thing with a name. -/
def set (h : Handles α) (name : Text) (x : α) : Handles α :=
  { h with items := h.items.map fun (n, y) => if n = name then (n, x) else (n, y) }

/-- Takes out the thing with a name. -/
def remove (h : Handles α) (name : Text) : Option α × Handles α :=
  (h.items.lookup name, { h with items := h.items.filter (·.1 ≠ name) })

/-- Takes out all things. -/
def clear (h : Handles α) : Handles α := { h with items := [] }

end Handles

/-- How a file was opened. -/
inductive OpenFile.Mode where
  | read | write | append | both
deriving DecidableEq

/-- An open file. What was read ahead and not yet given out, and what was written and not yet stored,
are kept here; both share one place in the file. -/
structure OpenFile where
  path : Text
  modeName : Text
  mode : OpenFile.Mode
  /-- The content's number; `none` for a directory. -/
  content : Option Nat
  offset : Nat
  ahead : List UInt8
  behind : List UInt8

/-- A connection to a peer: the messages to be read, and whether the peer has hung up. -/
structure Socket where
  url : Text
  incoming : List Text
  connected : Bool

/-- An answer of a web server. -/
structure Web.Response where
  status : Nat
  body : Text
deriving Inhabited

/-- A request to a web server. -/
structure Web.Request where
  method : Text
  url : Text
  headers : List (Text × Text)
  body : Text
deriving Inhabited

/-- The web servers in reach: an answer for each method and address. Requests made are kept, latest
first. -/
structure Web where
  routes : List (Text × Web.Response)
  seen : List Web.Request
deriving Inhabited

/-- How mail is sent. -/
structure MailSettings where
  host : Text
  port : Int
  username : Text
  password : Text
  sender : Text
deriving Inhabited

/-- The world around a script. -/
structure Host where
  /-- What was printed, latest first. -/
  output : List Text
  logger : Logger
  /-- The lines that were logged, latest first. -/
  journal : List Text
  files : FileTree
  openFiles : Handles OpenFile
  sockets : Handles Socket
  environment : List (Text × Text)
  web : Web
  mail : MailSettings
  timers : Scheduler
  plugins : Plugins
  platform : Platform
  /-- The time that scripts are told. -/
  clock : Date
  /-- The time by which timers are made and tokens run out. -/
  wallClock : Date
  /-- The state of the source of random numbers. -/
  seed : UInt64
  /-- The script that runs. -/
  source : Text
  /-- Why the script must stop, if it must. -/
  cancelled : Option Text
  /-- The time of the scheduler at which the script must stop. -/
  deadline : Option Nat

namespace Host

/-- A host with nothing in it. -/
def initial (clock : Date) (logger : Logger) : Host where
  output := []
  logger := logger
  journal := []
  files := FileTree.empty "."
  openFiles := Handles.none "file"
  sockets := Handles.none "ws"
  environment := []
  web := ⟨[], []⟩
  mail := ⟨"", 0, "", "", ""⟩
  timers := Scheduler.make 0 (-1)
  plugins := Plugins.none
  platform := .standard
  clock := clock
  wallClock := clock
  seed := 0
  source := ""
  cancelled := none
  deadline := none

/-- Writes a record to the log. -/
def log (h : Host) (r : Log.Record) : Host :=
  let line := h.logger.line h.clock r
  if line.isEmpty then h else { h with journal := line :: h.journal }

/-- Writes the events of the timers to the log. -/
def logTimers (h : Host) : Host :=
  let (events, timers) := h.timers.drain
  events.foldl log { h with timers := timers }

/-- Why the script must stop now, if it must. -/
def interruption? (h : Host) : Option Text :=
  match h.cancelled with
  | some why => some why
  | none =>
    match h.deadline with
    | some d => if d ≤ h.timers.now then some "context deadline exceeded" else none
    | none => none

/-- A random number, and the host with the source of random numbers moved on. The state goes through
all 64-bit numbers, and is mixed to give the number. -/
def random (h : Host) : UInt64 × Host :=
  let seed := h.seed + 0x9E3779B97F4A7C15
  let a := (seed ^^^ (seed >>> 30)) * 0xBF58476D1CE4E5B9
  let b := (a ^^^ (a >>> 27)) * 0x94D049BB133111EB
  (b ^^^ (b >>> 31), { h with seed := seed })

/-- All that was printed. -/
def printed (h : Host) : Text := Text.concat h.output.reverse

/-- All that was logged. -/
def logged (h : Host) : Text := Text.concat h.journal.reverse

end Host

end ScriptEngine
