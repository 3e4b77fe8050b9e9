import ScriptEngine.Eval.Statement
/-!
# Running scripts
-/

namespace ScriptEngine

namespace Eval

/-- One level of running: parts inside a part are left to `rec`, and `fuel` bounds the rounds of
loops. -/
def step (fuel : Nat) (rec : Runner) : Runner
  | .expr e => expression rec e
  | .stmt s => statement rec fuel s
  | .sleep span => do waitUntil rec fuel ((← Exec.host).timers.now + span)

/-- Runs a part of a program. Fuel bounds the nesting of parts and the rounds of loops. -/
def run : Nat → Runner
  | 0 => fun _ => Exec.noFuel
  | fuel + 1 => step fuel (run fuel)

end Eval

/-- How running a source text ends. -/
inductive RunResult where
  | left (flow : Flow)
  | faults (fs : List Fault)
  | crashed (why : Text)
  | outOfFuel

namespace Machine

/-- The signatures that calls in a source text are checked against. -/
def catalog (m : Machine) : Catalog := ⟨Builtin.registry, m.host.plugins.registry⟩

/-- Runs a program that was read. The name of its source is in use meanwhile. -/
def runProgram (fuel : Nat) (source : Text) (p : Program) (m : Machine) : RunResult × Machine :=
  let old := m.host.source
  let setSource (t : Text) (m : Machine) : Machine := { m with host := { m.host with source := t } }
  let x := Eval.program (Eval.run fuel) p
  let x := if source.isEmpty then x else Exec.within (setSource source) (setSource old) x
  match x m with
  | .done f m => (.left f, m)
  | .failed f m => (.faults [f], m)
  | .crashed why m => (.crashed why, m)
  | .outOfFuel => (.outOfFuel, m)

/-- Reads and runs a source text. A text with faults is not run. -/
def runSource (fuel : Nat) (text source : Text) (m : Machine) : RunResult × Machine :=
  match Program.parse m.catalog text with
  | (p, []) => m.runProgram fuel source p
  | (_, fs) => (.faults fs, m)

/-- Runs the callbacks of the ticks in wait and tells how many there were. -/
def pump (fuel : Nat) : Exec Nat := Eval.pump (Eval.run fuel)

/-- One round of running timers: ends when no timer runs or the time has come. -/
def loopRound (fuel : Nat) (deadline : Nat) : Exec (Option Bool) := do
  let s := (← Exec.host).timers
  if s.running = 0 then
    let _ ← pump fuel
    pure (some true)
  else if deadline ≤ s.now then pure (some false)
  else
    match ← Eval.takeTick with
    | some t =>
      Eval.runTick (Eval.run fuel) t
      pure none
    | none =>
      Eval.passTime deadline
      pure none

/-- Runs timers until none is left, which gives `true`, or for a number of nanoseconds. -/
def runLoop (fuel : Nat) (span : Nat) : Exec Bool := fun m =>
  let deadline := m.host.timers.now + span
  let setDeadline (d : Option Nat) (m : Machine) : Machine :=
    { m with host := { m.host with deadline := d } }
  Exec.within (setDeadline (some deadline)) (setDeadline m.host.deadline)
    (Eval.rounds (loopRound fuel deadline) fuel) m

/-- A machine that has run nothing. -/
def initial (host : Host) (maxDepth : Nat) (importDir : Text) : Machine where
  store := { Store.initial with platform := host.platform }
  scope := Scope.initial
  host := host
  depth := 0
  calls := []
  imported := []
  owners := []
  maxDepth := maxDepth
  importDir := importDir

/-- Stops all timers for good and lets go of all files and connections. -/
def close (m : Machine) : Machine :=
  let released := m.host.release
  { m with host := { released with timers := released.timers.close } }

end Machine

end ScriptEngine
