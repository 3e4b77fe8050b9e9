import ScriptEngine.Builtin.Calendar
import ScriptEngine.Builtin.Document
import ScriptEngine.Builtin.Files
import ScriptEngine.Builtin.Network
import ScriptEngine.Builtin.Number
import ScriptEngine.Builtin.Picture
import ScriptEngine.Builtin.Schedule
import ScriptEngine.Builtin.Secrets
import ScriptEngine.Builtin.Sequence
import ScriptEngine.Builtin.Surroundings
import ScriptEngine.Builtin.Words
/-!
# Calling builtins by name

A call of a builtin finds it by name, makes the arguments fit its contract, and runs it. Names of
plugins lead to the host's functions.
-/

namespace ScriptEngine

namespace Builtin

/-- The fault of a name that no builtin has. -/
def unknown (name : Text) : Fault := Fault.ofClass .internal ("Unknown builtin '" ++ name ++ "'")

/-- Runs a plugin. -/
def callPlugin (p : Plugin) (args : List Value) : Exec Value := do
  let args ← p.signature.prepare args
  let (r, s) := p.run args (← get).store
  modify fun m => { m with store := s }
  match r with
  | .ok v => pure (v.getD .null)
  | .error e => throw (e.toFault Fault.anyError)

/-- Runs a builtin on prepared arguments. `sleep` lets a number of nanoseconds pass. -/
def run (sleep : Nat → Exec Unit) (b : Builtin) (a : Args) : Exec Value :=
  match b with
  | .json op => op.run a
  | .array op => op.run a
  | .queue op => op.run a
  | .date op => op.run a
  | .math op => op.run a
  | .debug op => op.run a
  | .thread op => op.run sleep a
  | .crypto op => op.run a
  | .mail op => op.run a
  | .socket op => op.run a
  | .file op => op.run a
  | .http op => op.run a
  | .image op => op.run a
  | .system op => op.run a
  | .str op => op.run a

/-- Only waiting lets time pass. -/
theorem run_awake {b : Builtin} (awake : b ≠ .thread .sleep) (sleep sleep' : Nat → Exec Unit) (a : Args) :
    b.run sleep a = b.run sleep' a := by
  cases b with
  | thread op =>
    cases op with
    | sleep => exact absurd rfl awake
    | _ => rfl
  | _ => rfl

/-- The contract of a builtin or plugin. -/
def signature? (plugins : Plugins) (name : Text) : Option Signature :=
  let name := name.lower
  if isPluginName name then (plugins.find? name).map (·.signature) else registry.find? name

/-- Calls a builtin or plugin by name. -/
def call (sleep : Nat → Exec Unit) (name : Text) (args : List Value) : Exec Value := do
  let name := name.lower
  if isPluginName name then
    match (← Exec.host).plugins.find? name with
    | some p => callPlugin p args
    | none => throw (unknown name)
  else match find? name with
    | some b => do
      let args ← b.signature.prepare args
      run sleep b ⟨args⟩
    | none => throw (unknown name)

end Builtin

end ScriptEngine
