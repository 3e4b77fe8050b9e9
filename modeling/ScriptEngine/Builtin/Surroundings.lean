import ScriptEngine.Builtin
import ScriptEngine.Builtin.Files
import ScriptEngine.Builtin.Schedule
import ScriptEngine.EnvFile
import ScriptEngine.Store.Coerce
/-!
# Builtins on the script's surroundings
-/

namespace ScriptEngine

namespace Host

/-- Gives a variable of the environment a value. A name must be neither empty nor hold an equals sign,
and neither text a zero byte. -/
def setVariable (h : Host) (name value : Text) : Option Host :=
  if name.isEmpty || name.bytes.any (fun b => b = 0x3D || b = 0) || value.bytes.contains 0 then none
  else some { h with environment := h.environment.filter (·.1 ≠ name) ++ [(name, value)] }

/-- Why variables can not be loaded from a file. -/
inductive LoadTrouble where
  | path (step : Text) (t : FileTree.Trouble)
  | content (t : EnvFile.Trouble)

/-- Loads the variables of a file. Those that are set already stay as they are. -/
def loadVariables (h : Host) (path : Text) : Except LoadTrouble Host := do
  let t ← match h.files.read path with
    | .ok t => pure t
    | .error t => throw (.path (if t = .isDirectory then "read" else "open") t)
  let vars ← match EnvFile.parse t with
    | .ok vars => pure vars
    | .error t => throw (.content t)
  pure (vars.foldl (fun g (name, value) =>
    if (h.environment.lookup name).isSome then g else (g.setVariable name value).getD g) h)

end Host

namespace SystemOp

/-- Runs an operation. -/
def run (op : SystemOp) (args : Args) : Exec Value := do
  match op with
  | .getEnv =>
    let name ← args.text 0
    match (← Exec.host).environment.lookup name with
    | some v => pure (.string v)
    | none => pure (args.value 1)
  | .setEnv =>
    let name ← args.text 0
    match (← Exec.host).setVariable name (← args.text 1) with
    | some h =>
      Exec.onHost fun _ => h
      pure (.bool true)
    | none =>
      throw (Fault.raised Fault.validationError ("setenv " ++ name ++ ": setenv: invalid argument"))
  | .loadEnv =>
    let path ← args.textOr 0 ".env"
    match (← Exec.host).loadVariables path with
    | .ok h =>
      Exec.onHost fun _ => h
      Exec.log .debug "environment loaded" [("path", .text path)]
      pure (.bool true)
    | .error (.path step t) => throw (t.fault "loadenv" path step)
    | .error (.content t) =>
      throw (Fault.raised Fault.ioError ("loadenv " ++ path ++ ": " ++ t.message))
  | .now => do pure (.long (Int64.ofInt (← Exec.host).clock.millis))

end SystemOp

namespace DebugOp

/-- Whether a value is a function. -/
def isFunction : Value → Bool
  | .function _ => true
  | _ => false

/-- The json value of the variables in sight, functions left out. -/
def visibleVariables : Exec Value := do
  let m ← get
  let vars := (m.store.visible m.scope).filter fun (_, v) => !isFunction v
  Exec.onStore do
    let entries ← vars.mapM fun (k, v) => do pure (k, ← StoreM.toNode v)
    StoreM.newBox (← StoreM.normalize (← StoreM.newObject entries))

/-- The units in which memory is measured. -/
def memoryUnit (name : Text) : Text × Float :=
  if name = "KB" then ("KB", 1024.0) else if name = "B" then ("B", 1.0) else ("MB", 1048576.0)

/-- Runs an operation. -/
def run (op : DebugOp) (args : Args) : Exec Value := do
  match op with
  | .vars => visibleVariables
  | .stack =>
    let rows := (← get).calls.reverse.map fun e =>
      Json.object [("kind", .text e.kind), ("line", .int (Int64.ofNat e.line)), ("name", .text e.name)]
    ThreadOp.newJson (.list rows)
  | .log =>
    let level := Log.Level.ofText (← args.textOr 0 "info")
    Exec.log level (← args.text 1) []
    pure (.bool ((← Exec.host).logger.enabled level))
  | .assert =>
    let ok := args.boolOr 0 false
    if !ok then Exec.log .warn (← args.textOr 1 "assertion failed") []
    pure (.bool ok)
  | .assertEquals =>
    let ok ← StoreM.equal (args.value 0) (args.value 1)
    if !ok then
      Exec.log .warn (← args.textOr 2 "assertion failed: expected != actual")
        [("expected", .text (← Exec.inspect (args.value 0))),
          ("actual", .text (← Exec.inspect (args.value 1)))]
    pure (.bool ok)
  | .memUsage =>
    let (unit, size) := memoryUnit (← args.textOr 0 "MB").upper
    let amount (bytes : Float) : Json := .double (bytes / size)
    ThreadOp.newJson (.object [("free", amount 4194304.0), ("max", amount 16777216.0),
      ("total", amount 8388608.0), ("unit", .text unit), ("used", amount 2097152.0)])

end DebugOp

end ScriptEngine
