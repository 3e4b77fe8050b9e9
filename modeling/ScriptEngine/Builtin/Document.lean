import ScriptEngine.Builtin
import ScriptEngine.Builtin.Arguments
import ScriptEngine.Store.Path
import ScriptEngine.Store.Sequence
import ScriptEngine.Store.Shared
import ScriptEngine.Yaml.Writer
/-!
# Builtins on json values
-/

namespace ScriptEngine

/-- The tree of json data. -/
def Exec.tree (n : Node) : Exec Json := do pure ((← get).store.tree n)

namespace JsonOp

/-- The json value that an argument is, as an address; other values are put into a fresh one. -/
def target (args : Args) (i : Nat) : Exec Nat := do
  match args.value i with
  | .json b => pure b
  | v =>
    match ← Exec.onStore do StoreM.newBox (← StoreM.toNode v) with
    | .json b => pure b
    | _ => pure 0

/-- What is at the path that the second argument gives. -/
def found (args : Args) : Exec (Option Node) := do
  let n ← args.node 0
  let path ← args.text 1
  pure ((← Exec.store).pathGet? n path)

/-- What is at a path as a value of a kind; a missing one or null gives way to the third argument, and
that to the zero of the kind. -/
def typed (kind : Kind) (args : Args) : Exec Value := do
  let fallback : Exec Value :=
    if args.isNull 2 then pure (.zero kind) else Exec.onStore (StoreM.coerce (args.value 2) kind)
  match ← found args with
  | none => fallback
  | some .null => fallback
  | some n => do
    let v ← StoreM.ofNode n
    match kind, v with
    | .int, .long n =>
      throw (Fault.wrongType
        ("value " ++ ToString.toString n.toInt ++ " at " ++ (← args.text 1).quoted ++ " does not fit in int"))
    | .string, .string t => pure (.string t)
    | .string, v => do pure (.string (← Exec.inspect v))
    | kind, v => StoreM.coerce v kind

/-- Adds an item to a json list; null counts as an empty one. -/
def addItem (box : Nat) (v : Value) : Exec Unit := do
  match (← Exec.store).box box with
  | .list b len => do
    let n ← StoreM.toNode v
    Exec.onStore do StoreM.setBox box (← StoreM.append b len n)
  | .null => do
    let n ← StoreM.toNode v
    Exec.onStore do StoreM.setBox box (← StoreM.newList [n])
  | _ => throw (Fault.wrongType "json.add needs a json list")

/-- Runs an operation. -/
def run (op : JsonOp) (args : Args) : Exec Value := do
  match op with
  | .ofString => do
    let t ← args.text 0
    StoreM.parseJson t
  | .toString =>
    let j ← Exec.tree (← args.node 0)
    pure (.string (if args.boolOr 1 false then j.indent else j.inspect))
  | .get =>
    match ← found args with
    | some n => StoreM.ofNode n
    | none => pure (args.value 2)
  | .getString => typed .string args
  | .getInt => typed .int args
  | .getLong => typed .long args
  | .getDouble => typed .double args
  | .getBool => typed .bool args
  | .set =>
    let box ← target args 0
    let path ← args.text 1
    let n ← StoreM.toNode (args.value 2)
    StoreM.pathSet box path n
    pure (.json box)
  | .add =>
    let box ← target args 0
    addItem box (args.value 1)
    pure (.json box)
  | .remove =>
    let box ← target args 0
    let path ← args.text 1
    pure (.bool (← StoreM.pathRemove box path))
  | .isEmpty =>
    if args.isNull 0 then pure (.bool true)
    else do
      let n ← args.node 0
      pure (.bool ((← StoreM.sizeOf n) = 0))
  | .size => do
    let n ← args.node 0
    pure (.int (Int32.ofNat (← StoreM.sizeOf n)))
  | .keys =>
    let keys ← match ← args.node 0 with
      | .object a => do pure (((← Exec.store).object a).map (·.1))
      | _ => pure []
    StoreM.newTexts keys
  | .fromYaml =>
    match Yaml.read (← args.text 0) with
    | .ok d => Exec.onStore do StoreM.newBox (← StoreM.ofDatum d)
    | .error e => throw (Fault.raised Fault.parseError ("invalid yaml: " ++ e.message))
  | .toYaml => do
    let j ← Exec.tree (← args.node 0)
    pure (.string (Yaml.render j))

end JsonOp

end ScriptEngine
