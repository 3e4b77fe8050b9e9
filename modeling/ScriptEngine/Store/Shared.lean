import ScriptEngine.Store.Native
import ScriptEngine.Yaml.Datum
/-!
# The data of yaml documents in memory

Data with a number is put into memory once: every place of a document that names it reaches the same object or
list.
-/

namespace ScriptEngine

/-- The data with a number that is in memory already. -/
abbrev Placed := List (Nat × Node)

namespace StoreM

/-- A single value in memory. -/
def ofScalar : Json → Node
  | .bool b => .bool b
  | .int n => .int n
  | .double x => .double x
  | .text t => .text t
  | _ => .null

mutual

/-- Puts data into memory beside the data that is there. -/
def place : Yaml.Datum → StateT Placed StoreM Node
  | .list items => do
    let nodes ← placeAll items
    StoreM.newList nodes
  | .object entries => do
    let nodes ← placeEntries entries
    StoreM.newObject nodes
  | .shared number d => do
    match (← get).lookup number with
    | some n => pure n
    | none =>
      let n ← place d
      modify ((number, n) :: ·)
      pure n
  | .null => pure .null
  | .bool b => pure (.bool b)
  | .int n => pure (ofScalar (Yaml.Datum.int n).scalarJson)
  | .float x => pure (ofScalar (Yaml.Datum.float x).scalarJson)
  | .text t => pure (.text t)
  | .bytes bs => pure (ofScalar (Yaml.Datum.bytes bs).scalarJson)
  | .moment d => pure (ofScalar (Yaml.Datum.moment d).scalarJson)

/-- Puts the data of a list into memory. -/
def placeAll : List Yaml.Datum → StateT Placed StoreM (List Node)
  | [] => pure []
  | d :: ds => do
    let n ← place d
    let ns ← placeAll ds
    pure (n :: ns)

/-- Puts the data of entries into memory. -/
def placeEntries : List (Text × Yaml.Datum) → StateT Placed StoreM (List (Text × Node))
  | [] => pure []
  | (k, d) :: es => do
    let n ← place d
    let ns ← placeEntries es
    pure ((k, n) :: ns)

end

/-- Puts data into memory. -/
def ofDatum (d : Yaml.Datum) : StoreM Node := do
  let (n, _) ← (place d).run []
  pure n

end StoreM

end ScriptEngine
