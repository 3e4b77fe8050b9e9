import ScriptEngine.Json.Reader
import ScriptEngine.Store.Inspect
/-!
# Values as json data

Values are turned into json data to be stored in json values, and json data is turned into values when
it is read. Json values give and take their data without copying, so that it stays shared.
-/

namespace ScriptEngine.StoreM

/-- Runs a pure look at memory. -/
def look {α : Type} (f : Store → α) : StoreM α := do pure (f (← get))

/-- The kind of a value. -/
def kindOf (v : Value) : StoreM Kind := look (·.kindOf v)

/-- The text of a value. -/
def inspect (v : Value) : StoreM Text := look (·.inspect v)

/-- Puts a json list into memory that has grown item by item. -/
def newGrownList (items : List Node) : StoreM Node :=
  modifyGet fun s =>
    let places := items.toArray ++ Array.replicate (s.platform.places items.length - items.length) Node.null
    let address := s.buffers.size
    (.list address items.length, { s with buffers := s.buffers.push places })

mutual

/-- Puts a json tree into memory. -/
def ofTree : Json → StoreM Node
  | .null => pure .null
  | .bool b => pure (.bool b)
  | .int n => pure (.int n)
  | .double x => pure (.double x)
  | .text t => pure (.text t)
  | .list items => do newGrownList (← ofTrees items)
  | .object entries => do newObject (← ofEntries entries)

/-- Puts json trees into memory. -/
def ofTrees : List Json → StoreM (List Node)
  | [] => pure []
  | j :: js => do
    let n ← ofTree j
    let ns ← ofTrees js
    pure (n :: ns)

/-- Puts the entries of a json object into memory. -/
def ofEntries : List (Text × Json) → StoreM (List (Text × Node))
  | [] => pure []
  | (k, j) :: es => do
    let n ← ofTree j
    let ns ← ofEntries es
    pure ((k, n) :: ns)

end

/-- Makes doubles that are exact whole numbers whole numbers, in place and to a depth. -/
def normalizeTo : Nat → Node → StoreM Node
  | _, .double x => pure (if Json.isExactWhole x then .int (Json.wholeOf x) else .double x)
  | depth + 1, .object a => do
    let entries ← ((← get).object a).mapM fun (k, n) => do pure (k, ← normalizeTo depth n)
    setObject a entries
    pure (.object a)
  | depth + 1, .list b len => do
    let items ← ((← get).items b len).mapM (normalizeTo depth)
    modify fun s => { s with buffers := s.buffers.modify b fun old =>
      items.toArray ++ old.extract items.length old.size }
    pure (.list b len)
  | _, n => pure n

/-- Makes doubles that are exact whole numbers whole numbers, in place. -/
def normalize (n : Node) : StoreM Node := do normalizeTo (← get).nesting n

/-- The json data of a value, containers followed to a depth. -/
def toNodeTo : Nat → Value → StoreM Node
  | _, .null => pure .null
  | _, .bool b => pure (.bool b)
  | _, .byte n => pure (.int (Int64.ofNat n.toNat))
  | _, .int n => pure (.int n.toInt64)
  | _, .long n => pure (.int n)
  | _, .double x => pure (.double x)
  | _, .string t => pure (.text t)
  | _, .date d => pure (.text (Layout.internet.format d))
  | _, .json a => do pure ((← get).box a)
  | depth + 1, .array a => do
    newList (← ((← get).array a).cells.toList.mapM (toNodeTo depth))
  | depth + 1, .queue a => do newList (← ((← get).queue a).mapM (toNodeTo depth))
  | _, v => do pure (.text (← inspect v))

/-- The json data of a value. A json value gives its own data, which is then shared. -/
def toNode (v : Value) : StoreM Node := do toNodeTo (← get).nesting v

/-- The value of json data. Objects and lists become json values that share them. -/
def ofNode (n : Node) : StoreM Value := do
  match ← normalize n with
  | .null => pure .null
  | .bool b => pure (.bool b)
  | .int n => pure (.ofInt64 n)
  | .double x => pure (.double x)
  | .text t => pure (.string t)
  | n => newBox n

/-- A copy of json data that shares nothing with it, followed to a depth. -/
def cloneTo : Nat → Node → StoreM Node
  | depth + 1, .object a => do
    newObject (← ((← get).object a).mapM fun (k, n) => do pure (k, ← cloneTo depth n))
  | depth + 1, .list b len => do newList (← ((← get).items b len).mapM (cloneTo depth))
  | _, n => pure n

/-- A copy of json data that shares nothing with it. -/
def clone (n : Node) : StoreM Node := do cloneTo (← get).nesting n

/-- The json value of a text. -/
def parseJson (t : Text) : StoreM Value := do
  match Json.parse t with
  | .ok j => newBox (← ofTree j)
  | .error e => throw (Fault.raised Fault.parseError ("invalid json: " ++ e))

/-- The fresh untyped array of some values. -/
def newArrayOf (items : List Value) : StoreM Value :=
  newArray ⟨.any, false, .boxed items.toArray⟩

/-- The fresh array of some bytes. -/
def newBytes (bytes : List UInt8) : StoreM Value := newArray ⟨.byte, false, .bytes bytes.toArray⟩

end ScriptEngine.StoreM
