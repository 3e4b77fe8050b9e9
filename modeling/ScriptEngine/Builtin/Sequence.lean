import ScriptEngine.Base64
import ScriptEngine.Builtin
import ScriptEngine.Builtin.Arguments
import ScriptEngine.Store.Sequence
import ScriptEngine.Store.Sort
/-!
# Builtins on arrays and queues
-/

namespace ScriptEngine

/-- A whole number as a script's int, wrapped to 32 bits. -/
def Value.ofNat (n : Nat) : Value := .int (Int32.ofNat n)

/-- The bytes of an array; an element that is not a whole number counts as zero. -/
def ArrayData.toBytes (a : ArrayData) : List UInt8 :=
  match a.bytes? with
  | some bs => bs
  | none => a.cells.toList.map fun v => (Int64.toInt <$> v.toInt64?).elim 0 fun n => (n % 256).toNat.toUInt8

/-- The array at an address. -/
def Exec.arrayAt (a : Nat) : Exec ArrayData := do pure ((← get).store.array a)

namespace ArrayOp

/-- Gives the first `n` elements of an array a value, after making it as long as that. -/
def fillWith (a : Nat) (n : Nat) (v : Value) : Exec Unit := do
  let d ← Exec.arrayAt a
  if d.length < n then StoreM.arrayResize a n
  let v := if v.isNull then .zero (Kind.declared d.element.name false) else v
  (List.range n).forM fun i => Exec.onStore (StoreM.arraySet a i v)

/-- Puts the elements of an array in order. -/
def sortIn (a : Nat) (ascending : Bool) : Exec Unit := do
  let s := (← get).store
  match Sorting.sort s ascending (s.array a).cells.toList with
  | (_, some f) => throw f
  | (sorted, none) =>
    (sorted.zipIdx).forM fun (v, i) => Exec.onStore (StoreM.arraySet a i v)

/-- Runs an operation. -/
def run (op : ArrayOp) (args : Args) : Exec Value := do
  match op with
  | .fill =>
    let a ← args.array 0
    let n := args.int 1
    if n < 0 then throw (Fault.badIndex ("negative fill length " ++ toString n))
    fillWith a n.toNat (args.value 2)
    pure .null
  | .sort =>
    sortIn (← args.array 0) (args.boolOr 1 true)
    pure .null
  | .expand =>
    let a ← args.array 0
    let n := args.int 1
    let length := (← Exec.arrayAt a).length
    if n < length then
      throw (Fault.badIndex
        ("cannot shrink array of length " ++ toString length ++ " to " ++ toString n))
    StoreM.arrayResize a n.toNat
    pure .null
  | .length => do pure (.ofNat (← Exec.arrayAt (← args.array 0)).length)
  | .push =>
    let a ← args.array 0
    StoreM.arrayAppend a (args.value 1)
    pure (.ofNat (← Exec.arrayAt a).length)
  | .contains =>
    let items := (← Exec.arrayAt (← args.array 0)).cells.toList
    pure (.bool (← items.anyM fun v => Exec.onStore (StoreM.equal v (args.value 1))))
  | .base64Encode =>
    let d ← Exec.arrayAt (← args.array 0)
    pure (.string ⟨Base64.standard.encode d.toBytes⟩)
  | .base64Decode =>
    match Base64.standard.decode (← args.text 0).bytes with
    | .ok bytes => StoreM.newBytes bytes
    | .error place =>
      throw (Fault.raised Fault.parseError
        ("invalid base64: illegal base64 data at input byte " ++ toString place))

end ArrayOp

namespace QueueOp

/-- The queue that the first argument is. -/
def target (args : Args) : Exec Nat := do
  match args.value 0 with
  | .queue q => pure q
  | v => throw (Fault.wrongType ("expected a queue, got " ++ (← Exec.kindOf v).name))

/-- Runs an operation. -/
def run (op : QueueOp) (args : Args) : Exec Value := do
  let q ← target args
  let items := (← get).store.queue q
  match op with
  | .enqueue =>
    StoreM.setQueue q (items ++ [args.value 1])
    pure (.ofNat (items.length + 1))
  | .dequeue =>
    match items with
    | [] => pure .null
    | v :: rest =>
      StoreM.setQueue q rest
      pure v
  | .peek => pure (items.headD .null)
  | .size => pure (.ofNat items.length)
  | .isEmpty => pure (.bool items.isEmpty)
  | .clear =>
    StoreM.setQueue q []
    pure .null

end QueueOp

end ScriptEngine
