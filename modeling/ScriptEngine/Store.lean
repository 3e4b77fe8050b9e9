import ScriptEngine.Json
import ScriptEngine.Program.Stmt
import ScriptEngine.Value
/-!
# Memory

Everything that is changed in place lives in a store under an address: arrays, queues, json values with
their objects and lists, pictures, functions and the frames of variables.

Json objects and lists are shared by every json value that reaches them. A list is a run of places at
the start of a buffer; a longer list may share the buffer of a shorter one as long as the buffer has
places to spare.
-/

namespace ScriptEngine

/-- Json data in memory. -/
inductive Node where
  | null
  | bool (b : Bool)
  | int (n : Int64)
  | double (x : Float)
  | text (t : Text)
  | object (address : Nat)
  /-- The first `length` places of a buffer. -/
  | list (buffer : Nat) (length : Nat)
deriving Inhabited

/-- Whether a node is null. -/
def Node.isNull : Node → Bool
  | null => true
  | _ => false

/-- The elements of an array. -/
inductive Cells where
  | boxed (items : Array Value)
  | bytes (items : Array UInt8)
  /-- Bits, eight to a byte; those behind the first `length` are kept from before the array was shortened. -/
  | bits (octets : Array UInt8) (length : Nat)
  | ints (items : Array Int32)
deriving Inhabited

/-- An array: the declared kind of its elements, whether its length is fixed, and the elements. -/
structure ArrayData where
  element : Kind
  fixed : Bool
  cells : Cells
deriving Inhabited

mutual

/-- The structure of a declared value beyond its kind. -/
inductive Shape where
  | map (sorted : Bool)
  | record (fields : List FieldShape)
  | array (element : Shape)

/-- A field of a record. A length of zero sets no limit. -/
inductive FieldShape where
  | mk (name : Text) (kind : Kind) (shape : Option Shape) (mandatory : Bool) (maxLength : Nat)
      (default : Option Value)

end

instance : Inhabited Shape := ⟨.map false⟩

/-- A variable: its value, whether it is constant, and what was declared of it. -/
structure Binding where
  value : Value
  constant : Bool
  kind : Option Kind
  shape : Option Shape
deriving Inhabited

/-- A scope of variables, with the address of the scope around it. -/
structure Frame where
  bindings : List (Text × Binding)
  outer : Option Nat
deriving Inhabited

/-- A script function and the frame it was declared in. -/
structure FunctionData where
  name : Text
  params : List Param
  result : Option TypeSpec
  body : Block
  frame : Nat
deriving Inhabited

/-- The width and height of a picture, and its name if it is a canvas. -/
structure Picture where
  width : Nat
  height : Nat
  name : Text
deriving Inhabited

/-- What scripts find out about the machine that they run on. -/
structure Platform where
  /-- The zone of dates that are written without one. -/
  zone : Zone
  /-- How many places a list gets to spare when it outgrows a buffer of so many places. -/
  spare : Nat → Nat

namespace Platform

/-- A machine that keeps UTC and doubles buffers. -/
def standard : Platform := ⟨Zone.utc, fun n => n - 1⟩

instance : Inhabited Platform := ⟨standard⟩

/-- The places of the buffer of a list that has grown to a length item by item. -/
def places (p : Platform) (n : Nat) : Nat :=
  (List.range n).foldl (fun capacity length => if length < capacity then capacity else length + 1 + p.spare length) 0

end Platform

/-- Memory. An address is a place in the table of its sort. -/
structure Store where
  arrays : Array ArrayData
  queues : Array (List Value)
  boxes : Array Node
  objects : Array (List (Text × Node))
  buffers : Array (Array Node)
  pictures : Array Picture
  vectors : Array Text
  functions : Array FunctionData
  frames : Array Frame
  platform : Platform
deriving Inhabited

/-- A computation on memory that may fail; what it changed before it failed stays changed. -/
abbrev StoreM := ExceptT Fault (StateM Store)

namespace Store

/-- Memory with the global frame alone, at address zero. -/
def initial : Store := ⟨#[], #[], #[], #[], #[], #[], #[], #[], #[⟨[], none⟩], .standard⟩

/-- The number of places in all buffers. -/
def places (s : Store) : Nat := s.buffers.foldl (fun n b => n + b.size) 0

/-- More than the depth of any nesting of containers. Of the lists that share a buffer, a longer one may hold a shorter one,
so that places are counted beside buffers. -/
def nesting (s : Store) : Nat :=
  s.arrays.size + s.queues.size + s.boxes.size + s.objects.size + s.buffers.size + s.places + 2

/-- The array at an address. -/
def array (s : Store) (a : Nat) : ArrayData := (s.arrays[a]?).getD default

/-- The queue at an address. -/
def queue (s : Store) (a : Nat) : List Value := (s.queues[a]?).getD []

/-- The data of the json value at an address. -/
def box (s : Store) (a : Nat) : Node := (s.boxes[a]?).getD .null

/-- The entries of the json object at an address. -/
def object (s : Store) (a : Nat) : List (Text × Node) := (s.objects[a]?).getD []

/-- The places of the buffer at an address. -/
def buffer (s : Store) (a : Nat) : Array Node := (s.buffers[a]?).getD #[]

/-- The picture at an address. -/
def picture (s : Store) (a : Nat) : Picture := (s.pictures[a]?).getD default

/-- The function at an address. -/
def function (s : Store) (a : Nat) : FunctionData := (s.functions[a]?).getD default

/-- The frame at an address. -/
def frame (s : Store) (a : Nat) : Frame := (s.frames[a]?).getD default

/-- The items of a json list. -/
def items (s : Store) (buffer length : Nat) : List Node := ((s.buffer buffer).toList).take length

end Store

/-! ## Access in computations -/

namespace StoreM

/-- Puts an array into memory. -/
def newArray (d : ArrayData) : StoreM Value := modifyGet fun s =>
  let address := s.arrays.size
  (.array address, { s with arrays := s.arrays.push d })

/-- Replaces an array. -/
def setArray (a : Nat) (d : ArrayData) : StoreM Unit :=
  modify fun s => { s with arrays := s.arrays.setIfInBounds a d }

/-- Puts a queue into memory. -/
def newQueue (items : List Value) : StoreM Value := modifyGet fun s =>
  let address := s.queues.size
  (.queue address, { s with queues := s.queues.push items })

/-- Replaces the items of a queue. -/
def setQueue (a : Nat) (items : List Value) : StoreM Unit :=
  modify fun s => { s with queues := s.queues.setIfInBounds a items }

/-- Puts a json value into memory. -/
def newBox (n : Node) : StoreM Value := modifyGet fun s =>
  let address := s.boxes.size
  (.json address, { s with boxes := s.boxes.push n })

/-- Replaces the data of a json value. -/
def setBox (a : Nat) (n : Node) : StoreM Unit :=
  modify fun s => { s with boxes := s.boxes.setIfInBounds a n }

/-- Puts a json object into memory. -/
def newObject (entries : List (Text × Node)) : StoreM Node := modifyGet fun s =>
  let address := s.objects.size
  (.object address, { s with objects := s.objects.push entries })

/-- Replaces the entries of a json object. -/
def setObject (a : Nat) (entries : List (Text × Node)) : StoreM Unit :=
  modify fun s => { s with objects := s.objects.setIfInBounds a entries }

/-- Puts a json list into memory, in a buffer with no place to spare. -/
def newList (items : List Node) : StoreM Node := modifyGet fun s =>
  let address := s.buffers.size
  (.list address items.length, { s with buffers := s.buffers.push items.toArray })

/-- Changes one place of a buffer. -/
def setPlace (buffer i : Nat) (n : Node) : StoreM Unit :=
  modify fun s => { s with buffers := s.buffers.modify buffer fun b => b.setIfInBounds i n }

/-- A list with one more item. It takes the next place of its buffer if there is one, and otherwise a
larger buffer. -/
def append (buffer length : Nat) (n : Node) : StoreM Node := do
  let b := (← get).buffer buffer
  if length < b.size then
    setPlace buffer length n
    pure (.list buffer (length + 1))
  else
    modifyGet fun s =>
      let fresh := (b.extract 0 length).push n ++ Array.replicate (s.platform.spare length) Node.null
      let address := s.buffers.size
      (.list address (length + 1), { s with buffers := s.buffers.push fresh })

/-- Puts a picture into memory. -/
def newPicture (p : Picture) : StoreM Nat := modifyGet fun s =>
  let address := s.pictures.size
  (address, { s with pictures := s.pictures.push p })

/-- Puts a vector picture into memory. -/
def newVector (svg : Text) : StoreM Value := modifyGet fun s =>
  let address := s.vectors.size
  (.vectorImage address, { s with vectors := s.vectors.push svg })

/-- Puts a function into memory. -/
def newFunction (f : FunctionData) : StoreM Value := modifyGet fun s =>
  let address := s.functions.size
  (.function address, { s with functions := s.functions.push f })

/-- Puts a frame into memory. -/
def newFrame (f : Frame) : StoreM Nat := modifyGet fun s =>
  let address := s.frames.size
  (address, { s with frames := s.frames.push f })

/-- Replaces a frame. -/
def setFrame (a : Nat) (f : Frame) : StoreM Unit :=
  modify fun s => { s with frames := s.frames.setIfInBounds a f }

end StoreM

end ScriptEngine
