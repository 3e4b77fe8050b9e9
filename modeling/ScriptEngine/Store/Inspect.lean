import ScriptEngine.Program.Printer
import ScriptEngine.Store
/-!
# Looking at values

The kind of a value, the tree of its json data, and the text by which scripts show it. Containers are
followed to a depth that no nesting exceeds. Bits lie eight to a byte, the first of them in the lowest
place; bytes can hold more bits than are in use.
-/

namespace ScriptEngine.Bits

/-- The byte in which only the place of a bit is on. -/
def mask (i : Nat) : UInt8 := 1 <<< UInt8.ofNat (i % 8)

/-- Whether the bit at a place is on. -/
def get (bytes : Array UInt8) (i : Nat) : Bool := ((bytes[i / 8]?).getD 0 &&& mask i) != 0

/-- The bytes with the bit at a place on or off. -/
def set (bytes : Array UInt8) (i : Nat) (on : Bool) : Array UInt8 :=
  bytes.modify (i / 8) fun byte => if on then byte ||| mask i else byte &&& ~~~(mask i)

/-- The bytes, with as many more as it takes to hold `n` bits. All bits of those are off. -/
def reserve (bytes : Array UInt8) (n : Nat) : Array UInt8 :=
  bytes ++ Array.replicate ((n + 7) / 8 - bytes.size) 0

end ScriptEngine.Bits

namespace ScriptEngine

namespace Cells

/-- The number of elements. -/
def length : Cells → Nat
  | boxed items => items.size
  | bytes items => items.size
  | bits _ n => n
  | ints items => items.size

/-- The element at a place, if there is one. -/
def get? (c : Cells) (i : Nat) : Option Value :=
  match c with
  | boxed items => items[i]?
  | bytes items => (items[i]?).map .byte
  | bits octets n => if i < n then some (.bool (Bits.get octets i)) else none
  | ints items => (items[i]?).map .int

/-- The elements in order. -/
def toList : Cells → List Value
  | boxed items => items.toList
  | bytes items => items.toList.map .byte
  | bits octets n => (List.range n).map fun i => .bool (Bits.get octets i)
  | ints items => items.toList.map .int

/-- The kind of an array with such elements. -/
def kind : Cells → Kind
  | boxed _ => .array
  | bytes _ => .byteArray
  | bits _ _ => .bitmap
  | ints _ => .intMap

end Cells

namespace ArrayData

/-- The number of elements. -/
def length (a : ArrayData) : Nat := a.cells.length

/-- The bytes of an array of bytes. -/
def bytes? (a : ArrayData) : Option (List UInt8) :=
  match a.cells with
  | .bytes items => some items.toList
  | _ => none

/-- An array as messages describe it: element kind, length, and whether it may grow. -/
def describe (a : ArrayData) : Text :=
  a.element.name ++ "[" ++ toString a.length ++ "] " ++ (if a.fixed then "fixed" else "dynamic")

end ArrayData

/-- A function as scripts show it. -/
def FunctionData.inspect (f : FunctionData) : Text :=
  "function " ++ f.name ++ "(" ++ Text.join ", " (f.params.map Param.render) ++ ")"

namespace Store

/-- The kind of a value. -/
def kindOf (s : Store) : Value → Kind
  | .null => .null
  | .bool _ => .bool
  | .byte _ => .byte
  | .int _ => .int
  | .long _ => .long
  | .double _ => .double
  | .string _ => .string
  | .date _ => .date
  | .array a => (s.array a).cells.kind
  | .queue _ => .queue
  | .json _ => .json
  | .image _ => .image
  | .vectorImage _ => .vectorImage
  | .canvas _ => .canvas
  | .function _ => .function

/-- The tree of a node, followed to a depth. -/
def treeTo (s : Store) : Nat → Node → Json
  | _, .null => .null
  | _, .bool b => .bool b
  | _, .int n => .int n
  | _, .double x => .double x
  | _, .text t => .text t
  | 0, _ => .null
  | depth + 1, .object a => .object ((s.object a).map fun (k, n) => (k, treeTo s depth n))
  | depth + 1, .list b len => .list ((s.items b len).map (treeTo s depth))

/-- The tree of a node. -/
def tree (s : Store) (n : Node) : Json := s.treeTo s.nesting n

/-- The size of a picture. -/
def sizeText (p : Picture) : Text := toString p.width ++ "x" ++ toString p.height

/-- The text of a value, followed to a depth. -/
def inspectTo (s : Store) : Nat → Value → Text
  | _, .null => "null"
  | _, .bool b => if b then "true" else "false"
  | _, .byte n => toString n.toNat
  | _, .int n => toString n.toInt
  | _, .long n => toString n.toInt
  | _, .double x => Value.inspectDouble x
  | _, .string t => t
  | _, .date d => d.inspect
  | _, .json a => (s.tree (s.box a)).inspect
  | _, .image a => "image(" ++ sizeText (s.picture a) ++ ")"
  | _, .vectorImage a => "vectorimage(" ++ toString ((s.vectors[a]?).getD "").size ++ " bytes)"
  | _, .canvas a => "canvas(" ++ (s.picture a).name ++ " " ++ sizeText (s.picture a) ++ ")"
  | _, .function a => (s.function a).inspect
  | 0, _ => ""
  | depth + 1, .array a =>
    "[" ++ Text.join ", " ((s.array a).cells.toList.map (inspectTo s depth)) ++ "]"
  | depth + 1, .queue a => "queue[" ++ Text.join ", " ((s.queue a).map (inspectTo s depth)) ++ "]"

/-- The text by which scripts show a value. -/
def inspect (s : Store) (v : Value) : Text := s.inspectTo s.nesting v

end Store

namespace Flow

/-- The kind of what a statement leaves behind. -/
def kind (s : Store) : Flow → Kind
  | value v => s.kindOf v
  | returned _ => .returned
  | broken => .broken
  | continued => .continued

/-- The text of what a statement leaves behind. -/
def inspect (s : Store) : Flow → Text
  | value v | returned v => s.inspect v
  | broken => "break"
  | continued => "continue"

end Flow

end ScriptEngine
