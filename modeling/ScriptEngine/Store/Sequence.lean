import ScriptEngine.Store.Coerce
/-!
# Reading and writing arrays

An element is read and written at a place; a write just behind the last element makes an array longer
unless its length is fixed.
-/

namespace ScriptEngine.StoreM

/-- The fault of a place outside an array. -/
def outOfBounds (i : Int) (length : Nat) : Fault :=
  Fault.badIndex ("index " ++ toString i ++ " out of bounds for length " ++ toString length)

/-- The element of an array at a place. -/
def arrayGet (a : Nat) (i : Int) : StoreM Value := do
  let cells := ((← get).array a).cells
  match (if i < 0 then none else cells.get? i.toNat) with
  | some v => pure v
  | none => throw (outOfBounds i cells.length)

/-- Changes the elements of an array. -/
def modifyCells (a : Nat) (f : Cells → Cells) : StoreM Unit :=
  modify fun s => { s with arrays := s.arrays.modify a fun d => { d with cells := f d.cells } }

/-- The value as an array with boxed elements holds it. -/
def forElement (element : Kind) (cells : Cells) (v : Value) : StoreM Value :=
  match cells with
  | .boxed _ => if element = .any || element = .array then pure v else coerce v element
  | _ => pure v

/-- Whether a value of a kind can be put into cells, and the fault if it cannot. -/
def putFault? (cells : Cells) (kind : Kind) (v : Value) : Option Fault :=
  let test (r : Except Fault Int) : Option Fault :=
    match r with
    | .ok _ => none
    | .error f => some f
  match cells, v with
  | .boxed _, _ => none
  | .bytes _, v => test (Cells.packed kind v 0 255)
  | .bits _ _, .bool _ => none
  | .bits _ _, v => test (Cells.packed kind v 0 1)
  | .ints _, v => test (Cells.packed kind v (-2147483648) 2147483647)

/-- Puts a converted value at a place inside the array. -/
def arrayPut (a : Nat) (i : Nat) (v : Value) : StoreM Unit := do
  let kind ← kindOf v
  match putFault? ((← get).array a).cells kind v with
  | some f => throw f
  | none =>
    modifyCells a fun c =>
      match c.put i kind v with
      | .ok c => c
      | .error _ => .boxed #[]

/-- Writes an element. An array that may grow does so first when the place is just behind its end. -/
def arraySet (a : Nat) (i : Int) (v : Value) : StoreM Unit := do
  let d := (← get).array a
  if i = d.length && !d.fixed then modifyCells a fun c => c.grow d.element 1
  let length := ((← get).array a).length
  if i < 0 || (length : Int) ≤ i then throw (outOfBounds i length)
  let v ← forElement d.element d.cells v
  arrayPut a i.toNat v

/-- Adds an element at the end. -/
def arrayAppend (a : Nat) (v : Value) : StoreM Unit := do
  let d := (← get).array a
  if d.fixed then
    throw (Fault.badIndex ("cannot append to fixed array of length " ++ toString d.length))
  arraySet a d.length v

/-- Changes the length, even of a fixed array; new elements are zeros. -/
def arrayResize (a : Nat) (n : Nat) : StoreM Unit := do
  let d := (← get).array a
  let length := d.length
  if length < n then modifyCells a fun c => c.grow d.element (n - length)
  else modifyCells a fun c => c.shrink n

/-- The fresh array of zeros of a kind. -/
def newZeros (element : Kind) (n : Nat) (fixed : Bool) : StoreM Value :=
  newArray ⟨element, fixed, Cells.fresh element n⟩

/-- The fresh array of some texts. -/
def newTexts (ts : List Text) : StoreM Value :=
  newArray ⟨.string, false, .boxed (ts.map Value.string).toArray⟩

end ScriptEngine.StoreM
