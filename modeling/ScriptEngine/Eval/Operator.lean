import ScriptEngine.Double
import ScriptEngine.Program.Expr
import ScriptEngine.Store.Path
import ScriptEngine.Store.Sequence
/-!
# Operators

What operators do with values. Arithmetic is done in the widest kind of its operands: bytes and ints
give ints, or longs when the result is too large; a long that would overflow is a fault. A null operand
counts as the zero of the other operand's kind.
-/

namespace ScriptEngine.Eval

/-- A fault of a wrong kind. -/
def wrong {α : Type} (message : Text) : StoreM α := throw (Fault.wrongType message)

/-- Applies an operator in front of a value. -/
def unary (op : UnaryOp) (v : Value) : StoreM Value := do
  let kind ← StoreM.kindOf v
  let unknown : StoreM Value := wrong ("unknown operator: " ++ op.symbol ++ kind.name)
  match op, v with
  | .not, .bool b => pure (.bool !b)
  | .not, _ => wrong ("operator ! needs bool, got " ++ kind.name)
  | .negate, .byte n => pure (.int (-(Int32.ofNat n.toNat)))
  | .negate, .int n => pure (.ofInt64 (-n.toInt64))
  | .negate, .long n => pure (.long (-n))
  | .negate, .double x => pure (.double (-x))
  | .negate, _ => unknown
  | .plus, v => if kind.isNumeric then pure v else unknown

/-- The whole number that an operator gives for two whole numbers. A number that does not fit 64 bits wraps around. -/
def wholeResult (op : BinaryOp) (x y : Int64) : Except Fault Int64 :=
  match op with
  | .add => .ok (x + y)
  | .sub => .ok (x - y)
  | .mul => .ok (x * y)
  | .div =>
    if y = 0 then .error (Fault.raised Fault.mathError "Division by zero") else .ok (x / y)
  | .mod =>
    if y = 0 then .error (Fault.raised Fault.mathError "Modulo by zero") else .ok (x % y)
  | _ => .ok 0

/-- Whether the result of an operator for two whole numbers wrapped around. -/
def overflows (op : BinaryOp) (x y result : Int64) : Bool :=
  match op with
  | .add => (0 < y && result < x) || (y < 0 && x < result)
  | .sub => (y < 0 && result < x) || (0 < y && x < result)
  | .mul => x ≠ 0 && (result / x ≠ y || (x = -1 && y = Int64.minValue))
  | .div => x = Int64.minValue && y = -1
  | _ => false

/-- Arithmetic on two whole numbers. The result is a long when it has to be wide, and otherwise only when it is too large
for an int. -/
def wholeArithmetic (op : BinaryOp) (wide : Bool) (x y : Int64) : Except Fault Value := do
  let r ← wholeResult op x y
  if overflows op x y r then
    .error (Fault.raised Fault.mathError
      ("long overflow: " ++ toString x.toInt ++ " " ++ op.symbol ++ " " ++ toString y.toInt))
  else .ok (if wide then .long r else .ofInt64 r)

/-- Arithmetic on two numbers of given kinds. -/
def arithmetic (op : BinaryOp) (ka kb : Kind) (a b : Value) : Except Fault Value :=
  let x := a.toFloat?.getD 0.0
  let y := b.toFloat?.getD 0.0
  let kind := ka.widest kb
  let unknown : Except Fault Value := .error (Fault.wrongType
    ("unknown operator: " ++ kind.name ++ " " ++ op.symbol ++ " " ++ kind.name))
  if op = .pow then .ok (.double (Double.power x y))
  else if kind = .double then
    match op with
    | .add => .ok (.double (x + y))
    | .sub => .ok (.double (x - y))
    | .mul => .ok (.double (x * y))
    | .div => .ok (.double (x / y))
    | .mod => .ok (.double (Double.remainder x y))
    | _ => unknown
  else match op with
    | .add | .sub | .mul | .div | .mod =>
      wholeArithmetic op (kind = .long) (a.toInt64?.getD 0) (b.toInt64?.getD 0)
    | _ => unknown

/-- Whether an order satisfies a comparison. -/
def satisfies (op : BinaryOp) (o : Ordering) : Bool :=
  match op with
  | .lt => o == .lt
  | .gt => o == .gt
  | .le => o != .gt
  | _ => o != .lt

/-- Whether an operator compares by order. -/
def isComparison : BinaryOp → Bool
  | .lt | .gt | .le | .ge => true
  | _ => false

/-- Applies an operator between two values. -/
def binary (op : BinaryOp) (a b : Value) : StoreM Value := do
  match op with
  | .eq => do pure (.bool (← StoreM.equal a b))
  | .ne => do pure (.bool !(← StoreM.equal a b))
  | _ =>
    let s ← get
    let a' := if a.isNull && !b.isNull then Value.zero (s.kindOf b) else a
    let b' := if b.isNull && !a.isNull then Value.zero (s.kindOf a) else b
    let ka := s.kindOf a'
    let kb := s.kindOf b'
    if op = .add && (ka = .string || kb = .string) then
      pure (.string (s.inspect a' ++ s.inspect b'))
    else if isComparison op then
      match s.order a' b' with
      | .ok o => pure (.bool (satisfies op o))
      | .error f => throw f
    else if ka.isNumeric && kb.isNumeric then
      match arithmetic op ka kb a' b' with
      | .ok v => pure v
      | .error f => throw f
    else
      wrong ("unsupported operand types: " ++ ka.name ++ " " ++ op.symbol ++ " " ++ kb.name)

/-! ## Elements of containers -/

/-- The place that a value names. -/
def placeOf (index : Value) : StoreM Int := do
  match index.toInt64? with
  | some n => pure n.toInt
  | none => wrong ("index must be an integer, got " ++ (← StoreM.kindOf index).name)

/-- The key that a value names in a json object. -/
def keyOf (index : Value) : StoreM Text := do
  match index with
  | .string k => pure k
  | _ => wrong ("json object key must be string, got " ++ (← StoreM.kindOf index).name)

/-- The element of a container. -/
def readIndex (container index : Value) : StoreM Value := do
  match container with
  | .array a => do StoreM.arrayGet a (← placeOf index)
  | .string t => do
    let i ← placeOf index
    let cs := t.chars
    match (if i < 0 then none else cs[i.toNat]?) with
    | some c => pure (.string (.ofChar c))
    | none => throw (StoreM.outOfBounds i cs.length)
  | .json b => do
    let s ← get
    match s.box b with
    | .object a =>
      let k ← keyOf index
      match Json.lookup k (s.object a) with
      | some n => StoreM.ofNode n
      | none => pure .null
    | .list buffer len =>
      let i ← placeOf index
      match (if i < 0 then none else (s.items buffer len)[i.toNat]?) with
      | some n => StoreM.ofNode n
      | none => throw (StoreM.outOfBounds i len)
    | _ => wrong "json scalar cannot be indexed"
  | v => wrong ("index operator not supported: " ++ (← StoreM.kindOf v).name)

/-- Writes the element of a container. A place just behind a list makes it longer. -/
def writeIndex (container index v : Value) : StoreM Unit := do
  match container with
  | .array a => do StoreM.arraySet a (← placeOf index) v
  | .json b => do
    match (← get).box b with
    | .object a =>
      let k ← keyOf index
      let n ← StoreM.toNode v
      let entries := (← get).object a
      StoreM.setObject a (Json.insert k n entries)
    | .list buffer len =>
      let i ← placeOf index
      if i = len then
        let n ← StoreM.toNode v
        StoreM.setBox b (← StoreM.append buffer len n)
      else if 0 ≤ i && i < len then
        let n ← StoreM.toNode v
        StoreM.setPlace buffer i.toNat n
      else throw (StoreM.outOfBounds i len)
    | _ => wrong ("index assignment not supported: " ++ Kind.json.name)
  | v => wrong ("index assignment not supported: " ++ (← StoreM.kindOf v).name)

/-- The number of elements of a value. -/
def lengthOf (v : Value) : StoreM Value := do
  let count (n : Nat) : Value := .int (Int32.ofNat n)
  match v with
  | .string t => pure (count t.length)
  | .array a => do pure (count ((← get).array a).length)
  | .queue a => do pure (count ((← get).queue a).length)
  | .json b => do pure (count (← StoreM.sizeOf ((← get).box b)))
  | .null => pure (count 0)
  | v => wrong ((← StoreM.kindOf v).name ++ " has no property length")

/-- The values that a loop over a container visits: elements, characters, or keys in rising order. -/
def sequence (v : Value) : StoreM (List Value) := do
  let s ← get
  let none (v : Value) : StoreM (List Value) := wrong ("cannot iterate over " ++ (s.kindOf v).name)
  match v with
  | .array a => pure (s.array a).cells.toList
  | .queue a => pure (s.queue a)
  | .string t => pure (t.chars.map fun c => .string (.ofChar c))
  | .json b =>
    match s.box b with
    | .list buffer len => (s.items buffer len).mapM StoreM.ofNode
    | .object a =>
      let keys := ((s.object a).map (·.1)).mergeSort fun j k => !k.before j
      pure (keys.map Value.string)
    | _ => none v
  | .null => pure []
  | v => none v

end ScriptEngine.Eval
