import ScriptEngine.Store.Native
/-!
# Conversion, order and equality of values

A value is converted to a declared kind when nothing is lost by it: bytes and ints to wider numbers,
anything but a function to text, text and scalars to json, lists to arrays. Null becomes the zero of
the kind.
-/

namespace ScriptEngine

namespace Cells

/-- The elements of a new array with elements of a kind. -/
def fresh (element : Kind) (n : Nat) : Cells :=
  match element with
  | .byte => bytes (Array.replicate n 0)
  | .bitmap => bits (Bits.reserve #[] n) n
  | .intMap => ints (Array.replicate n 0)
  | k => boxed (Array.replicate n (Value.zero k))

/-- More elements, each the zero of the element kind. A bit that is left from before the array was
shortened comes back. -/
def grow (element : Kind) (c : Cells) (n : Nat) : Cells :=
  match c with
  | boxed items => boxed (items ++ Array.replicate n (Value.zero element))
  | bytes items => bytes (items ++ Array.replicate n 0)
  | bits octets len => bits (Bits.reserve octets (len + n)) (len + n)
  | ints items => ints (items ++ Array.replicate n 0)

/-- The first elements; bits behind them are kept. -/
def shrink (c : Cells) (n : Nat) : Cells :=
  match c with
  | boxed items => boxed (items.extract 0 n)
  | bytes items => bytes (items.extract 0 n)
  | bits octets _ => bits octets n
  | ints items => ints (items.extract 0 n)

/-- Why a value does not fit a packed array. -/
def packedFault (kind : Kind) : Fault :=
  Fault.wrongType ("cannot store " ++ kind.label ++ " in packed array")

/-- The whole number of a value for a packed array, between two bounds. Null counts as zero. -/
def packed (kind : Kind) (v : Value) (lo hi : Int) : Except Fault Int :=
  match v with
  | .null => .ok 0
  | v =>
    match v.toInt64? with
    | none => .error (packedFault kind)
    | some n =>
      if n.toInt < lo || hi < n.toInt then
        .error (Fault.wrongType ("value " ++ toString n.toInt ++ " out of range [" ++ toString lo
          ++ ", " ++ toString hi ++ "]"))
      else .ok n.toInt

/-- The elements with a converted value, of the given kind, at a place. -/
def put (c : Cells) (i : Nat) (kind : Kind) (v : Value) : Except Fault Cells :=
  match c with
  | boxed items => .ok (boxed (items.setIfInBounds i v))
  | bytes items => (packed kind v 0 255).map fun n => bytes (items.setIfInBounds i n.toNat.toUInt8)
  | bits octets len =>
    match v with
    | .bool b => .ok (bits (Bits.set octets i b) len)
    | v => (packed kind v 0 1).map fun n => bits (Bits.set octets i (n = 1)) len
  | ints items =>
    (packed kind v (-2147483648) 2147483647).map fun n =>
      ints (items.setIfInBounds i (Int32.ofInt n))

end Cells

namespace StoreM

/-- The packed array of a kind with the elements of another. -/
def repack (target : Kind) (a : ArrayData) : StoreM Value := do
  let s ← get
  let step := fun (acc : Cells × Nat) (v : Value) => do
    let c ← acc.1.put acc.2 (s.kindOf v) v
    pure (c, acc.2 + 1)
  match a.cells.toList.foldlM step (Cells.fresh target a.length, 0) with
  | .ok (c, _) => newArray ⟨target, a.fixed, c⟩
  | .error f => throw f

/-- The fault of a conversion that loses something. -/
def cannotConvert {α : Type} (source target : Kind) : StoreM α :=
  throw (Fault.wrongType ("cannot convert " ++ source.label ++ " to " ++ target.label))

/-- The json value of a text: what it spells if it begins like an object or list, and otherwise the
text itself. -/
def jsonOfText (t : Text) : StoreM Value := do
  let trimmed := t.trim
  if trimmed.startsWith "\x7b" || trimmed.startsWith "[" then parseJson trimmed
  else newBox (.text t)

/-- Conversion of a value to a kind. -/
def coerce (v : Value) (target : Kind) : StoreM Value := do
  let source ← kindOf v
  if source = target || target = .any || target = .invalid then pure v
  else if source = .null then pure (Value.zero target)
  else match target, v with
    | .int, .byte n => pure (.int (Int32.ofNat n.toNat))
    | .long, .byte n => pure (.long (Int64.ofNat n.toNat))
    | .long, .int n => pure (.long n.toInt64)
    | .double, .byte n => pure (.double (Float.ofNat n.toNat))
    | .double, .int n => pure (.double (floatOfInt n.toInt))
    | .double, .long n => pure (.double (floatOfInt n.toInt))
    | .string, .function _ => cannotConvert source target
    | .string, v => do pure (.string (← inspect v))
    | .date, .string t =>
      match Date.readIn? (← get).platform.zone t with
      | some d => pure (.date d)
      | none => cannotConvert source target
    | .json, .string t => jsonOfText t
    | .json, .array _ | .json, .bool _ | .json, .byte _ | .json, .int _ | .json, .long _
    | .json, .double _ => do newBox (← normalize (← toNode v))
    | .array, .array _ => pure v
    | .array, .json a =>
      match (← get).box a with
      | .list b len => do newArrayOf (← ((← get).items b len).mapM ofNode)
      | _ => cannotConvert source target
    | .bitmap, .array a => do repack .bitmap ((← get).array a)
    | .intMap, .array a => do repack .intMap ((← get).array a)
    | _, _ => cannotConvert source target

end StoreM

/-! ## Order -/

/-- The order of two doubles; one that is no number is in no order with any and counts as equal. -/
def orderFloats (x y : Float) : Ordering := if x < y then .lt else if x > y then .gt else .eq

/-- The order of two whole numbers. -/
def orderInts (x y : Int64) : Ordering := if x < y then .lt else if x > y then .gt else .eq

/-- The order of two values: numbers by value, texts by bytes, dates by instant, false before true. -/
def Store.order (s : Store) (a b : Value) : Except Fault Ordering :=
  match a, b with
  | .string x, .string y => .ok (compare x y)
  | .date x, .date y => .ok (x.order y)
  | .bool x, .bool y => .ok (if x = y then .eq else if x then .gt else .lt)
  | a, b =>
    match a.toInt64?, b.toInt64? with
    | some x, some y => .ok (orderInts x y)
    | _, _ =>
      match a.toFloat?, b.toFloat? with
      | some x, some y => .ok (orderFloats x y)
      | _, _ =>
        .error (Fault.wrongType
          ("cannot compare " ++ (s.kindOf a).label ++ " with " ++ (s.kindOf b).label))

/-! ## Equality -/

namespace StoreM

/-- Whether all pairs of two lists of one length are equal; the first that are not end the search. -/
def allEqual (eq : Value → Value → StoreM Bool) : List Value → List Value → StoreM Bool
  | [], [] => pure true
  | a :: as, b :: bs => do if ← eq a b then allEqual eq as bs else pure false
  | _, _ => pure false

/-- Whether json data is equal; it is normalized on the way. -/
def equalNodes (m n : Node) : StoreM Bool := do
  let m ← normalize m
  let n ← normalize n
  let s ← get
  pure ((s.tree m).equal (s.tree n))

/-- Whether two values are equal, containers followed to a depth. -/
def equalTo : Nat → Value → Value → StoreM Bool
  | 0, _, _ => pure false
  | depth + 1, a, b => do
    let s ← get
    let ka := s.kindOf a
    let kb := s.kindOf b
    if ka.isNumeric && kb.isNumeric then
      pure (match s.order a b with
        | .ok o => o == .eq
        | .error _ => true)
    else if ka ≠ kb then
      if ka = .json || kb = .json then equalNodes (← toNode a) (← toNode b) else pure false
    else match a, b with
      | .null, .null => pure true
      | .bool x, .bool y => pure (x = y)
      | .string x, .string y => pure (x = y)
      | .date x, .date y => pure (x.sameInstant y)
      | .json x, .json y => equalNodes (s.box x) (s.box y)
      | .array x, .array y =>
        allEqual (equalTo depth) (s.array x).cells.toList (s.array y).cells.toList
      | .queue x, .queue y => allEqual (equalTo depth) (s.queue x) (s.queue y)
      | .image x, .image y => pure (x = y)
      | .vectorImage x, .vectorImage y => pure (x = y)
      | .canvas x, .canvas y => pure (x = y)
      | .function x, .function y => pure (x = y)
      | _, _ => pure false

/-- Whether two values are equal: numbers by value, containers by their elements, pictures and
functions only when they are the same one. -/
def equal (a b : Value) : StoreM Bool := do equalTo ((← get).nesting + 1) a b

end StoreM

end ScriptEngine
