import ScriptEngine.Store.Native
/-!
# Paths into json values

A path such as `a.b[2].c` names a place inside a json value: a key of an object or a place of a list
at each step.
-/

namespace ScriptEngine

namespace Path

/-- A step of a path. -/
inductive Step where
  | key (k : Text)
  | index (i : Int)
deriving DecidableEq

/-- The key of a step; a place has the empty key. -/
def Step.keyOf : Step → Text
  | key k => k
  | index _ => ""

/-- The place of a step; a key has the first place. -/
def Step.indexOf : Step → Int
  | key _ => 0
  | index i => i

/-- A whole number of 64 bits with an optional sign. -/
def wholeNumber? (bs : List UInt8) : Option Int :=
  let (negative, ds) := match bs with
    | 0x2D :: rest => (true, rest)
    | 0x2B :: rest => (false, rest)
    | _ => (false, bs)
  if ds.isEmpty || !ds.all Text.isDigitByte then none
  else
    let n : Int := (ds.foldl (fun n b => n * 10 + (b.toNat - 0x30)) 0 : Nat)
    let n := if negative then -n else n
    if -(2 ^ 63) ≤ n && n < 2 ^ 63 then some n else none

/-- Why a text is no path. -/
inductive BadPath where
  | brackets
  | number

/-- The places in brackets at the end of a part of a path. `fuel` bounds their number. -/
def indices : Nat → List UInt8 → Except BadPath (List Step)
  | _, [] => .ok []
  | 0, _ => .error .brackets
  | fuel + 1, b :: rest => do
    let inner := rest.takeWhile (· ≠ 0x5D)
    let after := rest.dropWhile (· ≠ 0x5D)
    if b ≠ 0x5B || after.isEmpty then .error .brackets
    else match wholeNumber? inner with
      | none => .error .number
      | some i => do
        let more ← indices fuel (after.drop 1)
        pure (.index i :: more)

/-- The steps of a part of a path between dots. -/
def partSteps (part : Text) : Except BadPath (List Step) := do
  let name := part.bytes.takeWhile (· ≠ 0x5B)
  let rest := part.bytes.dropWhile (· ≠ 0x5B)
  let more ← indices rest.length rest
  pure (if name.isEmpty then more else .key ⟨name⟩ :: more)

/-- The steps of a path. -/
def parse (path : Text) : Except Fault (List Step) :=
  match (path.splitOn ".").mapM partSteps with
  | .ok steps => .ok steps.flatten
  | .error .brackets =>
    .error (Fault.raised Fault.validationError ("invalid json path " ++ path.quoted))
  | .error .number =>
    .error (Fault.raised Fault.validationError ("invalid json path index in " ++ path.quoted))

/-- Adds the text of a step to the text of the steps before it. -/
def renderStep (before : Text) : Step → Text
  | .index i => before ++ "[" ++ toString i ++ "]"
  | .key k => (if before.isEmpty then before else before ++ ".") ++ k

/-- The text of a path. -/
def render (steps : List Step) : Text := steps.foldl renderStep ""

end Path

namespace Store

/-- The node that one step leads to. -/
def stepInto? (s : Store) (n : Node) : Path.Step → Option Node
  | .key k =>
    match n with
    | .object a => Json.lookup k (s.object a)
    | _ => none
  | .index i =>
    match n with
    | .list b len => if i < 0 then none else (s.items b len)[i.toNat]?
    | _ => none

/-- The node that steps lead to. -/
def follow? (s : Store) : Node → List Path.Step → Option Node
  | n, [] => some n
  | n, step :: rest => (s.stepInto? n step).bind fun m => follow? s m rest

/-- The node at a path. -/
def pathGet? (s : Store) (n : Node) (path : Text) : Option Node :=
  match Path.parse path with
  | .ok steps => s.follow? n steps
  | .error _ => none

end Store

namespace StoreM

/-- Writes a node behind some steps from another. Objects and lists that are missing on the way are
made, and a place just behind a list makes it longer. -/
def setAlong (n : Node) : List Path.Step → Node → StoreM Node
  | [], v => pure v
  | .index i :: rest, v => do
    let (b, len) ← match n with
      | .list b len => pure (b, len)
      | .null => do
        match ← newList [] with
        | .list b len => pure (b, len)
        | _ => pure (0, 0)
      | _ => throw (Fault.wrongType "json path index applied to non-list")
    if i < 0 || (len : Int) < i then
      throw (Fault.badIndex ("json index " ++ toString i ++ " out of bounds for length "
        ++ toString len))
    let (b, len) ←
      if i = len then do
        match ← append b len .null with
        | .list b len => pure (b, len)
        | _ => pure (b, len)
      else pure (b, len)
    let child := ((← get).buffer b)[i.toNat]?.getD .null
    let child ← setAlong child rest v
    setPlace b i.toNat child
    pure (.list b len)
  | .key k :: rest, v => do
    let a ← match n with
      | .object a => pure (some a)
      | .null => pure none
      | _ => throw (Fault.wrongType ("json path key " ++ k.quoted ++ " applied to non-object"))
    let before ← get
    let entries := match a with
      | some a => before.object a
      | none => []
    let child ← setAlong ((Json.lookup k entries).getD .null) rest v
    match a with
    | some a => do
      let entries := (← get).object a
      setObject a (Json.insert k child entries)
      pure (.object a)
    | none => newObject (Json.insert k child [])

/-- Writes a node at a path of a json value; the empty path replaces all its data. -/
def pathSet (box : Nat) (path : Text) (v : Node) : StoreM Unit := do
  match Path.parse path with
  | .error f => throw f
  | .ok [] => setBox box v
  | .ok steps => do
    let n ← setAlong ((← get).box box) steps v
    setBox box n

end StoreM

/-- The node that the steps before the last lead to when an element is removed. A step that does not
fit a container takes its empty key or its first place. -/
def Store.parentOf? (s : Store) : Node → List Path.Step → Option Node
  | n, [] => some n
  | n, step :: rest =>
    match n with
    | .object a => parentOf? s ((Json.lookup step.keyOf (s.object a)).getD .null) rest
    | .list b len =>
      let i := step.indexOf
      if i < 0 || (len : Int) ≤ i then none
      else parentOf? s (((s.items b len)[i.toNat]?).getD .null) rest
    | _ => none

namespace StoreM

/-- Deletes one place of a list, moving the places behind it. -/
def removePlace (b len i : Nat) : StoreM Node := do
  let close (old : Array Node) : Array Node :=
    old.extract 0 i ++ old.extract (i + 1) len ++ old.extract (len - 1) old.size
  modify fun s => { s with buffers := s.buffers.modify b close }
  pure (.list b (len - 1))

/-- Deletes what is at a path of a json value, and tells whether there was something. -/
def pathRemove (box : Nat) (path : Text) : StoreM Bool := do
  match Path.parse path with
  | .error _ => pure false
  | .ok steps =>
    match steps.getLast? with
    | none => pure false
    | some last =>
      let before := steps.dropLast
      let s ← get
      match s.parentOf? (s.box box) before with
      | some (.object a) =>
        let entries := s.object a
        if (Json.lookup last.keyOf entries).isSome then
          setObject a (Json.erase last.keyOf entries)
          pure true
        else pure false
      | some (.list b len) =>
        match last with
        | .key _ => pure false
        | .index i =>
          if i < 0 || (len : Int) ≤ i then pure false
          else
            let shorter ← removePlace b len i.toNat
            if before.isEmpty then
              setBox box shorter
              pure true
            else
              tryCatch (do
                pathSet box (Path.render before) shorter
                pure true) fun _ => pure false
      | _ => pure false

/-- The number of entries or items, zero for scalars. -/
def sizeOf (n : Node) : StoreM Nat := do
  match n with
  | .object a => pure ((← get).object a).length
  | .list _ len => pure len
  | _ => pure 0

end StoreM

end ScriptEngine
