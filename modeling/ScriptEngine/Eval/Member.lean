import ScriptEngine.Machine
/-!
# Members of json values

A member is reached from a variable by a path of names. Names are matched with the keys of an object in
any case of letters; a key that does not exist yet is made in lower case.
-/

namespace ScriptEngine.Eval

/-- The first `n` names of a member. -/
def memberName (base : Text) (path : List Text) (n : Nat) : Text :=
  Text.join "." (base :: path.take n)

/-- The fault of a member of something that is no object. -/
def notObject (name : Text) : Fault := Fault.wrongType (name ++ " is not a json object")

/-- The json value that a member is of. -/
def memberBase (base : Text) (path : List Text) : Exec Nat := do
  let v ← StoreM.valueOf (← get).scope base
  match v with
  | .json b => pure b
  | v =>
    throw (Fault.wrongType (base ++ " is " ++ (← Exec.kindOf v).name ++ " and has no field '"
      ++ path.headD "" ++ "'"))

/-- Follows the names of a member; `done` of them were followed already. -/
def followMember (base : Text) (path : List Text) (s : Store) :
    Nat → List Text → Node → Except Fault (Option Node)
  | _, [], n => .ok (some n)
  | done, name :: rest, n =>
    match n with
    | .null => .ok none
    | .object a =>
      let entries := s.object a
      match findKey name entries with
      | none => .ok none
      | some key =>
        followMember base path s (done + 1) rest ((Json.lookup key entries).getD .null)
    | _ => .error (notObject (memberName base path done))

/-- The value of a member; null when it does not exist. -/
def readMember (line : Nat) (base : Text) (path : List Text) : Exec Value :=
  Exec.atLine line do
    let b ← memberBase base path
    let s := (← get).store
    match ← Exec.ofExcept (followMember base path s 0 path (s.box b)) with
    | some n => StoreM.ofNode n
    | none => pure .null

/-- Writes a node at a path below an object; objects that are missing on the way are made. -/
def setBelow (base : Text) (path : List Text) (v : Node) :
    Nat → List Text → Nat → StoreM Unit
  | _, [], _ => pure ()
  | _, [name], a => do
    let entries := (← get).object a
    StoreM.setObject a (Json.insert ((findKey name entries).getD name) v entries)
  | done, name :: rest, a => do
    let entries := (← get).object a
    let key := (findKey name entries).getD name
    match (Json.lookup key entries).getD .null with
    | .object next => setBelow base path v (done + 1) rest next
    | .null =>
      match ← StoreM.newObject [] with
      | .object next =>
        StoreM.setObject a (Json.insert key (.object next) entries)
        setBelow base path v (done + 1) rest next
      | _ => pure ()
    | _ => throw (notObject (memberName base path (done + 1)))

/-- Writes a member. When the variable has a shape, a copy is changed and checked first, so that a
value that does not fit leaves the old one as it was. -/
def writeMember (line : Nat) (base : Text) (path : List Text) (v : Value) : Exec Unit :=
  Exec.atLine line do
    let b ← memberBase base path
    let m ← get
    let shape := (m.store.lookup? m.scope base).bind (·.2.shape)
    let root ← match shape with
      | some _ => StoreM.clone (m.store.box b)
      | none => pure (m.store.box b)
    let n ← StoreM.toNode v
    match root with
    | .object a => setBelow base path n 0 path a
    | _ => throw (notObject base)
    match shape with
    | none => pure ()
    | some shape =>
      let fresh ← StoreM.newBox root
      let checked ← StoreM.conform shape fresh
      StoreM.setBox b (← StoreM.toNode checked)

end ScriptEngine.Eval
