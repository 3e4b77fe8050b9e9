import ScriptEngine.Machine
/-!
# Arguments of builtins

Before a builtin runs, its arguments are made to fit its contract: left-out ones become null, and the
others are converted to the kinds of their parameters.
-/

namespace ScriptEngine

/-- The fault of a wrong number of arguments. -/
def Signature.Mismatch.raise (m : Signature.Mismatch) (name : Text) : Fault :=
  { Fault.raised Fault.validationError (m.message name) with detail := m.detail.label }

/-- One argument made to fit its parameter. -/
def Signature.prepareOne (name : Text) (p : Signature.Param) (v : Value) : StoreM Value := do
  if v.isNull then
    if p.mandatory then throw ((Signature.Mismatch.missing p.name).raise name) else pure .null
  else
    let kind ← StoreM.kindOf v
    if p.keep && kind.assignable p.kind then pure v
    else
      tryCatch (StoreM.coerce v p.kind) fun f =>
        throw (Fault.wrongType (name ++ " parameter " ++ p.name.quoted ++ ": " ++ f.message))

/-- Arguments made to fit their parameters; those that are not given are null. -/
def Signature.prepareAll (name : Text) : List Signature.Param → List Value → StoreM (List Value)
  | [], _ => pure []
  | p :: ps, args => do
    let v ← Signature.prepareOne name p (args.headD .null)
    let vs ← Signature.prepareAll name ps (args.drop 1)
    pure (v :: vs)

/-- The arguments of a call made to fit a contract. -/
def Signature.prepare (s : Signature) (args : List Value) : StoreM (List Value) := do
  if s.params.length < args.length then
    throw ((Signature.Mismatch.tooMany s.params.length args.length).raise s.name)
  Signature.prepareAll s.name s.params args

/-- Prepared arguments. -/
structure Args where
  values : List Value

namespace Args

/-- The argument at a place. -/
def value (a : Args) (i : Nat) : Value := a.values.getD i .null

/-- Whether the argument at a place was left out. -/
def isNull (a : Args) (i : Nat) : Bool := (a.value i).isNull

/-- The text of an argument; a missing one has the given text. -/
def textOr (a : Args) (i : Nat) (fallback : Text) : Exec Text := do
  match a.value i with
  | .string t => pure t
  | .null => pure fallback
  | v => Exec.inspect v

/-- The text of an argument. -/
def text (a : Args) (i : Nat) : Exec Text := a.textOr i ""

/-- The whole number of a double as 64 bits hold it; one that does not fit is the least number. -/
def wholeOf (x : Float) : Int :=
  match wholePart x with
  | some n => if -(2 ^ 63) ≤ n && n < 2 ^ 63 then n else -(2 ^ 63)
  | none => -(2 ^ 63)

/-- The whole number of an argument; a missing one has the given number. -/
def intOr (a : Args) (i : Nat) (fallback : Int) : Int :=
  match a.value i with
  | .null => fallback
  | v =>
    match v.toInt64? with
    | some n => n.toInt
    | none => (v.toFloat?.map wholeOf).getD 0

/-- The whole number of an argument. -/
def int (a : Args) (i : Nat) : Int := a.intOr i 0

/-- The number of an argument. -/
def float (a : Args) (i : Nat) : Float := (a.value i).toFloat?.getD 0.0

/-- The truth value of an argument; a missing one has the given value. -/
def boolOr (a : Args) (i : Nat) (fallback : Bool) : Bool :=
  match a.value i with
  | .null => fallback
  | .bool b => b
  | _ => false

/-- The json data of an argument. -/
def node (a : Args) (i : Nat) : Exec Node := do
  match a.value i with
  | .json b => do pure ((← get).store.box b)
  | v => StoreM.toNode v

/-- The array that an argument is. -/
def array (a : Args) (i : Nat) : Exec Nat := do
  match a.value i with
  | .array n => pure n
  | v => throw (Fault.wrongType ("expected an array, got " ++ (← Exec.kindOf v).name))

/-- The date that an argument is. -/
def date (a : Args) (i : Nat) : Exec Date := do
  match a.value i with
  | .date d => pure d
  | v => throw (Fault.wrongType ("expected a date, got " ++ (← Exec.kindOf v).name))

end Args

end ScriptEngine
