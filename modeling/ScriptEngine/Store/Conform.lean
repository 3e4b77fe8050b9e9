import ScriptEngine.Store.Sequence
import ScriptEngine.Text.Letter
/-!
# Shapes of declared values

A declared map holds a json object, a declared record a json object with given fields, and an array of
either holds such elements. A value is made to conform when it is declared, assigned or passed.
-/

namespace ScriptEngine

mutual

/-- The text of a shape. -/
def Shape.describe : Shape → Text
  | .map sorted => if sorted then "sorted map" else "map"
  | .record fields => "record \x7b" ++ Text.join ", " (FieldShape.describeAll fields) ++ "\x7d"
  | .array element => "array." ++ element.describe

/-- The texts of fields. -/
def FieldShape.describeAll : List FieldShape → List Text
  | [] => []
  | f :: fs => f.describe :: FieldShape.describeAll fs

/-- The text of a field. -/
def FieldShape.describe : FieldShape → Text
  | .mk name kind none _ _ _ => name ++ ": " ++ kind.name
  | .mk name _ (some shape) _ _ _ => name ++ ": " ++ shape.describe

end

mutual

/-- The depth of a shape. -/
def Shape.depth : Shape → Nat
  | .map _ => 1
  | .record fields => FieldShape.depthAll fields + 1
  | .array element => element.depth + 1

/-- The greatest depth of fields. -/
def FieldShape.depthAll : List FieldShape → Nat
  | [] => 0
  | f :: fs => max f.depth (FieldShape.depthAll fs)

/-- The depth of a field. -/
def FieldShape.depth : FieldShape → Nat
  | .mk _ _ none _ _ _ => 1
  | .mk _ _ (some shape) _ _ _ => shape.depth + 1

end

namespace FieldShape

/-- The name of a field. -/
def name : FieldShape → Text
  | mk n _ _ _ _ _ => n

/-- Whether a field must be given. -/
def mandatory : FieldShape → Bool
  | mk _ _ _ m _ _ => m

/-- The default of a field. -/
def fallback : FieldShape → Option Value
  | mk _ _ _ _ _ d => d

end FieldShape

/-- The key of an object that is a name, or else the first that is it in another case of letters. -/
def findKey {α : Type} (name : Text) (entries : List (Text × α)) : Option Text :=
  if entries.any (·.1 = name) then some name
  else (entries.find? fun e => e.1.equalFold name).map (·.1)

namespace StoreM

/-- What a message calls json data that is no object. -/
def describeNode : Node → Text
  | .list .. => "json list"
  | .null => "null"
  | .bool _ => "json bool"
  | .int _ => "json int64"
  | .double _ => "json float64"
  | .text _ => "json string"
  | .object _ => "json object"

/-- The entries of the json object that a value holds. -/
def objectEntries (what : Text) (v : Value) : StoreM (List (Text × Node)) := do
  let s ← get
  let wrong (got : Text) : Fault :=
    Fault.wrongType (what ++ " value must be a json object, got " ++ got)
  match v with
  | .json b =>
    match s.box b with
    | .object a => pure (s.object a)
    | n => throw (wrong (describeNode n))
  | v => throw (wrong (s.kindOf v).name)

/-- The value of a field made to fit it. `conform` fits a value to a shape. -/
def conformField (conform : Shape → Value → StoreM Value) (f : FieldShape) (v : Value) :
    StoreM Value := do
  let .mk name kind shape mandatory maxLength _ := f
  if v.isNull then
    if mandatory then
      throw (Fault.raised Fault.validationError
        ("field '" ++ name ++ "' is mandatory and cannot be null"))
    else pure .null
  else match shape with
    | some shape => conform shape v
    | none =>
      let source ← kindOf v
      let w ← tryCatch (coerce v kind) fun _ =>
        throw (Fault.wrongType ("field '" ++ name ++ "': cannot convert " ++ source.name ++ " to "
          ++ kind.name))
      match w with
      | .string t =>
        if maxLength > 0 && t.length > maxLength then
          throw (Fault.raised Fault.validationError ("field '" ++ name ++ "' exceeds max length "
            ++ toString maxLength ++ " (actual: " ++ toString t.length ++ ")"))
        else pure w
      | _ => pure w

/-- The given fields of a record, each made to fit. -/
def conformGiven (conform : Shape → Value → StoreM Value) (fields : List FieldShape) :
    List (Text × Node) → StoreM (List (Text × Node))
  | [] => pure []
  | (key, n) :: rest => do
    match fields.find? fun f => f.name.equalFold key with
    | none =>
      throw (Fault.wrongType
        ("field '" ++ key ++ "' is not declared in " ++ (Shape.record fields).describe))
    | some f =>
      let v ← conformField conform f (← ofNode n)
      let m ← toNode v
      let more ← conformGiven conform fields rest
      pure ((key, m) :: more)

/-- Adds the defaults of fields that are not given. -/
def fillFields (conform : Shape → Value → StoreM Value) :
    List FieldShape → List (Text × Node) → StoreM (List (Text × Node))
  | [], out => pure out
  | f :: rest, out => do
    if (findKey f.name out).isSome then fillFields conform rest out
    else match f.fallback with
      | some d =>
        let v ← conformField conform f d
        let n ← clone (← toNode v)
        fillFields conform rest (Json.insert f.name n out)
      | none =>
        if f.mandatory then
          throw (Fault.raised Fault.validationError ("mandatory field '" ++ f.name ++ "' is missing"))
        else fillFields conform rest out

/-- Makes the elements of an array fit a shape, one after the other from place `i` on. -/
def conformElements (conform : Value → StoreM Value) (a : Nat) : Nat → List Value → StoreM Unit
  | _, [] => pure ()
  | i, v :: rest => do
    let w ← tryCatch (conform v) fun f =>
      throw { f with message := "element " ++ toString i ++ ": " ++ f.message }
    arraySet a i w
    conformElements conform a (i + 1) rest

/-- A value made to fit a shape, to a depth of the shape. -/
def conformTo : Nat → Shape → Value → StoreM Value
  | 0, _, v => pure v
  | depth + 1, shape, v =>
    match shape with
    | .map _ =>
      if v.isNull then do newBox (← newObject [])
      else do
        let _ ← objectEntries shape.describe v
        pure v
    | .record fields =>
      if v.isNull then pure .null
      else do
        let entries ← objectEntries "record" v
        let given ← conformGiven (conformTo depth) fields entries
        let all ← fillFields (conformTo depth) fields given
        newBox (← newObject all)
    | .array element =>
      match v with
      | .array a => do
        conformElements (conformTo depth element) a 0 ((← get).array a).cells.toList
        pure v
      | v => pure v

/-- A value made to fit a shape. A map keeps its value, a record gets a fresh one with its defaults,
and the elements of an array are replaced in place. -/
def conform (shape : Shape) (v : Value) : StoreM Value := conformTo shape.depth shape v

end StoreM

end ScriptEngine
