import ScriptEngine.Eval.Task
/-!
# Declarations

A declaration gives a name a value in the top frame, with the kind and the shape of its type. An array
type with a size makes an array of fixed length, and one with an open dimension one that may grow.
-/

namespace ScriptEngine.Eval

variable (rec : Runner)

mutual

/-- The shape of a type: that of a map or record, or of an array of them. Defaults of fields are
evaluated now. -/
def shapeOf : TypeSpec → Exec (Option Shape)
  | .mk _ name isArray _ sorted fields => do
    let wrap (s : Shape) : Option Shape := some (if isArray then .array s else s)
    if name = "map" then pure (wrap (.map sorted))
    else if name = "record" then do
      match fields with
      | some fs => do pure (wrap (.record (← fieldShapes fs)))
      | none => pure (wrap (.record []))
    else pure none

/-- The shapes of fields. -/
def fieldShapes : List FieldSpec → Exec (List FieldShape)
  | [] => pure []
  | f :: fs => do
    let g ← fieldShape f
    let gs ← fieldShapes fs
    pure (g :: gs)

/-- The shape of a field. -/
def fieldShape : FieldSpec → Exec FieldShape
  | .mk name type mandatory maxLength fallback => do
    let inner ← shapeOf type
    let value ← match fallback with
      | some e => do pure (some (← evaluate rec e))
      | none => pure none
    pure (.mk name type.kind inner mandatory maxLength value)

end

/-- The fault of a value that does not fit a variable. -/
def cannotAssign (source target : Kind) (name : Text) : Fault :=
  Fault.wrongType ("cannot assign " ++ source.name ++ " to " ++ target.name ++ " variable '" ++ name
    ++ "'")

/-- Runs a conversion, naming the variable in a fault of its kind. -/
def assigning {α : Type} (v : Value) (kind : Kind) (name : Text) (x : StoreM α) : StoreM α := do
  let source ← StoreM.kindOf v
  tryCatch x fun f => throw (if f.kind = .type then cannotAssign source kind name else f)

/-- Gives a name a value of a kind in the top frame. -/
def declareKind (scope : Scope) (name : Text) (kind : Kind) (v : Value) (constant : Bool) :
    StoreM Unit := do
  if constant then
    let w ← assigning v kind name (StoreM.coerce v kind)
    StoreM.defineConst scope name w
  else if kind = .any then StoreM.define scope name v
  else assigning v kind name (StoreM.defineTyped scope name kind v)

/-- Gives a name a value of a kind and shape in the top frame. -/
def declareAs (scope : Scope) (name : Text) (kind : Kind) (shape : Option Shape) (v : Value)
    (constant : Bool) : StoreM Unit := do
  match shape with
  | none => declareKind scope name kind v constant
  | some shape =>
    let w ← assigning v kind name (StoreM.coerce v kind)
    if constant then
      let w ← StoreM.conform shape w
      StoreM.defineConst scope name w
    else StoreM.defineShaped scope name kind shape w

/-- The sizes of dimensions; an open one has none. -/
def dimensions : List (Option Expr) → Exec (List (Option Nat))
  | [] => pure []
  | none :: rest => do
    let more ← dimensions rest
    pure (none :: more)
  | some e :: rest => do
    let v ← evaluate rec e
    match v.toInt64? with
    | none =>
      throw (Fault.wrongType
        ("array dimension must be an integer, got " ++ (← Exec.kindOf v).name))
    | some n =>
      if n < 0 then throw (Fault.badIndex ("negative array dimension " ++ toString n.toInt))
      let more ← dimensions rest
      pure (some n.toInt.toNat :: more)

/-- The array of zeros with given dimensions; those behind the first are arrays in it. -/
def buildArray (element : Kind) : List (Option Nat) → StoreM Value
  | [] => StoreM.newZeros element 0 false
  | [d] => StoreM.newZeros element (d.getD 0) d.isSome
  | d :: rest => do
    let inner ← (List.replicate (d.getD 0) ()).mapM fun _ => buildArray element rest
    StoreM.newArray ⟨.any, d.isSome, .boxed inner.toArray⟩

/-- Copies values into an array from a place on. -/
def fillFrom (a : Nat) : Nat → List Value → StoreM Unit
  | _, [] => pure ()
  | i, v :: rest => do
    StoreM.arraySet a i v
    fillFrom a (i + 1) rest

/-- The array of a declared type with an initial value. -/
def initialArray (typeName : Text) (dims : List (Option Nat)) (v : Value) : StoreM Value := do
  let element := Kind.element typeName
  if v.isNull then buildArray element dims
  else
    let kind ← StoreM.kindOf v
    let source ← tryCatch (StoreM.coerce v .array) fun _ =>
      throw (Fault.wrongType
        ("cannot initialize " ++ typeName ++ " array from " ++ kind.name))
    let items ← match source with
      | .array a => do pure ((← get).array a).cells.toList
      | _ => pure []
    let size := dims.head?.join
    match size with
    | some n =>
      if n < items.length then
        throw (Fault.badIndex (toString items.length ++ " elements do not fit in array of length "
          ++ toString n))
    | none => pure ()
    let fresh ← StoreM.newZeros (if dims.length > 1 then .any else element)
      (size.getD items.length) size.isSome
    match fresh with
    | .array a => fillFrom a 0 items
    | _ => pure ()
    pure fresh

/-- Runs a declaration. -/
def declaration (line : Nat) (name : Text) (type : Option TypeSpec) (value : Option Expr)
    (constant : Bool) : Exec Unit := do
  let v ← match value with
    | some e => evaluate rec e
    | none => pure .null
  match type with
  | none => Exec.atLine line (declareAs (← get).scope name .any none v constant)
  | some t =>
    let shape ← Exec.atLine line (shapeOf rec t)
    if t.isArray then
      let dims ← dimensions rec t.dims
      let a ← initialArray t.name dims v
      let kind ← Exec.kindOf a
      Exec.atLine line (declareAs (← get).scope name kind shape a constant)
    else
      let v ← if t.kind = .queue && v.isNull then StoreM.newQueue [] else pure v
      Exec.atLine line (declareAs (← get).scope name t.kind shape v constant)

end ScriptEngine.Eval
