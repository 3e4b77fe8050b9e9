import ScriptEngine.Text
/-!
# Kinds of values

Every value has a kind, and declarations, parameters and array elements name the kind they hold.
-/

namespace ScriptEngine

/-- The kind of a value or control signal. -/
inductive Kind where
  | invalid | null | bool | byte | int | long | double | string | date
  | array | byteArray | bitmap | intMap
  | json | queue | image | vectorImage | canvas | function | any
  | returned | broken | continued | error
deriving DecidableEq, Repr, Inhabited

namespace Kind

/-- Every kind, in order. -/
def all : List Kind :=
  [invalid, null, bool, byte, int, long, double, string, date, array, byteArray, bitmap, intMap,
    json, queue, image, vectorImage, canvas, function, any, returned, broken, continued, error]

/-- The capital name of a kind, used in diagnostics. -/
def label : Kind → String
  | invalid => "INVALID" | null => "NULL" | bool => "BOOL" | byte => "BYTE" | int => "INT"
  | long => "LONG" | double => "DOUBLE" | string => "STRING" | date => "DATE" | array => "ARRAY"
  | byteArray => "BYTE_ARRAY" | bitmap => "BITMAP" | intMap => "INTMAP" | json => "JSON"
  | queue => "QUEUE" | image => "IMAGE" | vectorImage => "VECTOR_IMAGE" | canvas => "CANVAS"
  | function => "FUNCTION" | any => "ANY" | returned => "RETURN_VALUE" | broken => "BREAK"
  | continued => "CONTINUE" | error => "ERROR"

/-- The kind with a given label. -/
def ofLabel? (s : String) : Option Kind := all.find? fun k => k.label == s

/-- The name of a kind in scripts. -/
def name : Kind → String
  | null => "null" | bool => "bool" | byte => "byte" | int => "int" | long => "long"
  | double => "double" | string => "string" | date => "date" | array => "array"
  | byteArray => "byte[]" | bitmap => "bitmap" | intMap => "intmap" | json => "json"
  | queue => "queue" | image => "image" | vectorImage => "vectorimage" | canvas => "canvas"
  | function => "function" | any => "any"
  | _ => "invalid"

/-- The kind that a canonical type name stands for. -/
def ofName? (s : Text) : Option Kind :=
  if s = "none" then some null
  else [null, bool, byte, int, long, double, string, date, array, bitmap, intMap, json, queue,
    image, vectorImage, canvas, function, any].find? fun k => s = k.name

/-- Whether a kind takes part in arithmetic. -/
def isNumeric : Kind → Bool
  | byte | int | long | double => true
  | _ => false

/-- Whether a kind is one of the array kinds. -/
def isArray : Kind → Bool
  | array | byteArray | bitmap | intMap => true
  | _ => false

/-- The place of a numeric kind from narrow to wide; zero for other kinds. -/
def rank : Kind → Nat
  | byte => 1
  | int => 2
  | long => 3
  | double => 4
  | _ => 0

/-- The wider of two numeric kinds. -/
def widest (a b : Kind) : Kind := if b.rank ≤ a.rank then a else b

/-- Whether a value known to be of kind `source` may stand where `target` is declared. Null stands
everywhere. -/
def assignable (source target : Kind) : Bool :=
  if source = target || target = any || source = null || source = any then true
  else match target with
    | long | double => source.isNumeric && source.rank ≤ target.rank
    | int => source = byte
    | string => source ≠ function
    | json => source = string || source.isNumeric || source = bool || source.isArray
    | array => source.isArray || source = json
    | date => source = string
    | bitmap | intMap => source.isArray
    | _ => false

/-- The kind of the value that a declaration of the given type holds. Arrays of bytes, bits and ints
are packed; as a single value a bit is held as a byte. -/
def declared (typeName : Text) (isArray : Bool) : Kind :=
  if isArray then
    if typeName = "byte" then byteArray
    else if typeName = "bitmap" then bitmap
    else if typeName = "intmap" then intMap
    else array
  else if typeName = "bitmap" then byte
  else if typeName = "intmap" then int
  else if typeName = "map" || typeName = "record" then json
  else (ofName? typeName).getD any

/-- The element kind of an array of the given declared type. -/
def element (typeName : Text) : Kind :=
  if typeName = "bitmap" then bitmap
  else if typeName = "intmap" then intMap
  else if typeName = "" || typeName = "array" then any
  else if typeName = "map" || typeName = "record" then json
  else (ofName? typeName).getD any

end Kind

end ScriptEngine
