import ScriptEngine.Yaml.Phrase
/-!
# The structure of yaml documents

A document is a scalar, a list, or an object; parts of it may carry a tag or an anchor, and an alias stands for what
an anchor names. Each part knows the number of the token where it stands.
-/

namespace ScriptEngine.Yaml

/-- A single value. -/
inductive Scalar where
  | null
  | bool (b : Bool)
  | int (n : Int)
  | float (x : Float)
  | text (t : Text)

/-- What a bare word or quoted text stands for. -/
def Scalar.ofToken? (t : Token) : Option Scalar :=
  match t.kind with
  | .word w => some (match w with
    | .null => .null
    | .bool b => .bool b
    | .infinity isNegative => .float (if isNegative then -1.0 / 0.0 else 1.0 / 0.0)
    | .noNumber => .float (0.0 / 0.0)
    | .int n => .int n
    | .float x => .float x
    | .text => .text (Text.ofChars t.value))
  | .missing => some .null
  | .singleQuoted | .doubleQuoted => some (.text (Text.ofChars t.value))
  | _ => none

/-- A part of a document, with the number of the token where it stands. -/
inductive Node where
  | scalar (index : Nat) (value : Scalar)
  /-- A block of text. -/
  | block (index : Nat) (text : Text)
  /-- The key of entries that are merged. -/
  | merge (index : Nat)
  /-- A part with a name. -/
  | anchor (index : Nat) (name : Text) (value : Node)
  /-- What stands for a part with a name; the name has a token of its own. -/
  | reference (index nameIndex : Nat) (name : Text)
  /-- A part with a tag; where the meaning of tags was declared anew, the part is taken as a text. -/
  | tagged (index : Nat) (tag : Text) (isRedeclared : Bool) (value : Node)
  /-- A key behind a question mark. -/
  | key (index : Nat) (value : Node)
  | list (index : Nat) (items : List Node)
  | object (index : Nat) (entries : List (Node × Node))
  /-- A word to the reader of the document. -/
  | directive (index : Nat)
deriving Inhabited

namespace Node

/-- The number of the token where a part stands. -/
def index : Node → Nat
  | scalar i _ | block i _ | merge i | anchor i _ _ | reference i _ _ | tagged i _ _ _ | key i _ | list i _ | object i _
  | directive i => i

/-- The name of a sort of part in messages. -/
def sortName : Node → Text
  | scalar _ v => match v with
    | .null => "null"
    | .bool _ => "boolean"
    | .int _ => "int"
    | .float x => if x.isInf then "inf" else if x.isNaN then "nan" else "float"
    | .text _ => "string"
  | block .. => "scalar"
  | merge _ => "merge key"
  | anchor .. => "anchor"
  | reference .. => "alias"
  | tagged .. => "tag"
  | key .. => "key"
  | list .. => "sequence"
  | object .. => "mapping"
  | directive _ => "directive"

/-- Whether a part is a single value, with or without an anchor or a tag. -/
def isScalar : Node → Bool
  | list .. | object .. | directive _ => false
  | _ => true

/-- Whether a part is null. -/
def isNull : Node → Bool
  | scalar _ .null => true
  | _ => false

/-- Whether a part has a name. -/
def isAnchor : Node → Bool
  | anchor .. => true
  | _ => false

end Node

end ScriptEngine.Yaml
