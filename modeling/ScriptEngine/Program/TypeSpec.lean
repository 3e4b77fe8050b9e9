import ScriptEngine.Kind
import ScriptEngine.Program.Expr
/-!
# Declared types

A declared type is an element type, made an array by dimensions or by the word `array`, or a record
with named fields.
-/

namespace ScriptEngine

mutual

/-- A declared type. A dimension that is left open is `none`; `fields` is `none` for a type that is
no record. -/
inductive TypeSpec where
  | mk (mark : Mark) (name : Text) (isArray : Bool) (dims : List (Option Expr)) (sorted : Bool)
      (fields : Option (List FieldSpec))

/-- A field of a record. A length of zero sets no limit. -/
inductive FieldSpec where
  | mk (name : Text) (type : TypeSpec) (mandatory : Bool) (maxLength : Nat)
      (default : Option Expr)

end

instance : Inhabited TypeSpec := ⟨.mk default "" false [] false none⟩
instance : Inhabited FieldSpec := ⟨.mk "" default false 0 none⟩

namespace TypeSpec

/-- The mark of a type. -/
def mark : TypeSpec → Mark
  | mk m _ _ _ _ _ => m

/-- The name of the element type. -/
def name : TypeSpec → Text
  | mk _ n _ _ _ _ => n

/-- Whether the type is an array. -/
def isArray : TypeSpec → Bool
  | mk _ _ a _ _ _ => a

/-- The dimensions of an array. -/
def dims : TypeSpec → List (Option Expr)
  | mk _ _ _ d _ _ => d

/-- Whether the type is a sorted map. -/
def sorted : TypeSpec → Bool
  | mk _ _ _ _ s _ => s

/-- The fields of a record. -/
def fields : TypeSpec → Option (List FieldSpec)
  | mk _ _ _ _ _ fs => fs

/-- The kind of value that a declaration of the type holds. -/
def kind (t : TypeSpec) : Kind := Kind.declared t.name t.isArray

/-- A dimension as text. -/
def dimText : Option Expr → Text
  | none => "*"
  | some e => e.render

mutual

/-- A declared type as text. -/
def render : TypeSpec → Text
  | mk _ name isArray dims sorted fields =>
    let isRecord := name = "record"
    let base := match fields with
      | some fs =>
        if isRecord then "record \x7b" ++ Text.join ", " (renderFields fs) ++ "\x7d"
        else Text.onlyIf sorted "sorted " ++ name
      | none => if isRecord then "record \x7b\x7d" else Text.onlyIf sorted "sorted " ++ name
    if !isArray then base
    else if isRecord && dims.isEmpty then "array." ++ base
    else base ++ "[" ++ Text.join ", " (dims.map dimText) ++ "]"

/-- The texts of record fields. -/
def renderFields : List FieldSpec → List Text
  | [] => []
  | f :: fs => renderField f :: renderFields fs

/-- A record field as text. -/
def renderField : FieldSpec → Text
  | .mk name type mandatory maxLength default =>
    name ++ ": " ++ render type ++ Text.onlyIf mandatory " mandatory"
      ++ Text.onlyIf (maxLength > 0) (" maxlength " ++ toString maxLength)
      ++ (match default with
        | some e => " default " ++ e.render
        | none => "")

end

end TypeSpec

end ScriptEngine
