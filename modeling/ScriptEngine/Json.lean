import ScriptEngine.Decimal
import ScriptEngine.Text.Quoted
/-!
# Json trees

A json tree is null, a truth value, a whole number of 64 bits, a double, a text, a list, or an object.
The entries of an object are kept in rising order of their keys, each key once.
-/

namespace ScriptEngine

/-- A json tree. -/
inductive Json where
  | null
  | bool (b : Bool)
  | int (n : Int64)
  | double (x : Float)
  | text (t : Text)
  | list (items : List Json)
  | object (entries : List (Text × Json))
deriving Inhabited

namespace Json

/-! ## Entries in key order -/

/-- The value of a key. -/
def lookup {α : Type} (key : Text) : List (Text × α) → Option α
  | [] => none
  | (k, v) :: rest => if k = key then some v else lookup key rest

/-- Entries with a key set, in rising order of keys. -/
def insert {α : Type} (key : Text) (value : α) : List (Text × α) → List (Text × α)
  | [] => [(key, value)]
  | (k, v) :: rest =>
    match compare key k with
    | .lt => (key, value) :: (k, v) :: rest
    | .eq => (key, value) :: rest
    | .gt => (k, v) :: insert key value rest

/-- Entries without a key. -/
def erase {α : Type} (key : Text) (entries : List (Text × α)) : List (Text × α) :=
  entries.filter fun e => e.1 ≠ key

/-! ## Numbers -/

/-- Whether a double is a whole number that doubles hold exactly. -/
def isExactWhole (x : Float) : Bool := isWhole x && Float.abs x < 9007199254740992.0

/-- The whole number of a double. -/
def wholeOf (x : Float) : Int64 := Int64.ofInt ((wholePart x).getD 0)

mutual

/-- The tree with each double that is an exact whole number made a whole number. -/
def normalize : Json → Json
  | double x => if isExactWhole x then int (wholeOf x) else double x
  | list items => list (normalizeAll items)
  | object entries => object (normalizeEntries entries)
  | j => j

/-- The trees of a list, normalized. -/
def normalizeAll : List Json → List Json
  | [] => []
  | j :: js => normalize j :: normalizeAll js

/-- The values of an object, normalized. -/
def normalizeEntries : List (Text × Json) → List (Text × Json)
  | [] => []
  | (k, j) :: es => (k, normalize j) :: normalizeEntries es

end

/-! ## Compact text -/

/-- One glyph inside a json string: control characters, quotes, backslashes, the three characters
that mean something in markup and the two line separators are escaped. -/
def escapeGlyph : Text.Glyph → List UInt8
  | .stray _ => (Text.ofString "\\ufffd").bytes
  | .char c =>
    let n := c.toNat
    let esc (s : String) : List UInt8 := 0x5C :: (Text.ofString s).bytes
    if c = '"' then esc "\""
    else if c = '\\' then esc "\\"
    else if n = 8 then esc "b"
    else if n = 12 then esc "f"
    else if n = 10 then esc "n"
    else if n = 13 then esc "r"
    else if n = 9 then esc "t"
    else if n < 0x20 || c = '<' || c = '>' || c = '&' || n = 0x2028 || n = 0x2029 then
      esc ("u" ++ Text.hex 4 n)
    else Text.encodeChar c

/-- A text as a json string. -/
def quoteText (t : Text) : Text := ⟨0x22 :: t.glyphs.flatMap escapeGlyph ++ [0x22]⟩

mutual

/-- The compact text of a tree; `none` when it holds a double that is infinite or no number. -/
def render? : Json → Option Text
  | null => some "null"
  | bool b => some (if b then "true" else "false")
  | int n => some (ToString.toString n.toInt)
  | double x => if x.isFinite then some (FloatFormat.json.render x) else none
  | text t => some (quoteText t)
  | list items => (renderAll? items).map fun ts => "[" ++ Text.join "," ts ++ "]"
  | object entries => (renderEntries? entries).map fun ts => "\x7b" ++ Text.join "," ts ++ "\x7d"

/-- The compact texts of trees. -/
def renderAll? : List Json → Option (List Text)
  | [] => some []
  | j :: js =>
    match render? j, renderAll? js with
    | some t, some ts => some (t :: ts)
    | _, _ => none

/-- The compact texts of entries. -/
def renderEntries? : List (Text × Json) → Option (List Text)
  | [] => some []
  | (k, j) :: es =>
    match render? j, renderEntries? es with
    | some t, some ts => some ((quoteText k ++ ":" ++ t) :: ts)
    | _, _ => none

end

mutual

/-- The first double that has no compact text. -/
def unsupported? : Json → Option Float
  | double x => if x.isFinite then none else some x
  | list items => unsupportedItem? items
  | object entries => unsupportedValue? entries
  | _ => none

/-- The first double of trees that has no compact text. -/
def unsupportedItem? : List Json → Option Float
  | [] => none
  | j :: js => (unsupported? j).or (unsupportedItem? js)

/-- The first double of entries that has no compact text. -/
def unsupportedValue? : List (Text × Json) → Option Float
  | [] => none
  | (_, j) :: es => (unsupported? j).or (unsupportedValue? es)

end

/-- The compact text of a tree, or why it has none. -/
def encode (j : Json) : Except Text Text :=
  match j.render? with
  | some t => .ok t
  | none =>
    .error ("json: unsupported value: " ++ FloatFormat.general.render (j.unsupported?.getD 0.0))

/-! ## Text over several lines -/

/-- A line break and the indentation of a depth. -/
def newline (depth : Nat) : Text := "\n" ++ Text.replicate depth "  "

mutual

/-- A tree over several lines, two blanks for each depth. -/
def indentAt (depth : Nat) : Json → Text
  | list [] => "[]"
  | list (j :: js) =>
    "[" ++ newline (depth + 1) ++ Text.join ("," ++ newline (depth + 1))
      (indentAt (depth + 1) j :: indentAll (depth + 1) js) ++ newline depth ++ "]"
  | object [] => "\x7b\x7d"
  | object ((k, j) :: es) =>
    "\x7b" ++ newline (depth + 1) ++ Text.join ("," ++ newline (depth + 1))
      ((quoteText k ++ ": " ++ indentAt (depth + 1) j) :: indentEntries (depth + 1) es)
      ++ newline depth ++ "\x7d"
  | null => "null"
  | bool b => if b then "true" else "false"
  | int n => ToString.toString n.toInt
  | double x => FloatFormat.json.render x
  | text t => quoteText t

/-- Trees over several lines. -/
def indentAll (depth : Nat) : List Json → List Text
  | [] => []
  | j :: js => indentAt depth j :: indentAll depth js

/-- Entries over several lines. -/
def indentEntries (depth : Nat) : List (Text × Json) → List Text
  | [] => []
  | (k, j) :: es => (quoteText k ++ ": " ++ indentAt depth j) :: indentEntries depth es

end

/-- A tree over several lines; no text when it has no compact one. -/
def indent (j : Json) : Text :=
  match j.render? with
  | some _ => j.indentAt 0
  | none => ""

/-! ## Plain text -/

mutual

/-- A text for every tree, for messages. -/
def plain : Json → Text
  | null => "<nil>"
  | bool b => if b then "true" else "false"
  | int n => ToString.toString n.toInt
  | double x => FloatFormat.general.render x
  | text t => t
  | list items => "[" ++ Text.join " " (plainAll items) ++ "]"
  | object entries => "map[" ++ Text.join " " (plainEntries entries) ++ "]"

/-- The plain texts of trees. -/
def plainAll : List Json → List Text
  | [] => []
  | j :: js => plain j :: plainAll js

/-- The plain texts of entries. -/
def plainEntries : List (Text × Json) → List Text
  | [] => []
  | (k, j) :: es => (k ++ ":" ++ plain j) :: plainEntries es

end

/-- A tree as scripts show it: compact, or plain when it has no compact text. -/
def inspect (j : Json) : Text := j.render?.getD j.plain

/-! ## Equality -/

mutual

/-- Whether two trees are equal; numbers are compared by value. -/
def equal : Json → Json → Bool
  | null, null => true
  | bool a, bool b => a == b
  | int a, int b => a == b
  | int a, double y => floatOfInt a.toInt == y
  | double x, int b => x == floatOfInt b.toInt
  | double x, double y => x == y
  | text a, text b => a == b
  | list as, list bs => equalAll as bs
  | object as, object bs => equalEntries as bs
  | _, _ => false

/-- Whether two lists of trees are equal. -/
def equalAll : List Json → List Json → Bool
  | [], [] => true
  | a :: as, b :: bs => equal a b && equalAll as bs
  | _, _ => false

/-- Whether two lists of entries in key order are equal. -/
def equalEntries : List (Text × Json) → List (Text × Json) → Bool
  | [], [] => true
  | (k, a) :: as, (l, b) :: bs => k == l && equal a b && equalEntries as bs
  | _, _ => false

end

end Json

end ScriptEngine
