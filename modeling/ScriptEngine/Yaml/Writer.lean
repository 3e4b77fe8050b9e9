import ScriptEngine.Date.Layout
import ScriptEngine.Json
import ScriptEngine.Yaml.Word
/-!
# Writing yaml documents

A json tree is written over several lines: entries and items one a line, nested ones indented. A text is written
bare when it reads back as itself, quoted when it does not, and as a literal block when it has several lines.
-/

namespace ScriptEngine.Yaml

/-! ## Texts -/

/-- Words that other readers take for truth values. -/
def ambiguous : List String :=
  ["y", "Y", "yes", "Yes", "YES", "n", "N", "no", "No", "NO", "on", "On", "ON", "off", "Off", "OFF"]

/-- Whether a colon or dash is followed by a blank, or a mark stands somewhere. -/
def marked : List Char → Bool
  | [] => false
  | c :: rest =>
    c = '#' || c = '\\' || ((c = ':' || c = '-') && rest.head? = some ' ') || marked rest

/-- The ways to write a moment that other readers recognise. -/
def momentLayouts : List Layout := [
  .ofText "2006-01-02T15:04:05.999999999Z07:00",
  .ofText "2006-01-02t15:04:05.999999999Z07:00",
  .ofText "2006-01-02 15:04:05",
  .ofText "2006-01-02",
  .ofText "15:4"]

/-- Whether a text would be taken for a moment. -/
def isMoment (t : Text) : Bool := momentLayouts.any fun l => (l.parse? t Zone.utc).isSome

/-- Whether a word would be taken for a number, even for one that is too large. -/
def isNumeric (cs : List Char) : Bool :=
  match readNumber cs with
  | .none => false
  | _ => true

/-- Whether a text has to be quoted to read back as itself. -/
def needsQuotes (t : Text) : Bool :=
  let cs := t.chars
  match cs with
  | [] => true
  | first :: _ =>
    let last := cs.getLast?.getD ' '
    let word := String.ofList cs
    ambiguous.contains word || (keyword? word).isSome || isNumeric cs || word = "-"
      || "*&[{}],!|>%'\"@ `".toList.contains first
      || last = ':' || last = ' '
      || isMoment t || marked cs

/-- The line end that a text uses throughout, or a line feed. -/
def lineEnd (t : Text) : Text :=
  let feeds := (t.bytes.filter (· = 10)).length
  let returns := (t.bytes.filter (· = 13)).length
  let pairs := (t.splitOn "\r\n").length - 1
  if feeds = pairs && returns = pairs then "\r\n"
  else if returns = 0 then "\n"
  else if feeds = 0 then "\r"
  else "\n"

/-- A number of blanks. -/
def blanks (n : Nat) : Text := Text.replicate n " "

/-- A text without an ending, if it has that. -/
def withoutEnding (ending t : Text) : Text :=
  if t.endsWith ending then t.take (t.size - ending.size) else t

/-- A text without a beginning, if it has that. -/
def withoutBeginning (beginning t : Text) : Text :=
  if t.startsWith beginning then t.drop beginning.size else t

/-- A text over several lines as a literal block at an indentation. The bar is followed by a mark when the text
does not end in exactly one line end. -/
def literal (indent : Nat) (lineEnd t : Text) : Text :=
  let head : Text :=
    if t.endsWith (lineEnd ++ lineEnd) then "|+" else if t.endsWith lineEnd then "|" else "|-"
  let space := blanks (indent + 2)
  let rows := Text.join lineEnd ((t.splitOn lineEnd).map fun l => space ++ l)
  head ++ lineEnd ++ withoutEnding space (withoutEnding (lineEnd ++ space) rows)

/-- A text as a value or a key at an indentation. -/
def text (indent : Nat) (t : Text) : Text :=
  if needsQuotes t then t.quoted
  else if t.contains (lineEnd t) then literal indent (lineEnd t) t
  else t

/-- A double that shows its point or exponent. -/
def double (x : Float) : Text :=
  if x.isNaN then ".nan"
  else if x.isInf then (if x < 0.0 then "-.inf" else ".inf")
  else
    let s := FloatFormat.general.render x
    if s.toList.any fun c => c = '.' || c = 'e' then s else s ++ ".0"

/-! ## Trees -/

/-- An item of a list behind its dash. Its further lines are moved to the right of the dash; those of a text stand
there already, and lines without content stay empty. -/
def item (indent : Nat) (isText : Bool) (t : Text) : Text :=
  match t.lines with
  | [] => ""
  | first :: rest =>
    let start := ⟨first.bytes.dropWhile (· = 0x20)⟩
    let shift := first.size - start.size
    let rest := if isText then rest.map (withoutBeginning (blanks (indent + 2))) else rest
    let rest : List Text := rest.map fun l =>
      if l.size ≤ shift then "" else blanks (indent + 2) ++ l.drop shift
    Text.join "\n" ((blanks indent ++ "- " ++ start) :: rest)

mutual

/-- A tree at an indentation. -/
def renderAt (indent : Nat) : Json → Text
  | .null => "null"
  | .bool b => if b then "true" else "false"
  | .int n => toString n.toInt
  | .double x => double x
  | .text t => text indent t
  | .list [] => "[]"
  | .list (j :: js) => Text.join "\n" (itemsAt indent (j :: js))
  | .object [] => "\x7b\x7d"
  | .object (e :: es) => Text.join "\n" (entriesAt indent (e :: es))

/-- The items of a list at an indentation. -/
def itemsAt (indent : Nat) : List Json → List Text
  | [] => []
  | j :: js =>
    let isText := match j with
      | .text _ => true
      | _ => false
    item indent isText (renderAt indent j) :: itemsAt indent js

/-- The entries of an object at an indentation. A list stands below its key at the same indentation. -/
def entriesAt (indent : Nat) : List (Text × Json) → List Text
  | [] => []
  | (key, value) :: rest =>
    let key := blanks indent ++ text indent key ++ ":"
    (match value with
    | .object (e :: es) => key ++ "\n" ++ Text.join "\n" (entriesAt (indent + 2) (e :: es))
    | .list (j :: js) => key ++ "\n" ++ Text.join "\n" (itemsAt indent (j :: js))
    | v => key ++ " " ++ renderAt indent v) :: entriesAt indent rest

end

/-- A tree as a document. -/
def render (j : Json) : Text := renderAt 0 j ++ "\n"

end ScriptEngine.Yaml
