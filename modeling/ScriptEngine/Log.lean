import ScriptEngine.Date.Layout
import ScriptEngine.Duration
import ScriptEngine.Json
import ScriptEngine.Text.Letter
/-!
# Logging

A log record has a level, a message and attributes; a logger writes those of its level and above, one
line each, in one of three formats.
-/

namespace ScriptEngine

namespace Log

/-- How severe a record is: zero is information, and every four steps have a name. -/
structure Level where
  value : Int
deriving DecidableEq, Inhabited

namespace Level

/-- Of use while a script is made. -/
def debug : Level := ⟨-4⟩
/-- The normal course. -/
def info : Level := ⟨0⟩
/-- Something may be wrong. -/
def warn : Level := ⟨4⟩
/-- Something is wrong. -/
def error : Level := ⟨8⟩

/-- The name of a level in capitals, with the steps above the named one. -/
def label (l : Level) : Text :=
  let named (name : Text) (base : Int) : Text :=
    let n := l.value - base
    if n = 0 then name else name ++ Text.onlyIf (n > 0) "+" ++ toString n
  if l.value < 0 then named "DEBUG" (-4)
  else if l.value < 4 then named "INFO" 0
  else if l.value < 8 then named "WARN" 4
  else named "ERROR" 8

/-- The name of a level. -/
def name (l : Level) : Text := l.label.lower

/-- A signed whole number. -/
def signed? (t : Text) : Option Int :=
  let digits (bs : List UInt8) : Option Nat :=
    if bs.isEmpty || !bs.all Text.isDigitByte then none
    else some (bs.foldl (fun n b => n * 10 + (b.toNat - 0x30)) 0)
  match t.bytes with
  | 0x2B :: rest => (digits rest).map fun n => (n : Int)
  | 0x2D :: rest => (digits rest).map fun n => -(n : Int)
  | bs => (digits bs).map fun n => (n : Int)

/-- The level that a text names, with steps up or down. Steps and levels are words of 64 bits; a level beyond the
last one goes on at the other end. -/
def parse? (t : Text) : Option Level := do
  let isSign := fun (b : UInt8) => b == 0x2B || b == 0x2D
  let name : Text := ⟨t.bytes.takeWhile (!isSign ·)⟩
  let steps : Text := ⟨t.bytes.dropWhile (!isSign ·)⟩
  let n ← if steps.isEmpty then some 0 else signed? steps
  guard (-(2 ^ 63) ≤ n && n < 2 ^ 63)
  let base ← [debug, info, warn, error].find? fun l => l.label = name.upper
  pure ⟨(Int64.ofInt (base.value + n)).toInt⟩

/-- The level that a text names; information when it names none. -/
def ofText (t : Text) : Level := (parse? t.trim).getD info

end Level

/-- How lines are written. -/
inductive Format where
  | text | json | pretty
deriving DecidableEq, Inhabited

namespace Format

/-- The name of a format. -/
def name : Format → Text
  | text => "text"
  | json => "json"
  | pretty => "pretty"

/-- The format that a text names; pretty when it names none. -/
def ofText (t : Text) : Format :=
  ([text, json].find? fun f => f.name = t.trim.lower).getD pretty

end Format

/-- The value of an attribute. -/
inductive Datum where
  | none
  | text (t : Text)
  | int (n : Int)
  | bool (b : Bool)
  /-- A span of time in nanoseconds. -/
  | span (d : Int)
  | group (attrs : List (Text × Datum))
deriving Inhabited

/-- An attribute of a record. -/
abbrev Attr := Text × Datum

/-- A record. -/
structure Record where
  level : Level
  message : Text
  attrs : List Attr
deriving Inhabited

/-- What goes with every record of a logger. -/
inductive Context where
  | attrs (as : List Attr)
  | group (name : Text)
deriving Inhabited

/-! ## Values -/

/-- A value as text. -/
def Datum.plain : Datum → Text
  | none => "<nil>"
  | text t => t
  | int n => toString n
  | bool b => if b then "true" else "false"
  | span d => Duration.text d
  | group _ => ""

/-- Whether a text stands in quotes in a line. -/
def needsQuotes (t : Text) : Bool :=
  t.isEmpty || t.glyphs.any fun g => match g with
    | .stray _ => true
    | .char c =>
      if c.toNat < 0x80 then c = ' ' || c = '=' || c = '"' || c.toNat < 0x20
      else c = '\ufffd' || Text.isSpaceChar c || !Text.isPrintable c

/-- A text in a line, in quotes if it needs them. -/
def shown (t : Text) : Text := if needsQuotes t then t.quoted else t

/-- A key behind the groups it is in. -/
def shownKey (groups key : Text) : Text :=
  if groups.isEmpty then shown key
  else if needsQuotes groups || needsQuotes key then (groups ++ key).quoted else groups ++ key

/-- One glyph inside a string of a json line. -/
def escapeGlyph : Text.Glyph → List UInt8
  | .stray _ => (Text.ofString "\\ufffd").bytes
  | .char c =>
    let n := c.toNat
    let esc (s : String) : List UInt8 := 0x5C :: (Text.ofString s).bytes
    if c = '"' then esc "\""
    else if c = '\\' then esc "\\"
    else if n = 10 then esc "n"
    else if n = 13 then esc "r"
    else if n = 9 then esc "t"
    else if n < 0x20 || n = 0x2028 || n = 0x2029 then esc ("u" ++ Text.hex 4 n)
    else Text.encodeChar c

/-- A string of a json line. -/
def jsonString (t : Text) : Text := ⟨0x22 :: t.glyphs.flatMap escapeGlyph ++ [0x22]⟩

/-- Whether an attribute is left out: one without key and value, and one named for the time when no
time is written. -/
def leftOut (timed : Bool) (a : Attr) : Bool :=
  match a with
  | (_, .group _) => false
  | (key, .none) => key.isEmpty || (!timed && key = "time")
  | (key, _) => !timed && key = "time"

/-! ## Text and json lines -/

/-- Whether an attribute is a group without members. -/
def isEmptyGroup : Attr → Bool
  | (_, .group []) => true
  | _ => false

mutual

/-- A value in which no group has a member that is a group without members. -/
def Datum.pruned : Datum → Datum
  | .group attrs => .group (prunedAttrs attrs)
  | d => d

/-- Attributes without groups that have no members. -/
def prunedAttrs : List Attr → List Attr
  | [] => []
  | (key, d) :: rest =>
    let a := (key, d.pruned)
    if isEmptyGroup a then prunedAttrs rest else a :: prunedAttrs rest

end

/-- A line that is being written. -/
structure Line where
  isJson : Bool
  body : Text := ""
  /-- What stands before the next key. -/
  separator : Text := ""
  /-- The names of the groups around the next key of a text line, each with a point behind it. -/
  path : Text := ""

namespace Line

/-- What parts attributes. -/
def gap (isJson : Bool) : Text := if isJson then "," else " "

/-- What stands before the first key that follows a text. -/
def gapBehind (isJson : Bool) (t : Text) : Text :=
  if t.isEmpty || (isJson && t.endsWith "\x7b") then "" else gap isJson

/-- Writes a key. -/
def key (l : Line) (k : Text) : Line :=
  let shown := if l.isJson then jsonString k ++ ":" else shownKey l.path k ++ "="
  { l with body := l.body ++ l.separator ++ shown, separator := gap l.isJson }

/-- Begins a group. -/
def openGroup (l : Line) (name : Text) : Line :=
  if l.isJson then
    let l := l.key name
    { l with body := l.body ++ "\x7b", separator := "" }
  else { l with path := l.path ++ name ++ "." }

/-- Ends a group. -/
def closeGroup (l : Line) (name : Text) : Line :=
  let l := if l.isJson then { l with body := l.body ++ "\x7d" }
    else { l with path := l.path.take (l.path.size - name.size - 1) }
  { l with separator := gap l.isJson }

/-- Writes a value. -/
def value (l : Line) (d : Datum) : Line :=
  let t := if l.isJson then
      match d with
      | .text t => jsonString t
      | .span n => toString n
      | .none => "null"
      | d => d.plain
    else shown d.plain
  { l with body := l.body ++ t }

mutual

/-- Writes an attribute; the second component tells whether there was anything to write. A group of which nothing
is written is taken back, but it stays the group that the next key of a text line is in, and the next key of a json
line has no comma before it. -/
def attr (timed : Bool) (l : Line) (k : Text) : Datum → Line × Bool
  | .group [] => (l, true)
  | .group (a :: as) =>
    let inside := if k.isEmpty then l else l.openGroup k
    match attrs timed inside (a :: as) with
    | (after, false) => ({ after with body := l.body }, false)
    | (after, true) => (if k.isEmpty then after else after.closeGroup k, true)
  | d => if leftOut timed (k, d) then (l, false) else ((l.key k).value d, true)

/-- Writes attributes; the second component tells whether there was anything to write. -/
def attrs (timed : Bool) (l : Line) : List Attr → Line × Bool
  | [] => (l, false)
  | (k, d) :: rest =>
    let (l, isFirst) := attr timed l k d
    let (l, isRest) := attrs timed l rest
    (l, isFirst || isRest)

end

end Line

/-- What is known of a line before its record: the attributes that go with every record as they are written, the
names of the groups around further attributes, and how many of those have been begun. -/
structure Preamble where
  isJson : Bool
  body : Text := ""
  path : Text := ""
  groups : List Text := []
  opened : Nat := 0

namespace Preamble

/-- Begins the groups of a line that have not been begun. -/
def openGroups (p : Preamble) (l : Line) : Line := (p.groups.drop p.opened).foldl Line.openGroup l

/-- Adds what goes with every record. -/
def add (timed : Bool) (p : Preamble) : Context → Preamble
  | .group name => { p with groups := p.groups ++ [name] }
  | .attrs as =>
    let as := as.map fun (k, d) => (k, d.pruned)
    if as.all isEmptyGroup then p
    else
      let l := p.openGroups ⟨p.isJson, p.body, Line.gapBehind p.isJson p.body, p.path⟩
      match l.attrs timed as with
      | (_, false) => p
      | (l, true) => { p with body := l.body, path := l.path, opened := p.groups.length }

/-- Goes on with a line, and ends it with the attributes of a record. Groups around no attributes are left out. -/
def finish (timed : Bool) (p : Preamble) (l : Line) (own : List Attr) : Text :=
  let l := if p.body.isEmpty then l
    else { l with body := l.body ++ l.separator ++ p.body, separator := Line.gapBehind p.isJson p.body }
  let own := prunedAttrs own
  let (l, opened) :=
    if own.isEmpty then (l, p.opened)
    else match (p.openGroups { l with path := p.path }).attrs timed own with
      | (_, false) => (l, p.opened)
      | (l, true) => (l, p.groups.length)
  l.body ++ Text.onlyIf p.isJson (Text.replicate (opened + 1) "\x7d") ++ "\n"

end Preamble

/-! ## Pretty lines -/

mutual

/-- The parts of a pretty line for attributes below a key, if any. -/
def prettyParts (groups : Text) (above : Option Text) : List Attr → List Text
  | [] => []
  | (key, d) :: rest =>
    let key := match above with
      | some above => above ++ "." ++ key
      | none => key
    prettyPart groups key d ++ prettyParts groups above rest

/-- The parts of a pretty line for an attribute. -/
def prettyPart (groups key : Text) : Datum → List Text
  | .group attrs => prettyParts groups (some key) attrs
  | d =>
    if key.isEmpty && (match d with
      | .none => true
      | _ => false) then []
    else [(if groups.isEmpty then key else groups ++ "." ++ key) ++ "=" ++ d.plain]

end

/-- The name of a level in five places. -/
def Level.padded (l : Level) : Text :=
  if l.value ≥ 8 then "ERROR"
  else if l.value ≥ 4 then "WARN "
  else if l.value ≥ 0 then "INFO "
  else "DEBUG"

end Log

/-- A logger. An empty time layout leaves the time out. -/
structure Logger where
  level : Log.Level
  format : Log.Format
  timeLayout : Text
  context : List Log.Context
deriving Inhabited

namespace Logger

open Log

/-- Whether records of a level are written. -/
def enabled (l : Logger) (level : Level) : Bool := l.level.value ≤ level.value

/-- The logger with attributes that go with every record. -/
def withAttrs (l : Logger) (as : List Attr) : Logger := { l with context := l.context ++ [.attrs as] }

/-- The logger with a group around all further attributes. -/
def withGroup (l : Logger) (name : Text) : Logger :=
  if name.isEmpty then l else { l with context := l.context ++ [.group name] }

/-- The names of all groups, joined by points. -/
def groupPath (c : List Context) : Text :=
  Text.join "." (c.filterMap fun x => match x with
    | .group name => some name
    | .attrs _ => none)

/-- The attributes that go with every record, each under the groups around it. -/
def qualified (above : Text) : List Context → List Attr
  | [] => []
  | .attrs as :: rest =>
    (if above.isEmpty then as else as.map fun (k, d) => (above ++ "." ++ k, d))
      ++ qualified above rest
  | .group name :: rest => qualified (if above.isEmpty then name else above ++ "." ++ name) rest

/-- The line of a record in the text or json format. -/
def plainLine (l : Logger) (isJson : Bool) (now : Date) (r : Record) : Text :=
  let timed := !l.timeLayout.isEmpty
  let time := (Layout.ofText l.timeLayout).format now
  let start : Line := ⟨isJson, Text.onlyIf isJson "\x7b", "", ""⟩
  let start := if timed then (start.key "time").value (.text time) else start
  let start := (start.key "level").value (.text r.level.label)
  let start := (start.key "msg").value (.text r.message)
  (l.context.foldl (Preamble.add timed) { isJson := isJson }).finish timed start r.attrs

/-- The line of a record in the pretty format. -/
def prettyLine (l : Logger) (now : Date) (r : Record) : Text :=
  let groups := groupPath l.context
  let time := if l.timeLayout.isEmpty then [] else [(Layout.ofText l.timeLayout).format now]
  Text.join " " (time ++ [r.level.padded, r.message]
    ++ prettyParts groups none (qualified "" l.context)
    ++ prettyParts groups none r.attrs) ++ "\n"

/-- The line of a record made at a time; nothing for a record below the level. -/
def line (l : Logger) (now : Date) (r : Record) : Text :=
  if !l.enabled r.level then ""
  else match l.format with
    | .text => l.plainLine false now r
    | .json => l.plainLine true now r
    | .pretty => l.prettyLine now r

end Logger

end ScriptEngine
