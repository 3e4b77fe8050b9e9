import ScriptEngine.Builtin.Surroundings
import ScriptEngine.Yaml.Datum
import ScriptEngine.Yaml.Writer
/-!
# Settings

The settings of the engine come from defaults, a document in yaml, and the variables of the environment, which a
file may add to; what comes later wins. A document names settings by section and key: sections and keys that mean
nothing are passed over, and null leaves what it stands for as it was. A document with nothing in it clears them all.
-/

namespace ScriptEngine

/-- The settings of the engine. -/
structure Settings where
  logLevel : Text
  logFormat : Text
  maxCallDepth : Int
  importDir : Text
  maxTimers : Int
  tickBuffer : Int
  mail : MailSettings

namespace Settings

/-- The settings when nothing else is said. -/
def initial : Settings := ⟨"info", "pretty", 1000, ".", 32, 64, ⟨"", 587, "", "", ""⟩⟩

/-- The settings of a document with nothing in it. -/
def blank : Settings := ⟨"", "", 0, "", 0, 0, ⟨"", 0, "", "", ""⟩⟩

/-- Why there are no settings. -/
inductive Trouble where
  | unreadable (path step : Text) (t : FileTree.Trouble)
  | malformed (path : Text) (t : Yaml.Trouble)
  | badVariables (path : Text) (t : Host.LoadTrouble)
  | noNumber (name value : Text)
  | negativeDepth
  | noTimers
  | negativeBuffer
  | badPort (port : Int)

/-- The wording of a trouble. -/
def Trouble.message : Trouble → Text
  | unreadable path step t => "read config: " ++ step ++ " " ++ path ++ ": " ++ t.message
  | malformed path t => "parse config " ++ path ++ ": " ++ t.message
  | badVariables path (.path step t) => "load env file: " ++ step ++ " " ++ path ++ ": " ++ t.message
  | badVariables _ (.content t) => "load env file: " ++ t.message
  | noNumber name value => name ++ ": " ++ value.quoted ++ " is not a number"
  | negativeDepth => "engine.max_call_depth must not be negative"
  | noTimers => "timers.max_timers must be positive"
  | negativeBuffer => "timers.tick_buffer must not be negative"
  | badPort port => "mail.port " ++ toString port ++ " out of range"

/-! ## Documents -/

/-- The sort of data in messages. -/
def sortOf : Yaml.Datum → Text
  | .null => "%!s(<nil>)"
  | .bool _ => "bool"
  | .int n => if n < 0 then "int64" else "uint64"
  | .float _ => "float64"
  | .text _ => "string"
  | .bytes _ => "[]uint8"
  | .moment _ => "time.Time"
  | .list _ => "[]interface \x7b\x7d"
  | .object _ => "map[string]interface \x7b\x7d"
  | .shared _ d => sortOf d

/-- Reading a setting from a part of a document: `none` leaves it as it was. -/
abbrev Reading (α : Type) := Yaml.Chain → Text → Yaml.Node → Yaml.Eval (Option α)

/-- The trouble of data that a setting can not take. -/
def mismatch (sort : Text) (c : Yaml.Chain) (name : Text) (n : Yaml.Node) (d : Yaml.Datum) : Yaml.Trouble :=
  Yaml.Trouble.at c n.index
    ("cannot unmarshal " ++ sortOf d ++ " into Go struct field " ++ name ++ " of type " ++ sort)

/-- The trouble of a number that is too large. -/
def overflow (c : Yaml.Chain) (n : Yaml.Node) (d : Yaml.Datum) : Yaml.Trouble :=
  Yaml.Trouble.at c n.index ("cannot unmarshal " ++ d.shown ++ " into Go value of type int ( overflow )")

/-- The part below anchors. -/
def unnamed : Yaml.Node → Yaml.Node
  | .anchor _ _ v => unnamed v
  | n => n

/-- The text of a single value. -/
def readText : Reading Text := fun c name n => do
  match ← Yaml.Eval.datum c Yaml.Eval.maxDepth [] n with
  | .null => return none
  | .bytes bs => return some ⟨bs⟩
  | d@(.bool _) | d@(.int _) | d@(.float _) | d@(.text _) => return some d.shown
  | d => throw (mismatch "string" c name (unnamed n) d)

/-- The whole part of a double in signed 64 bits; those too far away become the least number. -/
def truncate (x : Float) : Int :=
  ((wholePart x).filter fun n => -(2 ^ 63) ≤ n && n < 2 ^ 63).getD (-(2 ^ 63))

/-- The whole number of a single value; a text may spell one that is not negative. -/
def readNumber : Reading Int := fun c name n => do
  match ← Yaml.Eval.datum c Yaml.Eval.maxDepth [] n with
  | d@(.int k) => if k < 2 ^ 63 then return some k else throw (overflow c (unnamed n) d)
  | d@(.float x) => if x ≤ 9223372036854775808.0 then return some (truncate x) else throw (overflow c (unnamed n) d)
  | d@(.text t) =>
    match Decimal.parseInRange? t.chars with
    | none => throw (mismatch "int" c name (unnamed n) d)
    | some x =>
      if 0.0 ≤ x && x ≤ 18446744073709551616.0 then return some (truncate x) else throw (overflow c (unnamed n) d)
  | d => throw (mismatch "int" c name (unnamed n) d)

/-- One setting by the key it has in its section, with its name in messages. -/
structure Field where
  key : Text
  name : Text
  assign : Yaml.Chain → Yaml.Node → Settings → Yaml.Eval Settings

/-- A setting with a way to read it. -/
def Field.of {α : Type} (read : Reading α) (key name : Text) (put : α → Settings → Settings) : Field :=
  ⟨key, name, fun c n s => do return match ← read c name n with
    | some a => put a s
    | none => s⟩

/-- Every setting by section. -/
def sections : List (Text × List Field) := [
  ("log", [
    .of readText "level" "Config.Log.Level" fun t s => { s with logLevel := t },
    .of readText "format" "Config.Log.Format" fun t s => { s with logFormat := t }]),
  ("engine", [
    .of readNumber "max_call_depth" "Config.Engine.MaxCallDepth" fun n s => { s with maxCallDepth := n },
    .of readText "import_dir" "Config.Engine.ImportDir" fun t s => { s with importDir := t }]),
  ("timers", [
    .of readNumber "max_timers" "Config.Timers.MaxTimers" fun n s => { s with maxTimers := n },
    .of readNumber "tick_buffer" "Config.Timers.TickBuffer" fun n s => { s with tickBuffer := n }]),
  ("mail", [
    .of readText "host" "Config.Mail.Host" fun t s => { s with mail := { s.mail with host := t } },
    .of readNumber "port" "Config.Mail.Port" fun n s => { s with mail := { s.mail with port := n } },
    .of readText "username" "Config.Mail.Username" fun t s => { s with mail := { s.mail with username := t } },
    .of readText "password" "Config.Mail.Password" fun t s => { s with mail := { s.mail with password := t } },
    .of readText "from" "Config.Mail.From" fun t s => { s with mail := { s.mail with sender := t } }])]

/-- The part that an alias stands for. -/
def resolve (n : Yaml.Node) : Yaml.Eval Yaml.Node := do
  match n with
  | .reference _ _ name => return match (← get).parts.lookup name with
    | some (some v) => v
    | _ => n
  | n => return n

/-- The parts of an object by their keys, those of merged objects included. An object with a key that is no text
has none. -/
def partsOf (c : Yaml.Chain) : Nat → Yaml.Node → Yaml.Eval (List (Text × Yaml.Node))
  | 0, _ => throw ⟨"exceeded max depth"⟩
  | depth + 1, n => do
    let entries ← Yaml.Eval.entriesOf c depth false n
    let add (parts : List (Text × Yaml.Node)) (key : Text) (place value : Yaml.Node) :
        Yaml.Eval (List (Text × Yaml.Node)) :=
      if (parts.lookup key).isSome then
        throw (Yaml.Trouble.at c place.index ("duplicate key \"" ++ key ++ "\""))
      else return parts ++ [(key, value)]
    let parts? ← entries.foldlM (fun parts? (key, value) =>
      match parts?, key with
      | none, _ => return none
      | some parts, .merge _ => do
        let merged ← partsOf c depth value
        some <$> merged.foldlM (fun parts (k, v) => add parts k v v) parts
      | some parts, key => do
        match ← Yaml.Eval.datum c depth [] key with
        | .text k => some <$> add parts k key value
        | _ => return none) (some [])
    return parts?.getD []

/-- Settings changed by the parts of an object that have the keys of fields. Null changes nothing. -/
def assignAll (fields : List (Text × (Yaml.Node → Settings → Yaml.Eval Settings)))
    (parts : List (Text × Yaml.Node)) (s : Settings) : Yaml.Eval Settings :=
  fields.foldlM (fun s (key, assign) => do
    match parts.lookup key with
    | none => return s
    | some n =>
      let n ← resolve n
      if n.isNull then return s else assign n s) s

/-- The settings of one section changed by a part of a document. -/
def ofSection (c : Yaml.Chain) (fields : List Field) (n : Yaml.Node) (s : Settings) : Yaml.Eval Settings := do
  let parts ← partsOf c Yaml.Eval.maxDepth (unnamed n)
  assignAll (fields.map fun f => (f.key, f.assign c)) parts s

/-- Settings changed by a document. -/
def ofDocument (c : Yaml.Chain) (n : Yaml.Node) (s : Settings) : Yaml.Eval Settings := do
  let parts ← partsOf c Yaml.Eval.maxDepth n
  assignAll (sections.map fun (name, fields) => (name, ofSection c fields)) parts s

/-- Settings changed by the first document of a text. -/
def ofText (t : Text) (s : Settings) : Except Yaml.Trouble Settings := do
  let stream ← Yaml.Stream.parse t
  match ← stream.first? with
  | (none, _) => return blank
  | (some (n, _), names) => do
    let (s, _) ← (ofDocument stream.chain n s).run { parts := names.parts }
    return s

/-- Settings as a document, section by section. -/
def document (s : Settings) : Text :=
  let number (n : Int) : Json := .int (Int64.ofInt n)
  Yaml.render (.object [
    ("log", .object [("level", .text s.logLevel), ("format", .text s.logFormat)]),
    ("engine", .object [("max_call_depth", number s.maxCallDepth), ("import_dir", .text s.importDir)]),
    ("timers", .object [("max_timers", number s.maxTimers), ("tick_buffer", number s.tickBuffer)]),
    ("mail", .object [("host", .text s.mail.host), ("port", number s.mail.port),
      ("username", .text s.mail.username), ("password", .text s.mail.password),
      ("from", .text s.mail.sender)])])

/-! ## Variables -/

/-- The value of a variable that is not blank. -/
def setValue? (vars : List (Text × Text)) (name : Text) : Option Text :=
  (vars.lookup name).filter fun v => !v.trim.isEmpty

/-- The settings that variables hold as texts. -/
def textVariables : List (Text × (Text → Settings → Settings)) := [
  ("EBS_LOG_LEVEL", fun t s => { s with logLevel := t }),
  ("EBS_LOG_FORMAT", fun t s => { s with logFormat := t }),
  ("EBS_IMPORT_DIR", fun t s => { s with importDir := t }),
  ("SMTP_HOST", fun t s => { s with mail := { s.mail with host := t } }),
  ("SMTP_USER", fun t s => { s with mail := { s.mail with username := t } }),
  ("SMTP_PASS", fun t s => { s with mail := { s.mail with password := t } }),
  ("SMTP_FROM", fun t s => { s with mail := { s.mail with sender := t } })]

/-- The settings that variables hold as numbers. -/
def numberVariables : List (Text × (Int → Settings → Settings)) := [
  ("EBS_MAX_TIMERS", fun n s => { s with maxTimers := n }),
  ("EBS_MAX_DEPTH", fun n s => { s with maxCallDepth := n }),
  ("SMTP_PORT", fun n s => { s with mail := { s.mail with port := n } })]

/-- A signed number that 64 bits hold. -/
def integer? (t : Text) : Option Int :=
  (Log.Level.signed? t).filter fun n => -(2 ^ 63) ≤ n && n < 2 ^ 63

/-- Settings changed by the variables of the environment. -/
def ofVariables (vars : List (Text × Text)) (s : Settings) : Except Trouble Settings :=
  let s := textVariables.foldl (fun s (name, put) => match setValue? vars name with
    | some v => put v.trim s
    | none => s) s
  numberVariables.foldlM (fun s (name, put) => match setValue? vars name with
    | none => .ok s
    | some v => match integer? v.trim with
      | some n => .ok (put n s)
      | none => .error (.noNumber name v)) s

/-! ## Checking and loading -/

/-- Refuses settings that the engine can not run with. -/
def check (s : Settings) : Except Trouble Settings :=
  if s.maxCallDepth < 0 then .error .negativeDepth
  else if s.maxTimers ≤ 0 then .error .noTimers
  else if s.tickBuffer < 0 then .error .negativeBuffer
  else if s.mail.port < 0 || s.mail.port > 65535 then .error (.badPort s.mail.port)
  else .ok s

/-- Settings changed by the document at a path. -/
def ofFile (files : FileTree) (path : Text) (s : Settings) : Except Trouble Settings := do
  let t ← match files.read path with
    | .ok t => pure t
    | .error t => throw (.unreadable path (if t = .isDirectory then "read" else "open") t)
  match ofText t s with
  | .ok s => pure s
  | .error t => throw (.malformed path t)

/-- The settings of a host, with the variables that a file adds to it. An empty path means no file. -/
def load (h : Host) (path variablesPath : Text) : Except Trouble (Settings × Host) := do
  let s ← if path.isEmpty then pure initial else ofFile h.files path initial
  let h ← if variablesPath.isEmpty then pure h else
    match h.loadVariables variablesPath with
    | .ok h => pure h
    | .error t => throw (.badVariables variablesPath t)
  let s ← ofVariables h.environment s
  pure (← s.check, h)

end Settings

end ScriptEngine
