import ScriptEngine.Base64
import ScriptEngine.Date.Layout
import ScriptEngine.Json
import ScriptEngine.Yaml.Node.Parser
/-!
# The data of yaml documents

The data of a document is a tree in which aliases are replaced by what their anchors name, merged entries are put
into their objects, and tags have had their effect. A list or object with an anchor keeps a number, so that it can
be the same in all places where it is named.
-/

namespace ScriptEngine.Yaml

/-! ## Data -/

/-- The data of a part of a document. -/
inductive Datum where
  | null
  | bool (b : Bool)
  /-- A whole number that signed or unsigned 64 bits hold. -/
  | int (n : Int)
  | float (x : Float)
  | text (t : Text)
  | bytes (bs : List UInt8)
  | moment (d : Date)
  | list (items : List Datum)
  /-- An object; its entries are in rising order of their keys. -/
  | object (entries : List (Text × Datum))
  /-- A list or object that is the same wherever it has this number. -/
  | shared (number : Nat) (d : Datum)
deriving Inhabited

namespace Datum

/-- The form in which moments are shown. -/
def momentLayout : Layout := .ofText "2006-01-02 15:04:05.999999999 -0700 MST"

/-- The data of a single value. -/
def ofScalar : Scalar → Datum
  | .null => .null
  | .bool b => .bool b
  | .int n => .int n
  | .float x => .float x
  | .text t => .text t

/-- Whether data is null. -/
def isNull : Datum → Bool
  | null => true
  | _ => false

mutual

/-- The text of data. -/
def shown : Datum → Text
  | null => "<nil>"
  | bool b => if b then "true" else "false"
  | int n => toString n
  | float x => FloatFormat.general.render x
  | text t => t
  | bytes bs => "[" ++ Text.join " " (bs.map fun b => Text.ofString (toString b.toNat)) ++ "]"
  | moment d => momentLayout.format d
  | list items => "[" ++ Text.join " " (shownAll items) ++ "]"
  | object entries => "map[" ++ Text.join " " (shownEntries entries) ++ "]"
  | shared _ d => shown d

/-- The texts of data. -/
def shownAll : List Datum → List Text
  | [] => []
  | d :: ds => shown d :: shownAll ds

/-- The texts of entries. -/
def shownEntries : List (Text × Datum) → List Text
  | [] => []
  | (k, d) :: es => (k ++ ":" ++ shown d) :: shownEntries es

end

/-- A single value as json; bytes and moments are shown. Doubles that are whole numbers become whole numbers, and
numbers wrap around in signed 64 bits. -/
def scalarJson : Datum → Json
  | null => .null
  | bool b => .bool b
  | int n => .int (Int64.ofInt n)
  | float x => (Json.double x).normalize
  | text t => .text t
  | d => .text d.shown

mutual

/-- The json tree of data. -/
def json : Datum → Json
  | list items => .list (jsonAll items)
  | object entries => .object (jsonEntries entries)
  | shared _ d => json d
  | null => .null
  | bool b => .bool b
  | int n => scalarJson (int n)
  | float x => scalarJson (float x)
  | text t => .text t
  | bytes bs => scalarJson (bytes bs)
  | moment d => scalarJson (moment d)

/-- The json trees of data. -/
def jsonAll : List Datum → List Json
  | [] => []
  | d :: ds => json d :: jsonAll ds

/-- The json trees of entries. -/
def jsonEntries : List (Text × Datum) → List (Text × Json)
  | [] => []
  | (k, d) :: es => (k, json d) :: jsonEntries es

end

end Datum

/-! ## Names -/

/-- What anchors name: the parts and their data. The part of an anchor that is being read is not known yet. -/
structure Names where
  parts : List (Text × Option Node) := []
  data : List (Text × Datum) := []
  count : Nat := 0

/-- Computations that look up what anchors name. -/
abbrev Eval := StateT Names (Except Trouble)

namespace Eval

/-- Sets the part that a name stands for. -/
def setPart (name : Text) (n : Option Node) : Eval Unit :=
  modify fun s => { s with parts := (name, n) :: s.parts.filter (·.1 ≠ name) }

/-- Gives data a name. Lists and objects get a number. -/
def setDatum (name : Text) (d : Datum) : Eval Datum := do
  let s ← get
  let (d, count) := match d with
    | .list _ | .object _ => (Datum.shared s.count d, s.count + 1)
    | d => (d, s.count)
  set { s with data := (name, d) :: s.data.filter (·.1 ≠ name), count := count }
  return d

/-! ## Tags -/

/-- The ways to write a moment behind a tag. -/
def momentLayouts : List Layout := [
  .ofText "2006-1-2T15:4:5.999999999Z07:00",
  .ofText "2006-1-2t15:4:5.999999999Z07:00",
  .ofText "2006-1-2 15:4:5.999999999",
  .ofText "2006-1-2"]

/-- The first moment of the calendar. -/
def noMoment : Date := Date.make ⟨1, 1, 1⟩ 0 0 0 0 Zone.utc

/-- The moment that data stands for. -/
def momentOf : Datum → Date
  | .moment d => d
  | .text t => (momentLayouts.findSome? fun l => l.parse? t Zone.utc).getD noMoment
  | _ => noMoment

/-- The whole number that a text with an optional sign spells; zero if there is none, and the nearest of 64 bits if
it is too large. -/
def wholeOf (t : Text) : Int :=
  let (isNegative, ds) := match t.chars with
    | '-' :: ds => (true, ds)
    | '+' :: ds => (false, ds)
    | ds => (false, ds)
  if ds.isEmpty || !ds.all Char.isDigit then 0
  else
    let n : Nat := ds.foldl (fun n c => n * 10 + (c.toNat - 48)) 0
    if isNegative then max (-(2 ^ 63)) (-(n : Int)) else min (2 ^ 63 - 1) (n : Int)

/-- The double that data stands for. -/
def doubleOf : Datum → Datum
  | .float x => .float x
  | .int n => .float (floatOfInt n)
  | .text t => .float ((Decimal.parseFloat? t.chars).getD 0.0)
  | _ => .int 0

/-- The bytes that digits stand for, up to the first group of digits that is wrong. -/
def bytesOf (t : Text) : List UInt8 :=
  match Base64.standard.decode t.bytes with
  | .ok bs => bs
  | .error _ =>
    let digits := (t.bytes.filter (!Base64.isLineEnd ·)).takeWhile fun b => (Base64.standard.value? b).isSome
    match Base64.standard.decode (digits.take (digits.length / 4 * 4)) with
    | .ok bs => bs
    | .error _ => []

/-- The truth value that data stands for. -/
def truth? (d : Datum) : Option Bool :=
  let word := d.shown.lowerAscii.toString
  if ["1", "t", "true", "yes"].contains word then some true
  else if ["0", "f", "false", "no"].contains word then some false
  else none

/-- The effect of a tag on data. -/
def applyTag (c : Chain) (tag : String) (value : Node) (d : Datum) : Eval Datum :=
  match tag with
  | "!!timestamp" => return .moment (momentOf d)
  | "!!int" => return .int (wholeOf d.shown)
  | "!!float" => return doubleOf d
  | "!!null" => return .null
  | "!!str" => return if d.isNull then .text "" else .text d.shown
  | "!!binary" =>
    match d with
    | .text t => return .bytes (bytesOf t)
    | d => throw (Trouble.at c value.index ("cannot convert " ++ d.shown.quoted ++ " to string"))
  | "!!bool" =>
    match truth? d with
    | some b => return .bool b
    | none => throw (Trouble.at c value.index ("cannot convert " ++ d.shown.quoted ++ " to boolean"))
  | _ => return d

/-! ## Parts -/

/-- How deep data may be nested. -/
def maxDepth : Nat := 10000

/-- The entries of a part that has to be an object; where entries are merged it may also be a list of objects. -/
def entriesOf (c : Chain) : Nat → Bool → Node → Eval (List (Node × Node))
  | 0, _, _ => throw ⟨"exceeded max depth"⟩
  | depth + 1, isMerge, n =>
    match n with
    | .scalar _ .null => return []
    | .object _ entries => return entries
    | .anchor _ name v => do
      setPart name (some v)
      entriesOf c depth isMerge v
    | .reference _ _ name => do
      match (← get).parts.lookup name with
      | some (some v) => entriesOf c depth isMerge v
      | _ => throw ⟨"cannot find anchor by alias name " ++ name⟩
    | .list i items =>
      if isMerge then do return (← items.mapM (entriesOf c depth false)).flatten
      else throw (Trouble.at c i "sequence was used where mapping is expected")
    | n => throw (Trouble.at c n.index (n.sortName ++ " was used where mapping is expected"))

mutual

/-- The data of a part; `active` are the names of the anchors that it lies in. -/
def datum (c : Chain) : Nat → List Text → Node → Eval Datum
  | 0, _, _ => throw ⟨"exceeded max depth"⟩
  | depth + 1, active, n =>
    match n with
    | .scalar _ v => return .ofScalar v
    | .block _ t => return .text t
    | .merge _ | .directive _ => return .null
    | .key _ v => datum c depth active v
    | .tagged _ tag isRedeclared v => do
      if tag = "!!null" && !isRedeclared then return .null
      let d ← datum c depth active v
      if isRedeclared then return if d.isNull then .text "" else .text d.shown
      applyTag c tag.toString v d
    | .anchor _ name v => do
      setPart name none
      let d ← datum c depth (name :: active) v
      setPart name (some v)
      setDatum name d
    | .reference _ i name => do
      if active.contains name then return .null
      let s ← get
      match s.data.lookup name, s.parts.lookup name with
      | some d, _ => return d
      | none, some (some v) => do
        let d ← datum c depth active v
        setDatum name d
      | none, some none => return .null
      | none, none => throw (Trouble.at c i ("could not find alias " ++ name.quoted))
    | .list _ items => do return .list (← items.mapM (datum c depth active))
    | .object _ entries => do
      return .object (← entries.foldlM (fun m e => put c depth active m e) [])

/-- The entries of an object with one more, or with those that it merges. -/
def put (c : Chain) : Nat → List Text → List (Text × Datum) → Node × Node → Eval (List (Text × Datum))
  | 0, _, _, _ => throw ⟨"exceeded max depth"⟩
  | depth + 1, active, m, (key, value) =>
    match key with
    | .merge _ => do
      (← entriesOf c depth true value).foldlM (fun m e => put c depth active m e) m
    | key => do
      let k ← datum c depth active key
      let d ← datum c depth active value
      return Json.insert (if k.isNull then "null" else k.shown) d m

end

end Eval

/-! ## Documents -/

/-- The first document that is not empty, with its data, and what its anchors name. All documents have to make
sense. -/
def Stream.first? (s : Stream) : Except Trouble (Option (Node × Datum) × Names) := do
  let data ← (s.documents.mapM fun n? => match n? with
    | none => pure none
    | some n => do
      let d ← Eval.datum s.chain Eval.maxDepth [] n
      pure (if d.isNull && !n.isNull then none else some (n, d))).run {}
  return (data.1.findSome? id, data.2)

/-- The data of a text. -/
def read (t : Text) : Except Trouble Datum := do
  let (first?, _) ← (← Stream.parse t).first?
  return (first?.map (·.2)).getD .null

end ScriptEngine.Yaml
