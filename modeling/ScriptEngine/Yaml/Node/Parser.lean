import ScriptEngine.Text.Quoted
import ScriptEngine.Yaml.Node
import ScriptEngine.Yaml.Token.Lexer
/-!
# Reading the structure of yaml documents

The structure of a document follows from the columns of its phrases: the entries of an object stand at the column of
its first key, and a value deeper than its key, or at the same column if it is a list. In brackets and braces columns
do not count. A key may be given once in an object. A value that is left out is null.
-/

namespace ScriptEngine.Yaml

/-- A step from a part of a document to a part of that. -/
inductive Step where
  | key (name : List Char)
  | item (n : Nat)
deriving DecidableEq

/-- Where reading stands: the way from the document to the part, latest first, and whether it is in brackets or
braces. -/
structure Context where
  path : List Step := []
  isFlow : Bool := false

/-- The context of the value of a key. -/
def Context.child (x : Context) (name : List Char) : Context := { x with path := .key name :: x.path }

/-- The context of an item. -/
def Context.item (x : Context) (n : Nat) : Context := { x with path := .item n :: x.path }

/-- The context inside brackets or braces. -/
def Context.flow (x : Context) : Context := { x with isFlow := true }

/-- What is known of the documents read so far. -/
structure Progress where
  chain : Chain
  /-- The keys of the document and where they stand. -/
  seen : List (List Step × Mark) := []
  hasVersion : Bool := false
  redeclaresTags : Bool := false

/-- Computations that read phrases. -/
abbrev Parse := StateT Progress (Except Trouble)

/-- A part of a document and the phrases behind it. -/
abbrev Parsed := Node × List Phrase

namespace Parse

/-- The failure at a token. -/
def failAt {α : Type} (index : Nat) (why : Text) : Parse α := do throw (Trouble.at (← get).chain index why)

/-- The failure at a phrase. -/
def fail {α : Type} (p : Phrase) (why : Text) : Parse α := failAt p.index why

/-- The content of the token of a part. -/
def tokenValue (index : Nat) : Parse (List Char) := do
  return (((← get).chain[index]?).map (·.token.value)).getD []

/-- The place of the token of a part. -/
def markOf (index : Nat) : Parse Mark := do
  return (((← get).chain[index]?).map (·.token.mark)).getD ⟨0, 0⟩

/-! ## Values that are left out -/

/-- A token for a value that is left out, some columns behind another. -/
def missing (base : Nat) (columns : Int) : Parse Token := do
  let m ← markOf base
  return ⟨.missing, "null".toList, " null".toList, { m with column := m.column + columns }⟩

/-- Adds a token behind all others. -/
def addLink (l : Link) : Parse Nat := do
  let c := (← get).chain
  modify fun s => { s with chain := s.chain.push l }
  return c.size

/-- Null in place of a value that is left out, with a token of its own. -/
def loneNull (base : Nat) : Parse Node := do
  return .scalar (← addLink ⟨← missing base 1, none, none⟩) .null

/-- Null in place of a value that is left out before a phrase, whose token then follows the new one. -/
def nullBefore (base : Nat) (next : Phrase) : Parse Node := do
  let i ← addLink ⟨← missing base 1, none, some next.index⟩
  modify fun s => { s with chain := s.chain.modify next.index fun l => { l with before := some i } }
  return .scalar i .null

/-- Null in place of a value that is left out at the end, whose token then follows that of the base. -/
def nullBehind (base : Nat) : Parse Node := do
  let i ← addLink ⟨← missing base 2, some base, none⟩
  modify fun s => { s with chain := s.chain.modify base fun l => { l with after := some i } }
  return .scalar i .null

/-! ## Keys -/

/-- The name of a key on the way to its value. An alias has none. -/
def keyName : Node → Parse (List Char)
  | .key _ v => keyName v
  | .tagged _ _ _ v => keyName v
  | .anchor _ _ v => keyName v
  | .reference .. => return []
  | n => tokenValue n.index

/-- Characters without blanks and line ends at their front. -/
def dropFrontBlanks (cs : List Char) : List Char := cs.dropWhile fun c => c = ' ' || isLineEnd c

/-- Takes note of a key. A key may be given once, and has to stand on one line. -/
def noteKey (x : Context) (key : Node) (colon : Phrase) : Parse (List Char) := do
  let name ← keyName key
  let path := .key name :: x.path
  let s ← get
  match (s.chain[key.index]?).map (·.token), s.seen.lookup path with
  | none, _ => pure ()
  | some t, some m =>
    failAt key.index ("mapping key " ++ (Text.ofChars t.value).quoted ++ " already defined at ["
      ++ toString m.line ++ ":" ++ toString m.column ++ "]")
  | some t, none =>
    let origin := dropFrontBlanks t.origin
    if x.isFlow then
      let lines := lineEnds (dropEnd (fun c => c = ' ' || isLineEnd c) origin)
      if t.isBareText && t.mark.line + lines ≠ colon.line then
        failAt key.index "map key definition includes an implicit line break"
    else if (t.isBareText || t.isQuoted) && lineEnds origin > 0 then
      failAt key.index "unexpected key name"
    set { s with seen := (path, t.mark) :: s.seen }
  return name

/-! ## Scalars -/

/-- The value that a tag without one stands for. -/
def tagDefault (tag : String) : Scalar :=
  match tag with
  | "!!int" => .int 0
  | "!!float" => .float 0.0
  | "!!bool" => .bool false
  | "!!null" => .null
  | _ => .text ""

/-- A word or quoted text as a part of a document. -/
def word (i : Nat) (t : Token) : Parse Node :=
  match t.kind, Scalar.ofToken? t with
  | .merge, _ => return .merge i
  | _, some v => return .scalar i v
  | _, none => failAt i "unexpected scalar value type"

/-- The block of text of a phrase. -/
def blockOf (head : Phrase) (body : List Phrase) : Parse Node :=
  match body with
  | [] => return .block head.index ""
  | p :: _ => do
    if p.kind?.isNone && p.token.isBareText then return .block head.index (Text.ofChars p.token.value)
    else match Scalar.ofToken? p.token with
      | some (.text t) => return .block head.index t
      | _ => fail p "unexpected token. required string token"

/-- An alias by its sign and its name. -/
def aliasOf (sign : Phrase) (name : List Phrase) : Parse Node :=
  match name with
  | [] => fail sign "could not find alias value"
  | p :: _ => do
    if p.kind?.isSome || (Scalar.ofToken? p.token).isNone then fail p "unexpected scalar value type"
    else return .reference sign.index p.index (Text.ofChars p.token.value)

/-- The name of an anchor, by its phrase. -/
def anchorName (p : Phrase) : Parse Text :=
  match p with
  | .group .anchorName _ (name :: _) =>
    if name.kind?.isSome || (Scalar.ofToken? name.token).isNone then fail name "unexpected scalar value type"
    else return Text.ofChars name.token.value
  | p => fail p "could not find anchor value"

/-- A part with a name. -/
def withName (sign : Phrase) (name : Text) (value : Node) : Parse Node :=
  if value.isAnchor then failAt value.index "anchors cannot be used consecutively"
  else return .anchor sign.index name value

/-- The versions that a document can ask for. -/
def versions : List String := ["1.0", "1.1", "1.2", "1.3"]

/-- Takes note of a directive. -/
def directiveOf (first : Phrase) (values : List Phrase) : Parse Node := do
  let name := String.ofList first.last.token.value
  match name, values with
  | "YAML", [v] =>
    if !versions.contains (String.ofList v.token.value) then
      fail v ("unknown YAML version " ++ (Text.ofChars v.token.value).quoted)
    else if (← get).hasVersion then fail v "YAML version has already been specified"
    else modify fun s => { s with hasVersion := true }
  | "YAML", _ => fail first "unexpected format YAML directive"
  | "TAG", [key, _] =>
    if key.token.value = "!!".toList then modify fun s => { s with redeclaresTags := true }
  | "TAG", _ => fail first "unexpected format TAG directive"
  | _, _ => pure ()
  return .directive first.index

/-- Refuses a tag below its anchor that is not indented deeper than a column. -/
def checkAnchored (n : Node) (column : Int) : Parse Unit := do
  match n with
  | .anchor i _ (.tagged j _ _ _) =>
    let a ← markOf i
    let t ← markOf j
    if a.line ≠ t.line && t.column ≤ column then failAt j "tag is not allowed in this context"
  | _ => pure ()

/-! ## Parts of documents -/

mutual

/-- The part of a document that begins at the first phrase. -/
def value : Nat → Context → List Phrase → Parse Parsed
  | 0, _, _ => throw ⟨"exceeded max depth"⟩
  | _, _, [] => throw ⟨"unexpected end of document"⟩
  | fuel + 1, x, p :: rest =>
    match p with
    | .group .key .. | .group .entry .. => object fuel x (p :: rest)
    | .group .directive first values => do return (← directiveOf first values, rest)
    | .group .directiveName .. => do return (.directive p.index, rest)
    | .group .anchorName sign _ => do
      let name ← anchorName p
      if rest.isEmpty then fail p "could not find anchor value"
      let (v, rest) ← value fuel x rest
      return (← withName sign name v, rest)
    | .group .anchor .. | .group .reference .. | .group .block .. | .group .tagged .. => do
      return ((← scalar fuel x p []).1, rest)
    | .single i t =>
      match t.kind with
      | .tag => tagged fuel x p rest
      | .openObject => flowObject fuel x.flow p true [] rest
      | .openList => flowList fuel x.flow p [] rest
      | .dash => list fuel x p.column p.index [] (p :: rest)
      | .closeList => failAt i "could not find '[' character corresponding to ']'"
      | .closeObject => failAt i "could not find '\x7b' character corresponding to '\x7d'"
      | .colon => failAt i "found an invalid key for this map"
      | _ => do return (← word i t, rest)

/-- The single value of a phrase; `rest` is what follows it in its own phrase. -/
def scalar : Nat → Context → Phrase → List Phrase → Parse Parsed
  | 0, _, _, _ => throw ⟨"exceeded max depth"⟩
  | fuel + 1, x, p, rest =>
    match p with
    | .group .anchor named body => do
      let name ← anchorName named
      if body.isEmpty then fail named "could not find anchor value"
      let (v, _) ← value fuel x body
      return (← withName named name v, rest)
    | .group .anchorName sign _ => do
      let name ← anchorName p
      if rest.isEmpty then fail p "could not find anchor value"
      let (v, rest) ← value fuel x rest
      return (← withName sign name v, rest)
    | .group .reference sign name => do return (← aliasOf sign name, rest)
    | .group .block head body => do return (← blockOf head body, rest)
    | .group .tagged tag body => do return ((← tagged fuel x tag body).1, rest)
    | .group .. => fail p "unexpected scalar value"
    | .single i t =>
      match t.kind with
      | .tag => do
        let (v, rest) ← tagged fuel x p rest
        match v with
        | .tagged _ _ _ body => if !body.isScalar then failAt v.index "specified not scalar tag"
        | _ => pure ()
        return (v, rest)
      | _ => do return (← word i t, rest)

/-- A tag and the part that follows it. -/
def tagged : Nat → Context → Phrase → List Phrase → Parse Parsed
  | 0, _, _, _ => throw ⟨"exceeded max depth"⟩
  | fuel + 1, x, tag, ps => do
    let name := String.ofList tag.token.value
    let make (isRedeclared : Bool) (v : Node) : Node := .tagged tag.index name isRedeclared v
    if (← get).redeclaresTags then
      match ps with
      | [] => return (make true (← loneNull tag.index), [])
      | p :: _ => return (make true (.scalar p.index (.text (Text.ofChars p.token.value))), ps)
    else match ps with
      | [] => return (make false (← loneNull tag.index), [])
      | p :: rest =>
        if name = "!!map" || name = "!!set" then
          if !p.isObjectPart then fail p "could not find map"
          let (v, rest) ← match p.sort with
            | .openObject => flowObject fuel x.flow p true [] rest
            | _ => object fuel x (p :: rest)
          return (make false v, rest)
        else if Phrase.scalarTags.contains name then
          match p, p.sort with
          | .group .block head body, _ => return (make false (← blockOf head body), p :: rest)
          | _, .comma | _, .colon =>
            let i ← addLink ⟨Token.text [] [] (← markOf tag.index), none, some p.index⟩
            return (make false (.scalar i (tagDefault name)), p :: rest)
          | _, _ =>
            let (v, rest) ← scalar fuel x p rest
            return (make false v, rest)
        else if name = "!!seq" || name = "!!omap" then
          let (v, rest) ← match p.sort with
            | .openList => flowList fuel x.flow p [] rest
            | .dash => list fuel x p.column p.index [] (p :: rest)
            | _ => pure (.list p.index [], p :: rest)
          return (make false v, rest)
        else
          let (v, rest) ← value fuel x (p :: rest)
          return (make false v, rest)

/-- The key of a phrase, and its name. -/
def key : Nat → Context → Phrase → Parse (Node × List Char)
  | 0, _, _ => throw ⟨"exceeded max depth"⟩
  | fuel + 1, x, p =>
    match p with
    | .group .key first rest => do
      let colon := p.last
      match first.sort with
      | .question =>
        let parts := match first with
          | .group _ _ parts => parts
          | .single .. => rest
        match parts with
        | [] => fail first "could not find value for mapping key"
        | part :: more =>
          let (v, _) ← scalar fuel x part more
          let k := Node.key first.index v
          return (k, ← noteKey x k colon)
      | _ =>
        if !colon.token.isColon then fail colon "expected map key-value delimiter ':'"
        let (k, _) ← scalar fuel x first rest
        return (k, ← noteKey x k colon)
    | p => fail p "unexpected map key"

/-- The entry of a phrase that holds a key and a single value. -/
def entry : Nat → Context → Phrase → Parse (Node × Node)
  | 0, _, _ => throw ⟨"exceeded max depth"⟩
  | fuel + 1, x, p =>
    match p with
    | .group .entry first rest => do
      let (k, name) ← key fuel x first
      let (v, _) ← value fuel (x.child name) rest
      return (k, v)
    | p => fail p "unexpected map key-value pair"

/-- The object whose first entry begins at the first phrase. -/
def object : Nat → Context → List Phrase → Parse Parsed
  | 0, _, _ => throw ⟨"exceeded max depth"⟩
  | _, _, [] => throw ⟨"unexpected end of document"⟩
  | fuel + 1, x, p :: rest => do
    let colon := match p with
      | .group .entry first _ => first.last.index
      | p => p.last.index
    let (entries, rest) ← entries fuel x p.column [] (p :: rest)
    return (.object colon entries, rest)

/-- The entries of an object at a column; `acc` are those before, latest first. -/
def entries : Nat → Context → Int → List (Node × Node) → List Phrase → Parse (List (Node × Node) × List Phrase)
  | 0, _, _, _, _ => throw ⟨"exceeded max depth"⟩
  | _, _, _, acc, [] => return (acc.reverse, [])
  | fuel + 1, x, column, acc, p :: rest => do
    let (e, rest) ← match p.kind? with
      | some .entry => do
        let e ← entry fuel x p
        match rest with
        | [] => pure ()
        | next :: _ =>
          let mayFollow := match next.sort with
            | .comma | .closeList => x.isFlow
            | _ => false
          if p.column < next.column && !mayFollow then
            fail next "value is not allowed in this context. map key-value is pre-defined"
        pure (e, rest)
      | some .key => do
        let (k, name) ← key fuel x p
        match rest with
        | [] => pure ()
        | next :: _ =>
          if p.line = next.line && next.isDash then
            fail next "block sequence entries are not allowed in this context"
        let (v, rest) ← mapped fuel (x.child name) k p.last.index rest
        pure ((k, v), rest)
      | _ => fail p "unexpected map key"
    let acc := e :: acc
    match rest with
    | [] => return (acc.reverse, [])
    | next :: after =>
      if next.column ≠ column then return (acc.reverse, rest)
      match next.sort, x.isFlow with
      | .closeList, true => return (acc.reverse, rest)
      | _, _ =>
        if !next.isObjectPart then fail next "non-map value is specified"
        match next.sort with
        | .closeObject => return (acc.reverse, after)
        | _ => entries fuel x column acc (next :: after)

/-- The value of a key whose colon has the given number. -/
def mapped : Nat → Context → Node → Nat → List Phrase → Parse Parsed
  | 0, _, _, _, _ => throw ⟨"exceeded max depth"⟩
  | _, _, _, colon, [] => do return (← nullBehind colon, [])
  | fuel + 1, x, key, colon, p :: rest => do
    let m ← markOf key.index
    let nextIsPart := rest.head?.any fun n => n.column = m.column && n.isObjectPart
    if p.column ≠ m.column && p.line = m.line && p.isEntry then
      fail p "mapping value is not allowed in this context"
    else if p.column = m.column && p.isObjectPart then return (← nullBefore colon p, p :: rest)
    else if p.line = m.line && p.kind? = some .anchorName && nextIsPart then
      let name ← anchorName p
      return (.anchor p.index name (← loneNull p.index), rest)
    else if p.column ≤ m.column && p.kind? = some .anchorName then
      fail p "anchor is not allowed in this context"
    else if p.column ≤ m.column && p.isTag then fail p "tag is not allowed in this context"
    else if p.column < m.column then return (← nullBefore colon p, p :: rest)
    else
      let (v, rest) ← if p.line = m.line && p.isTag && p.kind?.isNone && nextIsPart then do
          let (v, _) ← tagged fuel x p []
          pure (v, rest)
        else value fuel x (p :: rest)
      checkAnchored v m.column
      return (v, rest)

/-- The items of a list whose dashes stand at a column; `acc` are those before, latest first, and `start` is the
number of the first dash. -/
def list : Nat → Context → Int → Nat → List Node → List Phrase → Parse Parsed
  | 0, _, _, _, _, _ => throw ⟨"exceeded max depth"⟩
  | _, _, _, start, acc, [] => return (.list start acc.reverse, [])
  | fuel + 1, x, column, start, acc, p :: rest => do
    if !(p.isDash && p.column = column) then return (.list start acc.reverse, p :: rest)
    let (v, rest) ← item fuel (x.item acc.length) p rest
    list fuel x column start (v :: acc) rest

/-- The item behind a dash. -/
def item : Nat → Context → Phrase → List Phrase → Parse Parsed
  | 0, _, _, _ => throw ⟨"exceeded max depth"⟩
  | _, _, dash, [] => do return (← nullBehind dash.index, [])
  | fuel + 1, x, dash, p :: rest => do
    let nextIsDash := rest.head?.any fun n => n.column = dash.column && n.isDash
    if p.column = dash.column && p.isDash then return (← nullBefore dash.index p, p :: rest)
    else if p.line = dash.line && p.kind? = some .anchorName && nextIsDash then
      let name ← anchorName p
      return (.anchor p.index name (← loneNull p.index), rest)
    else if p.column ≤ dash.column && p.kind? = some .anchorName then
      fail p "anchor is not allowed in this sequence context"
    else if p.column ≤ dash.column && p.isTag then fail p "tag is not allowed in this sequence context"
    else if p.column < dash.column then return (← nullBefore dash.index p, p :: rest)
    else
      let (v, rest) ← if p.line = dash.line && p.isTag && p.kind?.isNone && nextIsDash then do
          let (v, _) ← tagged fuel x p []
          pure (v, rest)
        else value fuel x (p :: rest)
      checkAnchored v dash.column
      return (v, rest)

/-- The items of a list in brackets; `acc` are those before, latest first. -/
def flowList : Nat → Context → Phrase → List Node → List Phrase → Parse Parsed
  | 0, _, _, _, _ => throw ⟨"exceeded max depth"⟩
  | _, _, start, _, [] => fail start "sequence end token ']' not found"
  | fuel + 1, x, start, acc, p :: rest => do
    let isFirst := acc.isEmpty
    let next ← match p.sort with
      | .closeList => pure (p :: rest)
      | .comma =>
        if isFirst then fail p "expected sequence element, but found ','" else pure rest
      | _ => if isFirst then pure (p :: rest) else fail p "',' or ']' must be specified"
    match next with
    | [] => fail start "sequence end token ']' not found"
    | q :: after =>
      match q.sort with
      | .closeList => return (.list start.index acc.reverse, after)
      | _ =>
        let (v, rest) ← value fuel (x.item acc.length) next
        flowList fuel x start (v :: acc) rest

/-- The entries of an object in braces; `acc` are those before, latest first. -/
def flowObject : Nat → Context → Phrase → Bool → List (Node × Node) → List Phrase → Parse Parsed
  | 0, _, _, _, _, _ => throw ⟨"exceeded max depth"⟩
  | _, _, start, _, _, [] => fail start "could not find flow mapping end token '\x7d'"
  | fuel + 1, x, start, isFirst, acc, p :: rest => do
    let isDelimiter (q : Phrase) : Bool := match q.sort with
      | .closeObject | .comma => true
      | _ => false
    let next ← match p.sort with
      | .closeObject => pure (p :: rest)
      | .comma => pure rest
      | _ => if isFirst then pure (p :: rest) else fail p "',' or '\x7d' must be specified"
    match next with
    | [] => fail p "could not find flow map content"
    | q :: after =>
      match q.sort with
      | .closeObject => return (.object start.index acc.reverse, after)
      | _ =>
        match q.kind? with
        | some .entry =>
          let e ← entry fuel x q
          flowObject fuel x start false (e :: acc) after
        | some .key =>
          let (k, name) ← key fuel x q
          if after.head?.any isDelimiter then
            let v ← nullBefore q.last.index q
            flowObject fuel x start false ((k, v) :: acc) after
          else if after.isEmpty then fail q.last "could not find map value"
          else
            let (v, rest) ← value fuel (x.child name) after
            flowObject fuel x start false ((k, v) :: acc) rest
        | _ =>
          if !(after.head?.any isDelimiter) then fail q "could not find flow map content"
          let (k, _) ← scalar fuel x q after
          let v ← nullBefore q.index q
          flowObject fuel x start false ((k, v) :: acc) after

end

/-! ## Documents -/

/-- The part that a document consists of, if it is not empty. -/
def document (ps : List Phrase) : Parse (Option Node) := do
  modify fun s => { s with seen := [] }
  let body := if ps.head?.any Phrase.isDocumentStart then ps.drop 1 else ps
  let isEnded := ps.getLast?.any Phrase.isDocumentEnd
  let body := if isEnded then body.dropLast else body
  let n? ← match body with
    | [] => pure none
    | _ => do
      let size := (← get).chain.size
      let (n, rest) ← value (8 * size + 8) {} body
      match rest with
      | [] => pure (some n)
      | p :: _ => fail p "value is not allowed in this context"
  if isEnded then modify fun s => { s with hasVersion := false }
  return n?

/-- The parts that documents consist of. -/
def stream : List (List Phrase) → Parse (List (Option Node))
  | [] => return []
  | d :: ds => do return (← document d) :: (← stream ds)

end Parse

/-- The documents of a text, and its tokens. -/
structure Stream where
  documents : List (Option Node)
  chain : Chain

/-- The reading of a text. -/
def Stream.parse (t : Text) : Except Trouble Stream := do
  let ts := tokens t.chars
  let c := Chain.ofTokens ts
  let isInvalid (t : Token) : Bool := match t.kind with
    | .invalid => true
    | _ => false
  match ts.findIdx? isInvalid with
  | some i => throw (Trouble.at c i (Text.ofChars (((ts[i]?).map (·.value)).getD [])))
  | none => pure ()
  let blame (e : Misfit) : Trouble := Trouble.at c e.index e.why
  let ps ← (phrases c).mapError blame
  let ds ← (Yaml.documents (ps.length + 1) ps).mapError blame
  let (ns, s) ← (Parse.stream ds).run { chain := c }
  return ⟨ns, s.chain⟩

end ScriptEngine.Yaml
