import ScriptEngine.Yaml.Excerpt
/-!
# Phrases of yaml documents

Before the structure of a document is read, tokens that belong together are put into phrases: a block with its bar,
an anchor with its name and its word, a tag with its word, a key with its colon, and a key with a word on the same
line. A stream of phrases is then cut into documents.
-/

namespace ScriptEngine.Yaml

/-- What holds the parts of a phrase together. -/
inductive Phrase.Kind where
  /-- A bar or angle and the block below it. -/
  | block
  /-- The sign of an anchor and its name. -/
  | anchorName
  /-- An anchor with its name, and its value. -/
  | anchor
  /-- The sign of an alias and its name. -/
  | reference
  /-- A tag and its value. -/
  | tagged
  /-- A key and its colon. -/
  | key
  /-- A key with its colon, and its value. -/
  | entry
  /-- The sign of a directive and its name. -/
  | directiveName
  /-- A directive with its name, and its values. -/
  | directive
deriving DecidableEq

/-- A token with its number, or phrases that belong together. -/
inductive Phrase where
  | single (index : Nat) (token : Token)
  | group (kind : Phrase.Kind) (first : Phrase) (rest : List Phrase)

/-- Why tokens make no phrase, and the token to blame. -/
structure Misfit where
  index : Nat
  why : String

namespace Phrase

/-- The first token of a phrase and its number. -/
def lead : Phrase → Nat × Token
  | single i t => (i, t)
  | group _ first _ => first.lead

/-- The number of the first token. -/
def index (p : Phrase) : Nat := p.lead.1

/-- The first token. -/
def token (p : Phrase) : Token := p.lead.2

/-- What the first token is. -/
def sort (p : Phrase) : Token.Kind := p.token.kind

/-- The line where a phrase begins. -/
def line (p : Phrase) : Nat := p.token.mark.line

/-- The column where a phrase begins. -/
def column (p : Phrase) : Int := p.token.mark.column

/-- What holds the parts together; a token has no parts. -/
def kind? : Phrase → Option Phrase.Kind
  | single _ _ => none
  | group k _ _ => some k

/-- The last part of a phrase. -/
def last : Phrase → Phrase
  | single i t => .single i t
  | group _ first rest => rest.getLast?.getD first

/-- Whether a phrase is a key or an entry. -/
def isEntry (p : Phrase) : Bool := p.kind? = some .key || p.kind? = some .entry

/-- Whether a phrase can stand in an object: an entry, or a brace. -/
def isObjectPart (p : Phrase) : Bool :=
  match p with
  | .single _ t => match t.kind with
    | .openObject | .closeObject => true
    | _ => false
  | .group .. => p.isEntry

/-- Whether a phrase is a single value. -/
def isScalar (p : Phrase) : Bool :=
  !p.isEntry && match p.sort with
    | .anchor | .reference | .literal | .folded | .missing | .word _ | .singleQuoted | .doubleQuoted => true
    | _ => false

/-- Whether a phrase can not be a key. -/
def isNoKey (p : Phrase) : Bool :=
  match p.sort with
  | .directive | .documentStart | .documentEnd | .comma | .openObject | .closeObject | .colon | .openList | .dash
  | .closeList => true
  | _ => false

/-- Whether a phrase begins with a bracket or brace. -/
def isBracket (p : Phrase) : Bool :=
  match p.sort with
  | .openObject | .closeObject | .openList | .closeList => true
  | _ => false

/-- Whether a phrase is the dash before an item. -/
def isDash (p : Phrase) : Bool :=
  match p.sort with
  | .dash => true
  | _ => false

/-- Whether a phrase is a tag. -/
def isTag (p : Phrase) : Bool :=
  match p.sort with
  | .tag => true
  | _ => false

/-- Whether a phrase begins a document. -/
def isDocumentStart (p : Phrase) : Bool :=
  match p.sort with
  | .documentStart => true
  | _ => false

/-- Whether a phrase ends a document. -/
def isDocumentEnd (p : Phrase) : Bool :=
  match p.sort with
  | .documentEnd => true
  | _ => false

/-- The failure of a phrase. -/
def misfit (p : Phrase) (why : String) : Misfit := ⟨p.index, why⟩

/-! ## Putting phrases together -/

/-- Blocks with their bars. -/
def joinBlocks : List Phrase → List Phrase
  | [] => []
  | p :: rest =>
    let isHead := match p.sort with
      | .literal | .folded => true
      | _ => false
    if isHead then
      match rest with
      | [] => [.group .block p []]
      | body :: rest => .group .block p [body] :: joinBlocks rest
    else p :: joinBlocks rest

/-- Anchors with their names and, on the same line, their values; aliases with their names. -/
def joinAnchors : List Phrase → Except Misfit (List Phrase)
  | [] => .ok []
  | p :: rest =>
    match p.sort with
    | .anchor =>
      match rest with
      | [] => .error (p.misfit "undefined anchor name")
      | name :: rest =>
        match rest with
        | [] => .error (p.misfit "undefined anchor value")
        | value :: after =>
          let named := Phrase.group .anchorName p [name]
          if p.line = value.line && value.isDash then
            .error (value.misfit "sequence entries are not allowed after anchor on the same line")
          else if p.line = value.line && value.isScalar then
            (joinAnchors after).map (.group .anchor named [value] :: ·)
          else (joinAnchors (value :: after)).map (named :: ·)
    | .reference =>
      match rest with
      | [] => .error (p.misfit "undefined alias name")
      | name :: rest => (joinAnchors rest).map (.group .reference p [name] :: ·)
    | _ => (joinAnchors rest).map (p :: ·)

/-- The tags of single values. -/
def scalarTags : List String := ["!!int", "!!float", "!!str", "!!binary", "!!timestamp", "!!bool", "!!null"]

/-- Tags with their values on the same line. -/
def joinTags : List Phrase → Except Misfit (List Phrase)
  | [] => .ok []
  | p :: rest =>
    match rest with
    | [] => .ok [p]
    | value :: after =>
      let name := String.ofList p.token.value
      let isAlone := !p.isTag || p.line ≠ value.line || value.kind? = some .anchorName
      let fits :=
        if "!!".toList.isPrefixOf p.token.value then
          (scalarTags.contains name && value.isScalar) || name = "!!merge"
        else !value.isBracket
      let isMerge := match value.sort with
        | .merge => true
        | _ => false
      if isAlone || !fits then (joinTags (value :: after)).map (p :: ·)
      else if name = "!!merge" && !isMerge then .error (value.misfit "could not find merge key")
      else (joinTags after).map (.group .tagged p [value] :: ·)

/-- Anchors whose value is tagged. -/
def joinTaggedAnchors : List Phrase → Except Misfit (List Phrase)
  | [] => .ok []
  | p :: rest =>
    if p.kind? = some .anchorName then
      match rest with
      | [] => .error (p.misfit "undefined anchor value")
      | value :: after =>
        if p.line = value.line && value.kind? = some .tagged then
          (joinTaggedAnchors after).map (.group .anchor p [value] :: ·)
        else (joinTaggedAnchors (value :: after)).map (p :: ·)
    else (joinTaggedAnchors rest).map (p :: ·)

/-- Keys behind question marks. -/
def joinQuestions : List Phrase → Except Misfit (List Phrase)
  | [] => .ok []
  | p :: rest =>
    match p.sort with
    | .question =>
      match rest with
      | [] => .error (p.misfit "undefined map key")
      | key :: rest => (joinQuestions rest).map (.group .key p [key] :: ·)
    | _ => (joinQuestions rest).map (p :: ·)

/-- Keys with their colons; `before` is the phrase before the given ones. -/
def joinColons : Option Phrase → List Phrase → Except Misfit (List Phrase)
  | before, [] => .ok before.toList
  | before, p :: rest =>
    match p.sort with
    | .colon =>
      match before with
      | none => .error (p.misfit "unexpected key name")
      | some key =>
        if key.isNoKey then .error (p.misfit "found an invalid key for this map")
        else
          match rest with
          | [] => .ok [.group .key key [p]]
          | next :: after =>
            match next.sort with
            | .colon => .error (next.misfit "found an invalid key for this map")
            | _ => (joinColons (some next) after).map (.group .key key [p] :: ·)
    | _ => (joinColons (some p) rest).map (before.toList ++ ·)

/-- Keys with single values on the same line. -/
def joinEntries : List Phrase → List Phrase
  | [] => []
  | p :: rest =>
    match rest with
    | [] => [p]
    | value :: after =>
      let isLooseTag := value.isTag && value.kind? ≠ some .tagged
      if p.kind? = some .key && p.line = value.line && value.kind? ≠ some .anchorName && !isLooseTag
          && (value.isScalar || value.isTag) then
        .group .entry p [value] :: joinEntries after
      else p :: joinEntries (value :: after)

/-- Directives with their names and values; a document must begin behind them. -/
def joinDirectives : Nat → List Phrase → Except Misfit (List Phrase)
  | 0, ps => .ok ps
  | _, [] => .ok []
  | fuel + 1, p :: rest =>
    match p.sort with
    | .directive =>
      match rest with
      | [] => .error (p.misfit "undefined directive value")
      | name :: rest =>
        let values := rest.takeWhile fun v => v.line = p.line
        let after := rest.drop values.length
        if after.head?.any isDocumentStart then
          let named := Phrase.group .directiveName p [name]
          let all := if values.isEmpty then named else .group .directive named values
          (joinDirectives fuel after).map (all :: ·)
        else .error (p.misfit "unexpected directive value. document not started")
    | _ => (joinDirectives fuel rest).map (p :: ·)

end Phrase

/-- The phrases of the tokens of a chain, without comments. -/
def phrases (c : Chain) : Except Misfit (List Phrase) := do
  let isComment (t : Token) : Bool := match t.kind with
    | .comment => true
    | _ => false
  let singles := (c.mapIdx fun i l => (i, l.token)).toList.filter fun (_, t) => !isComment t
  let ps := Phrase.joinBlocks (singles.map fun (i, t) => .single i t)
  let ps ← Phrase.joinTaggedAnchors (← Phrase.joinTags (← Phrase.joinAnchors ps))
  let ps := Phrase.joinEntries (← Phrase.joinColons none (← Phrase.joinQuestions ps))
  Phrase.joinDirectives (ps.length + 1) ps

/-- The documents of a stream of phrases. A document begins behind three dashes and ends before them or with three
points; the marks belong to it. -/
def documents : Nat → List Phrase → Except Misfit (List (List Phrase))
  | 0, ps => .ok [ps]
  | fuel + 1, ps =>
    let front := ps.takeWhile fun p => !p.isDocumentStart && !p.isDocumentEnd
    match ps.drop front.length with
    | [] => .ok [front]
    | p :: rest =>
      if p.isDocumentEnd then
        let here := if front.isEmpty then [] else [front ++ [p]]
        match rest with
        | [] => .ok here
        | next :: _ =>
          if next.isScalar then .error (next.misfit "unexpected end content")
          else (documents fuel rest).map (here ++ ·)
      else
        let here := if front.isEmpty then [] else [front]
        match rest with
        | [] => .ok (here ++ [[p]])
        | next :: _ =>
          if p.line = next.line && (next.isEntry || next.isDash) then
            .error (next.misfit "value cannot be placed after document separator")
          else if next.isDocumentStart then (documents fuel rest).map (here ++ [p] :: ·)
          else match documents fuel rest with
            | .error e => .error e
            | .ok [] => .ok (here ++ [[p]])
            | .ok (d :: ds) => .ok (here ++ (p :: d) :: ds)

end ScriptEngine.Yaml
