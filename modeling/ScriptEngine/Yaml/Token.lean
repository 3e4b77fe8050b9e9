import ScriptEngine.Yaml.Word
/-!
# Tokens of yaml documents

A document is made of marks, words, quoted texts and blocks of text. A token remembers where it begins and the
characters it was read from, with the blanks and line ends before it, so that messages can show its surroundings.
-/

namespace ScriptEngine.Yaml

/-- A place in a document: the number of its line and of its column, both from one. -/
structure Mark where
  line : Nat
  column : Int
deriving DecidableEq, Repr, Inhabited

/-- What a token is. -/
inductive Token.Kind where
  /-- Three dashes before a document. -/
  | documentStart
  /-- Three points behind a document. -/
  | documentEnd
  /-- The dash before an item. -/
  | dash
  /-- The question mark before a key. -/
  | question
  /-- The colon behind a key. -/
  | colon
  /-- The key of entries that are merged into an object. -/
  | merge
  | comma
  | openList | closeList
  | openObject | closeObject
  | comment
  | anchor | reference
  | tag
  | directive
  /-- The bar before a literal block. -/
  | literal
  /-- The angle before a folded block. -/
  | folded
  | singleQuoted | doubleQuoted
  /-- A bare word. -/
  | word (w : Word)
  /-- A value that is left out. -/
  | missing
  /-- What is no token; the value of the token says why. -/
  | invalid

/-- A token: its content, and the characters it was read from. -/
structure Token where
  kind : Token.Kind
  value : List Char
  origin : List Char
  mark : Mark

namespace Token

/-- A bare word. -/
def bare (value origin : List Char) (mark : Mark) : Token := ⟨.word (.ofChars value), value, origin, mark⟩

/-- A text that is taken as it stands. -/
def text (value origin : List Char) (mark : Mark) : Token := ⟨.word .text, value, origin, mark⟩

/-- What is no token, with the reason. -/
def refused (why : String) (origin : List Char) (mark : Mark) : Token := ⟨.invalid, why.toList, origin, mark⟩

/-- Whether a token is a text in quotes. -/
def isQuoted (t : Token) : Bool :=
  match t.kind with
  | .singleQuoted | .doubleQuoted => true
  | _ => false

/-- Whether a token is a bare text. -/
def isBareText (t : Token) : Bool :=
  match t.kind with
  | .word .text => true
  | _ => false

/-- Whether a token is the colon behind a key. -/
def isColon (t : Token) : Bool :=
  match t.kind with
  | .colon => true
  | _ => false

end Token

/-- Whether a character ends a line. -/
def isLineEnd (c : Char) : Bool := c = '\n' || c = '\r'

/-- The number of line ends; a return with the feed behind it counts once. -/
def lineEnds : List Char → Nat
  | [] => 0
  | '\r' :: '\n' :: cs => lineEnds cs + 1
  | c :: cs => if isLineEnd c then lineEnds cs + 1 else lineEnds cs

/-- A list without the elements of a kind at its end. -/
def dropEnd (p : Char → Bool) (cs : List Char) : List Char := (cs.reverse.dropWhile p).reverse

/-- The tags that a reader knows by themselves. -/
def reservedTags : List String :=
  ["!!int", "!!float", "!!null", "!!seq", "!!map", "!!str", "!!binary", "!!omap", "!!set", "!!timestamp", "!!bool",
    "!!merge"]

end ScriptEngine.Yaml
