import ScriptEngine.Text
import ScriptEngine.Yaml.Token
/-!
# Excerpts of documents

A message about a document shows the lines around the token that it is about, with the number of each line, and
below the line of the token a sign at its column. The lines are put together from what the tokens were read from.
-/

namespace ScriptEngine.Yaml

/-- A token with its neighbours. -/
structure Link where
  token : Token
  before : Option Nat
  after : Option Nat

/-- Tokens with their neighbours. A token that stands for a value that is left out comes behind the others and may
be known to one neighbour only. -/
abbrev Chain := Array Link

/-- One or more lines of a document, with the number of the first. -/
structure Piece where
  line : Nat
  chars : List Char

/-- What a token was read from. -/
def Link.piece (l : Link) : Piece := ⟨l.token.mark.line, l.token.origin⟩

namespace Chain

/-- The tokens of a document as a chain. -/
def ofTokens (ts : Array Token) : Chain :=
  ts.mapIdx fun i t => ⟨t, if i = 0 then none else some (i - 1), if i + 1 < ts.size then some (i + 1) else none⟩

/-- The token at a place. -/
def link? (links : Chain) (i : Nat) : Option Link := links[i]?

/-- The first token on the way back that is not above a line. -/
def firstFrom (c : Chain) (line : Nat) : Nat → Nat → Nat
  | 0, i => i
  | fuel + 1, i =>
    match (c.link? i).bind (·.before) with
    | none => i
    | some j => if (c.link? j).any fun l => line ≤ l.token.mark.line then firstFrom c line fuel j else i

/-- The tokens from a place on that are not below a line. -/
def upTo (c : Chain) (line : Nat) : Nat → Option Nat → List Link
  | 0, _ => []
  | fuel + 1, i? =>
    match i? with
    | none => []
    | some i =>
      match c.link? i with
      | none => []
      | some l => if l.token.mark.line ≤ line then l :: upTo c line fuel l.after else []

/-- The number of a line before its content; the line of the token is pointed out. -/
def heading (here line : Nat) : List Char :=
  let n := (Nat.repr line).toList
  (if line = here then ['>', ' '] else [' ', ' ']) ++ List.replicate (2 - n.length) ' ' ++ n ++ [' ', '|', ' ']

/-- Characters cut at line feeds. -/
def rows : List Char → List (List Char)
  | [] => [[]]
  | c :: cs =>
    if c = '\n' then [] :: rows cs
    else match rows cs with
      | [] => [[c]]
      | r :: rs => (c :: r) :: rs

/-- Pieces one after the other, each new line with its number; `line` is the number of the next line. -/
def joinPieces (here : Nat) : Nat → List Piece → List Char
  | _, [] => []
  | line, p :: ps =>
    match rows p.chars with
    | [] => joinPieces here line ps
    | r :: rs =>
      r ++ (rs.mapIdx fun i r => '\n' :: heading here (line + i) ++ r).flatten
        ++ joinPieces here (line + rs.length) ps

/-- The lines of pieces with their numbers. -/
def numbered (here : Nat) (ps : List Piece) : List Char :=
  match ps with
  | [] => []
  | p :: _ => heading here p.line ++ joinPieces here (p.line + 1) ps

/-- Characters without line ends at their front. -/
def dropFrontLines (cs : List Char) : List Char := cs.dropWhile isLineEnd

/-- The blanks at the end of characters. -/
def endBlanks (cs : List Char) : List Char := cs.reverse.takeWhile (· = ' ')

/-- The number of lines that a token takes beyond its first. -/
def extraLines (cs : List Char) : Nat :=
  let n := lineEnds (dropFrontLines cs)
  match (dropEnd (· = ' ') (cs.drop 1)).getLast? with
  | some c => if isLineEnd c then n - 1 else n
  | none => n

/-- What the tokens from one on were read from, up to a line, and the token behind them. The first begins with the
blanks before it. -/
def piecesFrom (c : Chain) (first lastLine : Nat) : List Piece × Option Nat :=
  match c.link? first with
  | none => ([], none)
  | some l =>
    let blanks := match l.before.bind c.link? with
      | some b => endBlanks b.token.origin
      | none => []
    let rest := upTo c lastLine c.size l.after
    ({ l.piece with chars := dropFrontLines (blanks ++ l.token.origin) } :: rest.map Link.piece,
      ((rest.getLast?).getD l).after)

/-- Pieces without the blanks and line ends behind them, and those. -/
def trimPieces (ps : List Piece) : List Piece × List Char :=
  match ps.reverse with
  | [] => ([], [])
  | p :: rest =>
    let kept := dropEnd isLineEnd (dropEnd (· = ' ') p.chars)
    (({ p with chars := kept } :: rest).reverse, p.chars.drop kept.length)

/-- What the tokens from one on were read from, up to a line; blanks that belong to the first were left over before
it. -/
def piecesBehind (c : Chain) (lastLine : Nat) (leftOver : List Char) (first? : Option Nat) : List Piece :=
  let moved :=
    if leftOver.length ≤ 1 then []
    else if leftOver.head?.any isLineEnd then leftOver.drop 1
    else leftOver
  match upTo c lastLine c.size first? with
  | [] => []
  | l :: rest => { l.piece with chars := dropFrontLines (moved ++ l.token.origin) } :: rest.map Link.piece

/-- The lines around a token, three to each side, with a sign below its column. -/
def excerpt (c : Chain) (i : Nat) : List Char :=
  match c.link? i with
  | none => []
  | some here =>
    let line := here.token.mark.line
    let lastLine := line + extraLines here.token.origin
    let (pieces, next?) := c.piecesFrom (firstFrom c (line - 3) c.size i) lastLine
    let (before, leftOver) := trimPieces pieces
    let after := c.piecesBehind (lastLine + 3) leftOver next?
    let margin : Int := (heading 0 line).length + here.token.mark.column - 1
    numbered line before ++ '\n' :: List.replicate margin.toNat ' ' ++ '^' :: '\n' :: numbered line after

end Chain

/-- Why a text is no document, in full. -/
structure Trouble where
  message : Text

/-- A trouble with a token, and the lines around that. -/
def Trouble.at (c : Chain) (i : Nat) (why : Text) : Trouble :=
  match c.link? i with
  | none => ⟨why⟩
  | some l =>
    ⟨"[" ++ toString l.token.mark.line ++ ":" ++ toString l.token.mark.column ++ "] " ++ why ++ "\n"
      ++ Text.ofChars (c.excerpt i)⟩

end ScriptEngine.Yaml
