import ScriptEngine.Text.Quoted
import ScriptEngine.Yaml.Token
/-!
# Cutting documents into tokens

The characters of a document are taken one after the other. Bare words are gathered until something ends them: a
mark that can not be part of a word, a comment, or a line that is not indented deeper than the key or dash that the
word belongs to. Below a bar or an angle all lines that are indented deeper belong to a block of text. Where the
characters make no token, a token for the failure is put in, and reading goes on behind it.
-/

namespace ScriptEngine.Yaml

/-! ## Blocks of text -/

/-- How the lines of a block of text are joined. -/
inductive Block.Style where
  /-- As they stand. -/
  | literal
  /-- By blanks. -/
  | folded
  /-- By blanks, in a bare text that goes on over several lines. -/
  | bare
deriving DecidableEq

/-- A block of text that is being read. Columns are zero as long as they are not known. -/
structure Block where
  style : Block.Style
  /-- The marks behind the bar or angle. -/
  marks : List Char := []
  /-- Where the lines of the block begin. -/
  firstColumn : Int := 0
  /-- Where the content of the line before begins. -/
  priorColumn : Int := 0
  /-- Where the content of the line begins. -/
  lineColumn : Int := 0
  /-- The width of the last line that holds only blanks, before the block has begun. -/
  blankColumn : Int := 0
  /-- Whether a line has just begun. -/
  isFresh : Bool := false

namespace Block

/-- The marks behind a bar or angle without the signs for its end. -/
def widthMarks (marks : List Char) : List Char :=
  let isSign (c : Char) : Bool := c = '-' || c = '+'
  let front := match marks with
    | '-' :: '+' :: rest => rest
    | c :: rest => if isSign c then rest else marks
    | [] => []
  match front.reverse with
  | '-' :: '+' :: rest => rest.reverse
  | c :: rest => if isSign c then rest.reverse else front
  | [] => []

/-- The whole number that a sign and digits spell, if 64 bits hold it. -/
def width? (cs : List Char) : Option Int :=
  let (isNegative, ds) := match cs with
    | '-' :: ds => (true, ds)
    | '+' :: ds => (false, ds)
    | ds => (false, ds)
  match readWhole isNegative 10 ds with
  | .int n => if n < 2 ^ 63 then some n else none
  | _ => none

/-- The indentation that the marks of a block ask for, or zero. -/
def askedWidth (marks : List Char) : Int := (width? (widthMarks marks)).getD 0

/-- Whether marks may stand behind a bar or angle. -/
def areMarks (marks : List Char) : Bool :=
  let w := widthMarks marks
  w.isEmpty || (w ≠ ['0'] && (width? w).any fun n => n ≤ 9)

/-- A block below a bar or angle, given the column of what it belongs to. -/
def below (style : Style) (marks : List Char) (column : Int) : Block :=
  let w := askedWidth marks
  { style := style, marks := marks, firstColumn := if w > 0 then column + w else 0 }

/-- A bare text that goes on at a column. -/
def continued (column : Int) : Block := { style := .bare, firstColumn := column, lineColumn := column }

/-- Whether the line ends at the end of the block are dropped. -/
def isStripped (b : Block) : Bool :=
  b.marks.head? = some '-' || b.marks.getLast? = some '-' || b.style = .bare

/-- Whether the line ends at the end of the block are kept. -/
def isKept (b : Block) : Bool := b.marks.head? = some '+' || b.marks.getLast? = some '+'

/-- The content of a block, with the line ends that it keeps at its end. -/
def content (b : Block) (cs : List Char) : List Char :=
  let isFeed (c : Char) : Bool := c = '\n'
  let cs :=
    if b.isStripped then dropEnd isFeed cs
    else if b.isKept then cs
    else
      let body := dropEnd isFeed cs
      if body.length < cs.length then body ++ ['\n'] else cs
  let cs := if b.isStripped then dropEnd (· = ' ') cs else cs
  let cs := if cs = ['\n'] then [] else cs
  if b.isKept && cs.isEmpty then ['\n'] else cs

/-- The block with its columns set where they are not known. -/
def atColumn (b : Block) (column : Int) : Block :=
  { b with
    firstColumn := if b.firstColumn = 0 then column else b.firstColumn
    lineColumn := if b.lineColumn = 0 then column else b.lineColumn }

/-- The block behind a line that ends at a column. -/
def newLine (b : Block) (column : Int) : Block :=
  { b with
    blankColumn := if b.firstColumn = 0 then column - 1 else b.blankColumn
    priorColumn := b.lineColumn
    isFresh := true
    lineColumn := 0 }

/-- Whether a column lies before the lines of the block. -/
def isMargin (b : Block) (column : Int) : Bool :=
  if b.firstColumn = 0 then column = 1 else b.firstColumn > column

/-- Whether a line begins before the indentation that the marks ask for. -/
def isShort (b : Block) : Bool := askedWidth b.marks ≠ 0 && b.firstColumn > b.lineColumn

end Block

/-! ## The state of reading -/

/-- How the indentation of a line relates to what the line may belong to. -/
inductive Shift where
  | unknown | deeper | back | within
deriving DecidableEq

/-- The state of reading. -/
structure Lexer where
  source : Array Char
  place : Nat := 0
  line : Nat := 1
  column : Int := 1
  /-- The column of the last key or dash, or zero. -/
  lastColumn : Int := 0
  /-- The number of blanks at the beginning of the line. -/
  indent : Nat := 0
  atLineStart : Bool := true
  inAnchor : Bool := false
  inAlias : Bool := false
  inDirective : Bool := false
  openLists : Int := 0
  openObjects : Int := 0
  shift : Shift := .unknown
  /-- Where a word began that goes on over lines. -/
  saved : Option Mark := none
  /-- The word that is being gathered. -/
  buffer : Array Char := #[]
  /-- The length of the word without the blanks at its end. -/
  solid : Nat := 0
  /-- All characters since the last token. -/
  origin : Array Char := #[]
  /-- The number of those without the blanks at their end. -/
  originSolid : Nat := 0
  block : Option Block := none
  tokens : Array Token := #[]

/-- Why characters make no token, and the state behind them. -/
structure Refusal where
  token : Token
  lexer : Lexer

namespace Lexer

/-- The character some places further on. -/
def peek (s : Lexer) (n : Nat) : Option Char := s.source[s.place + n]?

/-- Whether the last character has been reached. -/
def isLast (s : Lexer) : Bool := s.source.size ≤ s.place + 1

/-- The characters of a kind from a place on, at most a number of them. -/
def spanFrom (source : Array Char) (p : Char → Bool) : Nat → Nat → List Char
  | 0, _ => []
  | fuel + 1, i =>
    match source[i]? with
    | some c => if p c then c :: spanFrom source p fuel (i + 1) else []
    | none => []

/-- The characters of a kind from the place of reading on. -/
def span (s : Lexer) (p : Char → Bool) : List Char := spanFrom s.source p (s.source.size - s.place) s.place

/-- The place of reading. -/
def mark (s : Lexer) : Mark := ⟨s.line, s.column⟩

/-- Passes over characters of the line. -/
def skip (s : Lexer) (n : Nat) : Lexer := { s with place := s.place + n, column := s.column + n }

/-- Passes over characters that do not count as columns. -/
def skipUncounted (s : Lexer) (n : Nat) : Lexer := { s with place := s.place + n }

/-- Passes over the end of a line. -/
def nextLine (s : Lexer) : Lexer :=
  { s with
    place := s.place + 1
    column := 1
    line := s.line + 1
    indent := 0
    atLineStart := true
    inAnchor := false
    inAlias := false
    inDirective := false }

/-- Adds a character to the word; blanks do not begin one. -/
def gather (s : Lexer) (c : Char) : Lexer :=
  let isBlank := c = ' ' || c = '\t'
  if s.buffer.isEmpty && isBlank then s
  else
    { s with
      buffer := s.buffer.push c
      solid := if isBlank then s.solid else s.buffer.size + 1 }

/-- Adds a character of a block, in which tabs count. -/
def gatherInBlock (s : Lexer) (c : Char) : Lexer :=
  if s.buffer.isEmpty && c = ' ' then s
  else { s with buffer := s.buffer.push c, solid := if c = ' ' then s.solid else s.buffer.size + 1 }

/-- Remembers a character that was passed over. -/
def remember (s : Lexer) (c : Char) : Lexer :=
  { s with
    origin := s.origin.push c
    originSolid := if c = ' ' || c = '\t' then s.originSolid else s.origin.size + 1 }

/-- Remembers characters that were passed over. -/
def rememberAll (s : Lexer) (cs : List Char) : Lexer := cs.foldl remember s

/-- Forgets the word and what was passed over. -/
def forget (s : Lexer) : Lexer := { s with buffer := #[], solid := 0, origin := #[], originSolid := 0 }

/-- Forgets the word, what was passed over, and the block. -/
def clear (s : Lexer) : Lexer := { s.forget with block := none }

/-- The word that has been gathered, without the blanks at its end. -/
def gathered (s : Lexer) : List Char :=
  let cs := (s.buffer.extract 0 s.solid).toList
  match s.block with
  | some b => b.content cs
  | none => cs

/-- Whether a word is being gathered. -/
def hasWord (s : Lexer) : Bool :=
  match s.block with
  | some _ => !s.gathered.isEmpty
  | none => 0 < s.solid && !s.buffer.isEmpty

/-- Adds a token. -/
def push (s : Lexer) (t : Token) : Lexer := { s with tokens := s.tokens.push t }

/-- The token before. -/
def lastToken? (s : Lexer) : Option Token := s.tokens.back?

/-- The place where a list occurs in another, or `none`. -/
def indexOf? (cs : List Char) : List Char → Option Nat
  | [] => if cs.isEmpty then some 0 else none
  | d :: ds => if cs.isPrefixOf (d :: ds) then some 0 else (indexOf? cs ds).map (· + 1)

/-- Where the word that is being gathered begins. -/
def wordMark (s : Lexer) : Mark :=
  match s.saved, s.block with
  | some m, _ => m
  | none, none => ⟨s.line, s.column - s.buffer.size⟩
  | none, some _ =>
    let column : Int := match indexOf? s.buffer.toList s.origin.toList with
      | some n => n + 1
      | none => 0
    ⟨s.line - lineEnds s.buffer.toList, column⟩

/-- Cuts off the word that has been gathered, if there is one. Behind a tag that is not known it is a text. -/
def cut (s : Lexer) : Option Token × Lexer :=
  let cs := s.gathered
  if cs.isEmpty then (none, { s with buffer := #[], solid := 0, saved := none })
  else
    let origin := s.origin.toList
    let t := if s.block.isSome then Token.text cs origin s.wordMark else Token.bare cs origin s.wordMark
    let isTagged := match s.lastToken? with
      | some ⟨.tag, value, _, _⟩ => !reservedTags.contains (String.ofList value)
      | _ => false
    (some (if isTagged then { t with kind := .word .text } else t), { s.forget with saved := none })

/-- Adds the word that has been gathered as a token. -/
def flush (s : Lexer) : Lexer :=
  match s.cut with
  | (some t, s) => s.push t
  | (none, s) => s

/-- Adds a mark that was remembered as a token and passes over it. -/
def punctuate (s : Lexer) (kind : Token.Kind) (value : List Char) : Lexer :=
  ((s.push ⟨kind, value, s.origin.toList, s.mark⟩).skip 1).clear

/-- The failure to make a token of what was passed over. -/
def refuse (s : Lexer) (why : String) (mark : Mark) (after : Lexer → Lexer) : Refusal :=
  ⟨.refused why s.origin.toList mark, after s⟩

/-- Whether a mark between documents begins at the place of reading. -/
def atSeparator (s : Lexer) : Bool :=
  let isBlank (c : Char) : Bool := c = ' ' || c = '\t' || isLineEnd c
  let cs := (s.source.extract s.place (s.place + 4)).toList
  let word := String.ofList (if cs.length = 4 then dropEnd isBlank cs else cs)
  word = "---" || word = "..."

/-- How often a character stands at the place of reading, up to four times. -/
def repeats (s : Lexer) (c : Char) : Nat := ((List.range 4).takeWhile fun i => s.peek i = some c).length

/-! ## Indentation -/

/-- Takes note of the first character of a line. -/
def noteIndent (s : Lexer) (c : Char) : Lexer :=
  if s.atLineStart then
    if isLineEnd c || c = '\t' then s
    else if c = ' ' then { s with indent := s.indent + 1 }
    else
      let shift :=
        if s.lastColumn = 0 then s.shift
        else if s.lastColumn < s.column then .deeper
        else .back
      { s with shift := shift, atLineStart := false }
  else { s with shift := .within }

/-! ## Quoted texts -/

/-- Passes over the end of a line inside quotes. -/
def breakLine (s : Lexer) (c : Char) : Lexer :=
  if c = '\r' && s.peek 1 = some '\n' then ((s.remember '\n').skipUncounted 1).nextLine else s.nextLine

/-- The content of quotes at the end of a line: blanks are dropped, the first line end is a blank and further ones
stand for themselves. -/
def joinLine (value : Array Char) (atStart : Bool) : Array Char :=
  (value.popWhile (· = ' ')).push (if atStart then '\n' else ' ')

/-- The number that a hexadecimal digit counts for; other characters count by their distance from zero. -/
def digitWeight (c : Char) : Int :=
  let n : Int := c.toNat
  if 'A' ≤ c && c ≤ 'F' then n - 55 else if 'a' ≤ c && c ≤ 'f' then n - 87 else n - 48

/-- The number that hexadecimal digits spell. -/
def codeOf (cs : List Char) : Int := cs.foldl (fun n c => n * 16 + digitWeight c) 0

/-- The character with a number of 32 bits; numbers that are no character give the replacement character. -/
def charOf (code : Int) : Char :=
  let n := (Int32.ofInt code).toInt
  if n < 0 || 0x10FFFF < n || (0xD800 ≤ n && n ≤ 0xDFFF) then Char.ofNat 0xFFFD else Char.ofNat n.toNat

/-- What a character behind a backslash stands for. -/
def escape? (c : Char) : Option Char :=
  match c with
  | '0' => some (Char.ofNat 0)
  | 'a' => some (Char.ofNat 7)
  | 'b' => some (Char.ofNat 8)
  | 't' => some '\t'
  | 'n' => some '\n'
  | 'v' => some (Char.ofNat 11)
  | 'f' => some (Char.ofNat 12)
  | 'r' => some '\r'
  | 'e' => some (Char.ofNat 27)
  | 'N' => some (Char.ofNat 0x85)
  | '_' => some (Char.ofNat 0xA0)
  | 'L' => some (Char.ofNat 0x2028)
  | 'P' => some (Char.ofNat 0x2029)
  | ' ' | '"' | '/' | '\\' | '\t' => some c
  | _ => none

/-- The characters of the source from some places further on. -/
def slice (s : Lexer) (start count : Nat) : List Char :=
  (s.source.extract (s.place + start) (s.place + start + count)).toList

/-- The character that an escape with digits stands for and the number of characters behind the backslash that it
takes, at a backslash. -/
def numbered (s : Lexer) (c : Char) : Except Refusal (Char × Nat) :=
  let fail (why : String) : Except Refusal (Char × Nat) := .error (s.refuse why s.mark id)
  let left := s.source.size - s.place
  if c = 'x' then
    if left ≤ 3 then .ok (c, 1) else .ok (charOf (codeOf (s.slice 2 2)), 3)
  else if c = 'u' then
    if left ≤ 5 then fail "not enough length for escaped UTF-16 character"
    else
      let high := codeOf (s.slice 2 4)
      if high < 0xD800 || 0xDBFF < high then .ok (charOf high, 5)
      else if left ≤ 11 then fail "not enough length for escaped UTF-16 surrogate pair"
      else if s.slice 6 2 ≠ ['\\', 'u'] then
        fail "found unexpected character after high surrogate for UTF-16 surrogate pair"
      else
        let low := codeOf (s.slice 8 4)
        if low < 0xDC00 || 0xDFFF < low then fail "found unexpected low surrogate after high surrogate"
        else .ok (charOf ((high - 0xD800) * 0x400 + (low - 0xDC00) + 0x10000), 11)
  else if left ≤ 9 then fail "not enough length for escaped UTF-32 character"
  else .ok (charOf (codeOf (s.slice 2 8)), 9)

/-- The name of a kind of quotes in messages. -/
def quoteName (quote : Char) : String := if quote = '"' then "double-quoted" else "single-quoted"

/-- Reads the content of quotes that begin at `start` up to their end; `value` is what has been read, and `atStart`
tells whether only blanks have been read of the line. -/
def quoted (quote : Char) (start : Mark) : Nat → Array Char → Bool → Lexer → Except Refusal Lexer
  | 0, _, _, s => .ok s
  | fuel + 1, value, atStart, s =>
    match s.peek 0 with
    | none =>
      .error (s.refuse ("could not find end character of " ++ quoteName quote ++ " text") start (·.skip 1))
    | some c =>
      let s := s.remember c
      if isLineEnd c then
        let s := s.breakLine c
        if s.atSeparator then .error (s.refuse "found unexpected document separator" s.mark id)
        else quoted quote start fuel (joinLine value atStart) true s
      else if atStart && c = ' ' then quoted quote start fuel value atStart (s.skip 1)
      else if atStart && c = '\t' then
        if s.column ≤ s.lastColumn then
          .error (s.refuse ("tab character cannot be used for indentation in " ++ quoteName quote ++ " text")
            s.mark id)
        else quoted quote start fuel value atStart (s.skip 1)
      else if quote = '"' && c = '\\' then
        match s.peek 1 with
        | none => quoted quote start fuel (value.push c) false (s.skip 1)
        | some d =>
          if isLineEnd d then
            quoted quote start fuel value true (((s.remember d).skip 1).breakLine d)
          else if d = 'x' || d = 'u' || d = 'U' then
            match s.numbered d with
            | .error r => .error r
            | .ok (e, n) =>
              quoted quote start fuel (value.push e) false ((s.rememberAll (s.slice 1 n)).skip (n + 1))
          else match escape? d with
            | some e => quoted quote start fuel (value.push e) false ((s.remember d).skip 2)
            | none =>
              let s := s.skip 1
              .error (s.refuse ("found unknown escape character " ++ (Text.quotedChar d).toString) s.mark id)
      else if c ≠ quote then quoted quote start fuel (value.push c) false (s.skip 1)
      else if quote = '\'' && s.peek 1 = some quote then
        quoted quote start fuel (value.push c) atStart ((s.remember c).skip 2)
      else
        let kind := if quote = '"' then Token.Kind.doubleQuoted else .singleQuoted
        .ok (((s.push ⟨kind, value.toList, s.origin.toList, start⟩).skip 1).clear)

/-- Reads a text in quotes, unless a word is being gathered. -/
def quote? (s : Lexer) (c : Char) : Except Refusal (Option Lexer) :=
  if s.hasWord then .ok none
  else (quoted c s.mark (s.source.size + 2) #[] false ((s.remember c).skip 1)).map some

/-! ## Blocks -/

/-- Joins a line of a folded block to the one before: where both begin at the same column the line end is a blank,
and behind empty lines one line end is dropped. -/
def foldLine (s : Lexer) (b : Block) : Lexer :=
  if b.style = .literal || !b.isFresh then { s with block := some b }
  else
    let last := s.buffer.back?
    let before := s.buffer.pop.back?
    let isFeed (c : Option Char) : Bool := c = some '\n'
    let buffer :=
      if b.lineColumn = b.priorColumn then
        if isFeed last then s.buffer.pop.push ' ' else s.buffer
      else if b.priorColumn = 0 && isFeed last && isFeed before then s.buffer.pop
      else s.buffer
    { s with buffer := buffer, solid := min s.solid buffer.size, block := some { b with isFresh := false } }

/-- Takes the content of a block as a token. -/
def closeBlock (s : Lexer) : Lexer := (s.push (Token.text s.gathered s.origin.toList s.mark)).clear

/-- Adds a blank at the beginning of a line, if it lies behind the indentation of the block. -/
def indentInBlock (s : Lexer) (b : Block) : Lexer :=
  if b.firstColumn = 0 || s.column < b.firstColumn then s
  else
    let b := if b.style = .literal then b else { b with isFresh := false }
    { s with buffer := s.buffer.push ' ', solid := s.buffer.size + 1, block := some b }

/-- Reads one character of a block. -/
def inBlock (s : Lexer) (b : Block) (c : Char) : Except Refusal Lexer :=
  let s := s.remember c
  let (s, c) :=
    if c = '\r' && s.peek 1 = some '\n' then ((s.remember '\n').skipUncounted 1, '\n') else (s, c)
  let short := "invalid number of indent is specified in the block scalar header"
  if s.isLast then
    let isIndent := s.atLineStart && c = ' '
    let s := if isIndent then s.indentInBlock b else s.gather (if isLineEnd c then '\n' else c)
    let b := b.atColumn s.column
    let s := { s with block := some b }
    if b.isShort then .error (s.refuse short s.mark (·.skip 1))
    else .ok (s.closeBlock.skip 1)
  else if isLineEnd c then
    let s := { (s.gather '\n').nextLine with block := some (b.newLine s.column) }
    .ok (if s.atSeparator then s.closeBlock else s)
  else if s.atLineStart && c = ' ' then .ok ((s.indentInBlock b).skip 1)
  else if s.atLineStart && c = '\t' && b.isMargin s.column then
    .error (s.refuse "found a tab character where an indentation space is expected" s.mark (·.skip 1))
  else if c = '\t' && !b.isMargin s.column then .ok ((s.gatherInBlock c).skip 1)
  else if b.firstColumn = 0 && b.blankColumn > s.column then
    .error (s.refuse "invalid number of indent is specified after space only" s.mark (·.skip 1))
  else
    let b := b.atColumn s.column
    if b.isShort then .error ({ s with block := some b }.refuse short s.mark (·.skip 1))
    else
      let s := if b.firstColumn > 1 then { s with lastColumn := b.firstColumn - 1 } else s
      .ok (((s.foldLine b).gatherInBlock c).skip 1)

/-- Ends a block before a line that does not belong to it. A block without content has an empty text. -/
def leaveBlock (s : Lexer) : Except Refusal Lexer :=
  match s.lastToken? with
  | none => .ok { s with block := none }
  | some t =>
    if t.mark.column = 1 then .error (s.refuse "could not find multi-line content" s.mark id)
    else
      let s := if t.isBareText then s else s.push (Token.text [] [] s.mark)
      .ok { s with block := none }

/-- Reads the marks behind a bar or angle to the end of the line, and begins a block. -/
def blockHeader? (s : Lexer) (c : Char) : Except Refusal (Option Lexer) :=
  if s.hasWord then .ok none
  else
    let s := (s.remember c).skipUncounted 1
    let line := s.span fun c => !isLineEnd c
    let ending := match s.peek line.length, s.peek (line.length + 1) with
      | some '\r', some '\n' => ['\r', '\n']
      | some c, _ => [c]
      | none, _ => []
    -- Without a line end the last character is left out.
    let head := if ending.isEmpty then line.take (line.length - 1) else line
    let passed := if ending.isEmpty then line.length - 1 else line.length + ending.length - 1
    let s := s.rememberAll (line ++ ending)
    let head := dropEnd (· = ' ') head
    let marks := match head.findIdx? (· = '#') with
      | some (n + 1) => head.take (n + 1)
      | _ => head
    let marks := dropEnd (fun c => c = ' ' || c = '\t') marks
    if !Block.areMarks marks then
      .error (s.refuse ("invalid header option: " ++ (Text.ofChars marks).quoted.toString) s.mark (·.skip passed))
    else
      let s := if s.column = 1 then { s with lastColumn := 1 } else s
      let origin := s.origin.toList
      let comment? := (origin.findIdx? (· = '#')).filter (0 < ·)
      let headOrigin := match comment? with
        | some n => origin.take n
        | none => origin
      let (kind, style) := if c = '|' then (Token.Kind.literal, Block.Style.literal) else (.folded, .folded)
      let s := s.push ⟨kind, c :: marks, headOrigin, s.mark⟩
      let s := match comment? with
        | some n =>
          s.push ⟨.comment, (head.dropWhile (· ≠ '#')).drop 1, origin.drop n, s.mark⟩
        | none => s
      let b := Block.below style marks s.lastColumn
      .ok (some (({ s.forget with block := some b, shift := .within }.skip passed).nextLine))

/-! ## Marks -/

/-- Whether reading is inside brackets or braces. -/
def inFlow (s : Lexer) : Bool := s.openLists > 0 || s.openObjects > 0

/-- Reads a bracket or brace that opens a list or an object. -/
def opened? (s : Lexer) (c : Char) : Option Lexer :=
  if s.hasWord && !s.inFlow then none
  else
    let s := s.flush.remember c
    if c = '[' then some { s.punctuate .openList [c] with openLists := s.openLists + 1 }
    else some { s.punctuate .openObject [c] with openObjects := s.openObjects + 1 }

/-- Reads a bracket or brace that closes a list or an object. -/
def closed? (s : Lexer) (c : Char) : Option Lexer :=
  if c = ']' then
    if s.hasWord && s.openLists ≤ 0 then none
    else
      let s := s.flush.remember c
      some { s.punctuate .closeList [c] with openLists := s.openLists - 1 }
  else if s.openObjects ≤ 0 then none
  else
    let s := s.flush.remember c
    some { s.punctuate .closeObject [c] with openObjects := s.openObjects - 1 }

/-- Reads a comma between items or entries. -/
def comma? (s : Lexer) : Option Lexer :=
  if s.inFlow then some ((s.flush.remember ',').punctuate .comma [',']) else none

/-- Whether what was passed over begins with a tab, behind at most one blank. -/
def beginsWithTab (s : Lexer) : Bool :=
  let cs := s.origin.toList
  (if cs.head? = some ' ' then cs.drop 1 else cs).head? = some '\t'

/-- Reads the colon behind a key. Outside of braces a blank or a line end must follow it. -/
def colon? (s : Lexer) : Except Refusal (Option Lexer) :=
  let next := s.peek 1
  let isApart := match next with
    | none => true
    | some c => c = ' ' || c = '\t' || isLineEnd c
  if s.inDirective || s.inAnchor || s.inAlias then .ok none
  else if s.openObjects ≤ 0 && !isApart then .ok none
  else if s.openObjects > 0 && next = some '/' then .ok none
  else if s.openObjects > 0 && s.lastToken?.any Token.isColon then .ok none
  else if s.beginsWithTab && s.buffer[0]? ≠ some '\t' then
    .error (s.refuse "tab character cannot use as a map key directly" s.mark (·.skip 1))
  else
    let s := match s.cut with
      | (some t, s) => { s.push t with lastColumn := t.mark.column }
      | (none, s) =>
        match s.lastToken? with
        | some t => if t.isQuoted then { s with lastColumn := t.mark.column } else s
        | none => s
    .ok (some (((s.push ⟨.colon, [':'], [':'], s.mark⟩).skip 1).clear))

/-- Reads three dashes or points between documents. -/
def separator? (s : Lexer) (c : Char) : Option Lexer :=
  if s.indent ≠ 0 || s.column ≠ 1 || s.repeats c ≠ 3 then none
  else
    let s := s.flush.rememberAll [c, c, c]
    let kind := if c = '-' then Token.Kind.documentStart else .documentEnd
    let s := ((s.push ⟨kind, [c, c, c], s.origin.toList, s.mark⟩).skip 3).clear
    some (if c = '-' then { s with lastColumn := 0, indent := 0 } else s)

/-- Whether a colon that ends a key stands some places further on, behind blanks and other colons. -/
def keyEnds (s : Lexer) : Nat → Nat → Bool
  | 0, _ => false
  | fuel + 1, n =>
    match s.peek n, s.peek (n + 1) with
    | some ' ', _ => keyEnds s fuel (n + 1)
    | some ':', some c => c = ' ' || isLineEnd c || keyEnds s fuel (n + 1)
    | _, _ => false

/-- Reads the key of entries that are merged. -/
def merge? (s : Lexer) : Option Lexer :=
  if s.repeats '<' = 2 && s.keyEnds (s.source.size - s.place) 2 then
    let s := { s with lastColumn := s.column }.rememberAll ['<', '<']
    some (((s.push ⟨.merge, ['<', '<'], s.origin.toList, s.mark⟩).skip 2).clear)
  else none

/-- Reads a dash that goes on with a bare text on a line of its own. -/
def dashInText? (s : Lexer) : Option Lexer :=
  if s.hasWord && s.shift = .deeper then
    let s := { s with block := some (.continued s.column) }
    some (((s.gather '-').remember '-').skip 1)
  else none

/-- Reads the dash before an item. -/
def dash? (s : Lexer) : Except Refusal (Option Lexer) :=
  let isApart := match s.peek 1 with
    | none => true
    | some c => c = ' ' || c = '\t' || isLineEnd c
  if s.hasWord || !isApart then .ok none
  else if s.beginsWithTab then
    .error (s.refuse "tab character cannot use as a sequence delimiter" s.mark (·.skip 1))
  else
    let s := s.flush.remember '-'
    .ok (some { s.punctuate .dash ['-'] with lastColumn := s.column })

/-- Reads the question mark before a key. -/
def question? (s : Lexer) : Option Lexer :=
  let isApart := match s.peek 1 with
    | some c => c = ' ' || c = '\t'
    | none => false
  if s.hasWord || !isApart then none
  else
    let column := s.column
    let s := ((s.push ⟨.question, ['?'], ['?'], s.mark⟩).skip 1).clear
    some { s with lastColumn := column }

/-- Reads the sign before the name of an anchor or alias. -/
def named? (s : Lexer) (c : Char) : Option Lexer :=
  if s.hasWord then none
  else
    let s := s.flush.remember c
    if c = '&' then some { s.punctuate .anchor [c] with inAnchor := true }
    else some { s.punctuate .reference [c] with inAlias := true }

/-- Reads the sign before a directive. -/
def directive? (s : Lexer) : Option Lexer :=
  if s.hasWord || s.indent ≠ 0 then none
  else
    let s := s.flush.remember '%'
    some { s.punctuate .directive ['%'] with inDirective := true }

/-- Reads a tag up to a blank, a line end or, in brackets and braces, a comma. -/
def tag? (s : Lexer) : Except Refusal (Option Lexer) :=
  if s.hasWord || s.inDirective then .ok none
  else
    let s := (s.remember '!').skipUncounted 1
    let isEnd (c : Char) : Bool := c = ' ' || isLineEnd c || c = '\x7b' || c = '\x7d' || (c = ',' && s.inFlow)
    let name := s.span fun c => !isEnd c
    let s := s.rememberAll name
    let value := '!' :: name
    match s.peek name.length with
    | none => .ok (some (s.skip name.length).clear)
    | some c =>
      if c = '\x7b' || c = '\x7d' then
        let s := s.remember c
        let s := s.skip (name.length + 1)
        .error (s.refuse ("found invalid tag character " ++ (Text.quotedChar c).toString) s.mark id)
      else
        let s := if c = ',' then s else s.remember c
        let s := s.push ⟨.tag, value, s.origin.toList, s.mark⟩
        .ok (some ((s.skip (if c = ' ' then value.length else name.length)).clear))

/-- Reads a comment to the end of the line. Behind a word there must be a blank before it. -/
def comment? (s : Lexer) : Option Lexer :=
  let before := if s.place = 0 then none else s.source[s.place - 1]?
  if s.hasWord && !(before.any fun c => c = ' ' || c = '\t' || isLineEnd c) then none
  else
    let s := (s.flush.remember '#').skipUncounted 1
    let text := s.span fun c => !isLineEnd c
    let s := s.rememberAll (s.slice 0 (text.length + 1))
    some (((s.push ⟨.comment, text, s.origin.toList, s.mark⟩).skip text.length).nextLine).clear

/-! ## Blanks and line ends -/

/-- Reads a blank where it does more than part words: at the beginning of a line, and behind the name of an anchor,
alias or directive. -/
def blank? (s : Lexer) : Option Lexer :=
  if s.block.isSome then none
  else if s.atLineStart then some ((s.skip 1).remember ' ')
  else if s.inDirective then some ((s.flush.skip 1).remember ' ')
  else if s.inAnchor || s.inAlias then some { s.flush with inAnchor := false, inAlias := false }
  else none

/-- Reads a line end. Inside a bare text it counts as a blank, and behind an empty line for itself. -/
def lineEnd (s : Lexer) (c : Char) : Lexer :=
  let s :=
    if !s.buffer.isEmpty && s.saved.isNone then
      { s with saved := some ⟨s.line, s.column - s.gathered.length⟩ }
    else s
  let surplus : Nat := s.origin.size - s.originSolid
  let s :=
    if surplus > 0 then
      { s with
        origin := s.origin.extract 0 s.originSolid
        buffer := s.gathered.toArray
        column := s.column - surplus
        saved := s.saved.map fun m => { m with column := m.column - surplus } }
    else s
  let (s, c) :=
    if c = '\r' && s.peek 1 = some '\n' then ((s.remember '\r').skipUncounted 1, '\n') else (s, c)
  let s := if s.isLast || s.inAnchor || s.inAlias || s.inDirective then s.flush else s
  let s :=
    if s.hasWord && s.atLineStart then
      let kept := if s.buffer.back? = some ' ' then s.buffer.pop else s.buffer
      { s with buffer := kept.push '\n' }
    else s.gather ' '
  (s.remember c).nextLine

/-- Reads a tab. Tabs are dropped from words, and can not indent. -/
def tab (s : Lexer) : Except Refusal Lexer :=
  if (s.hasWord && s.lastColumn = 0) || s.lastColumn < s.column then
    .ok ({ s with indent := s.indent + 1 }.remember '\t' |>.skipUncounted 1)
  else if s.inFlow || !s.atLineStart then .ok (((s.gather '\t').remember '\t').skip 1)
  else
    let s := s.remember '\t'
    .error (s.refuse "found character '\t' that cannot start any token" s.mark fun s => (s.skip 1).clear)

/-! ## Reading a document -/

/-- Takes a character into the word that is being gathered. -/
def plain (s : Lexer) (c : Char) : Lexer := ((s.gather c).remember c).skip 1

/-- Reads a character outside of blocks, or the token that it begins. -/
def outside (s : Lexer) (c : Char) : Except Refusal Lexer :=
  let orPlain (r : Option Lexer) : Except Refusal Lexer := .ok (r.getD (s.plain c))
  let orFail (r : Except Refusal (Option Lexer)) : Except Refusal Lexer := r.map fun s? => s?.getD (s.plain c)
  match c with
  | '\x7b' | '[' => orPlain (s.opened? c)
  | '\x7d' | ']' => orPlain (s.closed? c)
  | '.' => orPlain (s.separator? c)
  | '<' => orPlain s.merge?
  | '-' =>
    match (s.separator? c).or s.dashInText? with
    | some s => .ok s
    | none => orFail s.dash?
  | ',' => orPlain s.comma?
  | ':' => orFail s.colon?
  | '|' | '>' => orFail (s.blockHeader? c)
  | '!' => orFail s.tag?
  | '%' => orPlain s.directive?
  | '?' => orPlain s.question?
  | '&' | '*' => orPlain (s.named? c)
  | '#' => orPlain s.comment?
  | '\'' | '"' => orFail (s.quote? c)
  | '\n' | '\r' => .ok (s.lineEnd c)
  | ' ' => orPlain s.blank?
  | '@' | '`' =>
    if s.hasWord then .ok (s.plain c)
    else
      let s := s.remember c
      .error (s.refuse ((Text.quotedChar c).toString ++ " is a reserved character") s.mark fun s => (s.skip 1).clear)
  | '\t' => s.tab
  | c => .ok (s.plain c)

/-- Reads a character. A line that is not indented deeper than the last key or dash ends the word before it. -/
def step (s : Lexer) (c : Char) : Except Refusal Lexer :=
  let s := s.noteIndent c
  let s := if s.shift = .back then s.flush else s
  match s.block with
  | none => s.outside c
  | some b =>
    if s.shift = .back then
      match s.leaveBlock with
      | .ok s => s.outside c
      | .error r => .error r
    else s.inBlock b c

/-- The state in which reading goes on behind a failure. -/
def resume (r : Refusal) : Lexer :=
  { r.lexer.clear with tokens := r.lexer.tokens.push r.token, lastColumn := 0, indent := 0 }

/-- Reads to the end of the source. -/
def run : Nat → Lexer → Array Token
  | 0, s => s.tokens
  | fuel + 1, s =>
    match s.peek 0 with
    | none => s.flush.tokens
    | some c =>
      match s.step c with
      | .ok s => run fuel s
      | .error r =>
        let s := resume r
        if s.place < s.source.size then run fuel s else s.tokens

end Lexer

/-- The tokens of a document. -/
def tokens (cs : List Char) : Array Token :=
  -- At most two steps are taken at a character.
  Lexer.run (2 * cs.length + 2) { source := cs.toArray }

end ScriptEngine.Yaml
