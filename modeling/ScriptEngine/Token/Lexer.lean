import ScriptEngine.Token
/-!
# Reading tokens from source text

Source text is read byte by byte. A byte of value zero ends it. Lines are counted by line feeds and
columns by bytes, both from one. A fault of the text is recorded and reading goes on, so that all
faults of a text are reported together.
-/

namespace ScriptEngine

/-- What is wrong with a piece of source text. -/
inductive LexFault.Cause where
  | unterminated
  | unrecognized (b : UInt8)
deriving DecidableEq, Repr

/-- A fault of the source text and its place. -/
structure LexFault where
  cause : LexFault.Cause
  line : Nat
  column : Nat
deriving DecidableEq, Repr

/-- The name of the cause of a fault. -/
def LexFault.code (f : LexFault) : String :=
  match f.cause with
  | .unterminated => "UnterminatedLiteral"
  | .unrecognized _ => "UnrecognizedCharacter"

/-- The wording of a fault. -/
def LexFault.message (f : LexFault) : Text :=
  match f.cause with
  | .unterminated => "Unterminated literal"
  | .unrecognized b => "Unrecognized character " ++ Text.quotedChar (Char.ofNat b.toNat)

/-- The wording of a fault with its line. -/
def LexFault.describe (f : LexFault) : Text :=
  "[line " ++ toString f.line ++ "] " ++ f.message

/-- The text that is still to be read and the place of its first byte. -/
structure Cursor where
  rest : List UInt8
  line : Nat
  column : Nat
deriving DecidableEq

namespace Cursor

/-- The cursor at the start of a text. -/
def start (source : Text) : Cursor := ⟨source.bytes, 1, 1⟩

/-- The cursor after `n` bytes of the present line. -/
def skip (c : Cursor) (n : Nat) : Cursor := ⟨c.rest.drop n, c.line, c.column + n⟩

/-! ## White space and comments -/

/-- What kind of gap between tokens is being passed over. -/
inductive Gap where
  /-- White space. -/
  | blank
  /-- A comment that ends with its line. -/
  | lineComment
  /-- A comment that ends with a mark; it began at the given place. -/
  | blockComment (line column : Nat)

/-- Passes over white space and comments; the second component is the place of a block comment that
does not end. -/
def skipGap : List UInt8 → Gap → Nat → Nat → Cursor × Option (Nat × Nat)
  | [], .blockComment l k, line, column => (⟨[], line, column⟩, some (l, k))
  | [], _, line, column => (⟨[], line, column⟩, none)
  | 10 :: rest, .blockComment l k, line, _ => skipGap rest (.blockComment l k) (line + 1) 1
  | 10 :: rest, _, line, _ => skipGap rest .blank (line + 1) 1
  | 0 :: rest, .blockComment l k, line, column => (⟨0 :: rest, line, column⟩, some (l, k))
  | 0 :: rest, _, line, column => (⟨0 :: rest, line, column⟩, none)
  | _ :: rest, .lineComment, line, column => skipGap rest .lineComment line (column + 1)
  | 42 :: 47 :: rest, .blockComment _ _, line, column => skipGap rest .blank line (column + 2)
  | _ :: rest, .blockComment l k, line, column =>
    skipGap rest (.blockComment l k) line (column + 1)
  | 32 :: rest, .blank, line, column => skipGap rest .blank line (column + 1)
  | 9 :: rest, .blank, line, column => skipGap rest .blank line (column + 1)
  | 13 :: rest, .blank, line, column => skipGap rest .blank line (column + 1)
  | 47 :: 47 :: rest, .blank, line, column => skipGap rest .lineComment line (column + 2)
  | 47 :: 42 :: rest, .blank, line, column =>
    skipGap rest (.blockComment line column) line (column + 2)
  | b :: rest, .blank, line, column => (⟨b :: rest, line, column⟩, none)

/-- The cursor after white space and comments. -/
def skipBlanks (c : Cursor) : Cursor × Option (Nat × Nat) := skipGap c.rest .blank c.line c.column

/-! ## Words and numbers -/

/-- Whether a byte is an ASCII letter or the underscore. -/
def isLetter (b : UInt8) : Bool := (0x61 ≤ b && b ≤ 0x7A) || (0x41 ≤ b && b ≤ 0x5A) || b = 0x5F

/-- Whether a byte is an ASCII digit. -/
def isDigit (b : UInt8) : Bool := 0x30 ≤ b && b ≤ 0x39

/-- Whether a byte may stand inside a word. -/
def isWordByte (b : UInt8) : Bool := isLetter b || isDigit b

/-- Whether an argument list opens after blanks and tabs. -/
def callFollows (bs : List UInt8) : Bool :=
  match bs.dropWhile (fun b => b = 32 || b = 9) with
  | 40 :: _ => true
  | _ => false

/-- The dotted segments that join a word: each begins with a dot and a letter, and a reserved word is
joined only when a call follows. `fuel` bounds the number of segments. -/
def moreSegments : Nat → List UInt8 → List UInt8
  | fuel + 1, 46 :: b :: rest =>
    if isLetter b then
      let segment := (b :: rest).takeWhile isWordByte
      let after := (b :: rest).dropWhile isWordByte
      if Token.isKeyword ⟨segment⟩ && !callFollows after then []
      else 46 :: segment ++ moreSegments fuel after
    else []
  | _, _ => []

/-- The bytes of the dotted word at the front. -/
def word (bs : List UInt8) : List UInt8 :=
  let after := bs.dropWhile isWordByte
  bs.takeWhile isWordByte ++ moreSegments after.length after

/-- The fraction at the front: a point and at least one digit. -/
def fraction : List UInt8 → List UInt8
  | 46 :: d :: rest => if isDigit d then 46 :: d :: rest.takeWhile isDigit else []
  | _ => []

/-- The exponent at the front: its mark, perhaps a sign, and at least one digit. -/
def exponent : List UInt8 → List UInt8
  | e :: s :: rest =>
    if e = 0x65 || e = 0x45 then
      if isDigit s then e :: s :: rest.takeWhile isDigit
      else if (s = 0x2D || s = 0x2B) && (rest.head?.any isDigit) then
        e :: s :: rest.takeWhile isDigit
      else []
    else []
  | _ => []

/-- The value of a list of digits. -/
def decimalValue (bs : List UInt8) : Nat := bs.foldl (fun n b => n * 10 + (b.toNat - 0x30)) 0

/-- The number at the front: its digits, the kind of its form and the length of its suffix letter. A
decimal point, an exponent, `d` or `f` make a double; `l` makes a long; a whole number is an int when
it fits 32 bits, a long when it fits 64 bits and a double beyond. -/
def number (bs : List UInt8) : List UInt8 × Token.Kind × Nat :=
  let whole := bs.takeWhile isDigit
  let bs1 := bs.dropWhile isDigit
  let frac := fraction bs1
  let bs2 := bs1.drop frac.length
  let exp := exponent bs2
  let literal := whole ++ frac ++ exp
  let isDouble := !(frac.isEmpty && exp.isEmpty)
  let after := (bs2.drop exp.length).head?
  if after.any (fun b => b = 0x64 || b = 0x44 || b = 0x66 || b = 0x46) then (literal, .double, 1)
  else if !isDouble && after.any (fun b => b = 0x6C || b = 0x4C) then (literal, .long, 1)
  else if isDouble then (literal, .double, 0)
  else
    let n := decimalValue whole
    if n ≥ 2 ^ 63 then (literal, .double, 0)
    else if n ≥ 2 ^ 31 then (literal, .long, 0)
    else (literal, .int, 0)

/-! ## Quoted literals -/

/-- At most `n` hexadecimal digits at the front. -/
def hexRun : Nat → List UInt8 → List UInt8
  | 0, _ => []
  | _, [] => []
  | n + 1, b :: rest => if (Text.hexValue? b).isSome then b :: hexRun n rest else []

/-- The character with a code point; a code point that is no scalar value gives U+FFFD. -/
def charOfCode (n : Nat) : Char := if n.isValidChar then Char.ofNat n else '\ufffd'

/-- The bytes of the character that hexadecimal digits name. -/
def hexChar (ds : List UInt8) : List UInt8 :=
  Text.encodeChar (charOfCode (ds.foldl (fun n b => n * 16 + (Text.hexValue? b).getD 0) 0))

/-- What an escaped byte stands for. -/
def escaped (b : UInt8) : List UInt8 :=
  match b with
  | 0x6E => [10]
  | 0x74 => [9]
  | 0x72 => [13]
  | 0x62 => [8]
  | 0x66 => [12]
  | 0x5C => [0x5C]
  | 0x22 => [0x22]
  | 0x27 => [0x27]
  | _ => [0x5C, b]

/-- Reads a literal up to the quote that ends it: its value in reverse, whether it ended, and the
cursor behind it. `skip` bytes of an escape are still to be passed over. -/
def literal (quote : UInt8) :
    List UInt8 → Nat → List UInt8 → Nat → Nat → List UInt8 × Bool × Cursor
  | [], _, value, line, column => (value, false, ⟨[], line, column⟩)
  | _ :: rest, k + 1, value, line, column => literal quote rest k value line (column + 1)
  | b :: rest, 0, value, line, column =>
    if b = quote then (value, true, ⟨rest, line, column + 1⟩)
    else if b = 0 then (value, false, ⟨b :: rest, line, column⟩)
    else if b = 10 then literal quote rest 0 (10 :: value) (line + 1) 1
    else if b = 0x5C then
      match rest with
      | [] => (value, false, ⟨[], line, column + 1⟩)
      | e :: rest' =>
        if e = 0 then (value, false, ⟨e :: rest', line, column + 1⟩)
        else if e = 0x75 then
          let ds := hexRun 4 rest'
          literal quote rest' ds.length ((hexChar ds).reverse ++ value) line (column + 2)
        else if e = 0x78 then
          let ds := hexRun 2 rest'
          literal quote rest' ds.length ((hexChar ds).reverse ++ value) line (column + 2)
        else literal quote rest' 0 ((escaped e).reverse ++ value) line (column + 2)
    else literal quote rest 0 (b :: value) line (column + 1)

/-- Whether a literal has the form of a date: `yyyy-mm-dd`, perhaps followed by a blank or `T`, hours
and minutes, and perhaps seconds. -/
def isDateForm (bs : List UInt8) : Bool :=
  let fits (pattern : List Char) : Bool :=
    bs.length = pattern.length && (bs.zip pattern).all fun (b, p) =>
      if p = '9' then isDigit b
      else if p = '_' then b = 32 || b = 0x54
      else b.toNat = p.toNat
  fits "9999-99-99".toList || fits "9999-99-99_99:99".toList || fits "9999-99-99_99:99:99".toList

/-! ## Tokens -/

/-- A token, the faults met on the way, and the cursor behind it. -/
structure Step where
  token : Token
  faults : List LexFault
  after : Cursor

/-- The operator or delimiter at the front, with its literal and length. -/
def operator? : List UInt8 → Option (Token.Kind × String × Nat)
  | 0x3D :: 0x3D :: _ => some (.eq, "==", 2)
  | 0x3D :: 0x3C :: _ => some (.lte, "<=", 2)
  | 0x3D :: 0x3E :: _ => some (.gte, ">=", 2)
  | 0x3D :: _ => some (.assign, "=", 1)
  | 0x2B :: 0x2B :: _ => some (.plusPlus, "++", 2)
  | 0x2B :: 0x3D :: _ => some (.plusEq, "+=", 2)
  | 0x2B :: _ => some (.plus, "+", 1)
  | 0x2D :: 0x2D :: _ => some (.minusMinus, "--", 2)
  | 0x2D :: 0x3D :: _ => some (.minusEq, "-=", 2)
  | 0x2D :: _ => some (.minus, "-", 1)
  | 0x2A :: 0x3D :: _ => some (.starEq, "*=", 2)
  | 0x2A :: _ => some (.star, "*", 1)
  | 0x2F :: 0x3D :: _ => some (.slashEq, "/=", 2)
  | 0x2F :: _ => some (.slash, "/", 1)
  | 0x21 :: 0x3D :: _ => some (.notEq, "!=", 2)
  | 0x21 :: _ => some (.bang, "!", 1)
  | 0x3C :: 0x3D :: _ => some (.lte, "<=", 2)
  | 0x3C :: 0x3E :: _ => some (.notEq, "<>", 2)
  | 0x3C :: _ => some (.lt, "<", 1)
  | 0x3E :: 0x3D :: _ => some (.gte, ">=", 2)
  | 0x3E :: _ => some (.gt, ">", 1)
  | 0x26 :: 0x26 :: _ => some (.and, "&&", 2)
  | 0x7C :: 0x7C :: _ => some (.or, "||", 2)
  | 0x25 :: _ => some (.percent, "%", 1)
  | 0x5E :: _ => some (.caret, "^", 1)
  | 0x2C :: _ => some (.comma, ",", 1)
  | 0x3A :: _ => some (.colon, ":", 1)
  | 0x3B :: _ => some (.semicolon, ";", 1)
  | 0x28 :: _ => some (.lparen, "(", 1)
  | 0x29 :: _ => some (.rparen, ")", 1)
  | 0x2E :: _ => some (.dot, ".", 1)
  | 0x7B :: _ => some (.lbrace, "\x7b", 1)
  | 0x7D :: _ => some (.rbrace, "\x7d", 1)
  | 0x5B :: _ => some (.lbracket, "[", 1)
  | 0x5D :: _ => some (.rbracket, "]", 1)
  | 0x23 :: _ => some (.hash, "#", 1)
  | _ => none

/-- The number token at the cursor. -/
def numberToken (c : Cursor) : Step :=
  let n := number c.rest
  ⟨⟨n.2.1, ⟨n.1⟩, c.line, c.column⟩, [], c.skip (n.1.length + n.2.2)⟩

/-- The word token at the cursor. -/
def wordToken (c : Cursor) : Step :=
  let w := word c.rest
  let lower : Text := Text.lowerAscii ⟨w⟩
  ⟨⟨Token.Kind.ofWord lower, lower, c.line, c.column⟩, [], c.skip w.length⟩

/-- The quoted token at the cursor, whose first byte is `quote`. -/
def quotedToken (c : Cursor) (quote : UInt8) : Step :=
  let r := literal quote (c.rest.drop 1) 0 [] c.line (c.column + 1)
  let value := r.1.reverse
  if r.2.1 then
    let kind := if isDateForm value then Token.Kind.date else Token.Kind.string
    ⟨⟨kind, ⟨value⟩, c.line, c.column⟩, [], r.2.2⟩
  else ⟨⟨.illegal, ⟨value⟩, c.line, c.column⟩, [⟨.unterminated, c.line, c.column⟩], r.2.2⟩

/-- The token at a cursor that stands on no white space and no comment. -/
def tokenHere (c : Cursor) : Step :=
  match c.rest with
  | [] => ⟨⟨.eof, ⟨[]⟩, c.line, c.column⟩, [], c⟩
  | b :: rest =>
    if b = 0 then ⟨⟨.eof, ⟨[]⟩, c.line, c.column⟩, [], c⟩
    else if b = 0x22 || b = 0x27 then c.quotedToken b
    else if isDigit b || (b = 0x2E && rest.head?.any isDigit) then c.numberToken
    else if isLetter b then c.wordToken
    else match operator? c.rest with
      | some (kind, spelling, n) => ⟨⟨kind, spelling, c.line, c.column⟩, [], c.skip n⟩
      | none =>
        ⟨⟨.illegal, Text.ofChar (Char.ofNat b.toNat), c.line, c.column⟩,
          [⟨.unrecognized b, c.line, c.column⟩], c.skip 1⟩

/-- The next token. A block comment that does not end gives an illegal token at the end. -/
def next (c : Cursor) : Step :=
  match c.skipBlanks with
  | (c', some (line, column)) =>
    ⟨⟨.illegal, "/*", c'.line, c'.column⟩, [⟨.unterminated, line, column⟩], c'⟩
  | (c', none) => c'.tokenHere

/-- The tokens from a cursor on; each but the end mark takes at least one byte, so that `fuel` need
only exceed the number of bytes. -/
def tokensFrom : Nat → Cursor → List Token × List LexFault
  | 0, _ => ([], [])
  | fuel + 1, c =>
    let s := c.next
    if s.token.kind = .eof then ([s.token], s.faults)
    else
      let r := tokensFrom fuel s.after
      (s.token :: r.1, s.faults ++ r.2)

end Cursor

/-- All tokens of a source text, the end mark last, and its faults. -/
def Token.scan (source : Text) : List Token × List LexFault :=
  Cursor.tokensFrom (source.size + 1) (Cursor.start source)

end ScriptEngine
