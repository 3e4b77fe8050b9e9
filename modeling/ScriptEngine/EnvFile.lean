import ScriptEngine.Text.Quoted
/-!
# Files of environment variables

Such a file gives variables a line each: a name, an equals sign or a colon, and a value that may stand in
quotes. Comments begin with a hash sign. In bare and double-quoted values a dollar sign with a name
stands for the value of an earlier variable of the file.
-/

namespace ScriptEngine.EnvFile

/-- Why a text is not such a file. -/
inductive Trouble where
  | badCharacter (byte : UInt8) (near : Text)
  | unterminated (value : Text)
  | nothingExported

/-- The wording of a trouble. -/
def Trouble.message : Trouble → Text
  | badCharacter b near =>
    "unexpected character " ++ (Text.ofChar (Char.ofNat b.toNat)).quoted
      ++ " in variable name near " ++ near.quoted
  | unterminated value => "unterminated quoted value " ++ value
  | nothingExported => "zero length string"

/-- Blanks within a line. -/
def isBlank (c : Char) : Bool :=
  let n := c.toNat
  n = 0x09 || n = 0x0B || n = 0x0C || n = 0x0D || n = 0x20 || n = 0x85 || n = 0xA0

/-- The characters of a name in a reference. -/
def isNameByte (b : UInt8) : Bool :=
  (0x41 ≤ b && b ≤ 0x5A) || (0x30 ≤ b && b ≤ 0x39) || b = 0x5F

/-- Drops a byte from the front if it is there. -/
def dropOne (b : UInt8) (bs : List UInt8) : List UInt8 := if bs.head? = some b then bs.drop 1 else bs

/-- A value with its references replaced. A backslash in front of the dollar sign is left out and keeps
it as it is. -/
def expand (vars : List (Text × Text)) : Nat → List UInt8 → List UInt8
  | 0, bs => bs
  | fuel + 1, bs =>
    match bs with
    | [] => []
    | b :: rest =>
      let escaped := b = 0x5C && rest.head? = some 0x24
      if b = 0x24 || escaped then
        let tail := if escaped then rest.drop 1 else rest
        let opened := dropOne 0x7B (dropOne 0x28 tail)
        let name := opened.takeWhile isNameByte
        let left := dropOne 0x7D (opened.drop name.length)
        let whole := bs.take (bs.length - left.length)
        let here :=
          if escaped then whole.drop 1
          else if name.isEmpty then whole
          else ((vars.lookup ⟨name⟩).getD "").bytes
        here ++ expand vars fuel left
      else b :: expand vars fuel rest

/-- A value with backslashes taken away: before `n` and `r` they make a line end, before a dollar sign
they stay. -/
def unescape : List UInt8 → List UInt8
  | 0x5C :: 0x6E :: rest => 0x0A :: unescape rest
  | 0x5C :: 0x72 :: rest => 0x0D :: unescape rest
  | 0x5C :: 0x24 :: rest => 0x5C :: 0x24 :: unescape rest
  | 0x5C :: c :: rest => c :: unescape rest
  | b :: rest => b :: unescape rest
  | [] => []

/-- A text without blanks at its ends. -/
def trimBlanks (cs : List Char) : List Char := Text.trimList isBlank cs

/-- The bytes without blanks at the front. -/
def dropBlanks (bs : List UInt8) : List UInt8 :=
  ((Text.mk bs).glyphs.dropWhile fun g => match g with
    | .char c => isBlank c
    | .stray _ => false).flatMap Text.Glyph.bytes

/-- A line without the comment at its end: the last hash sign behind a blank begins it. -/
def cutComment (row : List Char) : List Char :=
  let places := (List.range row.length).filter fun i =>
    i > 0 && row[i]? = some '#' && (row[i - 1]?).any isBlank
  match places.getLast? with
  | some i => row.take i
  | none => row

/-- The start of the next variable. -/
def statement : Nat → List UInt8 → List UInt8
  | 0, _ => []
  | fuel + 1, bs =>
    let bs := (Text.mk bs).trimLeft.bytes
    match bs with
    | 0x23 :: _ => statement fuel (bs.dropWhile (· ≠ 0x0A))
    | bs => bs

/-- Whether one of the first 256 characters is a letter or a number. -/
def isWordByte (b : UInt8) : Bool :=
  (0x30 ≤ b && b ≤ 0x39) || (0x41 ≤ b && b ≤ 0x5A) || (0x61 ≤ b && b ≤ 0x7A)
    || b = 0xAA || b = 0xB5 || b = 0xBA || (0xC0 ≤ b && b ≠ 0xD7 && b ≠ 0xF7)
    || b = 0xB2 || b = 0xB3 || b = 0xB9 || (0xBC ≤ b && b ≤ 0xBE)

/-- Whether a byte, read as a character, may stand in a name. -/
def isNameLike (b : UInt8) : Bool :=
  b = 0x5F || b = 0x2E || isBlank (Char.ofNat b.toNat) || isWordByte b

/-- The name at the front and what follows its equals sign. -/
def name (bs : List UInt8) : Except Trouble (Text × List UInt8) :=
  let bs := dropBlanks bs
  let tail := bs.drop 6
  let exported := (Text.ofString "export").bytes.isPrefixOf bs
    && (match (Text.mk tail).glyphs with
      | .char c :: _ => isBlank c
      | _ => false)
  let bs := if exported then dropBlanks tail else bs
  let isEnd (b : UInt8) : Bool := b = 0x3D || b = 0x3A
  let word := bs.takeWhile fun b => !isEnd b
  match word.find? fun b => !isNameLike b with
  | some b => .error (.badCharacter b ⟨bs⟩)
  | none =>
    if bs.isEmpty then .error .nothingExported
    else if word.length = bs.length then .ok ("", dropBlanks bs)
    else .ok ((Text.mk word).trimRight, dropBlanks (bs.drop (word.length + 1)))

/-- The number of bytes before the quote that ends a value; one behind a backslash does not. -/
def closing (quote : UInt8) : UInt8 → List UInt8 → Option Nat
  | _, [] => none
  | before, b :: rest =>
    if b = quote && before ≠ 0x5C then some 0 else (closing quote b rest).map (· + 1)

/-- The value at the front and what follows it. -/
def value (vars : List (Text × Text)) (bs : List UInt8) : Except Trouble (Text × List UInt8) :=
  match bs with
  | q :: rest =>
    if q = 0x22 || q = 0x27 then
      match closing q q rest with
      | some n =>
        let content := Text.trimList (· = q) (rest.take n)
        let content :=
          if q = 0x22 then
            let plain := unescape content
            expand vars plain.length plain
          else content
        .ok (⟨content⟩, rest.drop (n + 1))
      | none => .error (.unterminated ⟨bs.takeWhile (· ≠ 0x0A)⟩)
    else
      let line := bs.takeWhile fun b => b ≠ 0x0A && b ≠ 0x0D
      let shown := Text.ofChars (trimBlanks (cutComment (Text.mk line).chars))
      .ok (⟨expand vars shown.size shown.bytes⟩, bs.drop line.length)
  | [] => .ok ("", [])

/-- The variables from a place on, after those given. -/
def readFrom : Nat → List (Text × Text) → List UInt8 → Except Trouble (List (Text × Text))
  | 0, vars, _ => .ok vars
  | fuel + 1, vars, bs =>
    match statement (bs.length + 1) bs with
    | [] => .ok vars
    | bs => do
      let (key, rest) ← name bs
      let (v, rest) ← value vars rest
      readFrom fuel (vars.filter (·.1 ≠ key) ++ [(key, v)]) rest

/-- The variables of a file. -/
def parse (t : Text) : Except Trouble (List (Text × Text)) :=
  let t := t.replace "\r\n" "\n"
  readFrom (t.size + 1) [] t.bytes

end ScriptEngine.EnvFile
