import ScriptEngine.Json
/-!
# Reading json

A text is read byte by byte. The first byte that cannot continue the text is reported together with
what was being read; a text that ends too early is reported as such.
-/

namespace ScriptEngine.Json

/-- Why a text is no json value. -/
inductive Fault where
  /-- There is nothing but white space. -/
  | empty
  | endsEarly
  | tooDeep
  | badGlyph (g : Text.Glyph) (context : String)
  | badEscape (sequence : Text)
deriving DecidableEq

/-- The fault of a place that cannot go on with a byte. -/
def Fault.badByte (b : UInt8) (rest : List UInt8) (context : String) : Fault :=
  .badGlyph (Text.readGlyph b rest).1 context

/-- A character or stray byte between apostrophes. -/
def quoteGlyph : Text.Glyph → Text
  | .char c => Text.quotedChar c
  | .stray b => "'\\x" ++ Text.hex 1 b.toNat ++ "'"

/-- A sequence of characters between accents, or between quotes if an accent or something that cannot be
seen is among them. -/
def quoteSequence (t : Text) : Text :=
  if t.chars.all fun c => c.toNat ≠ 0x60 && c ≠ '\ufffd' && c ≠ ' ' && Text.isPrintable c then "`" ++ t ++ "`"
  else t.quoted

/-- The wording of a fault. -/
def Fault.message : Fault → Text
  | empty => "EOF"
  | endsEarly => "unexpected EOF"
  | tooDeep => "exceeded max depth"
  | badGlyph g context => "invalid character " ++ quoteGlyph g ++ " " ++ context
  | badEscape t => "invalid escape sequence " ++ quoteSequence t ++ " in string"

/-- The deepest nesting that is read. -/
def maxDepth : Nat := 10000

/-- Whether a byte is json white space. -/
def isBlank (b : UInt8) : Bool := b = 32 || b = 9 || b = 10 || b = 13

/-- The text after white space. -/
def skipBlanks (bs : List UInt8) : List UInt8 := bs.dropWhile isBlank

/-! ## Strings -/

/-- The value of four hexadecimal digits at the front. -/
def hex4? : List UInt8 → Option Nat
  | a :: b :: c :: d :: _ => do
    let a ← Text.hexValue? a
    let b ← Text.hexValue? b
    let c ← Text.hexValue? c
    let d ← Text.hexValue? d
    some (((a * 16 + b) * 16 + c) * 16 + d)
  | _ => none

/-- The fault of four hexadecimal digits that are not there. -/
def hex4Fault (bs : List UInt8) : Fault :=
  if bs.length < 4 && bs.all fun b => (Text.hexValue? b).isSome then .endsEarly
  else .badEscape ⟨0x5C :: 0x75 :: bs.take 4⟩

/-- The character of an escape by code point, and how many more bytes it takes: two escapes that are
the halves of one character are taken together, and a half by itself is U+FFFD. -/
def escapedChar (code : Nat) (rest : List UInt8) : Char × Nat :=
  if 0xD800 ≤ code && code < 0xDC00 then
    match rest with
    | 0x5C :: 0x75 :: more =>
      match hex4? more with
      | some low =>
        if 0xDC00 ≤ low && low < 0xE000 then
          (Char.ofNat ((code - 0xD800) * 0x400 + (low - 0xDC00) + 0x10000), 6)
        else ('\ufffd', 0)
      | none => ('\ufffd', 0)
    | _ => ('\ufffd', 0)
  else if code.isValidChar then (Char.ofNat code, 0)
  else ('\ufffd', 0)

/-- The byte that a letter after a backslash stands for. -/
def escapedByte? (b : UInt8) : Option UInt8 :=
  match Char.ofNat b.toNat with
  | '"' => some 0x22
  | '\\' => some 0x5C
  | '/' => some 0x2F
  | 'b' => some 8
  | 'f' => some 12
  | 'n' => some 10
  | 'r' => some 13
  | 't' => some 9
  | _ => none

/-- Reads a string after its opening quote: its bytes in reverse, and the text after it. `skip` bytes
of an escape are still to be passed over. -/
def readString : List UInt8 → Nat → List UInt8 → Except Fault (List UInt8 × List UInt8)
  | [], _, _ => .error .endsEarly
  | _ :: rest, k + 1, acc => readString rest k acc
  | b :: rest, 0, acc =>
    if b = 0x22 then .ok (acc, rest)
    else if b = 0x5C then
      match rest with
      | [] => .error .endsEarly
      | e :: more =>
        if e = 0x75 then
          match hex4? more with
          | none => .error (hex4Fault more)
          | some code =>
            let (c, extra) := escapedChar code (more.drop 4)
            readString rest (5 + extra) ((Text.encodeChar c).reverse ++ acc)
        else match escapedByte? e with
          | some x => readString rest 1 (x :: acc)
          | none => .error (.badEscape ⟨[b, e]⟩)
    else if b < 0x20 then .error (.badByte b rest "in string")
    else readString rest 0 (b :: acc)

/-- The text of bytes with every stray byte replaced by U+FFFD. -/
def repaired (bs : List UInt8) : Text := Text.ofChars (Text.chars ⟨bs⟩)

/-! ## Numbers and words -/

/-- The fault of a place where a number must go on with a digit. -/
def digitFault : List UInt8 → Fault
  | [] => .endsEarly
  | b :: more => .badByte b more "in numeric literal"

/-- The length of the sign at the front, if one of those is there. -/
def signLength (signs bs : List UInt8) : Nat :=
  match bs with
  | b :: _ => if signs.contains b then 1 else 0
  | [] => 0

/-- The length of the fraction at the front, if there is one. -/
def fractionLength (bs : List UInt8) : Except Fault Nat :=
  match bs with
  | 0x2E :: rest =>
    let ds := rest.takeWhile Text.isDigitByte
    if ds.isEmpty then .error (digitFault rest) else .ok (ds.length + 1)
  | _ => .ok 0

/-- The length of the exponent at the front, if there is one. -/
def exponentLength (bs : List UInt8) : Except Fault Nat :=
  match bs with
  | e :: rest =>
    if e = 0x65 || e = 0x45 then
      let sign := signLength [0x2B, 0x2D] rest
      let ds := (rest.drop sign).takeWhile Text.isDigitByte
      if ds.isEmpty then .error (digitFault (rest.drop sign)) else .ok (1 + sign + ds.length)
    else .ok 0
  | [] => .ok 0

/-- The length of what follows the whole part of a number. -/
def numberTail (bs : List UInt8) : Except Fault Nat := do
  let fraction ← fractionLength bs
  let exponent ← exponentLength (bs.drop fraction)
  pure (fraction + exponent)

/-- The length of the whole part at the front of a number. -/
def wholeLength (bs : List UInt8) : Except Fault Nat :=
  match bs with
  | 0x30 :: _ => .ok 1
  | bs =>
    let ds := bs.takeWhile Text.isDigitByte
    if ds.isEmpty then .error (digitFault bs) else .ok ds.length

/-- The length of the number at the front. -/
def numberLength (bs : List UInt8) : Except Fault Nat := do
  let sign := signLength [0x2D] bs
  let whole ← wholeLength (bs.drop sign)
  let tail ← numberTail (bs.drop (sign + whole))
  pure (sign + whole + tail)

/-- Reads one of the words `true`, `false` and `null` after its first letter. -/
def readWord (word : String) : List Char → List UInt8 → Except Fault (List UInt8)
  | [], bs => .ok bs
  | _ :: _, [] => .error .endsEarly
  | c :: cs, b :: bs =>
    if b.toNat = c.toNat then readWord word cs bs
    else .error (.badByte b bs ("in literal " ++ word ++ " (expecting '" ++ String.singleton c ++ "')"))

/-! ## Values -/

/-- Reads the value at the front. `fuel` bounds the length of the text, `depth` is the number of
containers around the value, and `number` gives the value of a numeric literal. -/
def readValue (number : List UInt8 → Json) :
    Nat → Nat → List UInt8 → Except Fault (Json × List UInt8)
  | 0, _, _ => .error .endsEarly
  | fuel + 1, depth, bs =>
    let rec items : Nat → List Json → List UInt8 → Except Fault (Json × List UInt8)
      | 0, _, _ => .error .endsEarly
      | n + 1, done, bs => do
        let (v, rest) ← readValue number fuel (depth + 1) bs
        match skipBlanks rest with
        | [] => .error .endsEarly
        | 0x2C :: more => items n (v :: done) more
        | 0x5D :: more => .ok (list (v :: done).reverse, more)
        | b :: more => .error (.badByte b more "after array element")
    let rec members : Nat → List (Text × Json) → List UInt8 → Except Fault (Json × List UInt8)
      | 0, _, _ => .error .endsEarly
      | n + 1, done, bs => do
        match skipBlanks bs with
        | [] => .error .endsEarly
        | 0x22 :: more =>
          let (key, rest) ← readString more 0 []
          match skipBlanks rest with
          | [] => .error .endsEarly
          | 0x3A :: more =>
            let (v, rest) ← readValue number fuel (depth + 1) more
            let done := insert (repaired key.reverse) v done
            match skipBlanks rest with
            | [] => .error .endsEarly
            | 0x2C :: more => members n done more
            | 0x7D :: more => .ok (object done, more)
            | b :: more => .error (.badByte b more "after object key:value pair")
          | b :: more => .error (.badByte b more "after object key")
        | b :: more => .error (.badByte b more "looking for beginning of object key string")
    match skipBlanks bs with
    | [] => .error .endsEarly
    | b :: rest =>
      match Char.ofNat b.toNat with
      | '\x7b' =>
        if depth ≥ maxDepth then .error .tooDeep
        else match skipBlanks rest with
          | 0x7D :: more => .ok (object [], more)
          | _ => members (rest.length + 1) [] rest
      | '[' =>
        if depth ≥ maxDepth then .error .tooDeep
        else match skipBlanks rest with
          | 0x5D :: more => .ok (list [], more)
          | _ => items (rest.length + 1) [] rest
      | '"' => do
        let (s, rest) ← readString rest 0 []
        .ok (text (repaired s.reverse), rest)
      | 't' => do .ok (bool true, ← readWord "true" "rue".toList rest)
      | 'f' => do .ok (bool false, ← readWord "false" "alse".toList rest)
      | 'n' => do .ok (null, ← readWord "null" "ull".toList rest)
      | _ =>
        if b = 0x2D || Text.isDigitByte b then do
          let n ← numberLength (b :: rest)
          .ok (number ((b :: rest).take n), (b :: rest).drop n)
        else .error (.badByte b rest "looking for beginning of value")

/-- A numeric literal as a double. -/
def floatOfLiteral (bs : List UInt8) : Float :=
  let negative := bs.head? = some 0x2D
  let x := (Decimal.ofLiteral ((if negative then bs.drop 1 else bs).map fun b =>
    Char.ofNat b.toNat)).toFloat
  if negative then -x else x

/-- A numeric literal, whole numbers of 64 bits kept exact. -/
def exactNumber (bs : List UInt8) : Json :=
  let negative := bs.head? = some 0x2D
  let ds := if negative then bs.drop 1 else bs
  let n : Nat := ds.foldl (fun n b => n * 10 + (b.toNat - 0x30)) 0
  let bound : Nat := if negative then 2 ^ 63 else 2 ^ 63 - 1
  if ds.all Text.isDigitByte && n ≤ bound then
    int (Int64.ofInt (if negative then -(n : Int) else n))
  else double (floatOfLiteral bs)

/-- A numeric literal as a double. -/
def doubleNumber (bs : List UInt8) : Json := double (floatOfLiteral bs)

/-- Reads the value at the front of a text. -/
def readFirst (number : List UInt8 → Json) (t : Text) : Except Fault (Json × List UInt8) :=
  if (skipBlanks t.bytes).isEmpty then .error .empty
  else readValue number (t.size + 1) 0 t.bytes

/-- Whether more than the end of a container follows a value. -/
def moreFollows (rest : List UInt8) : Bool :=
  match skipBlanks rest with
  | [] => false
  | b :: _ => b ≠ 0x5D && b ≠ 0x7D

/-- The value of a text, whole numbers kept exact; the error is its wording. -/
def parse (t : Text) : Except Text Json :=
  match readFirst exactNumber t with
  | .error f => .error f.message
  | .ok (j, rest) => if moreFollows rest then .error "trailing data" else .ok j

/-- The value of a text with all its numbers as doubles; nothing may follow it. -/
def decodeDoubles (t : Text) : Except Text Json :=
  match readFirst doubleNumber t with
  | .error f => .error f.message
  | .ok (j, rest) =>
    match skipBlanks rest with
    | [] => .ok j
    | b :: more => .error (Fault.badByte b more "after top-level value").message

end ScriptEngine.Json
