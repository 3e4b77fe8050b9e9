import ScriptEngine.Text.CodeRange
/-!
# Character sets

A text can be given as bytes in several ways: by code points of one, two or more bytes. Sets of one byte
hold 256 characters; the first 128 are those of ASCII.
-/

namespace ScriptEngine

/-- The order of the bytes of a unit. -/
inductive Endian where
  | big | little
deriving DecidableEq, Repr

/-- A way to give a text as bytes. -/
inductive Charset where
  | utf8
  /-- Units of two bytes. With a mark, the text begins with one that shows the order of the bytes. -/
  | utf16 (endian : Endian) (marked : Bool)
  /-- One byte a character; the table gives the characters from 128 on. -/
  | bytes (upper : Array Char)

namespace Charset

/-- The characters whose code points a table lists. -/
def chars (lines : List String) : List Char :=
  lines.flatMap fun s => (CodeRange.wordsOf s.toList).map fun w => Char.ofNat (CodeRange.hexNumber w)

/-- The characters with the code points from one number up to, but not including, another. -/
def span (first last : Nat) : List Char := (List.range (last - first)).map fun i => Char.ofNat (first + i)

/-- The first 256 code points. -/
def latin1 : Charset := .bytes (span 128 256).toArray

/-- The eight places at which the ninth Latin set differs from the first. -/
def latin9Changes : List (Nat × Char) :=
  [(0xA4, '\u20ac'), (0xA6, '\u0160'), (0xA8, '\u0161'), (0xB4, '\u017d'), (0xB8, '\u017e'),
    (0xBC, '\u0152'), (0xBD, '\u0153'), (0xBE, '\u0178')]

/-- The ninth Latin set. -/
def latin9 : Charset :=
  .bytes ((span 128 256).map fun c => (latin9Changes.lookup c.toNat).getD c).toArray

/-- The first Latin set with further characters in place of control codes. -/
def windows1252 : Charset := .bytes (chars [
    "20ac 81 201a 192 201e 2026 2020 2021 2c6 2030 160 2039 152 8d 17d 8f 90 2018 2019 201c 201d 2022",
    "2013 2014 2dc 2122 161 203a 153 9d 17e 178"] ++ span 160 256).toArray

/-- The set with letters, frames and signs of early personal computers. -/
def cp437 : Charset := .bytes (chars [
    "c7 fc e9 e2 e4 e0 e5 e7 ea eb e8 ef ee ec c4 c5 c9 e6 c6 f4 f6 f2 fb f9 ff d6 dc a2 a3 a5 20a7",
    "192 e1 ed f3 fa f1 d1 aa ba bf 2310 ac bd bc a1 ab bb 2591 2592 2593 2502 2524 2561 2562 2556",
    "2555 2563 2551 2557 255d 255c 255b 2510 2514 2534 252c 251c 2500 253c 255e 255f 255a 2554 2569",
    "2566 2560 2550 256c 2567 2568 2564 2565 2559 2558 2552 2553 256b 256a 2518 250c 2588 2584 258c",
    "2590 2580 3b1 df 393 3c0 3a3 3c3 b5 3c4 3a6 398 3a9 3b4 221e 3c6 3b5 2229 2261 b1 2265 2264 2320",
    "2321 f7 2248 b0 2219 b7 221a 207f b2 25a0 a0"]).toArray

/-- The charsets by name. -/
def table : List (String × Charset) :=
  [("utf-8", .utf8), ("utf8", .utf8), ("utf-16", .utf16 .big true), ("utf-16le", .utf16 .little false),
    ("utf-16be", .utf16 .big false), ("iso-8859-1", latin1), ("latin1", latin1),
    ("iso-8859-15", latin9), ("windows-1252", windows1252), ("cp1252", windows1252), ("cp437", cp437)]

/-- The charset with a lower-case name. -/
def find? (name : Text) : Option Charset := (table.find? fun e => Text.ofString e.1 = name).map (·.2)

/-! ## Encoding -/

/-- The two bytes of a unit. -/
def unitBytes (e : Endian) (n : Nat) : List UInt8 :=
  match e with
  | .big => [(n / 256).toUInt8, n.toUInt8]
  | .little => [n.toUInt8, (n / 256).toUInt8]

/-- The units of a character: one, or two that share its bits. -/
def unitsOf (c : Char) : List Nat :=
  let n := c.toNat
  if n < 0x10000 then [n] else [0xD800 + (n - 0x10000) / 0x400, 0xDC00 + (n - 0x10000) % 0x400]

/-- The byte of a glyph in a set of one byte a character. -/
def byteOf? (upper : Array Char) : Text.Glyph → Option UInt8
  | .stray _ => none
  | .char c =>
    if c.toNat < 0x80 then some c.toNat.toUInt8
    else (upper.findIdx? (· = c)).map fun i => (128 + i).toUInt8

/-- The bytes of a text; none when a character is not in the set. -/
def encode? (s : Charset) (t : Text) : Option (List UInt8) :=
  match s with
  | .utf8 => some (Text.ofChars t.chars).bytes
  | .utf16 e marked =>
    some ((if marked then unitBytes e 0xFEFF else [])
      ++ t.chars.flatMap fun c => (unitsOf c).flatMap (unitBytes e))
  | .bytes upper => t.glyphs.mapM (byteOf? upper)

/-! ## Decoding -/

/-- The replacement of bytes that make no sense. -/
def unknown : Char := '\ufffd'

/-- The number of further bytes that a first byte announces, and the bounds of the second byte. -/
def announced? (b : UInt8) : Option (Nat × UInt8 × UInt8) :=
  if 0xC2 ≤ b && b ≤ 0xDF then some (1, 0x80, 0xBF)
  else if b = 0xE0 then some (2, 0xA0, 0xBF)
  else if b = 0xED then some (2, 0x80, 0x9F)
  else if 0xE1 ≤ b && b ≤ 0xEF then some (2, 0x80, 0xBF)
  else if b = 0xF0 then some (3, 0x90, 0xBF)
  else if b = 0xF4 then some (3, 0x80, 0x8F)
  else if 0xF1 ≤ b && b ≤ 0xF3 then some (3, 0x80, 0xBF)
  else none

/-- The number of bytes behind a first byte that go on with its character. -/
def goesOn : Nat → UInt8 → UInt8 → List UInt8 → Nat
  | n + 1, lo, hi, b :: rest => if lo ≤ b && b ≤ hi then goesOn n 0x80 0xBF rest + 1 else 0
  | _, _, _, _ => 0

/-- The characters of bytes after skipping some; the longest start of a character that is cut off counts
as one piece that makes no sense. -/
def decodeUtf8 : Nat → List UInt8 → List Char
  | _, [] => []
  | k + 1, _ :: rest => decodeUtf8 k rest
  | 0, b :: rest =>
    match Text.readChar? b rest with
    | some (c, n) => c :: decodeUtf8 n rest
    | none =>
      match announced? b with
      | some (n, lo, hi) => unknown :: decodeUtf8 (goesOn n lo hi rest) rest
      | none => unknown :: decodeUtf8 0 rest

/-- The unit of two bytes. -/
def unit (e : Endian) (a b : UInt8) : Nat :=
  match e with
  | .big => a.toNat * 256 + b.toNat
  | .little => b.toNat * 256 + a.toNat

/-- Whether a unit is the second of two. -/
def isSecond (n : Nat) : Bool := 0xDC00 ≤ n && n ≤ 0xDFFF

/-- The character of two units, of which the second is one. -/
def pair (n m : Nat) : Char :=
  if n < 0xDC00 then Char.ofNat ((n - 0xD800) * 0x400 + (m - 0xDC00) + 0x10000) else unknown

/-- The characters of units of two bytes. -/
def decodeUtf16 (e : Endian) : List UInt8 → List Char
  | a :: b :: c :: d :: rest =>
    let n := unit e a b
    let m := unit e c d
    if 0xD800 ≤ n && n ≤ 0xDFFF then
      if isSecond m then pair n m :: decodeUtf16 e rest
      else unknown :: decodeUtf16 e (c :: d :: rest)
    else Char.ofNat n :: decodeUtf16 e (c :: d :: rest)
  | [a, b, c] =>
    let n := unit e a b
    (if 0xD800 ≤ n && n ≤ 0xDFFF then unknown else Char.ofNat n) :: decodeUtf16 e [c]
  | [a, b] =>
    let n := unit e a b
    [if 0xD800 ≤ n && n ≤ 0xDFFF then unknown else Char.ofNat n]
  | [_] => [unknown]
  | [] => []

/-- The order of bytes that a mark shows, and the bytes behind it. -/
def readMark (e : Endian) : List UInt8 → Endian × List UInt8
  | 0xFE :: 0xFF :: rest => (.big, rest)
  | 0xFF :: 0xFE :: rest => (.little, rest)
  | bs => (e, bs)

/-- The text of bytes. -/
def decode (s : Charset) (bs : List UInt8) : Text :=
  Text.ofChars <|
    match s with
    | .utf8 => decodeUtf8 0 bs
    | .utf16 e marked =>
      let (e, bs) := if marked then readMark e bs else (e, bs)
      decodeUtf16 e bs
    | .bytes upper =>
      bs.map fun b => if b < 0x80 then Char.ofNat b.toNat else (upper[b.toNat - 128]?).getD unknown

end Charset

end ScriptEngine
