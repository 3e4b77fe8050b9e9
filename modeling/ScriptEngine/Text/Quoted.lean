import ScriptEngine.Text.Category
/-!
# Quoted text

Messages show text between double quotes and single characters between apostrophes. The quote and
the backslash are escaped by a backslash, printable characters stand for themselves, the usual
control characters have letters, a stray byte is written `\xHH`, and every other character by its
code point. A character is printable when it is a letter, mark, number, punctuation or symbol, or the
blank U+0020.
-/

namespace ScriptEngine.Text

/-- The tables of the printable categories. -/
def printableTables : List (Array CodeRange) := ['l', 'm', 'n', 'p', 's'].flatMap fun family => Category.ofCode [family]

/-- Whether a character is shown as itself in quoted text. -/
def isPrintable (c : Char) : Bool :=
  let n := c.toNat
  if n < 0x7F then 0x20 ≤ n else printableTables.any (CodeRange.anyContains · n)

/-- The letter that names a control character after a backslash. -/
def controlLetter? (c : Char) : Option Char :=
  match c.toNat with
  | 7 => some 'a'
  | 8 => some 'b'
  | 9 => some 't'
  | 10 => some 'n'
  | 11 => some 'v'
  | 12 => some 'f'
  | 13 => some 'r'
  | _ => none

/-- One character inside quotes of the kind `quote`. -/
def quoteChar (quote : Char) (c : Char) : List Char :=
  if c = quote || c = '\\' then ['\\', c]
  else if isPrintable c then [c]
  else match controlLetter? c with
    | some l => ['\\', l]
    | none =>
      let n := c.toNat
      if n < 0x20 || n = 0x7F then '\\' :: 'x' :: (hex 2 n).toList
      else if n < 0x10000 then '\\' :: 'u' :: (hex 4 n).toList
      else '\\' :: 'U' :: (hex 8 n).toList

/-- One glyph inside quotes. -/
def quoteGlyph (quote : Char) : Glyph → List Char
  | .char c => quoteChar quote c
  | .stray b => '\\' :: 'x' :: (hex 2 b.toNat).toList

/-- A text between double quotes. -/
def quoted (t : Text) : Text := ofChars ('"' :: (t.glyphs.flatMap (quoteGlyph '"') ++ ['"']))

/-- A character between apostrophes. -/
def quotedChar (c : Char) : Text := ofChars ('\'' :: (quoteChar '\'' c ++ ['\'']))

end ScriptEngine.Text
