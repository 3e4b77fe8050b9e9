import ScriptEngine.Text.Category
import ScriptEngine.Text.Letter
/-!
# Case of texts

The case mappings of Unicode 15.0 for whole texts. Some characters become several, as `ß` becomes `SS`, and
a capital sigma becomes another letter at the end of a word than inside of it. Stray bytes stay as they are.

A table entry `more:code,code` gives the characters that one character becomes, which is so many behind the one before it.
-/

namespace ScriptEngine

namespace Text

/-- The characters that one character becomes. -/
structure CaseSpread where
  code : Nat
  chars : List Char

namespace CaseSpread

/-- The pieces of a word between commas. -/
def pieces (w : List Char) : List (List Char) :=
  CodeRange.wordsOf (w.map fun c => if c = ',' then ' ' else c)

/-- The entry that one word of a table spells behind a code point. -/
def ofWord (last : Nat) (w : List Char) : CaseSpread :=
  ⟨last + CodeRange.hexNumber (w.takeWhile (· ≠ ':')),
    (pieces ((w.dropWhile (· ≠ ':')).drop 1)).map fun p => Char.ofNat (CodeRange.hexNumber p)⟩

/-- The entries that words spell one behind the other. -/
def ofWords (last : Nat) : List (List Char) → List CaseSpread
  | [] => []
  | w :: ws => ofWord last w :: ofWords (ofWord last w).code ws

/-- The entries of a table, given line by line. -/
def table (lines : List String) : List CaseSpread := ofWords 0 (lines.flatMap fun s => CodeRange.wordsOf s.toList)

/-- The characters that a table gives for one. -/
def find? (t : List CaseSpread) (c : Char) : Option (List Char) :=
  (t.find? fun s => s.code = c.toNat).map (·.chars)

end CaseSpread

/-- The characters that become several in upper case. -/
def upperSpreads : List CaseSpread := CaseSpread.table [
    "df:53,53 6a:2bc,4e a7:4a,30c 1a0:399,308,301 20:3a5,308,301 1d7:535,552 190f:48,331 1:54,308 1:57,30a 1:59,30a 1:41,2be b6:3a5,313",
    "2:3a5,313,300 2:3a5,313,301 2:3a5,313,342 2a:1f08,399 1:1f09,399 1:1f0a,399 1:1f0b,399 1:1f0c,399 1:1f0d,399 1:1f0e,399 1:1f0f,399",
    "1:1f08,399 1:1f09,399 1:1f0a,399 1:1f0b,399 1:1f0c,399 1:1f0d,399 1:1f0e,399 1:1f0f,399 1:1f28,399 1:1f29,399 1:1f2a,399 1:1f2b,399",
    "1:1f2c,399 1:1f2d,399 1:1f2e,399 1:1f2f,399 1:1f28,399 1:1f29,399 1:1f2a,399 1:1f2b,399 1:1f2c,399 1:1f2d,399 1:1f2e,399 1:1f2f,399",
    "1:1f68,399 1:1f69,399 1:1f6a,399 1:1f6b,399 1:1f6c,399 1:1f6d,399 1:1f6e,399 1:1f6f,399 1:1f68,399 1:1f69,399 1:1f6a,399 1:1f6b,399",
    "1:1f6c,399 1:1f6d,399 1:1f6e,399 1:1f6f,399 3:1fba,399 1:391,399 1:386,399 2:391,342 1:391,342,399 5:391,399 6:1fca,399 1:397,399",
    "1:389,399 2:397,342 1:397,342,399 5:397,399 6:399,308,300 1:399,308,301 3:399,342 1:399,308,342 b:3a5,308,300 1:3a5,308,301 1:3a1,313",
    "2:3a5,342 1:3a5,308,342 b:1ffa,399 1:3a9,399 1:38f,399 2:3a9,342 1:3a9,342,399 5:3a9,399 db04:46,46 1:46,49 1:46,4c 1:46,46,49",
    "1:46,46,4c 1:53,54 1:53,54 d:544,546 1:544,535 1:544,53b 1:54e,546 1:544,53d"]

/-- The characters that become several when case is folded away. -/
def foldSpreads : List CaseSpread := CaseSpread.table ["130:69,307 1d6e:73,73"] ++ upperSpreads

/-- The characters of some categories and some more, but for those that came later. -/
def ofCategories (c : Char) (names : List String) (more later : Array CodeRange) : Bool :=
  CodeRange.anyContains more c.toNat
    || (Category.tables.any fun entry => names.contains entry.1 && CodeRange.anyContains entry.2 c.toNat)
      && !CodeRange.anyContains later c.toNat

/-- The characters with a case that are no letters, or letters of another category. -/
def otherCased : Array CodeRange := CodeRange.table [
    "aa 10 1db 1b+8 8+1 1f+4 61 35 d82 c30+3e e 23+24 2b2 e 11+c c4+1f 337+33 793+1 7a1f+1 d3 82+2 4+1 363+3 a 5c17 3+2 2+29 2+8 d876+3d",
    "10c3+19 7+19 7+19"]

/-- The letters with a case that came later. -/
def laterCased : Array CodeRange := CodeRange.table ["1c89+1 8b41+4 3 2 6+2 6574+15 b+15 611b+18 3+18"]

/-- The characters that stand in the middle of a word though they are no signs of its letters. -/
def otherIgnorable : Array CodeRange := CodeRange.table ["27 7 c 7d 2d0 1d8 95 1a24+1 b 3 ddec 3f 3 b2 7 c 1804"]

/-- The characters that are passed over in a word and came later. -/
def laterIgnorable : Array CodeRange := CodeRange.table [
    "897 1238+e 3+b 8d06 655d 1b+4 2 156 35+2 4bf+5 e 2*2 f+1 77e 2+2 2 273 181 41c4+b 4+2 c11+2 29+1 286+1 75fb+1 f4 3 8+1 6 a"]

/-- Whether a character has a case. -/
def isCased (c : Char) : Bool := ofCategories c ["Lu", "Ll", "Lt"] otherCased laterCased

/-- Whether a character is passed over when the end of a word is looked for. -/
def isIgnorable (c : Char) : Bool := ofCategories c ["Mn", "Me", "Cf", "Lm", "Sk"] otherIgnorable laterIgnorable

/-- The bytes that a rule gives for a glyph; a stray byte stays as it is. -/
def Glyph.mapped (rule : Char → List Char) : Glyph → List UInt8
  | char c => (rule c).flatMap encodeChar
  | stray b => [b]

/-- A character in upper case. -/
def upperSpread (c : Char) : List Char :=
  (CaseSpread.find? upperSpreads c).getD [CaseShift.map upperShifts c]

/-- A text in upper case. -/
def toUpper (t : Text) : Text := ⟨t.glyphs.flatMap (Glyph.mapped upperSpread)⟩

/-- A character in lower case, by itself. -/
def lowerSpread (c : Char) : List Char :=
  if c = '\u0130' then ['i', '\u0307'] else [CaseShift.map lowerShifts c]

/-- The number of ignorable characters behind a sigma that are looked past. -/
def maxIgnorable : Nat := 30

/-- Whether a word goes on behind a sigma: a character with case comes before one that is neither cased
nor ignorable. -/
def wordGoesOn : Nat → List Glyph → Bool
  | 0, _ => false
  | _, [] => false
  | _, .stray _ :: _ => false
  | n + 1, .char c :: rest => if isIgnorable c then wordGoesOn n rest else isCased c

/-- The bytes of glyphs in lower case; `inWord` tells whether the word before has begun. -/
def lowerFrom : Bool → List Glyph → List UInt8
  | _, [] => []
  | _, .stray b :: rest => b :: lowerFrom false rest
  | inWord, .char c :: rest =>
    if inWord then
      if !isCased c && !isIgnorable c then encodeChar c ++ lowerFrom false rest
      else if c = '\u03a3' then
        encodeChar (if wordGoesOn (maxIgnorable + 1) rest then '\u03c3' else '\u03c2')
          ++ lowerFrom true rest
      else (lowerSpread c).flatMap encodeChar ++ lowerFrom true rest
    else if isCased c then (lowerSpread c).flatMap encodeChar ++ lowerFrom true rest
    else encodeChar c ++ lowerFrom false rest

/-- A text in lower case. -/
def toLower (t : Text) : Text := ⟨lowerFrom false t.glyphs⟩

/-- A character with its case folded away. A Cherokee letter becomes its counterpart in the other case, whichever
case it has. -/
def foldSpread (c : Char) : List Char :=
  if CodeRange.anyContains cherokeeRanges c.toNat then
    let small := CaseShift.map lowerShifts c
    [if small = c then CaseShift.map upperShifts c else small]
  else
    ((CaseSpread.find? foldSpreads c).getD [c]).map (foldedBy (CaseShift.map upperShifts) (CaseShift.map lowerShifts))

/-- Whether two texts are equal once case is folded away. -/
def sameFolded (a b : Text) : Bool :=
  a.glyphs.flatMap (Glyph.mapped foldSpread) == b.glyphs.flatMap (Glyph.mapped foldSpread)

end Text

end ScriptEngine
