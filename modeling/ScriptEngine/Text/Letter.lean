import ScriptEngine.Text.CodeRange
/-!
# Letters and case

The one-to-one case mappings of Unicode 17.0 and its simple case folding, which identifies the letters
that differ only in case. The mappings that came with versions after 15.0 have tables of their own, because
the mappings of whole texts keep to that version.

A table entry `first+more/step:delta` moves the code points from `first` to so many more, every `step`-th of them, by `delta`; `first`
is how far it begins behind the end of the entry before it.
-/

namespace ScriptEngine

namespace Text

/-- A stretch of code points that a case mapping moves by the same distance. -/
structure CaseShift where
  range : CodeRange
  step : Nat
  delta : Int
deriving Inhabited

namespace CaseShift

/-- The shift that one word of a table spells behind a code point. -/
def ofWord (last : Nat) (w : List Char) : CaseShift :=
  let head := w.takeWhile (· ≠ ':')
  let tail := (w.dropWhile (· ≠ ':')).drop 1
  let range := CodeRange.ofWord last (head.takeWhile (· ≠ '/'))
  let step := if head.contains '/' then 2 else 1
  ⟨range, step, if tail.head? = some '-' then -CodeRange.hexNumber (tail.drop 1) else CodeRange.hexNumber tail⟩

/-- The shifts that words spell one behind the other. -/
def ofWords (last : Nat) : List (List Char) → List CaseShift
  | [] => []
  | w :: ws => ofWord last w :: ofWords (ofWord last w).range.last ws

/-- The shifts of a table, given line by line. -/
def table (lines : List String) : Array CaseShift := (ofWords 0 (lines.flatMap fun s => CodeRange.wordsOf s.toList)).toArray

/-- Where a shift moves a code point, if it does. -/
def shifted? (s : CaseShift) (n : Nat) : Option Nat :=
  if s.range.contains n && (n - s.range.first) % s.step = 0 then some (n + s.delta).toNat else none

/-- The first shift of a table that may move `n`, found by halving. -/
def search (t : Array CaseShift) (n : Nat) : Nat → Nat → Nat → Option Nat
  | 0, _, _ => none
  | fuel + 1, lo, hi =>
    if lo < hi then
      let mid := (lo + hi) / 2
      match t[mid]? with
      | none => none
      | some s =>
        if n < s.range.first then search t n fuel lo mid
        else if s.range.last < n then search t n fuel (mid + 1) hi
        else s.shifted? n
    else none

/-- The character a table maps `c` to. -/
def map (t : Array CaseShift) (c : Char) : Char :=
  match search t c.toNat (t.size + 1) 0 t.size with
  | some n => Char.ofNat n
  | none => c

end CaseShift

/-- The letters with another lower-case form. -/
def lowerShifts : Array CaseShift := CaseShift.table [
    "41+19:20 66+16:20 2+6:20 22+2e/2:1 2:-c7 2+4/2:1 3+e/2:1 3+2c/2:1 2:-79 1+4/2:1 4:d2 1+2/2:1 2:ce 1:1 2+1:cd 1:1 3:4f 1:ca 1:cb 1:1 2:cd",
    "1:cf 2:d3 1:d1 1:1 4:d3 1:d5 2:d6 1+4/2:1 2:da 1:1 2:da 3:1 2:da 1:1 2+1:d9 1+2/2:1 2:db 1:1 4:1 8:2 1:1 2:2 1:1 2:2 1+10/2:1 3+10/2:1",
    "3:2 1+2/2:1 2:-61 1:-38 1+26/2:1 2:-82 2+10/2:1 8:2a2b 1:1 2:-a3 1:2a28 3:1 2:-c3 1:45 1:47 1+8/2:1 122+2/2:1 4:1 9:74 7:26 2+2:25 2:40",
    "2+1:3f 2+10:20 2+8:20 24:8 9+16/2:1 6:-3c 3:1 2:-7 1:1 3+2:-82 1+f:50 1+1f:20 31+20/2:1 a+34/2:1 2:f 1+c/2:1 3+5e/2:1 3+25:30",
    "b4a+25:1c60 2:1c60 6:1c60 2d3+4f:97d0 1+5:8 89b+2a:-bc0 3+2:-bc0 141+94/2:1 a:-1dbf 2+5e/2:1 a+7:-8 9+5:-8 b+7:-8 9+7:-8 9+5:-8 c+6/2:-8",
    "9+7:-8 19+7:-8 9+7:-8 9+7:-8 9+1:-8 1+1:-4a 1:-9 c+3:-56 1:-9 c+1:-8 1+1:-64 d+1:-8 1+1:-70 1:-7 c+1:-80 1+1:-7e 1:-9 12a:-1d5d 4:-20bf",
    "1:-2046 7:1c 2e+f:10 14:1 333+19:1a 731+2f:30 31:1 2:-29f7 1:-ee6 1:-29e7 3+4/2:1 2:-2a1c 1:-29fd 1:-2a1f 1:-2a1e 2:1 3:1 9+1:-2a3f",
    "1+62/2:1 9+2/2:1 5:1 794e+2c/2:1 14+1a/2:1 88+c/2:1 4+3c/2:1 b+2/2:1 2:-8a04 1+8/2:1 5:1 2:-a528 3+2/2:1 4+12/2:1 2:-a544 1:-a54f",
    "1:-a54b 1:-a541 1:-a544 2:-a512 1:-a52a 1:-a515 1:3a0 1+e/2:1 2:-30 1:-a543 1:-8a38 1+2/2:1 7:1 6+2/2:1 1d:1 572c+19:20 4c6+27:28",
    "89+23:28 9d+a:27 2+e:27 2+6:27 2+1:27 6eb+32:40 bee+1f:20 5581+1f:20 7aa1+21:22"]

/-- The letters with another lower-case form that came later. -/
def laterLowerShifts : Array CaseShift := CaseShift.table [
    "1c89:1 8b42:-a567 1:1 2:1 4+2/2:1 6:1 2:-a641 6574+15:20 613b+18:1b"]

/-- The letters with another upper-case form. -/
def upperShifts : Array CaseShift := CaseShift.table [
    "61+19:-20 3b:2e7 2b+16:-20 2+6:-20 1:79 2+2e/2:-1 2:-e8 2+4/2:-1 3+e/2:-1 3+2c/2:-1 3+4/2:-1 1:-12c 1:c3 3+2/2:-1 3:-1 4:-1 6:-1 3:61",
    "4:-1 1:a3 4:82 3+4/2:-1 3:-1 5:-1 3:-1 4+2/2:-1 3:-1 4:-1 2:38 6:-1 1:-2 2:-1 1:-2 2:-1 1:-2 2+e/2:-1 1:-4f 2+10/2:-1 3:-1 1:-2 2:-1",
    "4+26/2:-1 4+10/2:-1 9:-1 3+1:2a3f 2:-1 5+8/2:-1 1:2a1f 1:2a1c 1:2a1e 1:-d2 1:-ce 2+1:-cd 2:-ca 2:-cb 1:a54f 4:-cd 1:a54b 2:-cf 2:a528",
    "1:a544 2:-d1 1:-d3 1:a544 1:29f7 1:a541 3:-d3 2:29fd 1:-d5 3:-d6 8:29e7 3:-da 2:a543 1:-da 4:a52a 1:-da 1:-45 1+1:-d9 1:-47 6:-db b:a515",
    "1:a512 a7:54 2c+2/2:-1 4:-1 4+2:82 2f:-26 1+2:-25 2+10:-20 1:-1f 1+8:-20 1:-40 1+1:-3f 2:-3e 1:-39 4:-2f 1:-36 1:-8 2+16/2:-1 1:-56",
    "1:-50 1:7 1:-74 2:-60 3:-1 3:-1 35+1f:-20 1+f:-50 2+20/2:-1 a+34/2:-1 3+c/2:-1 1:-f 2+5e/2:-1 32+25:-30 b4a+2a:bc0 3+2:bc0 2f9+5:-8",
    "883:-186e 1:-186d 1:-1864 1+1:-1862 1:-1863 1:-185c 1:-1825 1:89c2 f1:8a04 4:ee6 11:8a38 73+94/2:-1 6:-3b 6+5e/2:-1 1+7:8 9+5:8 b+7:8",
    "9+7:8 9+5:8 c+6/2:8 9+7:8 9+1:4a 1+3:56 1+1:64 1+1:80 1+1:70 1+1:7e 3+7:8 9+7:8 9+7:8 9+1:8 2:9 b:-1c25 5:9 d+1:8 f+1:8 4:7 e:9 15b:-1c",
    "22+f:-10 5:-1 34c+19:-1a 747+2f:-30 2:-1 4:-2a2b 1:-2a28 2+4/2:-1 7:-1 3:-1 b+62/2:-1 9+2/2:-1 5:-1 d+25:-1c60 2:-1c60 6:-1c60",
    "7914+2c/2:-1 14+1a/2:-1 88+c/2:-1 4+3c/2:-1 b+2/2:-1 3+8/2:-1 5:-1 5+2/2:-1 1:30 3+12/2:-1 c+e/2:-1 5+2/2:-1 7:-1 6+2/2:-1 1d:-1",
    "35d:-3a0 1d+4f:-97d0 5382+19:-20 4ce+27:-28 89+23:-28 9c+a:-27 2+e:-27 2+6:-27 2+1:-27 704+32:-40 bce+1f:-20 5581+1f:-20 7aa3+21:-22"]

/-- The letters with another upper-case form that came later. -/
def laterUpperShifts : Array CaseShift := CaseShift.table [
    "19b:a641 c9:a567 1a26:-1 8b43:-1 2:-1 4+2/2:-1 6:-1 6595+15:-20 6136+18:-1b"]

/-- The Cherokee letters. Their small letters came later than their capitals. -/
def cherokeeRanges : Array CodeRange := CodeRange.table ["13a0+55 3+5 9773+4f"]

/-- A character with its case folded away by mappings of letters: the small letter of its capital, but the capital itself of a
Cherokee letter. The dot of an `i` is kept. -/
def foldedBy (upper lower : Char → Char) (c : Char) : Char :=
  if c = '\u0130' || c = '\u0131' then c
  else if CodeRange.anyContains cherokeeRanges c.toNat then upper c
  else lower (upper c)

/-- The letters that fold to another letter only later on, though no mapping has them. -/
def laterFoldShifts : Array CaseShift := CaseShift.table [
    "1fd3:-1c43 10:-1c33 db22:1"]

/-- The lower-case form of a character. -/
def lowerChar (c : Char) : Char :=
  if c.toNat < 0x80 then c.toLower else CaseShift.map laterLowerShifts (CaseShift.map lowerShifts c)

/-- The upper-case form of a character. -/
def upperChar (c : Char) : Char :=
  if c.toNat < 0x80 then c.toUpper else CaseShift.map laterUpperShifts (CaseShift.map upperShifts c)

/-- The letter that stands for all letters that differ from `c` only in case. -/
def foldChar (c : Char) : Char :=
  if c.toNat < 0x80 then c.toLower else foldedBy upperChar lowerChar (CaseShift.map laterFoldShifts c)

/-- A text with each character in lower case; a text of ASCII bytes alone keeps its bytes. -/
def lower (t : Text) : Text :=
  if t.bytes.all (· < 0x80) then t.lowerAscii else ofChars (t.chars.map lowerChar)

/-- A text with each character in upper case. -/
def upper (t : Text) : Text :=
  if t.bytes.all (· < 0x80) then t.upperAscii else ofChars (t.chars.map upperChar)

/-- Whether two texts differ at most in the case of their letters. -/
def equalFold (a b : Text) : Bool := a.chars.map foldChar == b.chars.map foldChar

end Text

end ScriptEngine
