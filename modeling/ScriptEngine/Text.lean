/-!
# Text

Script text is a string of bytes that usually, but not necessarily, is well-formed UTF-8: a file may
hold any bytes, and reading it gives exactly those.
-/

namespace ScriptEngine

/-- A string of bytes. -/
structure Text where
  bytes : List UInt8
deriving DecidableEq, Hashable, Inhabited

namespace Text

/-! ## Building texts -/

/-- The UTF-8 bytes of one character. -/
def encodeChar (c : Char) : List UInt8 :=
  let n := c.toNat
  if n < 0x80 then [n.toUInt8]
  else if n < 0x800 then [(0xC0 + n / 64).toUInt8, (0x80 + n % 64).toUInt8]
  else if n < 0x10000 then
    [(0xE0 + n / 4096).toUInt8, (0x80 + n / 64 % 64).toUInt8, (0x80 + n % 64).toUInt8]
  else
    [(0xF0 + n / 262144).toUInt8, (0x80 + n / 4096 % 64).toUInt8, (0x80 + n / 64 % 64).toUInt8,
      (0x80 + n % 64).toUInt8]

/-- The text that spells a list of characters. -/
def ofChars (cs : List Char) : Text := ⟨cs.flatMap encodeChar⟩

/-- The text of a string. -/
def ofString (s : String) : Text := ofChars s.toList

instance : Coe String Text := ⟨ofString⟩

/-- The text of a single character. -/
def ofChar (c : Char) : Text := ⟨encodeChar c⟩

/-- The text of a single byte. -/
def ofByte (b : UInt8) : Text := ⟨[b]⟩

instance : Append Text := ⟨fun a b => ⟨a.bytes ++ b.bytes⟩⟩

instance : EmptyCollection Text := ⟨⟨[]⟩⟩

/-- All texts of a list, one after the other. -/
def concat (ts : List Text) : Text := ⟨ts.flatMap bytes⟩

/-- The texts of a list with `sep` between neighbours. -/
def join (sep : Text) : List Text → Text
  | [] => ⟨[]⟩
  | t :: ts => ⟨t.bytes ++ ts.flatMap fun u => sep.bytes ++ u.bytes⟩

/-- A text if a condition holds, and no text otherwise. -/
def onlyIf (b : Bool) (t : Text) : Text := if b then t else ⟨[]⟩

/-- A text `n` times. -/
def replicate (n : Nat) (t : Text) : Text := concat (List.replicate n t)

/-! ## The bytes of characters

The bytes of a character are those of its UTF-8 form, and so are the bytes of the text of a string. -/

theorem toNat_lt_of_char (c : Char) : c.toNat < 0x110000 := by
  obtain low | high := c.valid
  · exact Nat.lt_trans low (by decide)
  · exact high.2

theorem toNat_toUInt8 {n : Nat} (h : n < 256) : n.toUInt8.toNat = n := by
  rw [Nat.toUInt8_eq, UInt8.toNat_ofNat']
  exact Nat.mod_eq_of_lt h

theorem encodeChar_eq (c : Char) : encodeChar c = String.utf8EncodeChar c := by
  have bound := toNat_lt_of_char c
  rw [Char.toNat] at bound
  unfold encodeChar String.utf8EncodeChar
  simp only [Char.toNat, Nat.toUInt8, ← Nat.lt_succ_iff, Nat.succ_eq_add_one, Nat.reduceAdd]
  generalize c.val.toNat = n at bound
  split
  · rfl
  split
  · rw [Nat.mod_eq_of_lt (show n / 64 < 32 by omega), Nat.add_comm 0xC0, Nat.add_comm 0x80]
  split
  · rw [Nat.mod_eq_of_lt (show n / 4096 < 16 by omega), Nat.add_comm 0xE0, Nat.add_comm 0x80, Nat.add_comm 0x80]
  · rw [Nat.mod_eq_of_lt (show n / 262144 < 8 by omega), Nat.add_comm 0xF0, Nat.add_comm 0x80, Nat.add_comm 0x80, Nat.add_comm 0x80]

/-- The text of a string has the bytes that the string is stored as. They are evaluated without its characters. -/
theorem ofString_eq : ofString = fun s => ⟨s.toByteArray.data.toList⟩ := by
  funext s
  have spelled : s.toByteArray = (s.toList.flatMap String.utf8EncodeChar).toByteArray := by
    rw [← List.utf8Encode, ← String.toByteArray_ofList, String.ofList_toList]
  rw [ofString, ofChars, funext encodeChar_eq, spelled, List.data_toByteArray, List.toList_toArray]

/-! ## Reading characters -/

/-- A reading of one place of a text: a character, or a byte that belongs to none. -/
inductive Glyph where
  | char (c : Char)
  | stray (b : UInt8)
deriving DecidableEq, Repr

/-- The character shown for a glyph; a stray byte shows as U+FFFD. -/
def Glyph.toChar : Glyph → Char
  | char c => c
  | stray _ => '\ufffd'

/-- The bytes a glyph was read from. -/
def Glyph.bytes : Glyph → List UInt8
  | char c => encodeChar c
  | stray b => [b]

/-- Whether a byte continues a multi-byte character. -/
def isContinuation (b : UInt8) : Bool := 0x80 ≤ b && b ≤ 0xBF

/-- The character that starts with byte `b` and goes on in `rest`, with the number of bytes taken
from `rest`; `none` when `b` starts no shortest-form UTF-8 sequence of a scalar value. -/
def readChar? (b : UInt8) (rest : List UInt8) : Option (Char × Nat) :=
  if b < 0x80 then some (Char.ofNat b.toNat, 0)
  else match rest with
    | [] => none
    | b1 :: rest1 =>
      if 0xC2 ≤ b && b ≤ 0xDF then
        if isContinuation b1 then
          some (Char.ofNat ((b.toNat - 0xC0) * 64 + (b1.toNat - 0x80)), 1)
        else none
      else match rest1 with
        | [] => none
        | b2 :: rest2 =>
          if 0xE0 ≤ b && b ≤ 0xEF then
            if (if b = 0xE0 then 0xA0 ≤ b1 && b1 ≤ 0xBF
                else if b = 0xED then 0x80 ≤ b1 && b1 ≤ 0x9F else isContinuation b1)
                && isContinuation b2 then
              some (Char.ofNat ((b.toNat - 0xE0) * 4096 + (b1.toNat - 0x80) * 64
                + (b2.toNat - 0x80)), 2)
            else none
          else match rest2 with
            | [] => none
            | b3 :: _ =>
              if 0xF0 ≤ b && b ≤ 0xF4
                  && (if b = 0xF0 then 0x90 ≤ b1 && b1 ≤ 0xBF
                    else if b = 0xF4 then 0x80 ≤ b1 && b1 ≤ 0x8F else isContinuation b1)
                  && isContinuation b2 && isContinuation b3 then
                some (Char.ofNat ((b.toNat - 0xF0) * 262144 + (b1.toNat - 0x80) * 4096
                  + (b2.toNat - 0x80) * 64 + (b3.toNat - 0x80)), 3)
              else none

/-- The glyph at the front of `b :: rest` and the number of bytes it takes from `rest`. -/
def readGlyph (b : UInt8) (rest : List UInt8) : Glyph × Nat :=
  match readChar? b rest with
  | some (c, n) => (.char c, n)
  | none => (.stray b, 0)

/-- The glyphs of a byte list after skipping `k` bytes. -/
def glyphsFrom : List UInt8 → Nat → List Glyph
  | [], _ => []
  | _ :: rest, k + 1 => glyphsFrom rest k
  | b :: rest, 0 =>
    let g := readGlyph b rest
    g.1 :: glyphsFrom rest g.2

/-- A text as characters and stray bytes. -/
def glyphs (t : Text) : List Glyph := glyphsFrom t.bytes 0

/-- A text as characters, each stray byte read as U+FFFD. -/
def chars (t : Text) : List Char := t.glyphs.map Glyph.toChar

/-- The number of characters. -/
def length (t : Text) : Nat := t.glyphs.length

/-- The number of bytes. -/
def size (t : Text) : Nat := t.bytes.length

/-- Whether a text is well-formed UTF-8. -/
def isValid (t : Text) : Bool :=
  t.glyphs.all fun g => match g with
    | .char _ => true
    | .stray _ => false

/-- The string shown for a text; each stray byte shows as U+FFFD. -/
def toString (t : Text) : String := String.ofList t.chars

instance : ToString Text := ⟨toString⟩

instance : Repr Text := ⟨fun t _ => repr t.toString⟩

/-- Whether a text has no bytes. -/
def isEmpty (t : Text) : Bool := t.bytes.isEmpty

/-! ## Order -/

/-- Lexicographic comparison of byte lists. -/
def compareBytes : List UInt8 → List UInt8 → Ordering
  | [], [] => .eq
  | [], _ :: _ => .lt
  | _ :: _, [] => .gt
  | a :: as, b :: bs => if a < b then .lt else if b < a then .gt else compareBytes as bs

instance : Ord Text := ⟨fun a b => compareBytes a.bytes b.bytes⟩

/-- Whether `a` comes before `b` in byte order. -/
def before (a b : Text) : Bool := compareBytes a.bytes b.bytes == .lt

/-! ## Letters of the ASCII alphabet -/

/-- The lower-case form of an ASCII letter byte; other bytes are unchanged. -/
def lowerByte (b : UInt8) : UInt8 := if 0x41 ≤ b && b ≤ 0x5A then b + 32 else b

/-- The upper-case form of an ASCII letter byte; other bytes are unchanged. -/
def upperByte (b : UInt8) : UInt8 := if 0x61 ≤ b && b ≤ 0x7A then b - 32 else b

/-- A text with every ASCII letter in lower case. -/
def lowerAscii (t : Text) : Text := ⟨t.bytes.map lowerByte⟩

/-- A text with every ASCII letter in upper case. -/
def upperAscii (t : Text) : Text := ⟨t.bytes.map upperByte⟩

/-- Whether a byte is an ASCII digit. -/
def isDigitByte (b : UInt8) : Bool := 0x30 ≤ b && b ≤ 0x39

/-- The value of a hexadecimal digit. -/
def hexValue? (b : UInt8) : Option Nat :=
  if 0x30 ≤ b && b ≤ 0x39 then some (b.toNat - 0x30)
  else if 0x61 ≤ b && b ≤ 0x66 then some (b.toNat - 0x61 + 10)
  else if 0x41 ≤ b && b ≤ 0x46 then some (b.toNat - 0x41 + 10)
  else none

/-- The lower-case hexadecimal digit of a number below sixteen. -/
def hexDigit (n : Nat) : Char := if n < 10 then Char.ofNat (0x30 + n) else Char.ofNat (0x61 + n - 10)

/-- A number in hexadecimal with at least `width` digits. -/
def hex (width n : Nat) : String :=
  let ds := Nat.toDigits 16 n
  String.ofList (List.replicate (width - ds.length) '0' ++ ds)

/-! ## Searching -/

/-- Whether `p` is how `t` begins. -/
def startsWith (t p : Text) : Bool := p.bytes.isPrefixOf t.bytes

/-- Whether `p` is how `t` ends. -/
def endsWith (t p : Text) : Bool := p.bytes.isSuffixOf t.bytes

/-- The number of bytes before the first place of `p` in a byte list. -/
def findBytes (p : List UInt8) : List UInt8 → Option Nat
  | [] => if p.isEmpty then some 0 else none
  | b :: rest =>
    if p.isPrefixOf (b :: rest) then some 0 else (findBytes p rest).map (· + 1)

/-- The byte offset of the first place of `p` in `t`. -/
def find? (t p : Text) : Option Nat := findBytes p.bytes t.bytes

/-- The number of bytes before the last place of `p` in a byte list. -/
def findLastBytes (p : List UInt8) : List UInt8 → Option Nat
  | [] => if p.isEmpty then some 0 else none
  | b :: rest =>
    match findLastBytes p rest with
    | some n => some (n + 1)
    | none => if p.isPrefixOf (b :: rest) then some 0 else none

/-- The byte offset of the last place of `p` in `t`. -/
def findLast? (t p : Text) : Option Nat := findLastBytes p.bytes t.bytes

/-- Whether `p` occurs in `t`. -/
def contains (t p : Text) : Bool := (t.find? p).isSome

/-- The first `n` bytes. -/
def take (t : Text) (n : Nat) : Text := ⟨t.bytes.take n⟩

/-- The bytes after the first `n`. -/
def drop (t : Text) (n : Nat) : Text := ⟨t.bytes.drop n⟩

/-- The parts before and after the first place of `p`. -/
def cut? (t p : Text) : Option (Text × Text) :=
  (t.find? p).map fun n => (t.take n, t.drop (n + p.size))

/-- The pieces of a byte list between the places of a non-empty separator; `skip` bytes of the
separator are still to be passed over and `piece` holds the current piece in reverse. -/
def splitBytes (sep : List UInt8) : List UInt8 → Nat → List UInt8 → List Text
  | [], _, piece => [⟨piece.reverse⟩]
  | _ :: rest, k + 1, piece => splitBytes sep rest k piece
  | b :: rest, 0, piece =>
    if sep.isPrefixOf (b :: rest) then
      ⟨piece.reverse⟩ :: splitBytes sep rest (sep.length - 1) []
    else splitBytes sep rest 0 (b :: piece)

/-- The pieces of `t` between the places of `sep`; an empty separator splits into glyphs. -/
def splitOn (t sep : Text) : List Text :=
  if sep.isEmpty then t.glyphs.map fun g => ⟨g.bytes⟩
  else splitBytes sep.bytes t.bytes 0 []

/-- `t` with the first `limit` places of a non-empty `old` replaced by `new`. -/
def replaceBytes (old new : List UInt8) : List UInt8 → Nat → Nat → List UInt8
  | [], _, _ => []
  | _ :: rest, k + 1, limit => replaceBytes old new rest k limit
  | b :: rest, 0, 0 => b :: replaceBytes old new rest 0 0
  | b :: rest, 0, limit + 1 =>
    if old.isPrefixOf (b :: rest) then
      new ++ replaceBytes old new rest (old.length - 1) limit
    else b :: replaceBytes old new rest 0 (limit + 1)

/-- `t` with every place of `old` replaced by `new`; an empty `old` stands before each glyph and at
the end. -/
def replace (t old new : Text) : Text :=
  if old.isEmpty then
    ⟨t.glyphs.flatMap (fun g => new.bytes ++ g.bytes) ++ new.bytes⟩
  else ⟨replaceBytes old.bytes new.bytes t.bytes 0 t.size⟩

/-! ## Trimming -/

/-- Whether a character is white space. -/
def isSpaceChar (c : Char) : Bool :=
  let n := c.toNat
  (0x09 ≤ n && n ≤ 0x0D) || n == 0x20 || n == 0x85 || n == 0xA0 || n == 0x1680
    || (0x2000 ≤ n && n ≤ 0x200A) || n == 0x2028 || n == 0x2029 || n == 0x202F || n == 0x205F
    || n == 0x3000

/-- Whether a glyph is white space. -/
def Glyph.isSpace : Glyph → Bool
  | char c => isSpaceChar c
  | stray _ => false

/-- A list without its longest ends that satisfy `p`. -/
def trimList {α : Type} (p : α → Bool) (xs : List α) : List α :=
  ((xs.dropWhile p).reverse.dropWhile p).reverse

/-- A text without the white space at both ends. -/
def trim (t : Text) : Text := ⟨(trimList Glyph.isSpace t.glyphs).flatMap Glyph.bytes⟩

/-- A text without white space at its end. -/
def trimRight (t : Text) : Text :=
  ⟨((t.glyphs.reverse.dropWhile Glyph.isSpace).reverse).flatMap Glyph.bytes⟩

/-- A text without white space at its start. -/
def trimLeft (t : Text) : Text :=
  ⟨(t.glyphs.dropWhile Glyph.isSpace).flatMap Glyph.bytes⟩

/-- A text without the bytes that satisfy `p` at its ends. -/
def trimBytes (p : UInt8 → Bool) (t : Text) : Text := ⟨trimList p t.bytes⟩

/-- The longest pieces of a text without white space. -/
def words (t : Text) : List Text :=
  let step := fun (acc : List Text × List UInt8) (g : Glyph) =>
    if g.isSpace then (if acc.2.isEmpty then acc else (⟨acc.2⟩ :: acc.1, []))
    else (acc.1, acc.2 ++ g.bytes)
  let r := t.glyphs.foldl step ([], [])
  (if r.2.isEmpty then r.1 else ⟨r.2⟩ :: r.1).reverse

/-- The lines of a text, without their line feeds; a final empty piece is kept. -/
def lines (t : Text) : List Text := t.splitOn (ofByte 10)

end Text

end ScriptEngine
