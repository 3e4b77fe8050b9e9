import ScriptEngine.Pattern.Search
import ScriptEngine.Text.Category
/-!
# Replacing the pieces that match

Every piece of a text that a pattern matches is replaced by a template, in which a dollar sign and a number or
a name stand for what a group matched.
-/

namespace ScriptEngine

namespace Pattern

open Text (Glyph)

/-! ## Templates -/

/-- A piece of a template. -/
inductive TemplatePiece where
  | plain (bytes : List UInt8)
  | numbered (index : Nat)
  | named (name : Text)
deriving DecidableEq

/-- Whether a glyph may stand in the name of a group. -/
def isNameGlyph : Glyph → Bool
  | .char c => Text.isLetter c || Text.isDigit c || c = '_'
  | .stray _ => false

/-- The group that a name stands for: a number without leading zeros counts the groups. -/
def TemplatePiece.ofName (name : List Glyph) : TemplatePiece :=
  let cs := name.map Glyph.toChar
  let isNumber := cs.all Char.isDigit && !(cs.length > 1 && cs.head? == some '0')
  let value := cs.foldl (fun n c => n * 10 + (c.toNat - 0x30)) 0
  if isNumber && value < 10 ^ 9 then .numbered value else .named (Text.ofChars cs)

/-- The reference behind a dollar sign and what follows it; `none` when there is none. -/
def TemplatePiece.read? (rest : List Glyph) : Option (TemplatePiece × List Glyph) :=
  let isBraced := rest.head? == some (.char (Char.ofNat 0x7B))
  let body := if isBraced then rest.drop 1 else rest
  let name := body.takeWhile isNameGlyph
  let after := body.dropWhile isNameGlyph
  if name.isEmpty then none
  else if isBraced then
    if after.head? == some (.char (Char.ofNat 0x7D)) then some (ofName name, after.drop 1) else none
  else some (ofName name, after)

/-- The pieces of a template, `fuel` bounding their number. -/
def templatePieces : Nat → List Glyph → List TemplatePiece
  | _, [] => []
  | 0, _ => []
  | fuel + 1, .char '$' :: .char '$' :: rest => .plain [0x24] :: templatePieces fuel rest
  | fuel + 1, .char '$' :: rest =>
    match TemplatePiece.read? rest with
    | some (piece, rest) => piece :: templatePieces fuel rest
    | none => .plain [0x24] :: templatePieces fuel rest
  | fuel + 1, g :: rest => .plain g.bytes :: templatePieces fuel rest

/-- The pieces of a template. -/
def template (t : Text) : List TemplatePiece := templatePieces (t.glyphs.length + 1) t.glyphs

/-! ## Replacing -/

/-- The glyphs that a group matched; `none` when it took no part in the match. -/
def groupPiece? (glyphs : Array Glyph) (marks : Marks) (index : Nat) : Option (List UInt8) := do
  let start ← (marks[2 * index]?).join
  let stop ← (marks[2 * index + 1]?).join
  return (glyphs.extract start stop).toList.flatMap Glyph.bytes

/-- The bytes that a piece of a template becomes; a name stands for the first group of that name that took
part in the match. -/
def TemplatePiece.fill (s : Searcher) (glyphs : Array Glyph) (marks : Marks) : TemplatePiece → List UInt8
  | plain bytes => bytes
  | numbered index => (groupPiece? glyphs marks index).getD []
  | named name =>
    (s.names.findSome? fun entry =>
      if entry.1 = name then groupPiece? glyphs marks entry.2 else none).getD []

/-- The bytes of the glyphs between two positions. -/
def bytesBetween (glyphs : Array Glyph) (start stop : Nat) : List UInt8 :=
  (glyphs.extract start stop).toList.flatMap Glyph.bytes

/-- Replaces pieces from the position `next` on, where the text before `done` has been written; `before` is the code
point in front of that position and `rest` are those behind it. An empty piece right behind another match is passed
over. `fuel` bounds the number of matches. -/
def replaceFrom (s : Searcher) (pieces : List TemplatePiece) (glyphs : Array Glyph) :
    Nat → Nat → Nat → Option Nat → List Nat → List UInt8
  | 0, done, _, _, _ => bytesBetween glyphs done glyphs.size
  | fuel + 1, done, next, before, rest =>
    if next > glyphs.size then bytesBetween glyphs done glyphs.size
    else
      match s.search? before next rest with
      | none => bytesBetween glyphs done glyphs.size
      | some marks =>
        let start := ((marks[0]?).join).getD 0
        let stop := ((marks[1]?).join).getD 0
        let filled := if stop > done || start = 0 then
            pieces.flatMap (TemplatePiece.fill s glyphs marks)
          else []
        let following := max (next + 1) stop
        let passed := rest.drop (following - next - 1)
        bytesBetween glyphs done start ++ filled
          ++ replaceFrom s pieces glyphs fuel stop following passed.head? (passed.drop 1)

/-- A text with every piece that matches replaced by what a template makes of it. -/
def Searcher.replaceAll (s : Searcher) (t replacement : Text) : Text :=
  let glyphs := t.glyphs.toArray
  let codes := glyphs.toList.map fun g => g.toChar.toNat
  ⟨replaceFrom s (template replacement) glyphs (glyphs.size + 2) 0 0 none codes⟩

end Pattern

end ScriptEngine
