import ScriptEngine.Picture.Inflate
/-!
# Picture files

A picture file begins with a fixed mark. Its chunks give the size of the picture and the form of its points, the
colors of a palette, and the compressed data; a last chunk ends the file. Of a picture its width and height are
kept only, but all of the file has to make sense.
-/

namespace ScriptEngine.Picture

/-- The mark at the start of a picture file. -/
def mark : ByteArray := ⟨#[0x89, 0x50, 0x4E, 0x47, 0x0D, 0x0A, 0x1A, 0x0A]⟩

/-! ## Forms -/

/-- What the points of a picture are made of. -/
inductive Points where
  | gray | color | palette | grayAlpha | colorAlpha
deriving DecidableEq

/-- How the points of a picture are written: what they are made of, the bits of each part, and whether the rows come
in several passes. -/
structure Form where
  points : Points
  depth : Nat
  isInterlaced : Bool

namespace Form

/-- The points with a number. -/
def points? (n : Nat) : Option Points :=
  match n with
  | 0 => some .gray
  | 2 => some .color
  | 3 => some .palette
  | 4 => some .grayAlpha
  | 6 => some .colorAlpha
  | _ => none

/-- Whether points may have parts of some bits. -/
def allows (points : Points) (depth : Nat) : Bool :=
  match points with
  | .gray => [1, 2, 4, 8, 16].contains depth
  | .palette => [1, 2, 4, 8].contains depth
  | _ => [8, 16].contains depth

/-- The number of parts of a point. -/
def parts : Points → Nat
  | .gray | .palette => 1
  | .grayAlpha => 2
  | .color => 3
  | .colorAlpha => 4

/-- The bytes of a row of points, with the one that tells how it is filtered. -/
def rowSize (f : Form) (width : Nat) : Nat := 1 + (f.depth * parts f.points * width + 7) / 8

/-- The passes of a picture in several: the steps between points and rows, and where the first ones are. -/
def interlacing : List (Nat × Nat × Nat × Nat) :=
  [(8, 8, 0, 0), (8, 8, 4, 0), (4, 8, 0, 4), (4, 4, 2, 0), (2, 4, 0, 2), (2, 2, 1, 0), (1, 2, 0, 1)]

/-- The passes of a picture, each the size of its rows and their number. -/
def passes (f : Form) (width height : Nat) : List (Nat × Nat) :=
  if f.isInterlaced then
    interlacing.filterMap fun (dx, dy, x, y) =>
      let w := (width + dx - 1 - x) / dx
      let h := (height + dy - 1 - y) / dy
      if w = 0 || h = 0 then none else some (f.rowSize w, h)
  else [(f.rowSize width, height)]

end Form

/-! ## Data -/

/-- The data that was decompressed, why it ended if not at its end, and what was left of the supply. -/
structure Data where
  bytes : ByteArray
  trouble : Option Trouble
  supply : Supply

/-- Takes the number behind compressed data and checks it. -/
def Data.check (d : Data) : Except Trouble Supply := do
  let (sum, result) := d.supply.take 5 4 ByteArray.empty
  let supply ← result
  if bigNumber sum ≠ Checksum.adler d.bytes then throw (.damaged "zlib: invalid checksum")
  return supply

/-- Decompresses data until it is more than a number of bytes. -/
def decompress (supply : Supply) (size : Nat) : Except Trouble Data := do
  let (head, result) := supply.take 3 2 ByteArray.empty
  let supply ← result
  let n := bigNumber head
  let isSound := n / 256 % 16 = 8 && n / 4096 ≤ 7 && n % 31 = 0
  if !isSound then throw (.damaged "zlib: invalid header")
  let supply ← if n / 32 % 2 = 0 then pure supply else do
    let (sum, result) := supply.take 5 4 ByteArray.empty
    let supply ← result
    if bigNumber sum ≠ 1 then throw (.damaged "zlib: invalid dictionary")
    pure supply
  let start : Inflate := { supply := supply }
  let (result, s) := (Inflate.blocks (size + 2 * Inflate.window) (8 * supply.file.size + 8)).run.run start
  return ⟨s.data, (match result with
    | .ok _ => none
    | .error t => some t), s.supply⟩

/-- Passes over the rows of a pass. Each begins with one of five filters. -/
def rows (d : Data) (size : Nat) : Nat → Nat → Except Trouble Nat
  | 0, place => .ok place
  | n + 1, place =>
    if place + size ≤ d.bytes.size then
      if ((d.bytes[place]?).getD 0) ≤ 4 then rows d size n (place + size)
      else .error (.malformed "bad filter type")
    else
      let why := match d.trouble with
        | some t => some t
        | none => match d.check with
          | .ok _ => none
          | .error t => some t
      match why with
      | none | some .endsEarly => .error (.malformed "not enough pixel data")
      | some t => .error t

/-- Reads the data of a picture from the chunks at a place, and gives the place behind them. -/
def readData (file : ByteArray) (f : Form) (width height start length : Nat) : Except Trouble Nat := do
  let passes := f.passes width height
  let size := passes.foldl (fun n (row, count) => n + row * count) 0
  let d ← decompress ⟨file, start + 4, start + 4, length, start⟩ size
  let place ← passes.foldlM (fun place (row, count) => rows d row count place) 0
  let tooMuch : Trouble := .malformed "too much pixel data"
  -- The trouble at the end comes with the last piece of data.
  let isAtEnd := d.bytes.size = place || (d.bytes.size = place + 1 && d.bytes.size % Inflate.window ≠ 0)
  let supply ← match isAtEnd, d.trouble with
    | false, _ => throw tooMuch
    | true, some t => throw (.malformed t.message)
    | true, none =>
      match d.check with
      | .error t => throw (.malformed t.message)
      | .ok supply => pure supply
  if d.bytes.size ≠ place || supply.left ≠ 0 then throw tooMuch
  checkSum file supply.start supply.fetched
  return supply.fetched + 4

/-! ## Chunks -/

/-- How far the chunks of a file have come. -/
inductive Stage where
  | start
  | header (width height : Nat) (f : Form)
  | palette (width height : Nat) (f : Form)
  | transparency (width height : Nat) (f : Form)
  | data (width height : Nat)

/-- Reads the chunk that gives the size and the form, and gives the place behind it. -/
def readHeader (file : ByteArray) (start length : Nat) : Except Trouble (Stage × Nat) := do
  if length ≠ 13 then throw (.malformed "bad IHDR length")
  let content ← slice file (start + 4) 13
  let part (i : Nat) : Nat := ((content[i]?).getD 0).toNat
  if part 10 ≠ 0 then throw (.unsupported "compression method")
  if part 11 ≠ 0 then throw (.unsupported "filter method")
  if part 12 > 1 then throw (.malformed "invalid interlace method")
  let width := bigNumber (content.extract 0 4)
  let height := bigNumber (content.extract 4 8)
  let isSide (n : Nat) : Bool := 0 < n && n < 2 ^ 31
  if !(isSide width && isSide height) then throw (.malformed "non-positive dimension")
  if width * height ≥ 2 ^ 60 then throw (.unsupported "dimension overflow")
  match (Form.points? (part 9)).filter (Form.allows · (part 8)) with
  | none =>
    throw (.unsupported ("bit depth " ++ toString (part 8) ++ ", color type " ++ toString (part 9)))
  | some points =>
    checkSum file start (start + 17)
    return (.header width height ⟨points, part 8, part 12 = 1⟩, start + 21)

/-- Reads the chunk with the colors of a palette, and gives the place behind it. -/
def readPalette (file : ByteArray) (f : Form) (start length : Nat) : Except Trouble Nat := do
  let count := length / 3
  if length % 3 ≠ 0 || count = 0 || count > 256 || count > Nat.pow 2 f.depth then throw (.malformed "bad PLTE length")
  let _ ← slice file (start + 4) length
  if f.points = .gray || f.points = .grayAlpha then throw (.malformed "PLTE, color type mismatch")
  checkSum file start (start + 4 + length)
  return start + 8 + length

/-- Reads the chunk that tells what is transparent, and gives the place behind it. -/
def readTransparency (file : ByteArray) (f : Form) (start length : Nat) : Except Trouble Nat := do
  let fits ← match f.points with
    | .gray => pure (length = 2 : Bool)
    | .color => pure (length = 6 : Bool)
    | .palette => pure (length ≤ 256 : Bool)
    | _ => throw (.malformed "tRNS, color type mismatch")
  if !fits then throw (.malformed "bad tRNS length")
  let _ ← slice file (start + 4) length
  checkSum file start (start + 4 + length)
  return start + 8 + length

/-- Passes over a chunk that means nothing here, and gives the place behind it. -/
def skipChunk (file : ByteArray) (start length : Nat) : Except Trouble Nat := do
  if length > 0x7FFFFFFF then throw (.malformed ("Bad chunk length: " ++ toString length))
  let _ ← slice file (start + 4) length
  checkSum file start (start + 4 + length)
  return start + 8 + length

/-- Reads chunks up to the last one. -/
def chunks (file : ByteArray) : Nat → Stage → Nat → Except Trouble Picture
  | 0, _, _ => .error .endsEarly
  | fuel + 1, stage, place => do
    let (length, name) ← chunkHead file place
    let start := place + 4
    let outOfOrder : Trouble := .malformed "chunk out of order"
    if name = nameOf "IHDR" then
      match stage with
      | .start =>
        let (stage, place) ← readHeader file start length
        chunks file fuel stage place
      | _ => throw outOfOrder
    else if name = nameOf "PLTE" then
      match stage with
      | .header w h f => chunks file fuel (.palette w h f) (← readPalette file f start length)
      | _ => throw outOfOrder
    else if name = nameOf "tRNS" then
      let form? := match stage with
        | .header w h f => if f.points = .palette then none else some (w, h, f)
        | .palette w h f => if f.points = .palette || f.points = .color then some (w, h, f) else none
        | _ => none
      match form? with
      | some (w, h, f) => chunks file fuel (.transparency w h f) (← readTransparency file f start length)
      | none => throw outOfOrder
    else if name = nameOf "IDAT" then
      match stage with
      | .start => throw outOfOrder
      | .data .. => chunks file fuel stage (← skipChunk file start length)
      | .header w h f =>
        if f.points = .palette then throw outOfOrder
        chunks file fuel (.data w h) (← readData file f w h start length)
      | .palette w h f | .transparency w h f =>
        chunks file fuel (.data w h) (← readData file f w h start length)
    else if name = nameOf "IEND" then
      match stage with
      | .data w h =>
        if length ≠ 0 then throw (.malformed "bad IEND length")
        checkSum file start (start + 4)
        return ⟨w, h, ""⟩
      | _ => throw outOfOrder
    else chunks file fuel stage (← skipChunk file start length)

/-- The picture of a file. -/
def load (t : Text) : Except Trouble Picture := do
  let file : ByteArray := ⟨t.bytes.toArray⟩
  let front ← slice file 0 8
  if front.data ≠ mark.data then throw (.malformed "not a PNG file")
  chunks file (file.size + 1) .start 8

/-! ## Writing -/

/-- A number below `2 ^ 32` as four bytes, the most significant first. -/
def fourBytes (n : Nat) : ByteArray :=
  ⟨#[(n / 16777216).toUInt8, (n / 65536).toUInt8, (n / 256).toUInt8, n.toUInt8]⟩

/-- A chunk with a name and a content. -/
def chunk (name : String) (content : ByteArray) : ByteArray :=
  let named := nameOf name ++ content
  fourBytes content.size ++ named ++ fourBytes (Checksum.cyclic named).toNat

/-- The bits of a number as codes have them, the highest first. -/
def codeBits : Nat → Nat → List Bool
  | 0, _ => []
  | width + 1, n => (n / Nat.pow 2 width % 2 = 1) :: codeBits width n

/-- Bits as bytes, the lowest bit first. -/
def packBits : Nat → List Bool → ByteArray → ByteArray
  | 0, _, out => out
  | _, [], out => out
  | fuel + 1, bits, out =>
    let n := (bits.take 8).foldr (fun b n => 2 * n + (if b then 1 else 0)) 0
    packBits fuel (bits.drop 8) (out.push (UInt8.ofNat n))

/-- A number of zeros, compressed: one of them, as many repetitions of it as there is room for, and the rest. -/
def zeros (count : Nat) : ByteArray :=
  let zero := codeBits 8 0x30
  let runs := (count - 1) / 258
  let rest := (count - 1) % 258
  let bits := [true, true, false] ++ zero
    ++ (List.replicate runs (codeBits 8 0xC5 ++ codeBits 5 0)).flatten
    ++ (List.replicate rest zero).flatten ++ codeBits 7 0
  let sum := fourBytes (count % 65521 * 65536 + 1)
  ⟨#[0x78, 0x9C]⟩ ++ packBits (bits.length + 1) bits ByteArray.empty ++ sum

/-- The file of a picture. It shows points of one bit, all of them dark. -/
def save (p : Picture) : Text :=
  let form : Form := ⟨.gray, 1, false⟩
  let header := fourBytes p.width ++ fourBytes p.height ++ ⟨#[1, 0, 0, 0, 0]⟩
  let file := mark ++ chunk "IHDR" header ++ chunk "IDAT" (zeros (form.rowSize p.width * p.height))
    ++ chunk "IEND" ByteArray.empty
  ⟨file.toList⟩

end ScriptEngine.Picture
