import ScriptEngine.Checksum
import ScriptEngine.Store
/-!
# The data of picture files

A picture file is a row of chunks: each has a length, a name, a content and a checksum of name and content. The
data of the picture is the content of one or more chunks that follow each other. It is fetched in portions, and a
chunk is checked before the next one is begun.
-/

namespace ScriptEngine.Picture

/-- Why a file is not that of a picture. -/
inductive Trouble where
  | endsEarly
  | malformed (what : Text)
  | unsupported (what : Text)
  /-- The data can not be decompressed. -/
  | damaged (what : Text)

/-- The wording of a trouble. -/
def Trouble.message : Trouble → Text
  | endsEarly => "unexpected EOF"
  | malformed what => "png: invalid format: " ++ what
  | unsupported what => "png: unsupported feature: " ++ what
  | damaged what => what

/-- The number that bytes spell, the most significant first. -/
def bigNumber (bytes : ByteArray) : Nat := bytes.foldl (fun n b => n * 256 + b.toNat) 0

/-- Some bytes of a file, if it has them. -/
def slice (file : ByteArray) (place count : Nat) : Except Trouble ByteArray :=
  if file.size < place + count then .error .endsEarly else .ok (file.extract place (place + count))

/-- Checks the sum of what stands between two places of a file against the number behind that. -/
def checkSum (file : ByteArray) (start stop : Nat) : Except Trouble Unit := do
  let sum ← slice file stop 4
  if bigNumber sum ≠ (Checksum.cyclic (file.extract start stop)).toNat then
    throw (.malformed "invalid checksum")

/-- The length and the name of the chunk at a place. -/
def chunkHead (file : ByteArray) (place : Nat) : Except Trouble (Nat × ByteArray) := do
  let head ← slice file place 8
  return (bigNumber (head.extract 0 4), head.extract 4 8)

/-- The bytes of a name. -/
def nameOf (name : String) : ByteArray := name.toUTF8

/-- The data of a picture file, as far as it has been taken. -/
structure Supply where
  file : ByteArray
  /-- The next byte. -/
  place : Nat
  /-- The end of the portion that has been fetched. -/
  fetched : Nat
  /-- The number of bytes that the chunk has behind that. -/
  left : Nat
  /-- Where the name of the chunk stands. -/
  start : Nat

namespace Supply

/-- The size of a portion. -/
def portion : Nat := 4096

/-- Passes on to the first chunk that has content left, once the portion has been used up. -/
def nextChunk : Nat → Supply → Except Trouble Supply
  | 0, _ => .error .endsEarly
  | fuel + 1, s =>
    if s.left ≠ 0 then .ok s
    else do
      checkSum s.file s.start s.fetched
      let (length, name) ← chunkHead s.file (s.fetched + 4)
      if name ≠ nameOf "IDAT" then throw (.malformed "not enough pixel data")
      let place := s.fetched + 12
      nextChunk fuel { s with place := place, fetched := place, left := length, start := s.fetched + 8 }

/-- Fetches a portion of a size, once the one before has been used up. -/
def fetch (s : Supply) (size : Nat) : Except Trouble Supply := do
  let s ← s.nextChunk (s.file.size + 1)
  let n := min (min size s.left) (s.file.size - s.place)
  if n = 0 then throw .endsEarly
  return { s with fetched := s.place + n, left := s.left - n }

/-- Takes a byte. -/
def byte (s : Supply) : Except Trouble (UInt8 × Supply) := do
  let s ← if s.place < s.fetched then pure s else s.fetch portion
  return ((s.file[s.place]?).getD 0, { s with place := s.place + 1 })

/-- Takes a number of bytes and adds them to others; if there are too few, those that there are come with the
trouble. A large number of bytes is fetched as a portion of its own. -/
def take : Nat → Nat → ByteArray → Supply → ByteArray × Except Trouble Supply
  | 0, _, out, s => (out, .ok s)
  | _, 0, out, s => (out, .ok s)
  | fuel + 1, n, out, s =>
    match if s.place < s.fetched then .ok s else s.fetch (max n portion) with
    | .error t => (out, .error t)
    | .ok s =>
      let k := min n (s.fetched - s.place)
      take fuel (n - k) (out ++ s.file.extract s.place (s.place + k)) { s with place := s.place + k }

end Supply

end ScriptEngine.Picture
