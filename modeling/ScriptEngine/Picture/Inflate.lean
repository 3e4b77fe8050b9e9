import ScriptEngine.Picture.Supply
/-!
# Decompressing the data of pictures

Compressed data is a row of blocks. A block is either stored as it is, or written in codes of different lengths:
one set of codes stands for bytes and for the lengths of repetitions, and one for the distances from which they
are repeated. The codes are fixed, or given at the start of the block by their lengths.
-/

namespace ScriptEngine.Picture

/-! ## Codes -/

/-- A set of codes: how many there are of each length, what they stand for in the order of the codes, and the
number of bits that are looked at first. -/
structure Codes where
  counts : Array Nat
  symbols : Array Nat
  least : Nat

namespace Codes

/-- The number of codes of a length. -/
def count (c : Codes) (length : Nat) : Nat := c.counts.getD length 0

/-- The set of codes with given lengths, a length of zero for what has no code; `none` if the codes do not use up
all rows of bits. A single code of one bit, and no code at all, are allowed. -/
def ofLengths? (lengths : List Nat) : Option Codes :=
  let used := lengths.filter (· ≠ 0)
  let most := used.foldl max 0
  let least := used.foldl min most
  let counts := (Array.range 16).map fun n => if n = 0 then 0 else lengths.count n
  let rows := counts.foldl (fun n k => 2 * n + k) 0
  if most = 0 then some ⟨counts, #[], 0⟩
  else if rows = 2 ^ 15 || used = [1] then
    let symbols := (List.range 16).flatMap fun n =>
      if n = 0 then [] else (List.range lengths.length).filter fun i => lengths.getD i 0 = n
    some ⟨counts, symbols.toArray, least⟩
  else none

/-- What the code at the front of some bits stands for, and its length; the code is no longer than `fuel`. -/
def find? (c : Codes) : Nat → Nat → Nat → Nat → Nat → Nat → Option (Nat × Nat)
  | 0, _, _, _, _, _ => none
  | fuel + 1, length, bits, code, first, index =>
    let code := code + bits % 2
    let count := c.count length
    if code < first + count then some (c.symbols.getD (index + (code - first)) 0, length)
    else find? c fuel (length + 1) (bits / 2) (2 * code) (2 * (first + count)) (index + count)

/-- What the code at the front of some bits stands for, and its length. -/
def lookUp? (c : Codes) (bits : Nat) : Option (Nat × Nat) := c.find? 15 1 bits 0 0 0

/-- The fixed codes for bytes and lengths. -/
def fixed : Codes :=
  (ofLengths? (List.replicate 144 8 ++ List.replicate 112 9 ++ List.replicate 24 7 ++ List.replicate 8 8)).getD
    ⟨#[], #[], 0⟩

end Codes

/-! ## The state of decompressing -/

/-- The state of decompressing: where data comes from, the bits of the bytes taken that have not been used, the
number of bytes taken, and the data so far. -/
structure Inflate where
  supply : Supply
  bits : Nat := 0
  count : Nat := 0
  taken : Nat := 0
  data : ByteArray := ByteArray.empty

/-- Computations that decompress. The data so far stays when they fail. -/
abbrev Inflating := ExceptT Trouble (StateM Inflate)

namespace Inflate

/-- The failure of data that makes no sense. -/
def corrupt {α : Type} : Inflating α := do
  throw (.damaged ("flate: corrupt input before offset " ++ toString (← get).taken))

/-- Takes bytes until there are enough bits. -/
def ensure (n : Nat) : Nat → Inflating Unit
  | 0 => pure ()
  | fuel + 1 => do
    let s ← get
    if s.count < n then
      match s.supply.byte with
      | .error t => throw t
      | .ok (b, supply) =>
        set { s with
          supply := supply, bits := s.bits + b.toNat * Nat.pow 2 s.count, count := s.count + 8, taken := s.taken + 1 }
        ensure n fuel

/-- Uses some of the bits that are there. -/
def drop (n : Nat) : Inflating Unit :=
  modify fun s => { s with bits := s.bits / Nat.pow 2 n, count := s.count - n }

/-- The number that some bits spell, the lowest first. -/
def number (n : Nat) : Inflating Nat := do
  ensure n 4
  let value := (← get).bits % Nat.pow 2 n
  drop n
  return value

/-- What the next code stands for; at least `n` bits are looked at. -/
def symbolFrom (c : Codes) : Nat → Nat → Inflating Nat
  | 0, _ => corrupt
  | fuel + 1, n => do
    ensure n 4
    match c.lookUp? (← get).bits with
    | none => corrupt
    | some (symbol, length) =>
      if length ≤ (← get).count then
        drop length
        return symbol
      else symbolFrom c fuel length

/-- What the next code stands for. -/
def symbol (c : Codes) : Inflating Nat := symbolFrom c 16 c.least

/-! ## Blocks -/

/-- The size of the piece of data that is handed on at once. -/
def window : Nat := 32768

/-- Takes stored bytes, piece by piece. -/
def stored : Nat → Nat → Inflating Unit
  | 0, _ => pure ()
  | fuel + 1, n => do
    if n ≠ 0 then
      let s ← get
      let k := min n (window - s.data.size % window)
      let size := s.data.size
      let (data, result) := s.supply.take (k + 1) k s.data
      let s := { s with data := data, taken := s.taken + (data.size - size) }
      match result with
      | .ok supply =>
        set { s with supply := supply }
        stored fuel (n - k)
      | .error t =>
        set s
        throw t

/-- Reads a stored block: its length, the complement of that, and its bytes. -/
def storedBlock : Inflating Unit := do
  let s ← get
  let (head, result) := s.supply.take 5 4 ByteArray.empty
  set { s with bits := 0, count := 0, taken := s.taken + head.size }
  match result with
  | .error t => throw t
  | .ok supply =>
    modify fun s => { s with supply := supply }
    let part (i : Nat) : Nat := ((head[i]?).getD 0).toNat + ((head[i + 1]?).getD 0).toNat * 256
    if part 2 ≠ 65535 - part 0 then corrupt
    stored (part 0 + 1) (part 0)

/-- The least length and the number of further bits of a repetition. -/
def lengthOf? (symbol : Nat) : Option (Nat × Nat) :=
  if symbol < 265 then some (symbol - 254, 0)
  else if symbol < 269 then some (symbol * 2 - 519, 1)
  else if symbol < 273 then some (symbol * 4 - 1057, 2)
  else if symbol < 277 then some (symbol * 8 - 2149, 3)
  else if symbol < 281 then some (symbol * 16 - 4365, 4)
  else if symbol < 285 then some (symbol * 32 - 8861, 5)
  else if symbol < 286 then some (258, 0)
  else none

/-- The five bits of a fixed distance, the highest first. -/
def fixedDistance : Inflating Nat := do
  let n ← number 5
  return (n % 2) * 16 + (n / 2 % 2) * 8 + (n / 4 % 2) * 4 + (n / 8 % 2) * 2 + n / 16

/-- The distance that a symbol and the bits behind it spell. -/
def distanceOf (symbol : Nat) : Inflating Nat := do
  if symbol < 4 then return symbol + 1
  else if symbol < 30 then
    let n := (symbol - 2) / 2
    let extra ← number n
    return Nat.pow 2 (n + 1) + 1 + (symbol % 2) * Nat.pow 2 n + extra
  else corrupt

/-- Repeats bytes from a distance. -/
def copy (distance : Nat) : Nat → ByteArray → ByteArray
  | 0, data => data
  | n + 1, data => copy distance n (data.push ((data[data.size - distance]?).getD 0))

/-- Reads codes up to the end of a block, unless the data has grown beyond a size. -/
def coded (bytes : Codes) (distances : Option Codes) (size : Nat) : Nat → Inflating Unit
  | 0 => pure ()
  | fuel + 1 => do
    let n ← symbol bytes
    if n < 256 then
      modify fun s => { s with data := s.data.push n.toUInt8 }
      if (← get).data.size < size then coded bytes distances size fuel
    else if n ≠ 256 then
      match lengthOf? n with
      | none => corrupt
      | some (least, bits) =>
        let length := least + (← number bits)
        let far ← match distances with
          | none => fixedDistance
          | some c => symbol c
        let distance ← distanceOf far
        if (← get).data.size < distance then corrupt
        modify fun s => { s with data := copy distance length s.data }
        if (← get).data.size < size then coded bytes distances size fuel

/-- The order in which the lengths of the codes for lengths are given. -/
def lengthOrder : List Nat := [16, 17, 18, 0, 8, 7, 9, 6, 10, 5, 11, 4, 12, 3, 13, 2, 14, 1, 15]

/-- Reads a number of lengths by codes: a length, or repetitions of the last one or of zero. Lengths so far come
latest first. -/
def lengths (c : Codes) : Nat → Nat → List Nat → Inflating (List Nat)
  | 0, _, soFar => return soFar.reverse
  | fuel + 1, left, soFar => do
    if left = 0 then return soFar.reverse
    let n ← symbol c
    if n < 16 then lengths c fuel (left - 1) (n :: soFar)
    else
      let (value, least, bits) ← match n, soFar with
        | 16, [] => corrupt
        | 16, last :: _ => pure (last, 3, 2)
        | 17, _ => pure (0, 3, 3)
        | _, _ => pure (0, 11, 7)
      let count := least + (← number bits)
      if left < count then corrupt
      lengths c fuel (left - count) (List.replicate count value ++ soFar)

/-- Reads the codes at the start of a block. -/
def givenCodes : Inflating (Codes × Codes) := do
  ensure 14 4
  let byteCount := (← number 5) + 257
  if byteCount > 286 then corrupt
  let distanceCount := (← number 5) + 1
  if distanceCount > 30 then corrupt
  let lengthCount := (← number 4) + 4
  let given ← (lengthOrder.take lengthCount).mapM fun i => do return (i, ← number 3)
  let some c := Codes.ofLengths? ((List.range 19).map fun i => (given.lookup i).getD 0) | corrupt
  let all ← lengths c (byteCount + distanceCount) (byteCount + distanceCount) []
  let bytes := all.take byteCount
  match Codes.ofLengths? bytes, Codes.ofLengths? (all.drop byteCount) with
  | some b, some d => return ({ b with least := max b.least (bytes.getD 256 0) }, d)
  | _, _ => corrupt

/-- Reads blocks up to the last one, unless the data has grown beyond a size. -/
def blocks (size : Nat) : Nat → Inflating Unit
  | 0 => pure ()
  | fuel + 1 => do
    let steps := 8 * (← get).supply.file.size + 8
    ensure 3 4
    let isLast := (← number 1) = 1
    match ← number 2 with
    | 0 => storedBlock
    | 1 => coded .fixed none size steps
    | 2 => do
      let (b, d) ← givenCodes
      coded b (some d) size steps
    | _ => corrupt
    if !isLast && (← get).data.size < size then blocks size fuel

end Inflate

end ScriptEngine.Picture
