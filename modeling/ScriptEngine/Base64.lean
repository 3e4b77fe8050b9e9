import ScriptEngine.Text
/-!
# Base 64

Three bytes are written as four digits of six bits each. A shorter last group is written with as many
digits as it needs and, in the padded style, filled up to four places by equals signs.
-/

namespace ScriptEngine

/-- A style of base 64: the 64 digits, and whether groups are filled up. -/
structure Base64 where
  digits : Array UInt8
  padded : Bool

namespace Base64

/-- The letters from one to another. -/
def span (first last : Char) : List UInt8 :=
  (List.range (last.toNat + 1 - first.toNat)).map fun i => (first.toNat + i).toUInt8

/-- The letters and digits in their usual order. -/
def common : List UInt8 := span 'A' 'Z' ++ span 'a' 'z' ++ span '0' '9'

/-- The padded style with `+` and `/`. -/
def standard : Base64 := ⟨(common ++ [0x2B, 0x2F]).toArray, true⟩

/-- The style for addresses: `-` and `_`, not filled up. -/
def url : Base64 := ⟨(common ++ [0x2D, 0x5F]).toArray, false⟩

/-- The style of password hashes: a point and a slash before the letters, not filled up. -/
def password : Base64 := ⟨(0x2E :: 0x2F :: common).toArray, false⟩

/-- The digit of a number below 64. -/
def digit (s : Base64) (n : Nat) : UInt8 := (s.digits[n]?).getD 0

/-- The number of a digit. -/
def value? (s : Base64) (b : UInt8) : Option Nat := s.digits.findIdx? (· = b)

/-- The equals signs that fill a group up. -/
def filler (s : Base64) (n : Nat) : List UInt8 := if s.padded then List.replicate n 0x3D else []

/-- The digits of bytes. -/
def encode (s : Base64) : List UInt8 → List UInt8
  | a :: b :: c :: rest =>
    let n := a.toNat * 65536 + b.toNat * 256 + c.toNat
    s.digit (n / 262144) :: s.digit (n / 4096 % 64) :: s.digit (n / 64 % 64) :: s.digit (n % 64)
      :: encode s rest
  | [a, b] =>
    let n := a.toNat * 1024 + b.toNat * 4
    s.digit (n / 4096) :: s.digit (n / 64 % 64) :: s.digit (n % 64) :: s.filler 1
  | [a] =>
    let n := a.toNat * 16
    s.digit (n / 64) :: s.digit (n % 64) :: s.filler 2
  | [] => []

/-- The bytes of the digits of one group, given latest first. -/
def groupBytes (digits : List Nat) : List UInt8 :=
  match digits with
  | [d, c, b, a] =>
    let n := a * 262144 + b * 4096 + c * 64 + d
    [(n / 65536).toUInt8, (n / 256).toUInt8, n.toUInt8]
  | [c, b, a] =>
    let n := a * 4096 + b * 64 + c
    [(n / 1024).toUInt8, (n / 4).toUInt8]
  | [b, a] => [((a * 64 + b) / 16).toUInt8]
  | _ => []

/-- Whether a byte ends a line. -/
def isLineEnd (b : UInt8) : Bool := b = 10 || b = 13

/-- The place behind the line ends at the front, and what follows. -/
def skipLineEnds (place : Nat) : List UInt8 → Nat × List UInt8
  | b :: rest => if isLineEnd b then skipLineEnds (place + 1) rest else (place, b :: rest)
  | [] => (place, [])

/-- Nothing but line ends may follow the filler. -/
def finish (place : Nat) (rest : List UInt8) (bytes : List UInt8) : Except Nat (List UInt8) :=
  match skipLineEnds place rest with
  | (_, []) => .ok bytes
  | (p, _ :: _) => .error p

/-- Reads digits: `place` bytes were read before, the current group has the digits `group`, latest
first, and `done` holds the bytes of earlier groups, latest first. -/
def read (s : Base64) : Nat → List Nat → List UInt8 → List UInt8 → Except Nat (List UInt8)
  | place, group, done, [] =>
    if group.isEmpty then .ok done.reverse
    else if group.length = 1 || s.padded then .error (place - group.length)
    else .ok (done.reverse ++ groupBytes group)
  | place, group, done, b :: rest =>
    match s.value? b with
    | some n =>
      let group := n :: group
      if group.length = 4 then read s (place + 1) [] ((groupBytes group).reverse ++ done) rest
      else read s (place + 1) group done rest
    | none =>
      if isLineEnd b then read s (place + 1) group done rest
      else if !s.padded || b ≠ 0x3D || group.length < 2 then .error place
      else
        let bytes := done.reverse ++ groupBytes group
        if group.length = 2 then
          match skipLineEnds (place + 1) rest with
          | (p, []) => .error p
          | (p, c :: rest) => if c = 0x3D then finish (p + 1) rest bytes else .error (p - 1)
        else finish (place + 1) rest bytes

/-- The bytes of digits, or the place of the input where they end to make sense. -/
def decode (s : Base64) (digits : List UInt8) : Except Nat (List UInt8) := read s 0 [] [] digits

end Base64

end ScriptEngine
