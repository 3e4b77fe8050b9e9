import ScriptEngine.Text
/-!
# Digests

A digest is a short summary of bytes that cannot be steered. The bytes are cut into blocks, and each block
is stirred into a state of eight words by rounds, every round with a constant of its own. The starting
words are the first bits of the fractions of square roots of primes, the constants those of cube roots.
-/

namespace ScriptEngine.Digest

/-- The rule of a digest over words of one size. -/
structure Words (w : Type) where
  /-- The number of bytes of a word. -/
  size : Nat
  ofNat : Nat → w
  toNat : w → Nat
  rotate : w → Nat → w
  shift : w → Nat → w
  /-- The turns of the two sums of a round, and of the two that lengthen a block; the last turn of the
  latter is a shift. -/
  turns : (Nat × Nat × Nat) × (Nat × Nat × Nat) × (Nat × Nat × Nat) × (Nat × Nat × Nat)
  constants : Array w

section

variable {w : Type} [Inhabited w] [Add w] [XorOp w] [AndOp w] [Complement w]

/-- The number that bytes spell, the most significant first. -/
def number (bs : List UInt8) : Nat := bs.foldl (fun n b => n * 256 + b.toNat) 0

/-- A number as a count of bytes, the most significant first. -/
def bytes : Nat → Nat → List UInt8
  | 0, _ => []
  | k + 1, n => bytes k (n / 256) ++ [n.toUInt8]

/-- The exclusive or of three turns of a word. -/
def Words.sum (s : Words w) (t : Nat × Nat × Nat) (x : w) : w :=
  s.rotate x t.1 ^^^ s.rotate x t.2.1 ^^^ s.rotate x t.2.2

/-- The exclusive or of two turns and a shift of a word. -/
def Words.mix (s : Words w) (t : Nat × Nat × Nat) (x : w) : w :=
  s.rotate x t.1 ^^^ s.rotate x t.2.1 ^^^ s.shift x t.2.2

/-- Lengthens a block by `n` words. -/
def Words.lengthen (s : Words w) : Nat → Array w → Array w
  | 0, ws => ws
  | n + 1, ws =>
    let word (k : Nat) : w := ws.getD (ws.size - k) default
    let next := s.mix s.turns.2.2.2 (word 2) + word 7 + s.mix s.turns.2.2.1 (word 15) + word 16
    lengthen s n (ws.push next)

/-- The eight words of a state. -/
structure State (w : Type) where
  a : w
  b : w
  c : w
  d : w
  e : w
  f : w
  g : w
  h : w

/-- One round. -/
def Words.round (s : Words w) (st : State w) (constant word : w) : State w :=
  let choice := (st.e &&& st.f) ^^^ (~~~st.e &&& st.g)
  let majority := (st.a &&& st.b) ^^^ (st.a &&& st.c) ^^^ (st.b &&& st.c)
  let x := st.h + s.sum s.turns.2.1 st.e + choice + constant + word
  let y := s.sum s.turns.1 st.a + majority
  ⟨x + y, st.a, st.b, st.c, st.d + x, st.e, st.f, st.g⟩

/-- The state with a block stirred in. -/
def Words.stir (s : Words w) (st : State w) (block : List UInt8) : State w :=
  let words := (List.range 16).map fun i => s.ofNat (number ((block.drop (i * s.size)).take s.size))
  let words := s.lengthen (s.constants.size - 16) words.toArray
  let r := (s.constants.toList.zip words.toList).foldl (fun st (k, x) => s.round st k x) st
  ⟨st.a + r.a, st.b + r.b, st.c + r.c, st.d + r.d, st.e + r.e, st.f + r.f, st.g + r.g, st.h + r.h⟩

/-- Stirs all blocks of some bytes in; `fuel` bounds their number. -/
def Words.stirAll (s : Words w) : Nat → State w → List UInt8 → State w
  | 0, st, _ => st
  | fuel + 1, st, bs =>
    if bs.isEmpty then st
    else stirAll s fuel (s.stir st (bs.take (16 * s.size))) (bs.drop (16 * s.size))

/-- Bytes filled up to whole blocks: a one bit, zeros, and the number of bits. -/
def Words.padded (s : Words w) (bs : List UInt8) : List UInt8 :=
  let block := 16 * s.size
  let used := (bs.length + 1 + 2 * s.size) % block
  bs ++ 0x80 :: List.replicate ((block - used) % block) 0 ++ bytes (2 * s.size) (bs.length * 8)

/-- The digest of bytes from a starting state. -/
def Words.digest (s : Words w) (start : State w) (bs : List UInt8) : List UInt8 :=
  let all := s.padded bs
  let r := s.stirAll all.length start all
  [r.a, r.b, r.c, r.d, r.e, r.f, r.g, r.h].flatMap fun x => bytes s.size (s.toNat x)

end

/-- Words of 32 bits. -/
def words32 : Words UInt32 where
  size := 4
  ofNat := UInt32.ofNat
  toNat := UInt32.toNat
  rotate x n := (x >>> UInt32.ofNat n) ||| (x <<< UInt32.ofNat (32 - n))
  shift x n := x >>> UInt32.ofNat n
  turns := ((2, 13, 22), (6, 11, 25), (7, 18, 3), (17, 19, 10))
  constants := #[
    0x428a2f98, 0x71374491, 0xb5c0fbcf, 0xe9b5dba5, 0x3956c25b, 0x59f111f1, 0x923f82a4,
    0xab1c5ed5, 0xd807aa98, 0x12835b01, 0x243185be, 0x550c7dc3, 0x72be5d74, 0x80deb1fe,
    0x9bdc06a7, 0xc19bf174, 0xe49b69c1, 0xefbe4786, 0x0fc19dc6, 0x240ca1cc, 0x2de92c6f,
    0x4a7484aa, 0x5cb0a9dc, 0x76f988da, 0x983e5152, 0xa831c66d, 0xb00327c8, 0xbf597fc7,
    0xc6e00bf3, 0xd5a79147, 0x06ca6351, 0x14292967, 0x27b70a85, 0x2e1b2138, 0x4d2c6dfc,
    0x53380d13, 0x650a7354, 0x766a0abb, 0x81c2c92e, 0x92722c85, 0xa2bfe8a1, 0xa81a664b,
    0xc24b8b70, 0xc76c51a3, 0xd192e819, 0xd6990624, 0xf40e3585, 0x106aa070, 0x19a4c116,
    0x1e376c08, 0x2748774c, 0x34b0bcb5, 0x391c0cb3, 0x4ed8aa4a, 0x5b9cca4f, 0x682e6ff3,
    0x748f82ee, 0x78a5636f, 0x84c87814, 0x8cc70208, 0x90befffa, 0xa4506ceb, 0xbef9a3f7,
    0xc67178f2]

/-- Words of 64 bits. -/
def words64 : Words UInt64 where
  size := 8
  ofNat := UInt64.ofNat
  toNat := UInt64.toNat
  rotate x n := (x >>> UInt64.ofNat n) ||| (x <<< UInt64.ofNat (64 - n))
  shift x n := x >>> UInt64.ofNat n
  turns := ((28, 34, 39), (14, 18, 41), (1, 8, 7), (19, 61, 6))
  constants := #[
    0x428a2f98d728ae22, 0x7137449123ef65cd, 0xb5c0fbcfec4d3b2f, 0xe9b5dba58189dbbc,
    0x3956c25bf348b538, 0x59f111f1b605d019, 0x923f82a4af194f9b, 0xab1c5ed5da6d8118,
    0xd807aa98a3030242, 0x12835b0145706fbe, 0x243185be4ee4b28c, 0x550c7dc3d5ffb4e2,
    0x72be5d74f27b896f, 0x80deb1fe3b1696b1, 0x9bdc06a725c71235, 0xc19bf174cf692694,
    0xe49b69c19ef14ad2, 0xefbe4786384f25e3, 0x0fc19dc68b8cd5b5, 0x240ca1cc77ac9c65,
    0x2de92c6f592b0275, 0x4a7484aa6ea6e483, 0x5cb0a9dcbd41fbd4, 0x76f988da831153b5,
    0x983e5152ee66dfab, 0xa831c66d2db43210, 0xb00327c898fb213f, 0xbf597fc7beef0ee4,
    0xc6e00bf33da88fc2, 0xd5a79147930aa725, 0x06ca6351e003826f, 0x142929670a0e6e70,
    0x27b70a8546d22ffc, 0x2e1b21385c26c926, 0x4d2c6dfc5ac42aed, 0x53380d139d95b3df,
    0x650a73548baf63de, 0x766a0abb3c77b2a8, 0x81c2c92e47edaee6, 0x92722c851482353b,
    0xa2bfe8a14cf10364, 0xa81a664bbc423001, 0xc24b8b70d0f89791, 0xc76c51a30654be30,
    0xd192e819d6ef5218, 0xd69906245565a910, 0xf40e35855771202a, 0x106aa07032bbd1b8,
    0x19a4c116b8d2d0c8, 0x1e376c085141ab53, 0x2748774cdf8eeb99, 0x34b0bcb5e19b48a8,
    0x391c0cb3c5c95a63, 0x4ed8aa4ae3418acb, 0x5b9cca4f7763e373, 0x682e6ff3d6b2b8a3,
    0x748f82ee5defb2fc, 0x78a5636f43172f60, 0x84c87814a1f0ab72, 0x8cc702081a6439ec,
    0x90befffa23631e28, 0xa4506cebde82bde9, 0xbef9a3f7b2c67915, 0xc67178f2e372532b,
    0xca273eceea26619c, 0xd186b8c721c0c207, 0xeada7dd6cde0eb1e, 0xf57d4f7fee6ed178,
    0x06f067aa72176fba, 0x0a637dc5a2c898a6, 0x113f9804bef90dae, 0x1b710b35131c471b,
    0x28db77f523047d84, 0x32caab7b40c72493, 0x3c9ebe0a15c9bebc, 0x431d67c49c100d4c,
    0x4cc5d4becb3e42b6, 0x597f299cfc657e2a, 0x5fcb6fab3ad6faec, 0x6c44198c4a475817]

/-- The digest of 32 bytes. -/
def sha256 (bs : List UInt8) : List UInt8 :=
  words32.digest ⟨0x6a09e667, 0xbb67ae85, 0x3c6ef372, 0xa54ff53a,
    0x510e527f, 0x9b05688c, 0x1f83d9ab, 0x5be0cd19⟩ bs

/-- The digest of 64 bytes. -/
def sha512 (bs : List UInt8) : List UInt8 :=
  words64.digest ⟨0x6a09e667f3bcc908, 0xbb67ae8584caa73b, 0x3c6ef372fe94f82b, 0xa54ff53a5f1d36f1,
    0x510e527fade682d1, 0x9b05688c2b3e6c1f, 0x1f83d9abfb41bd6b, 0x5be0cd19137e2179⟩ bs

/-- The digest of 48 bytes. -/
def sha384 (bs : List UInt8) : List UInt8 :=
  (words64.digest ⟨0xcbbb9d5dc1059ed8, 0x629a292a367cd507, 0x9159015a3070dd17, 0x152fecd8f70e5939,
    0x67332667ffc00b31, 0x8eb44a8768581511, 0xdb0c2e0d64f98fa7, 0x47b5481dbefa4fa4⟩ bs).take 48

/-- A digest of bytes under a key, for a digest that works on blocks of a size. -/
def keyed (digest : List UInt8 → List UInt8) (block : Nat) (key bs : List UInt8) : List UInt8 :=
  let key := if key.length > block then digest key else key
  let key := key ++ List.replicate (block - key.length) 0
  digest (key.map (· ^^^ 0x5C) ++ digest (key.map (· ^^^ 0x36) ++ bs))

/-- The hexadecimal digits of bytes. -/
def hex (bs : List UInt8) : Text := Text.concat (bs.map fun b => Text.hex 2 b.toNat)

end ScriptEngine.Digest
