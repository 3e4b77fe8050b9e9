import ScriptEngine.Base64
/-!
# Password hashes

A password is hashed together with a random salt, so slowly that trying out many passwords takes too long.
The hash is made by a block cipher whose tables are worked over again and again under the password and the
salt; the number of times is `2` to the power of the cost. The tables start as the binary digits of the
fraction of π.
-/

namespace ScriptEngine.Password

/-! ## The starting tables -/

/-- The sum of the series of the arc tangent of `1 / x`, times a large number that `term` begins with. -/
def arcTangent (x : Nat) : Nat → Nat → Nat → Bool → Int → Int
  | 0, _, _, _, sum => sum
  | fuel + 1, term, k, positive, sum =>
    if term = 0 then sum
    else
      let part : Int := (term / k : Nat)
      arcTangent x fuel (term / (x * x)) (k + 2) (!positive) (if positive then sum + part else sum - part)

/-- The first `bits` binary digits of π behind the point, by the arc tangents of one fifth and of
`1 / 239`. -/
def piFraction (bits : Nat) : Nat :=
  let one := Nat.pow 2 (bits + 64)
  let a := arcTangent 5 bits (one / 5) 1 true 0
  let b := arcTangent 239 bits (one / 239) 1 true 0
  let pi := (16 * a - 4 * b).toNat / 2 ^ 64
  pi % Nat.pow 2 bits

/-- The number of words of the tables: eighteen for the rounds, and four times 256 to look up. -/
def tableSize : Nat := 18 + 4 * 256

/-- The first words of the fraction of π. -/
def piWords : Array UInt32 :=
  let bits := 32 * tableSize
  let digits := piFraction bits
  ((List.range tableSize).map fun i => UInt32.ofNat (digits >>> (bits - 32 * (i + 1)))).toArray

/-! ## The cipher -/

/-- The tables of the cipher, one behind the other. -/
abbrev Tables := Array UInt32

/-- What a round makes of a half of a block. -/
@[inline]
def scramble (t : Tables) (x : UInt32) : UInt32 :=
  let a := t.getD (18 + (x >>> 24).toNat) 0
  let b := t.getD (274 + ((x >>> 16) &&& 0xFF).toNat) 0
  let c := t.getD (530 + ((x >>> 8) &&& 0xFF).toNat) 0
  let d := t.getD (786 + (x &&& 0xFF).toNat) 0
  ((a + b) ^^^ c) + d

/-- Pairs of rounds from a place of the tables on. -/
def rounds (t : Tables) : Nat → Nat → UInt32 → UInt32 → UInt32 × UInt32
  | 0, i, l, r => (r ^^^ t.getD i 0, l)
  | n + 1, i, l, r =>
    let r := r ^^^ scramble t l ^^^ t.getD i 0
    let l := l ^^^ scramble t r ^^^ t.getD (i + 1) 0
    rounds t n (i + 2) l r

/-- The two halves of a block, encrypted. -/
def encrypt (t : Tables) (l r : UInt32) : UInt32 × UInt32 := rounds t 8 1 (l ^^^ t.getD 0 0) r

/-- The words that bytes spell when they are read over and over, `n` of them. -/
def cyclicWords (bytes : Array UInt8) (n : Nat) : Array UInt32 :=
  let byte (i : Nat) : UInt32 := (bytes.getD (i % bytes.size) 0).toUInt32
  ((List.range n).map fun i =>
    byte (4 * i) <<< 24 ||| byte (4 * i + 1) <<< 16 ||| byte (4 * i + 2) <<< 8 ||| byte (4 * i + 3)).toArray

/-- The tables with the words of a key added to the first eighteen. -/
def addKey (key : Array UInt32) : Nat → Nat → Tables → Tables
  | 0, _, t => t
  | n + 1, i, t =>
    let w := t.getD i 0 ^^^ key.getD i 0
    addKey key n (i + 1) (t.setIfInBounds i w)

/-- Replaces the tables, two words at a time, by encrypting what came before; words of a salt are added
on the way. -/
def replace (salt : Array UInt32) : Nat → Nat → UInt32 → UInt32 → Tables → Tables
  | 0, _, _, _, t => t
  | n + 1, i, l, r, t =>
    let l := l ^^^ salt.getD (i % 4) 0
    let r := r ^^^ salt.getD ((i + 1) % 4) 0
    let (l, r) := encrypt t l r
    replace salt n (i + 2) l r ((t.setIfInBounds i l).setIfInBounds (i + 1) r)

/-- Works the tables over under a key and a salt. -/
def expand (key salt : Array UInt32) (t : Tables) : Tables :=
  replace salt (tableSize / 2) 0 0 0 (addKey key 18 0 t)

/-- Works the tables over `n` times under two keys in turn. -/
def expandTimes (key salt : Array UInt32) : Nat → Tables → Tables
  | 0, t => t
  | n + 1, t => expandTimes key salt n (expand salt #[] (expand key #[] t))

/-- Encrypts a block `n` times. -/
def encryptTimes (t : Tables) : Nat → UInt32 × UInt32 → UInt32 × UInt32
  | 0, b => b
  | n + 1, b => encryptTimes t n (encrypt t b.1 b.2)

/-! ## Hashes -/

/-- The text whose encryption is the hash. -/
def magic : Text := "OrpheanBeholderScryDoubt"

/-- The four bytes of a word. -/
def wordBytes (w : UInt32) : List UInt8 :=
  [(w >>> 24).toUInt8, (w >>> 16).toUInt8, (w >>> 8).toUInt8, w.toUInt8]

/-- The digest of a password under a salt of sixteen bytes. -/
def digest (password salt : List UInt8) (cost : Nat) : List UInt8 :=
  let key := cyclicWords (password ++ [0]).toArray 18
  let saltKey := cyclicWords salt.toArray 18
  let start := expand key (cyclicWords salt.toArray 4) piWords
  let tables := expandTimes key saltKey (Nat.pow 2 cost) start
  let words := cyclicWords magic.bytes.toArray 6
  let blocks := [0, 2, 4].flatMap fun i =>
    let (l, r) := encryptTimes tables 64 (words.getD i 0, words.getD (i + 1) 0)
    wordBytes l ++ wordBytes r
  blocks.take 23

/-- The hash of a password as text. -/
def hash (password salt : List UInt8) (cost : Nat) : Text :=
  let digits := if cost < 10 then "0" ++ toString cost else toString cost
  "$2a$" ++ digits ++ "$" ++ ⟨Base64.password.encode salt⟩
    ++ ⟨Base64.password.encode (digest password salt cost)⟩

/-- The greatest number of bytes of a password that is hashed. -/
def maxSize : Nat := 72

/-- The cost of new hashes. -/
def defaultCost : Nat := 10

/-- The number of two digits, or of a plus sign and a digit. -/
def costOf? : List UInt8 → Option Nat
  | a :: b :: _ =>
    if !Text.isDigitByte b then none
    else if a = 0x2B then some (b.toNat - 48)
    else if Text.isDigitByte a then some ((a.toNat - 48) * 10 + (b.toNat - 48))
    else none
  | _ => none

/-- The parts of a hash: its cost, its salt, and the digits of its digest. What stands behind those is passed over. -/
def parts? (hash : Text) : Option (Nat × List UInt8 × List UInt8) := do
  if hash.size < 59 then none
  let marked ← match hash.bytes with
    | 0x24 :: version :: rest => if version > 0x32 then none else some rest
    | _ => none
  let rest := if marked.head? = some 0x24 then marked.drop 1 else marked.drop 2
  let cost ← costOf? rest
  if cost < 4 || 31 < cost then none
  let rest := rest.drop 3
  match Base64.password.decode (rest.take 22) with
  | .ok salt => some (cost, salt, (rest.drop 22).take 31)
  | .error _ => none

/-- Whether a password belongs to a hash. -/
def verify (hash : Text) (password : List UInt8) : Bool :=
  match parts? hash with
  | some (cost, salt, digits) =>
    salt.length = 16 && Base64.password.encode (digest password salt cost) = digits
  | none => false

end ScriptEngine.Password
