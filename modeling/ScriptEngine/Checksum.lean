/-!
# Checksums

Sums over bytes by which damage to a file is noticed.
-/

namespace ScriptEngine.Checksum

/-- The remainder after the eight bits of a byte, lowest first. -/
def cyclicBits : Nat → UInt32 → UInt32
  | 0, n => n
  | k + 1, n => cyclicBits k (if n % 2 = 1 then (n / 2) ^^^ 0xEDB88320 else n / 2)

/-- The remainders of single bytes. -/
def cyclicTable : Array UInt32 := (Array.range 256).map fun n => cyclicBits 8 n.toUInt32

/-- A remainder with one more byte. -/
def cyclicStep (n : UInt32) (b : UInt8) : UInt32 :=
  cyclicTable.getD ((n ^^^ b.toUInt32) % 256).toNat 0 ^^^ (n / 256)

/-- The cyclic sum of bytes. -/
def cyclic (bytes : ByteArray) : UInt32 := bytes.foldl cyclicStep 0xFFFFFFFF ^^^ 0xFFFFFFFF

/-- The two running sums with one more byte. -/
def adlerStep (sums : Nat × Nat) (b : UInt8) : Nat × Nat :=
  let a := (sums.1 + b.toNat) % 65521
  (a, (sums.2 + a) % 65521)

/-- Both sums in one number. -/
def adler (bytes : ByteArray) : Nat :=
  let sums := bytes.foldl adlerStep (1, 0)
  sums.2 * 65536 + sums.1

end ScriptEngine.Checksum
