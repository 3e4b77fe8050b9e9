import ScriptEngine.Decimal
import ScriptEngine.Text
/-!
# Spans of time

A span of time is a whole number of nanoseconds within 64 bits.
-/

namespace ScriptEngine.Duration

/-- The nanoseconds of a millisecond. -/
def millisecond : Int := 1000000

/-- The nanoseconds of a second. -/
def second : Int := 1000000000

/-- A number of nanoseconds cut to 64 bits. -/
def wrap (n : Int) : Int := (Int64.ofInt n).toInt

/-- A fraction with `places` digits, without the zeros at its end; nothing when it is zero. -/
def fraction (places n : Nat) : Text :=
  let ds := Nat.toDigits 10 n
  let padded := List.replicate (places - ds.length) '0' ++ ds
  let kept := (padded.reverse.dropWhile (· = '0')).reverse
  if kept.isEmpty then "" else "." ++ Text.ofChars kept

/-- A number of units of `10 ^ places` nanoseconds, with its fraction. -/
def units (places n : Nat) (unit : Text) : Text :=
  toString (n / Nat.pow 10 places) ++ fraction places (n % Nat.pow 10 places) ++ unit

/-- A span as text: below a second in the largest unit that leaves a whole part, and otherwise in
hours, minutes and seconds. -/
def text (d : Int) : Text :=
  let n := d.natAbs
  let sign := Text.onlyIf (d < 0) "-"
  if n = 0 then "0s"
  else if n < 1000 then sign ++ toString n ++ "ns"
  else if n < 1000000 then sign ++ units 3 n "\u00b5s"
  else if n < 1000000000 then sign ++ units 6 n "ms"
  else
    let whole := n / 1000000000
    let minutes := whole / 60
    let seconds := units 9 (n % 60000000000) "s"
    sign ++ (if minutes = 0 then seconds
      else if minutes < 60 then toString minutes ++ "m" ++ seconds
      else toString (minutes / 60) ++ "h" ++ toString (minutes % 60) ++ "m" ++ seconds)

/-! ## Reading -/

/-- Why a text is no duration. -/
inductive Trouble where
  | invalid (t : Text)
  | missingUnit (t : Text)
  | unknownUnit (unit t : Text)

/-- A text between quotes, bytes outside of ASCII written by their numbers. -/
def quote (t : Text) : Text :=
  "\"" ++ Text.concat (t.bytes.map fun b =>
    if b ≥ 0x80 || b < 0x20 then "\\x" ++ Text.hex 2 b.toNat
    else Text.onlyIf (b = 0x22 || b = 0x5C) "\\" ++ Text.ofByte b) ++ "\""

/-- The wording of a trouble. -/
def Trouble.message : Trouble → Text
  | invalid t => "time: invalid duration " ++ quote t
  | missingUnit t => "time: missing unit in duration " ++ quote t
  | unknownUnit unit t => "time: unknown unit " ++ quote unit ++ " in duration " ++ quote t

/-- The nanoseconds of a unit. -/
def unit? (t : Text) : Option Nat :=
  if t = "ns" then some 1
  else if t = "us" || t = "\u00b5s" || t = "\u03bcs" then some 1000
  else if t = "ms" then some 1000000
  else if t = "s" then some 1000000000
  else if t = "m" then some 60000000000
  else if t = "h" then some 3600000000000
  else none

/-- The value of digits and the number of them that count: what does not fit 63 bits is left out. -/
def fractionOf : Nat → Nat → List UInt8 → Nat × Nat
  | n, k, [] => (n, k)
  | n, k, b :: rest =>
    let m := n * 10 + (b.toNat - 0x30)
    if n > (2 ^ 63 - 1) / 10 || m > 2 ^ 63 then (n, k) else fractionOf m (k + 1) rest

/-- The nanoseconds of the numbers with units at the front, after `sum`, in a word of 64 bits; at most `2 ^ 63`. -/
def readUnits (whole : Text) : Nat → Nat → List UInt8 → Except Trouble Nat
  | 0, _, _ => .error (.invalid whole)
  | fuel + 1, sum, bs =>
    if bs.isEmpty then .ok sum
    else
      let digits := bs.takeWhile Text.isDigitByte
      let rest := bs.drop digits.length
      let (fraction, rest) := match rest with
        | 0x2E :: more =>
          let ds := more.takeWhile Text.isDigitByte
          (ds, more.drop ds.length)
        | rest => ([], rest)
      let n := digits.foldl (fun n b => n * 10 + (b.toNat - 0x30)) 0
      if (digits.isEmpty && fraction.isEmpty) || n > 2 ^ 63 then .error (.invalid whole)
      else
        let word := rest.takeWhile fun b => b ≠ 0x2E && !Text.isDigitByte b
        if word.isEmpty then .error (.missingUnit whole)
        else match unit? ⟨word⟩ with
          | none => .error (.unknownUnit ⟨word⟩ whole)
          | some unit =>
            let (f, places) := fractionOf 0 0 fraction
            let part := floatOfInt f * (floatOfInt unit / floatOfInt (Nat.pow 10 places))
            let v := n * unit + ((wholePart part).getD 0).toNat
            let sum := (sum + v) % 2 ^ 64
            if v > 2 ^ 63 || sum > 2 ^ 63 then .error (.invalid whole)
            else readUnits whole fuel sum (rest.drop word.length)

/-- The duration that a text spells: an optional sign, and numbers with units. -/
def parse (t : Text) : Except Trouble Int := do
  let (negative, bs) := match t.bytes with
    | 0x2D :: rest => (true, rest)
    | 0x2B :: rest => (false, rest)
    | bs => (false, bs)
  if bs = [0x30] then return 0
  if bs.isEmpty then throw (.invalid t)
  let n ← readUnits t bs.length 0 bs
  if negative then return -(n : Int)
  if n ≥ 2 ^ 63 then throw (.invalid t)
  return n

end ScriptEngine.Duration
