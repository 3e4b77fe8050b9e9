/-!
# Decimal numbers and binary floating point

A double is a sign and a magnitude: zero, `mantissa * 2 ^ exponent`, infinite, or no number. Reading a
decimal rounds it to the nearest double, a half going to the even neighbour. Writing a double takes the
fewest digits that read back as it.
-/

-- A power of numerals is that of the core library, whatever other powers are in scope.
attribute [default_instance 20000] instPowNat

namespace ScriptEngine

/-- The value of a double without its sign. -/
inductive Magnitude where
  | zero
  /-- `mantissa * 2 ^ exponent` with a positive mantissa below `2 ^ 53`. -/
  | finite (mantissa : Nat) (exponent : Int)
  | infinite
  | notNumber
deriving DecidableEq, Repr

/-- Whether the sign bit of a double is set. -/
def signBit (x : Float) : Bool := x.toBits >>> 63 == 1

/-- The magnitude of a double. -/
def Magnitude.ofFloat (x : Float) : Magnitude :=
  let bits : Nat := x.toBits.toNat
  let fraction : Nat := bits % 2 ^ 52
  let biased : Nat := bits / 2 ^ 52 % 2 ^ 11
  if biased = 0 then (if fraction = 0 then .zero else .finite fraction (-1074))
  else if biased = 2047 then (if fraction = 0 then .infinite else .notNumber)
  else .finite (fraction + 2 ^ 52) ((biased : Int) - 1075)

/-- A decimal number without sign: `coefficient * 10 ^ exponent`. -/
structure Decimal where
  coefficient : Nat
  exponent : Int
deriving DecidableEq, Repr, Inhabited

namespace Decimal

/-- `num / den` rounded to the nearest whole number, a half going to the even one. -/
def roundDiv (num den : Nat) : Nat :=
  let q := num / den
  let twice := 2 * (num % den)
  if twice < den then q
  else if den < twice then q + 1
  else if q % 2 = 0 then q else q + 1

/-- The double with the value nearest to `num / den`, both positive; `none` when it would be
infinite. -/
def nearest (num den : Nat) : Option Float :=
  -- The exponent for which the quotient has 53 bits, but not below that of the smallest doubles.
  let guess : Int := (Nat.log2 num : Int) - (Nat.log2 den : Int) - 53
  let scaled (q : Int) : Nat × Nat :=
    if q ≥ 0 then (num, den * Nat.pow 2 q.toNat) else (num * Nat.pow 2 (-q).toNat, den)
  let fits (q : Int) : Bool := let (n, d) := scaled q; n / d < 2 ^ 53
  let exact : Int := if fits guess then guess else guess + 1
  let q : Int := max exact (-1074)
  let (n, d) := scaled q
  let m := roundDiv n d
  let (m, q) := if m = 2 ^ 53 then (2 ^ 52, q + 1) else (m, q)
  if q > 971 then none
  else if m < 2 ^ 52 then some (Float.ofBits m.toUInt64)
  else some (Float.ofBits (((q + 1075).toNat * 2 ^ 52 + (m - 2 ^ 52)).toUInt64))

/-- The double nearest to a decimal; `none` when it is beyond the largest double. -/
def toFloat? (d : Decimal) : Option Float :=
  if d.coefficient = 0 then some 0.0
  else
    let digits : Int := (Nat.toDigits 10 d.coefficient).length
    if digits + d.exponent > 310 then none
    else if digits + d.exponent < -326 then some 0.0
    else if d.exponent ≥ 0 then nearest (d.coefficient * Nat.pow 10 d.exponent.toNat) 1
    else nearest d.coefficient (Nat.pow 10 (-d.exponent).toNat)

/-- The double nearest to a decimal; beyond the largest double it is infinite. -/
def toFloat (d : Decimal) : Float := d.toFloat?.getD (1.0 / 0.0)

/-- The decimal that a literal spells: digits with an optional point, and an optional exponent after
`e` or `E`. -/
def ofLiteral (cs : List Char) : Decimal :=
  let mantissa := cs.takeWhile fun c => c ≠ 'e' && c ≠ 'E'
  let tail := (cs.dropWhile fun c => c ≠ 'e' && c ≠ 'E').drop 1
  let whole := mantissa.takeWhile (· ≠ '.')
  let fraction := (mantissa.dropWhile (· ≠ '.')).drop 1
  let value (ds : List Char) (n : Nat) : Nat := ds.foldl (fun n c => n * 10 + (c.toNat - 48)) n
  let exponent : Int := match tail with
    | '-' :: ds => -(value ds 0 : Int)
    | '+' :: ds => value ds 0
    | ds => value ds 0
  ⟨value fraction (value whole 0), exponent - fraction.length⟩

/-- What stands at a place of a numeral: the beginning, a digit or the sign of a base, an underscore, or something
else. -/
inductive NumeralPart where
  | start | digit | underscore | other
deriving DecidableEq

/-- Whether each underscore stands between digits; `before` is the part before the given characters. -/
def underscoresFit (isDigit : Char → Bool) : NumeralPart → List Char → Bool
  | before, [] => before ≠ .underscore
  | before, c :: cs =>
    if isDigit c then underscoresFit isDigit .digit cs
    else if c = '_' then before = .digit && underscoresFit isDigit .underscore cs
    else before ≠ .underscore && underscoresFit isDigit .other cs

/-- Whether a character is a hexadecimal digit. -/
def isHexDigit (c : Char) : Bool :=
  c.isDigit || ('a' ≤ c && c ≤ 'f') || ('A' ≤ c && c ≤ 'F')

/-- The value of a hexadecimal digit. -/
def hexDigitValue (c : Char) : Nat :=
  if c.isDigit then c.toNat - 48 else if 'a' ≤ c then c.toNat - 87 else c.toNat - 55

/-- The exponent that digits with an optional sign spell. -/
def readPower? (cs : List Char) : Option Int :=
  let (isNegative, ds) := match cs with
    | '-' :: ds => (true, ds)
    | '+' :: ds => (false, ds)
    | ds => (false, ds)
  if ds.isEmpty || !ds.all Char.isDigit then none
  else
    -- Larger exponents make no difference.
    let n : Int := (ds.foldl (fun n c => min (n * 10 + (c.toNat - 48)) 100000) 0 : Nat)
    some (if isNegative then -n else n)

/-- The double of hexadecimal digits with an optional point and an exponent of two after `p` or `P`; beyond the
largest double it is infinite. -/
def parseHexadecimal? (cs : List Char) : Option Float := do
  let isPower (c : Char) : Bool := c = 'p' || c = 'P'
  let mantissa := cs.takeWhile fun c => !isPower c
  let digits := mantissa.filter (· ≠ '.')
  if digits.isEmpty || !digits.all isHexDigit || mantissa.length > digits.length + 1 then none
  else
    let power ← readPower? ((cs.dropWhile fun c => !isPower c).drop 1)
    let fraction := ((mantissa.dropWhile (· ≠ '.')).drop 1).length
    let m := digits.foldl (fun n c => n * 16 + hexDigitValue c) 0
    let e : Int := power - 4 * fraction
    if m = 0 || e + Nat.log2 m < -1100 then some 0.0
    else if e + Nat.log2 m > 1100 then some (1.0 / 0.0)
    else
      let exact := if e ≥ 0 then nearest (m * Nat.pow 2 e.toNat) 1 else nearest m (Nat.pow 2 (-e).toNat)
      some (exact.getD (1.0 / 0.0))

/-- The double of digits with an optional point and an optional exponent; beyond the largest double it is
infinite. -/
def parseDecimal? (cs : List Char) : Option Float :=
  let mantissa := cs.takeWhile fun c => c ≠ 'e' && c ≠ 'E'
  let tail := (cs.dropWhile fun c => c ≠ 'e' && c ≠ 'E')
  let digits := mantissa.filter (· ≠ '.')
  if digits.isEmpty || !digits.all Char.isDigit || mantissa.length > digits.length + 1 then none
  else if !tail.isEmpty && (readPower? (tail.drop 1)).isNone then none
  else some (ofLiteral cs).toFloat

/-- Whether a word is the name of an infinity, in any case. -/
def isInfinityName (cs : List Char) : Bool :=
  let word := String.ofList (cs.map Char.toLower)
  word = "inf" || word = "infinity"

/-- The double that a text spells: a decimal or hexadecimal literal with an optional sign, in which underscores
may stand between digits, or the name of an infinity or of what is no number. -/
def parseFloat? (cs : List Char) : Option Float :=
  let (negative, unsigned) := match cs with
    | '-' :: cs => (true, cs)
    | '+' :: cs => (false, cs)
    | cs => (false, cs)
  let signed (x : Float) : Float := if negative then -x else x
  if String.ofList (cs.map Char.toLower) = "nan" then some (0.0 / 0.0)
  else if isInfinityName unsigned then some (signed (1.0 / 0.0))
  else
    let hex? := match unsigned with
      | '0' :: 'x' :: ds | '0' :: 'X' :: ds => if ds.isEmpty then none else some ds
      | _ => none
    match hex? with
    | some ds =>
      if underscoresFit isHexDigit .digit ds then (parseHexadecimal? (ds.filter (· ≠ '_'))).map signed else none
    | none =>
      if underscoresFit Char.isDigit .start unsigned then
        (parseDecimal? (unsigned.filter (· ≠ '_'))).map signed
      else none

/-- The double that a text spells, if it is within the range of doubles. -/
def parseInRange? (cs : List Char) : Option Float :=
  (parseFloat? cs).filter fun x =>
    !x.isInf || isInfinityName cs || isInfinityName (cs.drop 1)

/-- A decimal without zeros at the end of its coefficient; `fuel` bounds their number. -/
def strip : Nat → Decimal → Decimal
  | 0, d => d
  | fuel + 1, d =>
    if d.coefficient % 10 = 0 && d.coefficient ≠ 0 then strip fuel ⟨d.coefficient / 10, d.exponent + 1⟩
    else d

/-- The digits of the coefficient. -/
def digits (d : Decimal) : List Char := Nat.toDigits 10 d.coefficient

/-- The place of the decimal point, counted from the first digit. -/
def point (d : Decimal) : Int := d.digits.length + d.exponent

/-- A decimal in positional notation. -/
def positional (d : Decimal) : String :=
  let ds := d.digits
  let p := d.point
  if d.exponent ≥ 0 then String.ofList (ds ++ List.replicate d.exponent.toNat '0')
  else if p ≤ 0 then
    String.ofList ('0' :: '.' :: List.replicate (-p).toNat '0' ++ ds)
  else String.ofList (ds.take p.toNat ++ '.' :: ds.drop p.toNat)

/-- A decimal in scientific notation; the exponent has a sign and at least `width` digits. -/
def scientific (width : Nat) (d : Decimal) : String :=
  let ds := d.digits
  let e : Int := d.point - 1
  let es := Nat.toDigits 10 e.natAbs
  let mantissa := match ds with
    | [] => []
    | [c] => [c]
    | c :: cs => c :: '.' :: cs
  String.ofList (mantissa ++ 'e' :: (if e < 0 then '-' else '+')
    :: List.replicate (width - es.length) '0' ++ es)

end Decimal

namespace Magnitude

/-- Whether `d` reads back as `m * 2 ^ q`: it lies between the midpoints to the neighbouring doubles,
and on a midpoint only when `m` is even. -/
def readsBack (m : Nat) (q : Int) (d : Decimal) : Bool :=
  -- All numbers are multiplied by four and brought to a common positive scale.
  let below := if m = 2 ^ 52 && q > -1074 then 4 * m - 1 else 4 * m - 2
  let above := 4 * m + 2
  let two := if q ≥ 0 then (Nat.pow 2 q.toNat, 1) else (1, Nat.pow 2 (-q).toNat)
  let ten := if d.exponent ≥ 0 then (Nat.pow 10 d.exponent.toNat, 1) else (1, Nat.pow 10 (-d.exponent).toNat)
  let v := 4 * d.coefficient * ten.1 * two.2
  let lo := below * two.1 * ten.2
  let hi := above * two.1 * ten.2
  if m % 2 = 0 then lo ≤ v && v ≤ hi else lo < v && v < hi

/-- Of the decimals with exponent `e`, the neighbours of `m * 2 ^ q` from below and above, and the
nearer of the two, a half going to the even coefficient. -/
def neighbours (m : Nat) (q : Int) (e : Int) : Decimal × Decimal × Decimal :=
  let num := m * (if q ≥ 0 then Nat.pow 2 q.toNat else 1) * (if e < 0 then Nat.pow 10 (-e).toNat else 1)
  let den := (if q < 0 then Nat.pow 2 (-q).toNat else 1) * (if e ≥ 0 then Nat.pow 10 e.toNat else 1)
  let c := num / den
  (⟨c, e⟩, ⟨c + 1, e⟩, ⟨Decimal.roundDiv num den, e⟩)

/-- The first decimal that reads back when the exponent falls from `e`, `fuel` steps at most. -/
def search (m : Nat) (q : Int) : Nat → Int → Decimal
  | 0, e => (neighbours m q e).2.2
  | fuel + 1, e =>
    let (low, high, near) := neighbours m q e
    if near.coefficient ≠ 0 && readsBack m q near then near
    else if low.coefficient ≠ 0 && readsBack m q low then low
    else if readsBack m q high then high
    else search m q fuel (e - 1)

/-- The shortest decimal that reads back as `m * 2 ^ q`, and of these the nearest. -/
def shortest (m : Nat) (q : Int) : Decimal :=
  -- An exponent at which the value has at most one digit.
  let bits : Int := (Nat.log2 m : Int) + q
  let e : Int := bits * 30103 / 100000 + 1
  (search m q 20 e).strip 20

end Magnitude

/-- How a double is written. -/
structure FloatFormat where
  /-- Whether a decimal is written in positional notation. -/
  positional : Decimal → Bool
  /-- The least number of digits of an exponent. -/
  exponentWidth : Nat

/-- A double by its shortest decimal, in the given format. -/
def FloatFormat.render (format : FloatFormat) (x : Float) : String :=
  let sign := if signBit x then "-" else ""
  match Magnitude.ofFloat x with
  | .zero => sign ++ "0"
  | .infinite => if signBit x then "-Inf" else "+Inf"
  | .notNumber => "NaN"
  | .finite m q =>
    let d := Magnitude.shortest m q
    sign ++ (if format.positional d then d.positional else d.scientific format.exponentWidth)

/-- Every double in positional notation. -/
def FloatFormat.plain : FloatFormat := ⟨fun _ => true, 2⟩

/-- Scientific notation below a millionth and from `10 ^ 21` on, with a short exponent. -/
def FloatFormat.json : FloatFormat := ⟨fun d => -6 < d.point && d.point ≤ 21, 1⟩

/-- Scientific notation below a ten-thousandth and from a million on. -/
def FloatFormat.general : FloatFormat := ⟨fun d => -4 < d.point && d.point ≤ 6, 2⟩

/-- The whole part of a double that is finite, toward zero. -/
def wholePart (x : Float) : Option Int :=
  match Magnitude.ofFloat x with
  | .zero => some 0
  | .infinite => none
  | .notNumber => none
  | .finite m q =>
    let n : Nat := if q ≥ 0 then m * Nat.pow 2 q.toNat else m / Nat.pow 2 (-q).toNat
    some (if signBit x then -(n : Int) else n)

/-- Whether a double is a whole number. -/
def isWhole (x : Float) : Bool :=
  match Magnitude.ofFloat x with
  | .zero => true
  | .infinite => false
  | .notNumber => false
  | .finite m q => q ≥ 0 || m % Nat.pow 2 (-q).toNat = 0

/-- The double nearest to a whole number. -/
def floatOfInt (n : Int) : Float :=
  if n = 0 then 0.0
  else
    let m := (Decimal.nearest n.natAbs 1).getD (1.0 / 0.0)
    if n < 0 then -m else m

end ScriptEngine
