import ScriptEngine.Decimal
/-!
# Functions on doubles

Remainders and powers of doubles. A remainder is exact. A power with a whole exponent is a product by
repeated squaring of mantissas in `[1/2, 1)`, with the exponents of two apart; a fractional rest of the
exponent goes through the exponential and the logarithm, each evaluated by a fixed sum in double
arithmetic.
-/

namespace ScriptEngine.Double

/-- The infinite double. -/
def infinity : Float := 1.0 / 0.0

/-- The double that is no number. -/
def notNumber : Float := 0.0 / 0.0

/-- A double with the sign of another. -/
def withSign (x : Float) (negative : Bool) : Float :=
  if negative then -(Float.abs x) else Float.abs x

/-- The double nearest to `n * 2 ^ e`. -/
def ofScaled (n : Nat) (e : Int) : Float :=
  if n = 0 then 0.0
  else if e ≥ 0 then (if e > 2000 then infinity else (Decimal.nearest (n * Nat.pow 2 e.toNat) 1).getD infinity)
  else (Decimal.nearest n (Nat.pow 2 (-e).toNat)).getD infinity

/-- The remainder of a division toward zero; it has the sign of the dividend. -/
def remainder (x y : Float) : Float :=
  match Magnitude.ofFloat x, Magnitude.ofFloat y with
  | .notNumber, _ | _, .notNumber | .infinite, _ | _, .zero => notNumber
  | .zero, _ | _, .infinite => x
  | .finite m p, .finite n q =>
    let e := min p q
    let r := (m * Nat.pow 2 (p - e).toNat) % (n * Nat.pow 2 (q - e).toNat)
    withSign (ofScaled r e) (signBit x)

/-- A double as a mantissa of at least a half and below one, and a power of two. -/
def split (x : Float) : Float × Int :=
  match Magnitude.ofFloat x with
  | .finite m q =>
    let bits : Int := Nat.log2 m + 1
    (withSign (ofScaled m (-bits)) (signBit x), q + bits)
  | _ => (x, 0)

/-- A double as a mantissa and a power of two, read off its bits: a positive double below the normal ones counts
as if its first bit were set as theirs is. -/
def splitBits (x : Float) : Float × Int :=
  match Magnitude.ofFloat x with
  | .finite m q => if m < 2 ^ 52 then (ofScaled (2 ^ 52 + m) (-53), -1022) else (ofScaled m (-53), q + 53)
  | _ => (x, 0)

/-- A double times a power of two. -/
def scale (x : Float) (e : Int) : Float :=
  match Magnitude.ofFloat x with
  | .finite m q =>
    let e := q + e
    withSign (if e > 1100 then infinity else if e < -1200 then 0.0 else ofScaled m e) (signBit x)
  | _ => x

/-- A finite double as a whole number times a power of two. -/
def exact (x : Float) : Int × Int :=
  match Magnitude.ofFloat x with
  | .finite m q => (if signBit x then -(m : Int) else m, q)
  | _ => (0, 0)

/-- `x * y + z` for finite doubles, rounded once. -/
def multiplyAdd (x y z : Float) : Float :=
  let (a, p) := exact x
  let (b, q) := exact y
  let (c, r) := exact z
  let e := min (p + q) r
  let n : Int := a * b * Nat.pow 2 (p + q - e).toNat + c * Nat.pow 2 (r - e).toNat
  withSign (ofScaled n.natAbs e) (n < 0)

/-- A double rounded to the nearest whole number, a half going to the even one. -/
def nearestInt (x : Float) : Int :=
  match Magnitude.ofFloat x with
  | .finite m q =>
    let n : Int := if q ≥ 0 then m * Nat.pow 2 q.toNat else Decimal.roundDiv m (Nat.pow 2 (-q).toNat)
    if signBit x then -n else n
  | _ => 0

/-- The exponential. The argument is brought near zero by a multiple of the logarithm of two, a power
series is summed for a sixteenth of it, and the sum is squared four times. -/
def exp (x : Float) : Float :=
  match Magnitude.ofFloat x with
  | .notNumber => x
  | .infinite => if signBit x then 0.0 else x
  | _ =>
    if x > 709.782712893384 then infinity
    else if x < -745.2 then 0.0
    else
      let n := nearestInt (1.4426950408889634 * x)
      let k := floatOfInt n
      let r := multiplyAdd (-k) 0.69314718055966295651160180568695068359375 x
      let r := multiplyAdd (-k) 0.28235290563031577122588448175013436025525412068e-12 r
      let r := r * 0.0625
      let coefficients : List Float := [1.9841269841269841270e-4, 1.3888888888888888889e-3,
        8.3333333333333333333e-3, 4.1666666666666666667e-2, 1.6666666666666666667e-1, 0.5, 1.0]
      let sum := coefficients.foldl (fun s c => multiplyAdd s r c) 2.4801587301587301587e-5
      let square (y : Float) : Float := y * (2.0 + y)
      let y := square (square (square (r * sum)))
      scale (multiplyAdd y (2.0 + y) 1.0) n

/-- The natural logarithm, by a series in `(f - 1) / (f + 1)` for the mantissa `f`. It is off for doubles below the
normal ones, whose mantissa is taken from their bits. -/
def log (x : Float) : Float :=
  if x.isNaN || x == infinity then x
  else if x < 0.0 then notNumber
  else if x == 0.0 then -infinity
  else
    let (f, k) := splitBits x
    let (f, k) := if f < 0.7071067811865476 then (f * 2.0, k - 1) else (f, k)
    let f := f - 1.0
    let k := floatOfInt k
    let s := f / (2.0 + f)
    let s2 := s * s
    let s4 := s2 * s2
    let t1 := s2 * (6.666666666666735130e-01 + s4 * (2.857142874366239149e-01
      + s4 * (1.818357216161805012e-01 + s4 * 1.479819860511658591e-01)))
    let t2 := s4 * (3.999999999940941908e-01 + s4 * (2.222219843214978396e-01
      + s4 * 1.531383769920937332e-01))
    let r := t1 + t2
    let half := 0.5 * f * f
    k * 6.93147180369123816490e-01 - ((half - (s * (half + r) + k * 1.90821492927058770002e-10)) - f)

/-- The state of a power by repeated squaring: the product so far and the current square, each as a
mantissa and a power of two. -/
structure Squaring where
  product : Float
  productExp : Int
  square : Float
  squareExp : Int

/-- Multiplies the squares for the bits of an exponent, lowest first. -/
def squarings : Nat → Nat → Squaring → Squaring
  | 0, _, s => s
  | fuel + 1, i, s =>
    if i = 0 then s
    else if s.squareExp < -4096 || 4096 < s.squareExp then
      { s with productExp := s.productExp + s.squareExp }
    else
      let s := if i % 2 = 1 then
          { s with product := s.product * s.square, productExp := s.productExp + s.squareExp }
        else s
      let sq := s.square * s.square
      let e := s.squareExp * 2
      let s := if sq < 0.5 then { s with square := sq + sq, squareExp := e - 1 }
        else { s with square := sq, squareExp := e }
      squarings fuel (i / 2) s

/-- Whether a double is an odd whole number. -/
def isOdd (x : Float) : Bool := isWhole x && ((wholePart x).getD 0) % 2 ≠ 0

/-- A power for a finite base that is not zero and a finite exponent. -/
def finitePower (x y : Float) : Float :=
  let whole := ((wholePart (Float.abs y)).getD 0).toNat
  let fraction := Float.abs y - floatOfInt whole
  if fraction != 0.0 && x < 0.0 then notNumber
  else if whole ≥ 2 ^ 63 then
    if x == -1.0 then 1.0
    else if (Float.abs x < 1.0) == (y > 0.0) then 0.0
    else infinity
  else
    let (whole, fraction) := if fraction > 0.5 then (whole + 1, fraction - 1.0) else (whole, fraction)
    let start := if fraction != 0.0 then exp (fraction * log x) else 1.0
    let (m, e) := split x
    let s := squarings 64 whole ⟨start, 0, m, e⟩
    if y < 0.0 then scale (1.0 / s.product) (-s.productExp) else scale s.product s.productExp

/-- A power of doubles. -/
def power (x y : Float) : Float :=
  if y == 0.0 || x == 1.0 then 1.0
  else if y == 1.0 then x
  else if x.isNaN || y.isNaN then notNumber
  else if x == 0.0 then
    if y < 0.0 then (if signBit x && isOdd y then -infinity else infinity)
    else if signBit x && isOdd y then x else 0.0
  else if y.isInf then
    if x == -1.0 then 1.0
    else if (Float.abs x < 1.0) == (y > 0.0) then 0.0
    else infinity
  else if x.isInf then
    if x < 0.0 then
      if y > 0.0 then (if isOdd y then -infinity else infinity)
      else if isOdd y then -0.0 else 0.0
    else if y < 0.0 then 0.0 else infinity
  else if y == 0.5 then Float.sqrt x
  else if y == -0.5 then 1.0 / Float.sqrt x
  else finitePower x y

/-- The greatest whole number that a finite double is not below. -/
def floor (x : Float) : Int :=
  let n := (wholePart x).getD 0
  if x < 0.0 && !isWhole x then n - 1 else n

/-- The least whole number that a finite double is not above. -/
def ceil (x : Float) : Int :=
  let n := (wholePart x).getD 0
  if x > 0.0 && !isWhole x then n + 1 else n

/-- The whole number nearest to a finite double, a half going away from zero. -/
def round (x : Float) : Int :=
  match Magnitude.ofFloat x with
  | .finite m q =>
    let n : Int := if q ≥ 0 then m * Nat.pow 2 q.toNat
      else ((2 * m + Nat.pow 2 (-q).toNat) / (2 * Nat.pow 2 (-q).toNat) : Nat)
    if signBit x then -n else n
  | _ => 0

end ScriptEngine.Double
