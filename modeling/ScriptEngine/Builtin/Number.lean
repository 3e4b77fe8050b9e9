import ScriptEngine.Builtin
import ScriptEngine.Builtin.Arguments
import ScriptEngine.Double
import ScriptEngine.Store.Coerce
/-!
# Builtins on numbers
-/

namespace ScriptEngine

namespace MathOp

/-- A number as a value of the kind of its operand. -/
def likeOperand (operand : Value) (x : Float) : Value :=
  match operand with
  | .byte _ | .int _ => .ofInt64 (Int64.ofInt (Args.wholeOf x))
  | .long _ => .long (Int64.ofInt (Args.wholeOf x))
  | _ => .double x

/-- A whole number as a long; what does not fit, and what comes from no number, is the least long. -/
def toLong (x : Float) (n : Int) : Value :=
  let fits := x.isFinite && -(2 ^ 63) ≤ n && n < 2 ^ 63
  .long (Int64.ofInt (if fits then n else -(2 ^ 63)))

/-- The first of two values if it comes before the other or equals it, and the other otherwise. -/
def least (a b : Value) (wantLess : Bool) : Exec Value := do
  let o ← Exec.ofExcept ((← get).store.order a b)
  pure (if (o != .gt) == wantLess then a else b)

/-- A random number from zero to one. -/
def randomUnit : Exec Float := do
  let n ← Exec.random
  pure (Float.ofScientific (n.toNat / 2 ^ 11) false 0 / 9007199254740992.0)

/-- A random whole number between two bounds. The number of choices is a word of 64 bits; when there are more
than it holds, nothing can be chosen and the run crashes. -/
def randomBetween (lo hi : Int) : Exec Value := do
  if hi < lo then
    throw (Fault.raised Fault.mathError ("empty range [" ++ toString lo ++ ", " ++ toString hi ++ "]"))
  let choices := (Int64.ofInt (hi - lo + 1)).toInt
  if choices ≤ 0 then Exec.crash "invalid argument to Int64N"
  let n ← Exec.random
  pure (.ofInt64 (Int64.ofInt (lo + (n.toNat : Int) % choices)))

/-- Runs an operation. -/
def run (op : MathOp) (args : Args) : Exec Value := do
  let x := args.float 0
  match op with
  | .abs => pure (likeOperand (args.value 0) x.abs)
  | .min => least (args.value 0) (args.value 1) true
  | .max => least (args.value 0) (args.value 1) false
  | .sqrt =>
    if x < 0.0 then
      throw (Fault.raised Fault.mathError ("square root of negative number " ++ formatNumber x))
    pure (.double x.sqrt)
  | .pow => pure (.double (Double.power x (args.float 1)))
  | .round => pure (toLong x (Double.round x))
  | .floor => pure (toLong x (Double.floor x))
  | .ceil => pure (toLong x (Double.ceil x))
  | .random =>
    if args.isNull 0 then pure (.double (← randomUnit))
    else if args.isNull 1 then randomBetween 0 (args.int 0)
    else randomBetween (args.int 0) (args.int 1)

end MathOp

end ScriptEngine
