import ScriptEngine.Date.Layout
import ScriptEngine.Decimal
import ScriptEngine.Fault
import ScriptEngine.Kind
/-!
# Values

A value is a scalar, or the address of something that is changed in place and may be shared: an array,
a queue, a json value, a picture or a function.
-/

namespace ScriptEngine

/-- A value of the script language. -/
inductive Value where
  | null
  | bool (b : Bool)
  | byte (n : UInt8)
  | int (n : Int32)
  | long (n : Int64)
  | double (x : Float)
  | string (t : Text)
  | date (d : Date)
  | array (address : Nat)
  | queue (address : Nat)
  | json (address : Nat)
  | image (address : Nat)
  | vectorImage (address : Nat)
  | canvas (address : Nat)
  | function (address : Nat)
deriving Inhabited

namespace Value

/-- Whether a value is null. -/
def isNull : Value → Bool
  | null => true
  | _ => false

/-- A whole number as an int when it fits 32 bits, and as a long otherwise. -/
def ofInt64 (n : Int64) : Value :=
  if -2147483648 ≤ n.toInt && n.toInt ≤ 2147483647 then int (Int32.ofInt n.toInt) else long n

/-- The whole number that an integer value holds. -/
def toInt64? : Value → Option Int64
  | byte n => some (Int64.ofNat n.toNat)
  | int n => some n.toInt64
  | long n => some n
  | _ => none

/-- The number that a numeric value holds, as a double. -/
def toFloat? : Value → Option Float
  | byte n => some (Float.ofNat n.toNat)
  | int n => some (floatOfInt n.toInt)
  | long n => some (floatOfInt n.toInt)
  | double x => some x
  | _ => none

/-- The value that stands for a missing one of a kind. -/
def zero : Kind → Value
  | .bool => bool false
  | .byte => byte 0
  | .int => int 0
  | .long => long 0
  | .double => double 0.0
  | .string => string ""
  | _ => null

/-- A double as scripts show it: without exponent, and with a point. -/
def inspectDouble (x : Float) : Text :=
  let s := FloatFormat.plain.render x
  if s.toList.any fun c => c = '.' || c = 'e' || c = 'E' || c = 'n' || c = 'N' then s else s ++ ".0"

end Value

/-- A number without a point when it is whole, for messages. -/
def formatNumber (x : Float) : Text :=
  if isWhole x && Float.abs x < 1000000000000000.0 then toString ((wholePart x).getD 0)
  else FloatFormat.plain.render x

/-- What a statement leaves behind when it does not fail. -/
inductive Flow where
  | value (v : Value)
  | returned (v : Value)
  | broken
  | continued
deriving Inhabited

/-- Whether a statement ended more than itself. -/
def Flow.isSignal : Flow → Bool
  | value _ => false
  | _ => true

end ScriptEngine
