import ScriptEngine.Decimal
/-!
# Bare words

A bare word in a document is a text unless it is a keyword or spells a number. A number may have a sign; a leading
zero, `0o`, `0x` and `0b` choose a base, underscores between digits are left out, and a point makes a double.
-/

namespace ScriptEngine.Yaml

/-- What a bare word stands for. -/
inductive Word where
  | null
  | bool (b : Bool)
  | infinity (isNegative : Bool)
  | noNumber
  | int (n : Int)
  | float (x : Float)
  | text

/-- What comes of reading a word as a number. -/
inductive NumberReading where
  | none
  /-- The word spells a number that 64 bits can not hold. -/
  | tooLarge
  | int (n : Int)
  | float (x : Float)

/-- The value of a digit in bases up to sixteen. -/
def digitValue? (base : Nat) (c : Char) : Option Nat :=
  let n := c.toNat
  let v? :=
    if 48 ≤ n && n ≤ 57 then some (n - 48)
    else if 97 ≤ n && n ≤ 122 then some (n - 87)
    else if 65 ≤ n && n ≤ 90 then some (n - 55)
    else none
  v?.filter (· < base)

/-- Reads digits from the left as an unsigned number of 64 bits; what comes first, a wrong digit or the end of the
range, decides. -/
def readDigits (base : Nat) : Nat → List Char → NumberReading
  | n, [] => .int n
  | n, c :: cs =>
    match digitValue? base c with
    | none => .none
    | some d => if n * base + d < 2 ^ 64 then readDigits base (n * base + d) cs else .tooLarge

/-- The whole number of digits behind an optional minus sign. -/
def readWhole (isNegative : Bool) (base : Nat) (cs : List Char) : NumberReading :=
  if cs.isEmpty then .none
  else match readDigits base 0 cs with
    | .int n => if !isNegative then .int n else if n ≤ 2 ^ 63 then .int (-n) else .tooLarge
    | r => r

/-- The double of digits with a point behind an optional minus sign. -/
def readDouble (isNegative : Bool) (cs : List Char) : NumberReading :=
  match Decimal.parseFloat? (if isNegative then '-' :: cs else cs) with
  | some x => if x.isInf then .tooLarge else .float x
  | none => .none

/-- The number that a word spells. -/
def readNumber (cs : List Char) : NumberReading :=
  let points := (cs.filter (· = '.')).length
  if cs.isEmpty || cs.head? = some '_' || points > 1 then .none
  else
    let isNegative := cs.head? = some '-'
    let cs := if cs.head? = some '+' then cs.drop 1 else cs
    let cs := if cs.head? = some '-' then cs.drop 1 else cs
    match cs.filter (· ≠ '_') with
    | '0' :: 'x' :: ds => readWhole isNegative 16 ds
    | '0' :: 'o' :: ds => readWhole isNegative 8 ds
    | '0' :: 'b' :: ds => readWhole isNegative 2 ds
    | ds =>
      if ds.head? = some '0' && ds.length > 1 && points = 0 then readWhole isNegative 8 ds
      else if points = 1 then readDouble isNegative ds
      else readWhole isNegative 10 ds

/-- The words that stand for something other than themselves. -/
def keyword? (w : String) : Option Word :=
  match w with
  | "null" | "Null" | "NULL" | "~" => some .null
  | "true" | "True" | "TRUE" => some (.bool true)
  | "false" | "False" | "FALSE" => some (.bool false)
  | ".inf" | ".Inf" | ".INF" => some (.infinity false)
  | "-.inf" | "-.Inf" | "-.INF" => some (.infinity true)
  | ".nan" | ".NaN" | ".NAN" => some .noNumber
  | _ => none

/-- What a bare word stands for. A number that 64 bits can not hold is a text. -/
def Word.ofChars (cs : List Char) : Word :=
  match keyword? (String.ofList cs) with
  | some w => w
  | none =>
    match readNumber cs with
    | .int n => .int n
    | .float x => .float x
    | _ => .text

end ScriptEngine.Yaml
