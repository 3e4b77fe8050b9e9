import ScriptEngine.Builtin.Sequence
import ScriptEngine.Pattern.Replace
import ScriptEngine.Text.Case
import ScriptEngine.Text.Charset
/-!
# Builtins on strings

Places in a string count characters, not bytes; a stray byte counts as a character and is written back as
U+FFFD when a piece of the string is taken out by place.
-/

namespace ScriptEngine

namespace StrOp

/-- The character set with a name in any case; no name means UTF-8. -/
def charset (name : Text) : Exec Charset := do
  match Charset.find? (if name.isEmpty then "utf-8" else name.lower) with
  | some s => pure s
  | none => throw (Fault.raised Fault.validationError ("unsupported charset " ++ name.quoted))

/-- The characters of a text from one place up to another. -/
def piece (t : Text) (start stop : Int) : Exec Text := do
  let cs := t.chars
  if start < 0 || stop > cs.length || start > stop then
    throw (Fault.badIndex
      ("range [" ++ ToString.toString start ++ ", " ++ ToString.toString stop ++ ") out of bounds for length "
        ++ ToString.toString cs.length))
  pure (.ofChars ((cs.take stop.toNat).drop start.toNat))

/-- The place of the first occurrence of a text at or behind the place `start`. -/
def indexFrom? (t find : Text) (start : Int) : Option Nat := do
  let cs := t.chars
  guard (0 ≤ start && start ≤ cs.length)
  let rest := Text.ofChars (cs.drop start.toNat)
  let offset ← rest.find? find
  return start.toNat + (rest.take offset).length

/-- The place of the last occurrence of a text. -/
def lastIndex? (t find : Text) : Option Nat := (t.findLast? find).map fun offset => (t.take offset).length

/-- A place as an int; no place is -1. -/
def placeValue : Option Nat → Value
  | some n => .ofNat n
  | none => .int (-1)

/-- The filling that makes a text `n` characters long, out of copies of `pad`. -/
def filling (t : Text) (n : Int) (pad : Text) : Exec Text := do
  if pad.isEmpty then throw (Fault.raised Fault.validationError "pad string must not be empty")
  let missing := (n - t.length).toNat
  pure (.ofChars ((Text.replicate missing pad).chars.take missing))

/-- Runs an operation. -/
def run (op : StrOp) (args : Args) : Exec Value := do
  match op with
  | .toUpper => do pure (.string (← args.text 0).toUpper)
  | .toLower => do pure (.string (← args.text 0).toLower)
  | .trim => do pure (.string (← args.text 0).trim)
  | .length => do pure (.ofNat (← args.text 0).length)
  | .substring =>
    let t ← args.text 0
    pure (.string (← piece t (args.int 1) (args.intOr 2 t.length)))
  | .indexOf => do pure (placeValue (indexFrom? (← args.text 0) (← args.text 1) (args.intOr 2 0)))
  | .lastIndexOf => do pure (placeValue (lastIndex? (← args.text 0) (← args.text 1)))
  | .contains => do pure (.bool ((← args.text 0).contains (← args.text 1)))
  | .startsWith => do pure (.bool ((← args.text 0).startsWith (← args.text 1)))
  | .endsWith => do pure (.bool ((← args.text 0).endsWith (← args.text 1)))
  | .replace => do pure (.string ((← args.text 0).replace (← args.text 1) (← args.text 2)))
  | .replaceAll =>
    match Pattern.Searcher.ofText (← args.text 1) with
    | .ok s => do pure (.string (s.replaceAll (← args.text 0) (← args.text 2)))
    | .error t => throw (Fault.raised Fault.validationError ("invalid pattern: " ++ t.message))
  | .split =>
    let t ← args.text 0
    let sep ← args.textOr 1 ","
    Exec.onStore (StoreM.newTexts (if t.isEmpty then [] else t.splitOn sep))
  | .join =>
    let items := (← Exec.arrayAt (← args.array 0)).cells.toList
    let sep ← args.textOr 1 ","
    pure (.string (Text.join sep (← items.mapM Exec.inspect)))
  | .lpad =>
    let t ← args.text 0
    pure (.string ((← filling t (args.int 1) (← args.textOr 2 " ")) ++ t))
  | .rpad =>
    let t ← args.text 0
    pure (.string (t ++ (← filling t (args.int 1) (← args.textOr 2 " "))))
  | .charAt =>
    let cs := (← args.text 0).chars
    let i := args.int 1
    match if i < 0 then none else cs[i.toNat]? with
    | some c => pure (.string (.ofChar c))
    | none => throw (StoreM.outOfBounds i cs.length)
  | .isEmpty => do pure (.bool (← args.textOr 0 "").isEmpty)
  | .isBlank => do pure (.bool (← args.textOr 0 "").trim.isEmpty)
  | .equals => do pure (.bool ((← args.textOr 0 "") == (← args.textOr 1 "")))
  | .equalsIgnoreCase => do pure (.bool ((← args.textOr 0 "").sameFolded (← args.textOr 1 "")))
  | .toString => do pure (.string (← Exec.inspect (args.value 0)))
  | .encode =>
    let s ← charset (← args.textOr 1 "")
    match s.encode? (← args.text 0) with
    | some bytes => StoreM.newBytes bytes
    | none =>
      throw (Fault.raised Fault.validationError "cannot encode: encoding: rune not supported by encoding.")
  | .decode =>
    let a ← args.array 0
    let s ← charset (← args.textOr 1 "")
    pure (.string (s.decode (← Exec.arrayAt a).toBytes))

end StrOp

end ScriptEngine
