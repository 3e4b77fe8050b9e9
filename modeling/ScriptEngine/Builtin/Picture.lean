import ScriptEngine.Builtin
import ScriptEngine.Builtin.Files
import ScriptEngine.Picture.File
/-!
# Builtins on pictures

Scripts see of a picture its width and height only, so that is what is kept of it.
-/

namespace ScriptEngine

namespace ImageOp

/-- The greatest width and height. -/
def maxSide : Int := 16384

/-- The picture that the first argument is. -/
def target (args : Args) : Exec (Nat × Picture) := do
  match args.value 0 with
  | .image a => do pure (a, (← get).store.picture a)
  | v => throw (Fault.wrongType ("expected an image, got " ++ (← Exec.kindOf v).name))

/-- The size that two arguments give. -/
def sizeOf (args : Args) (i : Nat) : Exec Picture := do
  let w := args.int i
  let h := args.int (i + 1)
  if w ≤ 0 || h ≤ 0 || maxSide < w || maxSide < h then
    throw (Fault.raised Fault.validationError
      ("image size " ++ toString w ++ "x" ++ toString h ++ " out of range"))
  pure ⟨w.toNat, h.toNat, ""⟩

/-- Whether a text is a color: a hash sign and three or six hexadecimal digits. -/
def isColor (t : Text) : Bool :=
  match t.bytes with
  | 0x23 :: digits =>
    (digits.length = 3 || digits.length = 6) && digits.all fun b => (Text.hexValue? b).isSome
  | _ => false

/-- A fresh image. -/
def newImage (p : Picture) : Exec Value := do pure (.image (← StoreM.newPicture p))

/-- Runs an operation. -/
def run (op : ImageOp) (args : Args) : Exec Value := do
  match op with
  | .create => newImage (← sizeOf args 0)
  | .width => do pure (.int (Int32.ofNat (← target args).2.width))
  | .height => do pure (.int (Int32.ofNat (← target args).2.height))
  | .fill =>
    let (a, _) ← target args
    let color ← args.text 1
    if !isColor color then
      throw (Fault.raised Fault.validationError ("invalid color " ++ color.quoted))
    pure (.image a)
  | .scale =>
    let _ ← target args
    newImage (← sizeOf args 1)
  | .savePng =>
    let (_, p) ← target args
    let path ← args.text 1
    FileOp.change "create" path "open" (·.write path p.save)
  | .loadPng =>
    let path ← args.text 0
    let parse (t : Text) : Exec Value :=
      match Picture.load t with
      | .ok p => newImage p
      | .error e => throw (Fault.raised Fault.parseError ("decode " ++ path ++ ": " ++ e.message))
    match (← Exec.host).files.read path with
    | .ok t => parse t
    | .error .isDirectory =>
      throw (Fault.raised Fault.parseError
        ("decode " ++ path ++ ": read " ++ path ++ ": is a directory"))
    | .error t => throw (t.fault "open" path "open")

end ImageOp

end ScriptEngine
