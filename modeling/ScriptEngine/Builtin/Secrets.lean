import ScriptEngine.Builtin
import ScriptEngine.Builtin.Document
import ScriptEngine.Secret.Password
import ScriptEngine.Secret.WebToken
/-!
# Builtins on digests, passwords and tokens
-/

namespace ScriptEngine

namespace CryptoOp

/-- Some random bytes. -/
def randomBytes : Nat → Exec (List UInt8)
  | 0 => pure []
  | n + 1 => do
    let x ← Exec.random
    let rest ← randomBytes n
    pure (x.toUInt8 :: rest)

/-- The hash of a password under a random salt. -/
def hashOf (password : Text) : Exec Value := do
  if Password.maxSize < password.size then
    throw (Fault.raised Fault.validationError "bcrypt: password length exceeds 72 bytes")
  let salt ← randomBytes 16
  pure (.string (Password.hash password.bytes salt Password.defaultCost))

/-- The claims with the time at which they run out, if a duration is given. -/
def withExpiry (claims : List (Text × Json)) (span : Text) (now : Date) :
    Except Fault (List (Text × Json)) :=
  if span.isEmpty then .ok claims
  else match Duration.parse span with
    | .error e =>
      .error (Fault.raised Fault.validationError ("invalid duration: " ++ e.message))
    | .ok d =>
      let seconds := now.seconds + ((now.nanos : Int) + d).fdiv Duration.second
      .ok (Json.insert "exp" (.int (Int64.ofInt seconds)) claims)

/-- Signs claims. -/
def signed (args : Args) : Exec Value := do
  match ← Exec.tree (← args.node 0) with
  | .object claims =>
    let secret ← args.text 1
    let claims ← Exec.ofExcept (withExpiry claims (← args.text 2) (← Exec.host).clock)
    match (Json.object claims).encode with
    | .ok t => pure (.string (WebToken.sign t secret))
    | .error e => throw (Fault.raised Fault.validationError e)
  | _ => throw (Fault.wrongType "jwt claims must be a json object")

/-- Runs an operation. -/
def run (op : CryptoOp) (args : Args) : Exec Value := do
  match op with
  | .hashPassword => hashOf (← args.text 0)
  | .verifyPassword =>
    let hash ← args.text 0
    let password ← args.text 1
    pure (.bool (Password.verify hash password.bytes))
  | .jwtSign => signed args
  | .jwtVerify =>
    let token ← args.text 0
    let secret ← args.text 1
    match WebToken.verify? token secret (← Exec.host).wallClock.seconds with
    | none => pure .null
    | some claims =>
      Exec.onStore do StoreM.newBox (← StoreM.ofTree (Json.object claims).normalize)
  | .sha256 => do pure (.string (Digest.hex (Digest.sha256 (← args.text 0).bytes)))

end CryptoOp

end ScriptEngine
