import ScriptEngine.Base64
import ScriptEngine.Json.Reader
import ScriptEngine.Secret.Digest
/-!
# Signed tokens

A token is a header, some claims and a signature, each in base 64 and joined by points. The signature is a
keyed digest of the two parts before it, so that only the owner of the secret can have made it. Claims may
say from when and until when a token is good.
-/

namespace ScriptEngine.WebToken

/-- The digests by which tokens are signed. -/
inductive Method where
  | hs256 | hs384 | hs512
deriving DecidableEq, Repr

/-- The method with a name. -/
def Method.ofName? (name : Text) : Option Method :=
  if name = "HS256" then some .hs256
  else if name = "HS384" then some .hs384
  else if name = "HS512" then some .hs512
  else none

/-- The signature of bytes under a secret. -/
def Method.signature (m : Method) (secret bytes : List UInt8) : List UInt8 :=
  match m with
  | .hs256 => Digest.keyed Digest.sha256 64 secret bytes
  | .hs384 => Digest.keyed Digest.sha384 128 secret bytes
  | .hs512 => Digest.keyed Digest.sha512 128 secret bytes

/-- The header of new tokens. -/
def header : Text := "\x7b\"alg\":\"HS256\",\"typ\":\"JWT\"\x7d"

/-- Bytes in base 64. -/
def encode (t : Text) : Text := ⟨Base64.url.encode t.bytes⟩

/-- The bytes of a part of a token. -/
def decode? (t : Text) : Option Text :=
  match Base64.url.decode t.bytes with
  | .ok bytes => some ⟨bytes⟩
  | .error _ => none

/-- The token of claims in compact text. -/
def sign (claims secret : Text) : Text :=
  let signed := encode header ++ "." ++ encode claims
  signed ++ "." ++ encode ⟨Method.hs256.signature secret.bytes signed.bytes⟩

/-- The seconds that a claim gives: `none` when it is no number; zero and a missing claim give no
bound. -/
def moment? (claims : List (Text × Json)) (name : Text) : Option (Option Int) :=
  match Json.lookup name claims with
  | none => some none
  | some (.double x) =>
    if x == 0.0 then some none
    else
      let n := (wholePart x).getD (-(2 ^ 63))
      some (some (if -(2 ^ 63) ≤ n && n < 2 ^ 63 then n else -(2 ^ 63)))
  | some _ => none

/-- Seconds from the start of 1970 as seconds from the start of the first year, in signed 64 bits. -/
def sinceFirstYear (seconds : Int) : Int64 := Int64.ofInt (seconds + 62135596800)

/-- Whether claims are good at a time, in seconds from the start of 1970. -/
def isGood (claims : List (Text × Json)) (now : Int) : Bool :=
  match moment? claims "exp", moment? claims "nbf" with
  | some last, some first =>
    last.all (sinceFirstYear now < sinceFirstYear ·) && first.all (sinceFirstYear · ≤ sinceFirstYear now)
  | _, _ => false

/-- The claims of a token, if its signature is right and it is good at a time. -/
def verify? (token secret : Text) (now : Int) : Option (List (Text × Json)) := do
  match token.splitOn "." with
  | [head, body, tail] =>
    let opened ← decode? head
    let method ← match Json.decodeDoubles opened with
      | .ok (.object entries) =>
        match Json.lookup "alg" entries with
        | some (.text name) => Method.ofName? name
        | _ => none
      | _ => none
    let claims ← match Json.decodeDoubles (← decode? body) with
      | .ok (.object entries) => some entries
      | .ok .null => some []
      | _ => none
    let signature ← decode? tail
    let signed := head ++ "." ++ body
    if method.signature secret.bytes signed.bytes = signature.bytes && isGood claims now then
      some claims
    else none
  | _ => none

end ScriptEngine.WebToken
