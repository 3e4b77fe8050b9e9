import ScriptEngine.Host.NumericAddress
/-!
# Addresses on the web

An address has a scheme, a host with an optional user in front, a path, a query and a fragment. Bytes may
be written by a percent sign and two hexadecimal digits.
-/

namespace ScriptEngine

/-- A user in front of a host. -/
structure Address.User where
  name : Text
  password : Option Text

/-- An address. -/
structure Address where
  scheme : Text
  /-- What follows the scheme when that is not a path. -/
  rootless : Option Text
  user : Option Address.User
  /-- The host, if two slashes announce one. -/
  host : Option Text
  path : Text
  /-- The query, if a question mark announces one. -/
  query : Option Text
  fragment : Text

namespace Address

/-- Why a text is not an address. -/
inductive Trouble where
  | control
  | missingScheme
  | colonInPath
  | badEscape (s : Text)
  | badPort (s : Text)
  | badHost (s : Text)
  | missingBracket
  | badNumber (s : Text) (why : NumericAddress.Trouble)
  | badLiteral
  | badUser

/-- The wording of a trouble. -/
def Trouble.message : Trouble → Text
  | control => "net/url: invalid control character in URL"
  | missingScheme => "missing protocol scheme"
  | colonInPath => "first path segment in URL cannot contain colon"
  | badEscape s => "invalid URL escape " ++ s.quoted
  | badPort s => "invalid port " ++ s.quoted ++ " after host"
  | badHost s => "invalid character " ++ s.quoted ++ " in host name"
  | missingBracket => "missing ']' in host"
  | badNumber s why => "invalid host: " ++ why.message s
  | badLiteral => "invalid IP-literal"
  | badUser => "net/url: invalid userinfo"

/-- Whether a byte is a letter or digit. -/
def isAlphanumeric (b : UInt8) : Bool :=
  (0x30 ≤ b && b ≤ 0x39) || (0x41 ≤ b && b ≤ 0x5A) || (0x61 ≤ b && b ≤ 0x7A)

/-- Whether a byte is one of some characters. -/
def isOneOf (chars : String) (b : UInt8) : Bool := (Text.ofString chars).bytes.contains b

/-- Whether a byte never needs an escape. -/
def isUnreserved (b : UInt8) : Bool := isAlphanumeric b || isOneOf "-_.~" b

/-- Whether a byte stands for itself in a host. -/
def isHostByte (b : UInt8) : Bool := isUnreserved b || isOneOf "!$&'()*+,;=:[]<>\"" b

/-- Whether a byte is written as itself in a path. -/
def isPathByte (b : UInt8) : Bool := isUnreserved b || isOneOf "$&+,/:;=@" b

/-- Whether a byte may stand in a path that is kept as it was written. -/
def isKeptPathByte (b : UInt8) : Bool := isPathByte b || isOneOf "!'()*[]%" b

/-- The parts of an address that have rules of their own for escapes. -/
inductive Place where
  | host
  /-- The zone of a numeric host. -/
  | zone
  | other
deriving DecidableEq, Repr

/-- Whether a byte may be escaped at a place: in a host only bytes from 0x80 on and the percent sign, in a zone
also those that may stand there anyway and the blank. -/
def Place.allowsEscape (p : Place) (x y : Nat) : Bool :=
  let isPercent := x = 2 && y = 5
  match p with
  | host => x ≥ 8 || isPercent
  | zone => isPercent || (x = 2 && y = 0) || isHostByte (x * 16 + y).toUInt8
  | other => true

/-- The bytes of an escaped text. In a host only some bytes may stand for themselves. -/
def unescape (place : Place) : List UInt8 → Except Trouble (List UInt8)
  | 0x25 :: rest =>
    match rest with
    | a :: b :: rest =>
      match Text.hexValue? a, Text.hexValue? b with
      | some x, some y =>
        if place.allowsEscape x y then do pure ((x * 16 + y).toUInt8 :: (← unescape place rest))
        else .error (.badEscape ⟨[0x25, a, b]⟩)
      | _, _ => .error (.badEscape ⟨[0x25, a, b]⟩)
    | rest => .error (.badEscape ⟨0x25 :: rest⟩)
  | b :: rest =>
    if place ≠ .other && b < 0x80 && !isHostByte b then .error (.badHost ⟨[b]⟩)
    else do pure (b :: (← unescape place rest))
  | [] => .ok []

/-- A text with the bytes outside a set escaped. -/
def escape (kept : UInt8 → Bool) (t : Text) : Text :=
  ⟨t.bytes.flatMap fun b =>
    if kept b then [b] else 0x25 :: (Text.ofString (Text.hex 2 b.toNat)).upperAscii.bytes⟩

/-- The scheme in front of a colon and the rest. -/
def splitScheme (t : Text) : Except Trouble (Text × Text) :=
  let isSchemeByte (b : UInt8) : Bool := isAlphanumeric b || isOneOf "+-." b
  let word := t.bytes.takeWhile isSchemeByte
  let startsWell := word.head?.all fun b => !(Text.isDigitByte b || isOneOf "+-." b)
  if (t.bytes.drop word.length).head? = some 0x3A && startsWell then
    if word.isEmpty then .error .missingScheme
    else .ok (Text.lowerAscii ⟨word⟩, t.drop (word.length + 1))
  else .ok ("", t)

/-- Whether a text is empty or a colon and digits. -/
def isPort (t : Text) : Bool :=
  match t.bytes with
  | [] => true
  | b :: rest => b = 0x3A && rest.all Text.isDigitByte

/-- Refuses what is no port. -/
def checkPort (t : Text) : Except Trouble Unit := if isPort t then .ok () else .error (.badPort t)

/-- The name between the brackets of a numeric host. -/
def parseNumeric (t : Text) : Except Trouble Text := do
  let name ← match t.find? "%25" with
    | some i => pure ((← unescape .host (t.take i).bytes) ++ (← unescape .zone (t.drop i).bytes))
    | none => unescape .host t.bytes
  match NumericAddress.version ⟨name⟩ with
  | .error why => throw (.badNumber ⟨name⟩ why)
  | .ok .four => throw .badLiteral
  | .ok .six => return ⟨name⟩

/-- A host with an optional port; a numeric one of version six stands between brackets. -/
def parseHost (t : Text) : Except Trouble Text := do
  match t.findLast? "[" with
  | some 0 =>
    match t.findLast? "]" with
    | none => throw .missingBracket
    | some i =>
      let port := t.drop (i + 1)
      checkPort port
      let port ← unescape .host port.bytes
      return "[" ++ (← parseNumeric ((t.take i).drop 1)) ++ "]" ++ ⟨port⟩
  | some _ => throw .badLiteral
  | none =>
    match t.findLast? ":" with
    | some i => checkPort (t.drop i)
    | none => pure ()
    return ⟨← unescape .host t.bytes⟩

/-- A user and a host. -/
def parseAuthority (t : Text) : Except Trouble (Option User × Text) := do
  match t.findLast? "@" with
  | none => pure (none, ← parseHost t)
  | some i =>
    let host ← parseHost (t.drop (i + 1))
    let info := t.take i
    if !info.bytes.all fun b => isUnreserved b || isOneOf "!$&'()*+,;=:%@" b then throw .badUser
    match info.cut? ":" with
    | none => pure (some ⟨⟨← unescape .other info.bytes⟩, none⟩, host)
    | some (name, password) =>
      pure (some ⟨⟨← unescape .other name.bytes⟩, some ⟨← unescape .other password.bytes⟩⟩, host)

/-- The path as it is kept: as it was written if every byte may stand there, and else with its bytes
escaped anew. -/
def keptPath (t : Text) : Except Trouble Text := do
  let path ← unescape .other t.bytes
  pure (if t.bytes.all isKeptPathByte then t else escape isPathByte ⟨path⟩)

/-- An address without its fragment. -/
def parseMain (t : Text) (fragment : Text) : Except Trouble Address := do
  if t.bytes.any fun b => b < 0x20 || b = 0x7F then throw .control
  if t = "*" then return ⟨"", none, none, none, "*", none, fragment⟩
  let (scheme, rest) ← splitScheme t
  let (rest, query) := match rest.cut? "?" with
    | some (r, q) => (r, some q)
    | none => (rest, none)
  if !rest.startsWith "/" then
    if !scheme.isEmpty then return ⟨scheme, some rest, none, none, "", query, fragment⟩
    let segment := (rest.cut? "/").elim rest (·.1)
    if segment.contains ":" then throw .colonInPath
  if rest.startsWith "//" && (!scheme.isEmpty || !rest.startsWith "///") then
    let rest := rest.drop 2
    let (authority, path) := match rest.find? "/" with
      | some i => (rest.take i, rest.drop i)
      | none => (rest, "")
    let (user, host) ← parseAuthority authority
    pure ⟨scheme, none, user, some host, ← keptPath path, query, fragment⟩
  else pure ⟨scheme, none, none, none, ← keptPath rest, query, fragment⟩

/-- The address that a text spells, or the text that is to blame and why. -/
def parse (t : Text) : Except (Text × Trouble) Address := do
  let (main, fragment) := (t.cut? "#").getD (t, "")
  match parseMain main "" with
  | .error e => throw (main, e)
  | .ok a =>
    match unescape .other fragment.bytes with
    | .error e => throw (t, e)
    | .ok f =>
      let isFragmentByte (b : UInt8) : Bool := isPathByte b || isOneOf "?!()*" b
      let kept := fragment.bytes.all fun b => isFragmentByte b || isOneOf "'[]%" b
      let fragment := if kept then fragment else escape isFragmentByte ⟨f⟩
      pure { a with fragment := fragment }

/-- The wording of a failure to read an address. -/
def failure (e : Text × Trouble) : Text := "parse " ++ e.1.quoted ++ ": " ++ e.2.message

/-- The user as it is written. A user with a hidden password shows without escapes, and three stars stand for the
password. -/
def userText (hide : Bool) (u : User) : Text :=
  let kept (b : UInt8) : Bool := isUnreserved b || isOneOf "$&+,;=" b
  match u.password with
  | some p => if hide then u.name ++ ":***" else escape kept u.name ++ ":" ++ escape kept p
  | none => escape kept u.name

/-- An address as it is written. -/
def render (a : Address) (hide : Bool) : Text :=
  let scheme := Text.onlyIf (!a.scheme.isEmpty) (a.scheme ++ ":")
  let body := match a.rootless with
    | some r => r
    | none =>
      let host := a.host.getD ""
      let authority :=
        Text.onlyIf (a.host.isSome && !(a.scheme.isEmpty && host.isEmpty && a.user.isNone)) <|
          Text.onlyIf (!host.isEmpty || !a.path.isEmpty || a.user.isSome) "//"
            ++ (match a.user with
              | some u => userText hide u ++ "@"
              | none => "")
            ++ escape isHostByte host
      authority ++ a.path
  scheme ++ body
    ++ (match a.query with
      | some q => "?" ++ q
      | none => "")
    ++ Text.onlyIf (!a.fragment.isEmpty) ("#" ++ a.fragment)

/-- An address whose host does not end in a bare colon. -/
def withoutEmptyPort (a : Address) : Address :=
  { a with host := a.host.map fun h => if h.endsWith ":" then h.take (h.size - 1) else h }

end Address

end ScriptEngine
