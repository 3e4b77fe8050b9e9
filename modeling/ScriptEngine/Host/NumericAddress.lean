import ScriptEngine.Text.Quoted
/-!
# Numeric network addresses

An address of version four is four numbers up to 255 with dots between them. One of version six is eight groups
of hexadecimal digits with colons between them; two colons stand for groups of zeros, the last two groups may be
written as an address of version four, and a zone may follow behind a percent sign.
-/

namespace ScriptEngine.NumericAddress

/-- The versions of addresses. -/
inductive Version where
  | four
  | six
deriving DecidableEq, Repr

/-- Why a text spells no address: the reason, and the rest of the text where it shows. -/
structure Trouble where
  reason : String
  rest : List UInt8 := []

/-- The wording of a trouble with a text. -/
def Trouble.message (whole : Text) (t : Trouble) : Text :=
  "ParseAddr(" ++ whole.quoted ++ "): " ++ Text.ofString t.reason
    ++ Text.onlyIf (!t.rest.isEmpty) (" (at " ++ (Text.mk t.rest).quoted ++ ")")

/-- The state of reading numbers: the numbers that ended, and the value and the digits of the present one. -/
structure Octets where
  ended : Nat := 0
  value : Nat := 0
  digits : Nat := 0

/-- Reads the numbers of an address of version four; `before` is the byte in front. -/
def octetsFrom (s : Octets) (before : Option UInt8) : List UInt8 → Except Trouble Unit
  | [] => if s.ended < 3 then .error ⟨"IPv4 address too short", []⟩ else .ok ()
  | b :: rest =>
    if Text.isDigitByte b then
      let value := s.value * 10 + (b.toNat - 0x30)
      if s.digits = 1 && s.value = 0 then .error ⟨"IPv4 field has octet with leading zero", []⟩
      else if value > 255 then .error ⟨"IPv4 field has value >255", []⟩
      else octetsFrom { s with value := value, digits := s.digits + 1 } (some b) rest
    else if b = 0x2E then
      if before.all (· = 0x2E) || rest.isEmpty then
        .error ⟨"IPv4 field must have at least one digit", b :: rest⟩
      else if s.ended = 3 then .error ⟨"IPv4 address too long", []⟩
      else octetsFrom { ended := s.ended + 1 } (some b) rest
    else .error ⟨"unexpected character", b :: rest⟩

/-- The state of reading groups: how many there are, and whether two colons were met. -/
structure Groups where
  count : Nat := 0
  hasGap : Bool := false

/-- Checks the end of an address of version six. -/
def Groups.finish (g : Groups) : Except Trouble Unit :=
  if g.count < 8 then
    if g.hasGap then .ok () else .error ⟨"address string too short", []⟩
  else if g.hasGap then .error ⟨"the :: must expand to at least one field of zeros", []⟩
  else .ok ()

/-- Reads groups; `fuel` bounds their number. -/
def groupsFrom : Nat → Groups → List UInt8 → Except Trouble Unit
  | 0, g, rest =>
    if rest.isEmpty then g.finish else .error ⟨"trailing garbage after address", rest⟩
  | fuel + 1, g, s =>
    let digits := s.takeWhile fun b => (Text.hexValue? b).isSome
    let after := s.drop digits.length
    if digits.length > 4 then .error ⟨"each group must have 4 or less digits", s⟩
    else if digits.isEmpty then .error ⟨"each colon-separated field must have at least one digit", s⟩
    else if after.head? = some 0x2E then
      if !g.hasGap && g.count ≠ 6 then
        .error ⟨"embedded IPv4 address must replace the final 2 fields of the address", s⟩
      else if g.count > 6 then
        .error ⟨"too many hex fields to fit an embedded IPv4 at the end of the address", s⟩
      else do
        octetsFrom {} none s
        ({ g with count := g.count + 2 } : Groups).finish
    else
      let g := { g with count := g.count + 1 }
      match after with
      | [] => g.finish
      | [b] =>
        if b = 0x3A then .error ⟨"colon must be followed by more characters", [b]⟩
        else .error ⟨"unexpected character, want colon", [b]⟩
      | b :: c :: rest =>
        if b ≠ 0x3A then .error ⟨"unexpected character, want colon", b :: c :: rest⟩
        else if c = 0x3A then
          if g.hasGap then .error ⟨"multiple :: in address", c :: rest⟩
          else if rest.isEmpty then ({ g with hasGap := true } : Groups).finish
          else groupsFrom fuel { g with hasGap := true } rest
        else groupsFrom fuel g (c :: rest)

/-- Checks an address of version six. -/
def checkSix (bs : List UInt8) : Except Trouble Unit :=
  let main := bs.takeWhile (· ≠ 0x25)
  let zone := bs.drop main.length
  if zone.length = 1 then .error ⟨"zone must be a non-empty string", []⟩
  else match main with
    | [0x3A, 0x3A] => .ok ()
    | 0x3A :: 0x3A :: rest => groupsFrom 8 { hasGap := true } rest
    | _ => groupsFrom 8 {} main

/-- The version of the address that a text spells: the first dot, colon or percent sign tells which one is
meant. -/
def version (t : Text) : Except Trouble Version :=
  match t.bytes.find? fun b => b = 0x2E || b = 0x3A || b = 0x25 with
  | some 0x2E => do
    octetsFrom {} none t.bytes
    return .four
  | some 0x3A => do
    checkSix t.bytes
    return .six
  | some _ => .error ⟨"missing IPv6 address", []⟩
  | none => .error ⟨"unable to parse IP", []⟩

end ScriptEngine.NumericAddress
