import ScriptEngine.Pattern.Choice
import ScriptEngine.Text.Script
/-!
# Reading search patterns

The written form of patterns. A reader goes through the glyphs of a pattern once and keeps the groups that are
still open on a stack; the first fault it meets ends the reading.
-/

namespace ScriptEngine

namespace Pattern

open Text (Glyph)

/-! ## Faults -/

/-- The causes for which a text is no pattern. -/
inductive Cause where
  | badEscape
  | badCharRange
  | badNamedGroup
  | badFlags
  | stackedRepetition
  | badRepeatCount
  | badText
  | missingBracket
  | missingParen
  | nothingToRepeat
  | tooDeep
  | tooLarge
  | trailingBackslash
  | unexpectedParen
deriving DecidableEq, Repr

/-- The wording of a cause. -/
def Cause.message : Cause → String
  | badEscape => "invalid escape sequence"
  | badCharRange => "invalid character class range"
  | badNamedGroup => "invalid named capture"
  | badFlags => "invalid or unsupported Perl syntax"
  | stackedRepetition => "invalid nested repetition operator"
  | badRepeatCount => "invalid repeat count"
  | badText => "invalid UTF-8"
  | missingBracket => "missing closing ]"
  | missingParen => "missing closing )"
  | nothingToRepeat => "missing argument to repetition operator"
  | tooDeep => "expression nests too deeply"
  | tooLarge => "expression too large"
  | trailingBackslash => "trailing backslash at end of expression"
  | unexpectedParen => "unexpected )"

/-- A fault in a pattern, with the piece of the pattern it lies in. -/
structure Trouble where
  cause : Cause
  excerpt : Text
deriving DecidableEq, Repr

/-- The wording of a fault. -/
def Trouble.message (t : Trouble) : Text :=
  "error parsing regexp: " ++ Text.ofString t.cause.message ++ ": \x60" ++ t.excerpt ++ "\x60"

/-- The fault of a cause in a piece of the pattern. -/
def fail {α : Type} (cause : Cause) (piece : List Glyph) : Except Trouble α :=
  .error ⟨cause, ⟨piece.flatMap Glyph.bytes⟩⟩

/-- The glyphs from one place up to a later one, both given by what follows them. -/
def between (start stop : List Glyph) : List Glyph := start.take (start.length - stop.length)

/-- The part of a piece from its first stray byte on. -/
def firstStray? : List Glyph → Option (List Glyph)
  | [] => none
  | .stray b :: rest => some (.stray b :: rest)
  | .char _ :: rest => firstStray? rest

/-- Refuses a piece with a stray byte. -/
def checkText (piece : List Glyph) : Except Trouble Unit :=
  match firstStray? piece with
  | none => .ok ()
  | some bad => fail .badText bad

/-- The characters of a piece without stray bytes. -/
def charsOf (piece : List Glyph) : List Char := piece.map Glyph.toChar

/-! ## Escaped characters -/

/-- The value of an octal digit. -/
def octalValue? (g : Glyph) : Option Nat :=
  match g with
  | .char c => if '0' ≤ c && c ≤ '7' then some (c.toNat - 0x30) else none
  | .stray _ => none

/-- The value of a hexadecimal digit. -/
def hexDigitValue? (c : Char) : Option Nat :=
  if c.toNat < 0x80 then Text.hexValue? c.toNat.toUInt8 else none

/-- At most `n` octal digits and what follows them. -/
def readOctal : Nat → Nat → List Glyph → Nat × List Glyph
  | 0, value, rest => (value, rest)
  | _, value, [] => (value, [])
  | n + 1, value, g :: rest =>
    match octalValue? g with
    | some d => readOctal n (value * 8 + d) rest
    | none => (value, g :: rest)

/-- Hexadecimal digits up to a closing brace; `start` is the place of the escape sequence. -/
def readBracedHex (start : List Glyph) (value : Nat) (hasDigit : Bool) :
    List Glyph → Except Trouble (Nat × List Glyph)
  | [] => fail .badEscape start
  | .stray b :: rest => fail .badText (.stray b :: rest)
  | .char c :: rest =>
    if c.toNat = 0x7D then
      if hasDigit then .ok (value, rest) else fail .badEscape (between start rest)
    else match hexDigitValue? c with
      | none => fail .badEscape (between start rest)
      | some d =>
        let next := value * 16 + d
        if next > maxCode then fail .badEscape (between start rest)
        else readBracedHex start next true rest

/-- Two hexadecimal digits, of which the first is read. -/
def readSecondHex (start : List Glyph) (first : Option Nat) :
    List Glyph → Except Trouble (Nat × List Glyph)
  | [] => fail .badEscape start
  | .stray b :: rest => fail .badText (.stray b :: rest)
  | .char c :: rest =>
    match first, hexDigitValue? c with
    | some x, some y => .ok (x * 16 + y, rest)
    | _, _ => fail .badEscape (between start rest)

/-- The code point that an escape sequence stands for and what follows it; `start` begins with the
backslash, which `afterSlash` follows. -/
def readEscape (start : List Glyph) (afterSlash : List Glyph) : Except Trouble (Nat × List Glyph) :=
  match afterSlash with
  | [] => fail .trailingBackslash []
  | .stray b :: rest => fail .badText (.stray b :: rest)
  | .char c :: rest =>
    let refuse := fail .badEscape (between start rest)
    if '1' ≤ c && c ≤ '7' then
      if (rest.head?.bind octalValue?).isSome then .ok (readOctal 2 (c.toNat - 0x30) rest) else refuse
    else match c with
      | '0' => .ok (readOctal 2 0 rest)
      | 'x' =>
        match rest with
        | [] => refuse
        | .stray b :: rest => fail .badText (.stray b :: rest)
        | .char d :: rest =>
          if d.toNat = 0x7B then readBracedHex start 0 false rest
          else readSecondHex start (hexDigitValue? d) rest
      | 'a' => .ok (7, rest)
      | 'f' => .ok (12, rest)
      | 'n' => .ok (10, rest)
      | 'r' => .ok (13, rest)
      | 't' => .ok (9, rest)
      | 'v' => .ok (11, rest)
      | _ => if c.toNat < 0x80 && !c.isAlphanum then .ok (c.toNat, rest) else refuse

/-! ## Character classes -/

/-- The set of some ranges of ASCII characters. -/
def asciiSet (rs : List (Nat × Nat)) : CharSet := .ofRanges (rs.map fun r => ⟨r.1, r.2⟩)

/-- The sets that a backslash and a letter name; a capital letter names all other characters. -/
def shortClass? (isFolded : Bool) (c : Char) : Option CharSet :=
  let ranges := match c.toLower with
    | 'd' => [(0x30, 0x39)]
    | 's' => [(9, 10), (12, 13), (32, 32)]
    | 'w' => [(0x30, 0x39), (0x41, 0x5A), (0x5F, 0x5F), (0x61, 0x7A)]
    | _ => []
  if ranges.isEmpty then none else some (((asciiSet ranges).closedIf isFolded).complementIf c.isUpper)

/-- The sets that have a name inside a class. -/
def namedClasses : List (String × List (Nat × Nat)) := [
    ("alnum", [(0x30, 0x39), (0x41, 0x5A), (0x61, 0x7A)]), ("alpha", [(0x41, 0x5A), (0x61, 0x7A)]),
    ("ascii", [(0, 0x7F)]), ("blank", [(9, 9), (32, 32)]), ("cntrl", [(0, 0x1F), (0x7F, 0x7F)]),
    ("digit", [(0x30, 0x39)]), ("graph", [(0x21, 0x7E)]), ("lower", [(0x61, 0x7A)]),
    ("print", [(0x20, 0x7E)]), ("punct", [(0x21, 0x2F), (0x3A, 0x40), (0x5B, 0x60), (0x7B, 0x7E)]),
    ("space", [(9, 13), (32, 32)]), ("upper", [(0x41, 0x5A)]),
    ("word", [(0x30, 0x39), (0x41, 0x5A), (0x5F, 0x5F), (0x61, 0x7A)]),
    ("xdigit", [(0x30, 0x39), (0x41, 0x46), (0x61, 0x66)])]

/-- The set that a name between `[:` and `:]` means; a caret in front negates it. -/
def namedClass? (isFolded : Bool) (name : List Char) : Option CharSet :=
  let isNegated := name.head? == some '^'
  let plain := if isNegated then name.drop 1 else name
  (namedClasses.find? fun entry => entry.1.toList == plain).map fun entry =>
    ((asciiSet entry.2).closedIf isFolded).complementIf isNegated

/-- The set of some tables. -/
def tablesSet (tables : List (Array CodeRange)) : CharSet := .ofRanges (tables.flatMap Array.toList)

/-- The set that the name of a property means. The letters with case are taken as they are, also when case is
folded away. -/
def property? (isFolded : Bool) (name : List Char) : Option CharSet :=
  match Category.plainName name with
  | ['a', 'n', 'y'] => some .all
  | ['a', 's', 'c', 'i', 'i'] => some ((CharSet.range 0 0x7F).closedIf isFolded)
  | ['a', 's', 's', 'i', 'g', 'n', 'e', 'd'] =>
    (Category.find? ['c', 'n']).map fun tables => (tablesSet tables).complement
  | plain =>
    match Category.find? name with
    | some tables =>
      let isCased := plain == ['l', 'c'] || plain == "casedletter".toList
      some ((tablesSet tables).closedIf (isFolded && !isCased))
    | none => (Script.find? name).map fun table => (tablesSet [table]).closedIf isFolded

/-- The set of a property with a written name; `whole` is the escape sequence that names it. -/
def readPropertyName (whole : List Glyph) (isFolded isNegated : Bool) (name : List Char) :
    Except Trouble CharSet :=
  let hasCaret := name.head? == some '^'
  match property? isFolded (if hasCaret then name.drop 1 else name) with
  | some set => .ok (set.complementIf (isNegated != hasCaret))
  | none => fail .badCharRange whole

/-- A named property and what follows it; `start` begins with the backslash and `rest` follows the letter
`p`. -/
def readProperty (start : List Glyph) (isFolded isNegated : Bool) (rest : List Glyph) :
    Except Trouble (CharSet × List Glyph) := do
  match rest with
  | [] => fail .badCharRange start
  | .stray b :: rest => fail .badText (.stray b :: rest)
  | .char c :: after =>
    if c.toNat = 0x7B then
      let isClose := fun (g : Glyph) => g == .char (Char.ofNat 0x7D)
      let name := after.takeWhile (!isClose ·)
      match after.dropWhile (!isClose ·) with
      | [] => do checkText start; fail .badCharRange start
      | _ :: after => do
        checkText name
        let item ← readPropertyName (between start after) isFolded isNegated (charsOf name)
        return (item, after)
    else
      let item ← readPropertyName (between start after) isFolded isNegated [c]
      return (item, after)

/-- The piece up to the first `:]` and what follows that. -/
def cutNamed? : List Glyph → Option (List Glyph × List Glyph)
  | [] => none
  | .char ':' :: .char ']' :: rest => some ([], rest)
  | g :: rest => (cutNamed? rest).map fun r => (g :: r.1, r.2)

/-- One code point of a class and what follows it; `whole` begins with the opening bracket. -/
def readClassChar (whole : List Glyph) : List Glyph → Except Trouble (Nat × List Glyph)
  | [] => fail .missingBracket whole
  | .stray b :: rest => fail .badText (.stray b :: rest)
  | .char '\\' :: rest => readEscape (.char '\\' :: rest) rest
  | .char c :: rest => .ok (c.toNat, rest)

/-- A code point or a range of a class and what follows it. -/
def readClassRange (whole start : List Glyph) (isFolded : Bool) : Except Trouble (CharSet × List Glyph) := do
  let (first, rest) ← readClassChar whole start
  match rest with
  | .char '-' :: g :: rest =>
    if g = .char ']' then return (.single first isFolded, .char '-' :: g :: rest)
    let (last, rest) ← readClassChar whole (g :: rest)
    if last < first then fail .badCharRange (between start rest)
    return ((CharSet.range first last).closedIf isFolded, rest)
  | _ => return (.single first isFolded, rest)

/-- One item of a class and what follows it. -/
def readClassItem (whole start : List Glyph) (isFolded : Bool) : Except Trouble (CharSet × List Glyph) :=
  match start with
  | .char '[' :: .char ':' :: rest =>
    match cutNamed? rest with
    | none => readClassRange whole start isFolded
    | some (name, after) =>
      match namedClass? isFolded (charsOf name) with
      | some set => if (firstStray? name).isNone then .ok (set, after)
        else fail .badCharRange (between start after)
      | none => fail .badCharRange (between start after)
  | .char '\\' :: .char 'p' :: rest => readProperty start isFolded false rest
  | .char '\\' :: .char 'P' :: rest => readProperty start isFolded true rest
  | .char '\\' :: .char c :: rest =>
    match shortClass? isFolded c with
    | some set => .ok (set, rest)
    | none => readClassRange whole start isFolded
  | _ => readClassRange whole start isFolded

/-- The items of a class up to its closing bracket, which does not close it as the first item; `fuel` bounds
the number of items. -/
def readClassItems (whole : List Glyph) (isFolded : Bool) : Nat → Bool → List CharSet → List Glyph →
    Except Trouble (List CharSet × List Glyph)
  | 0, _, _, _ => fail .missingBracket whole
  | fuel + 1, isFirst, items, rest =>
    match isFirst, rest with
    | false, .char ']' :: rest => .ok (items.reverse, rest)
    | _, _ =>
      match readClassItem whole rest isFolded with
      | .error t => .error t
      | .ok (item, rest) => readClassItems whole isFolded fuel false (item :: items) rest

/-- A class and what follows it; `whole` begins with the opening bracket, which `rest` follows. -/
def readClass (whole : List Glyph) (isFolded : Bool) (rest : List Glyph) :
    Except Trouble (CharSet × List Glyph) := do
  let (isNegated, rest) := match rest with
    | .char '^' :: rest => (true, rest)
    | _ => (false, rest)
  let (items, rest) ← readClassItems whole isFolded (rest.length + 1) true [] rest
  return ((CharSet.union items).complementIf isNegated, rest)

/-! ## Flags and groups -/

/-- How the parts of a pattern are to be understood. -/
structure Flags where
  foldsCase : Bool := false
  splitsLines : Bool := false
  dotTakesNewline : Bool := false
  isLazy : Bool := false
deriving DecidableEq, Repr

/-- A group that is being read: the flags to go back to behind it, its number if it has one, the alternatives
before the present one and the parts of the present one, each with the last in front. -/
structure Frame where
  flags : Flags
  index : Option Nat
  alternatives : List Pattern
  parts : List Pattern

/-- What has been read of a pattern. -/
structure State where
  whole : List Glyph
  flags : Flags
  outer : List Frame
  frame : Frame
  groups : Nat
  names : List (Text × Nat)
  /-- Where the repetition begins that was read just before, if one was. -/
  repetition : Option (List Glyph)

/-- The most levels that a pattern may be nested. -/
def maxHeight : Nat := 1000

/-- The largest size that a pattern may have: as many instructions as fit 128 megabytes. -/
def maxSize : Nat := 128 * 2 ^ 20 / 40

/-- The state before anything is read. -/
def State.start (whole : List Glyph) : State := ⟨whole, {}, [], ⟨{}, none, [], []⟩, 0, [], none⟩

/-- Refuses a part that is too large or too deep. -/
def State.checkLimits (s : State) (p : Pattern) : Except Trouble Unit :=
  if p.size > maxSize then fail .tooLarge s.whole
  else if p.height > maxHeight then fail .tooDeep s.whole
  else .ok ()

/-- A part in the form in which it is kept: a set of one letter is a literal. -/
def keptForm : Pattern → Pattern
  | .one set =>
    match set.letter? with
    | some (n, isFolded) => .literal [n] isFolded
    | none => .one set
  | p => p

/-- Adds a part behind those of the present alternative. The two literals before it are joined: only the last
literal may still be repeated alone. -/
def State.add (s : State) (p : Pattern) : Except Trouble State := do
  let p := keptForm p
  s.checkLimits p
  let parts := match s.frame.parts with
    | q :: r :: parts =>
      match joinLiteral? r q with
      | some joined => joined :: parts
      | none => q :: r :: parts
    | parts => parts
  return { s with frame := { s.frame with parts := p :: parts }, repetition := none }

/-- Adds a single character. -/
def State.literal (s : State) (n : Nat) : Except Trouble State :=
  let isFolded := s.flags.foldsCase
  s.add (.literal [if isFolded then (caseVariants n).foldl min n else n] isFolded)

/-- Ends the present alternative. A single character joins one that is the alternative before. -/
def State.endAlternative (s : State) : Except Trouble State := do
  let parts := match s.frame.parts with
    | q :: r :: parts =>
      match joinLiteral? r q with
      | some joined => joined :: parts
      | none => q :: r :: parts
    | parts => parts
  let p := keptForm (sequence parts.reverse)
  s.checkLimits p
  let alternatives := match s.frame.alternatives with
    | q :: before =>
      match mergeSingle? q p with
      | some merged => merged :: before
      | none => p :: q :: before
    | [] => [p]
  return { s with frame := { s.frame with alternatives, parts := [] }, repetition := none }

/-- All alternatives of the present group as one part. -/
def State.body (s : State) : Except Trouble Pattern := do
  let s ← s.endAlternative
  let p := keptForm (choice s.frame.alternatives.reverse)
  s.checkLimits p
  return p

/-- Opens a group. -/
def State.opened (s : State) (index : Option Nat) (inside : Flags) : State :=
  { s with flags := inside, outer := s.frame :: s.outer, frame := ⟨s.flags, index, [], []⟩, repetition := none }

/-- The flags read so far behind `(?`: those outside, whether they are being switched off, and whether one
was named since. -/
structure FlagList where
  flags : Flags
  isOff : Bool := false
  hasFlag : Bool := false

/-- The flags after one more letter, if it names a flag. -/
def FlagList.letter? (l : FlagList) : Char → Option FlagList
  | 'i' => some { l with flags := { l.flags with foldsCase := !l.isOff }, hasFlag := true }
  | 'm' => some { l with flags := { l.flags with splitsLines := !l.isOff }, hasFlag := true }
  | 's' => some { l with flags := { l.flags with dotTakesNewline := !l.isOff }, hasFlag := true }
  | 'U' => some { l with flags := { l.flags with isLazy := !l.isOff }, hasFlag := true }
  | '-' => if l.isOff then none else some { l with isOff := true, hasFlag := false }
  | _ => none

/-- The flags behind `(?`; the group they open or the rest of the group they are in goes on behind them. -/
def readFlags (s : State) (start : List Glyph) (l : FlagList) :
    List Glyph → Except Trouble (State × List Glyph)
  | [] => fail .badFlags start
  | .stray b :: rest => fail .badText (.stray b :: rest)
  | .char c :: rest =>
    if (c = ':' || c = ')') && (!l.isOff || l.hasFlag) then
      if c = ':' then .ok (s.opened none l.flags, rest)
      else .ok ({ s with flags := l.flags, repetition := none }, rest)
    else match l.letter? c with
      | some l => readFlags s start l rest
      | none => fail .badFlags (between start rest)

/-- A group with a name; `start` begins with the parenthesis and `rest` with the name. -/
def readNamedGroup (s : State) (start rest : List Glyph) : Except Trouble (State × List Glyph) := do
  let name := rest.takeWhile (· ≠ .char '>')
  match rest.dropWhile (· ≠ .char '>') with
  | [] =>
    checkText start
    fail .badNamedGroup start
  | _ :: rest =>
    checkText name
    let cs := charsOf name
    if cs.isEmpty || cs.any fun c => !(c.isAlphanum || c = '_') then
      fail .badNamedGroup (between start rest)
    let index := s.groups + 1
    return ({ s.opened (some index) s.flags with
      groups := index, names := s.names ++ [(Text.ofChars cs, index)] }, rest)

/-- Closes the innermost group. -/
def State.closed (s : State) : Except Trouble State := do
  let body ← s.body
  match s.outer with
  | [] => fail .unexpectedParen s.whole
  | outer :: rest =>
    let back := { s with flags := s.frame.flags, outer := rest, frame := outer }
    back.add (match s.frame.index with
      | none => body
      | some i => .group i body)

/-! ## Repetitions -/

/-- The most copies that a counted repetition may ask for. -/
def maxCopies : Nat := 1000

/-- A number without leading zeros and what follows it. -/
def readCount? (rest : List Glyph) : Option (Nat × List Glyph) :=
  let isDigit := fun (g : Glyph) => match g with
    | .char c => c.isDigit
    | .stray _ => false
  let digits := charsOf (rest.takeWhile isDigit)
  match digits with
  | [] => none
  | '0' :: _ :: _ => none
  | _ => some (digits.foldl (fun n c => n * 10 + (c.toNat - 0x30)) 0, rest.dropWhile isDigit)

/-- The bounds of a counted repetition and what follows it; `rest` follows the opening brace. -/
def readCounts? (rest : List Glyph) : Option (Nat × Option Nat × List Glyph) := do
  let close := Glyph.char (Char.ofNat 0x7D)
  let (least, rest) ← readCount? rest
  match rest with
  | .char ',' :: g :: after =>
    if g = close then return (least, none, after)
    let (most, after) ← readCount? (g :: after)
    guard (after.head? = some close)
    return (least, some most, after.drop 1)
  | g :: after =>
    guard (g = close)
    return (least, some least, after)
  | [] => none

/-- Repeats the last part; `start` begins with the operator, which `rest` follows. -/
def State.repeated (s : State) (start : List Glyph) (least : Nat) (most : Option Nat) (isCounted : Bool)
    (rest : List Glyph) : Except Trouble (State × List Glyph) :=
  let (isLazy, rest) := match rest with
    | .char '?' :: rest => (!s.flags.isLazy, rest)
    | _ => (s.flags.isLazy, rest)
  match s.repetition, s.frame.parts with
  | some before, _ => fail .stackedRepetition (between before rest)
  | none, [] => fail .nothingToRepeat (between start rest)
  | none, part :: parts => do
    let p := Pattern.times least most (!isLazy) part
    s.checkLimits p
    if isCounted && (least ≥ 2 || most.any (· ≥ 2)) && !p.copiesWithin maxCopies then
      fail .badRepeatCount (between start rest)
    return ({ s with frame := { s.frame with parts := p :: parts }, repetition := some start }, rest)

/-! ## The whole pattern -/

/-- Adds characters as they are. -/
def State.literals : State → List Glyph → Except Trouble State
  | s, [] => .ok { s with repetition := none }
  | s, .char c :: rest => do (← s.literal c.toNat).literals rest
  | _, .stray b :: rest => fail .badText (.stray b :: rest)

/-- The piece up to `\E` and what follows that; without it, all of the rest. -/
def cutQuoted : List Glyph → List Glyph × List Glyph
  | [] => ([], [])
  | .char '\\' :: .char 'E' :: rest => ([], rest)
  | g :: rest =>
    let r := cutQuoted rest
    (g :: r.1, r.2)

/-- Reads what a backslash begins; `start` begins with it and `rest` follows it. -/
def readBackslash (s : State) (start rest : List Glyph) : Except Trouble (State × List Glyph) := do
  let isFolded := s.flags.foldsCase
  match rest with
  | .char 'A' :: rest => return (← s.add (.assertion .textStart), rest)
  | .char 'b' :: rest => return (← s.add (.assertion .wordEdge), rest)
  | .char 'B' :: rest => return (← s.add (.assertion .notWordEdge), rest)
  | .char 'C' :: rest => fail .badEscape (between start rest)
  | .char 'Q' :: rest =>
    let (quoted, rest) := cutQuoted rest
    return (← s.literals quoted, rest)
  | .char 'z' :: rest => return (← s.add (.assertion .textEnd), rest)
  | .char 'p' :: rest =>
    let (set, rest) ← readProperty start isFolded false rest
    return (← s.add (.one set), rest)
  | .char 'P' :: rest =>
    let (set, rest) ← readProperty start isFolded true rest
    return (← s.add (.one set), rest)
  | .char c :: after =>
    match shortClass? isFolded c with
    | some set => return (← s.add (.one set), after)
    | none =>
      let (n, rest) ← readEscape start rest
      return (← s.literal n, rest)
  | _ =>
    let (n, rest) ← readEscape start rest
    return (← s.literal n, rest)

/-- Reads the next element of a pattern. -/
def readNext (s : State) (g : Glyph) (rest : List Glyph) : Except Trouble (State × List Glyph) := do
  let start := g :: rest
  match g with
  | .stray b => fail .badText (.stray b :: rest)
  | .char '(' =>
    match rest with
    | .char '?' :: .char 'P' :: .char '<' :: h :: rest => readNamedGroup s start (h :: rest)
    | .char '?' :: .char '<' :: h :: rest => readNamedGroup s start (h :: rest)
    | .char '?' :: rest => readFlags s start { flags := s.flags } rest
    | _ =>
      let index := s.groups + 1
      return ({ s.opened (some index) s.flags with groups := index }, rest)
  | .char '|' => return (← s.endAlternative, rest)
  | .char ')' => return (← s.closed, rest)
  | .char '^' =>
    return (← s.add (.assertion (if s.flags.splitsLines then .lineStart else .textStart)), rest)
  | .char '$' => return (← s.add (.assertion (if s.flags.splitsLines then .lineEnd else .textEnd)), rest)
  | .char '.' => return (← s.add (.one (if s.flags.dotTakesNewline then .all else .allButNewline)), rest)
  | .char '[' =>
    let (set, rest) ← readClass start s.flags.foldsCase rest
    return (← s.add (.one set), rest)
  | .char '*' => s.repeated start 0 none false rest
  | .char '+' => s.repeated start 1 none false rest
  | .char '?' => s.repeated start 0 (some 1) false rest
  | .char '\\' => readBackslash s start rest
  | .char c =>
    if c.toNat = 0x7B then
      match readCounts? rest with
      | none => return (← s.literal c.toNat, rest)
      | some (least, most, after) =>
        if least > maxCopies || most.any (fun n => n > maxCopies || least > n) then
          fail .badRepeatCount (between start after)
        s.repeated start least most true after
    else return (← s.literal c.toNat, rest)

/-- Reads a pattern to its end; `fuel` bounds the number of elements. -/
def readAll : Nat → State → List Glyph → Except Trouble State
  | _, s, [] => .ok s
  | 0, s, _ => .ok s
  | fuel + 1, s, g :: rest =>
    match readNext s g rest with
    | .error t => .error t
    | .ok (s, rest) => readAll fuel s rest

/-- A pattern with the number of its groups and the names of those that have one. -/
structure Reading where
  pattern : Pattern
  groups : Nat
  names : List (Text × Nat)

/-- The pattern that a text spells. -/
def read (t : Text) : Except Trouble Reading := do
  let whole := t.glyphs
  let s ← readAll (whole.length + 1) (.start whole) whole
  let pattern ← s.body
  if !s.outer.isEmpty then fail .missingParen whole
  return ⟨pattern, s.groups, s.names⟩

end Pattern

end ScriptEngine
