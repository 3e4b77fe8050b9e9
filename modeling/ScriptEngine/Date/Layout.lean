import ScriptEngine.Date
/-!
# Date layouts

A layout shows how a fixed reference moment, Monday the second of January 2006 at 15:04:05 in the zone
MST, is written; every part of it that spells a part of that moment stands for that part of any date.
-/

namespace ScriptEngine

namespace Layout

/-- How the offset of a zone is written. -/
structure OffsetStyle where
  /-- Whether UTC is written `Z`. -/
  zulu : Bool
  /-- Whether hours, minutes and seconds are separated by colons. -/
  colons : Bool
  /-- How many of hours, minutes and seconds are written. -/
  parts : Nat
deriving DecidableEq

/-- A part of a date in a layout. -/
inductive Field where
  | longMonth | month | monthNumber | zeroMonth
  | longWeekday | weekday
  | day | underDay | zeroDay | underYearDay | zeroYearDay
  | hour | hour12 | zeroHour12
  | minute | zeroMinute | second | zeroSecond
  | longYear | year
  | upperHalf | lowerHalf
  | zoneName
  | offset (style : OffsetStyle)
  /-- A fraction of a second after a point or comma; trailing zeros are kept or dropped. -/
  | fraction (comma : Bool) (digits : Nat) (keepZeros : Bool)
deriving DecidableEq

/-- A piece of a layout: literal bytes, or a field. -/
inductive Piece where
  | literal (b : UInt8)
  | field (f : Field)

/-! ## Reading layouts -/

/-- The bytes of a word. -/
def bytesOf (s : String) : List UInt8 := (Text.ofString s).bytes

/-- Whether a byte list begins with a word. -/
def begins (s : String) (bs : List UInt8) : Bool := (bytesOf s).isPrefixOf bs

/-- Whether a lower-case letter comes next. -/
def lowerNext (bs : List UInt8) : Bool :=
  match bs with
  | b :: _ => 0x61 ≤ b && b ≤ 0x7A
  | [] => false

/-- The styles of zone offsets, in the order in which they are tried. -/
def offsetStyles : List (String × OffsetStyle) :=
  [("-070000", ⟨false, false, 3⟩), ("-07:00:00", ⟨false, true, 3⟩), ("-0700", ⟨false, false, 2⟩),
    ("-07:00", ⟨false, true, 2⟩), ("-07", ⟨false, false, 1⟩),
    ("Z070000", ⟨true, false, 3⟩), ("Z07:00:00", ⟨true, true, 3⟩), ("Z0700", ⟨true, false, 2⟩),
    ("Z07:00", ⟨true, true, 2⟩), ("Z07", ⟨true, false, 1⟩)]

/-- The fraction of a second at the front, with its length: a point or comma and a run of zeros or
nines that no digit follows. -/
def fractionHere? : List UInt8 → Option (Field × Nat)
  | mark :: d :: rest =>
    if (mark = 0x2E || mark = 0x2C) && (d = 0x30 || d = 0x39) then
      let run := (d :: rest).takeWhile (· = d)
      let after := (d :: rest).dropWhile (· = d)
      if after.head?.any Text.isDigitByte then none
      else some (.fraction (mark = 0x2C) run.length (d = 0x30), run.length + 1)
    else none
  | _ => none

/-- The field at the front of a layout, with the number of bytes it takes. -/
def fieldHere? (bs : List UInt8) : Option (Field × Nat) :=
  match bs with
  | [] => none
  | b :: rest =>
    match Char.ofNat b.toNat with
    | 'J' =>
      if begins "January" bs then some (.longMonth, 7)
      else if begins "Jan" bs && !lowerNext (bs.drop 3) then some (.month, 3) else none
    | 'M' =>
      if begins "Monday" bs then some (.longWeekday, 6)
      else if begins "Mon" bs && !lowerNext (bs.drop 3) then some (.weekday, 3)
      else if begins "MST" bs then some (.zoneName, 3) else none
    | '0' =>
      match rest with
      | 0x31 :: _ => some (.zeroMonth, 2)
      | 0x32 :: _ => some (.zeroDay, 2)
      | 0x33 :: _ => some (.zeroHour12, 2)
      | 0x34 :: _ => some (.zeroMinute, 2)
      | 0x35 :: _ => some (.zeroSecond, 2)
      | 0x36 :: _ => some (.year, 2)
      | 0x30 :: 0x32 :: _ => some (.zeroYearDay, 3)
      | _ => none
    | '1' => if begins "15" bs then some (.hour, 2) else some (.monthNumber, 1)
    | '2' => if begins "2006" bs then some (.longYear, 4) else some (.day, 1)
    | '_' =>
      if begins "_2006" bs then none
      else if begins "_2" bs then some (.underDay, 2)
      else if begins "__2" bs then some (.underYearDay, 3) else none
    | '3' => some (.hour12, 1)
    | '4' => some (.minute, 1)
    | '5' => some (.second, 1)
    | 'P' => if begins "PM" bs then some (.upperHalf, 2) else none
    | 'p' => if begins "pm" bs then some (.lowerHalf, 2) else none
    | '-' | 'Z' =>
      (offsetStyles.find? fun (s, _) => begins s bs).map fun (s, style) =>
        (.offset style, s.length)
    | '.' | ',' => fractionHere? bs
    | _ => none

/-- The pieces of a layout after `skip` bytes. -/
def piecesFrom : List UInt8 → Nat → List Piece
  | [], _ => []
  | _ :: rest, k + 1 => piecesFrom rest k
  | b :: rest, 0 =>
    match fieldHere? (b :: rest) with
    | some (f, n) => .field f :: piecesFrom rest (n - 1)
    | none => .literal b :: piecesFrom rest 0

end Layout

/-- Fields of a date and the literal bytes between them. -/
structure Layout where
  pieces : List Layout.Piece

namespace Layout

/-- The layout that a text spells. -/
def ofText (t : Text) : Layout := ⟨piecesFrom t.bytes 0⟩

/-- The names of the months. -/
def monthNames : List String :=
  ["January", "February", "March", "April", "May", "June", "July", "August", "September",
    "October", "November", "December"]

/-- The names of the days of the week, Sunday first. -/
def weekdayNames : List String :=
  ["Sunday", "Monday", "Tuesday", "Wednesday", "Thursday", "Friday", "Saturday"]

/-- The first three letters of a name. -/
def abbreviate (s : String) : String := String.ofList (s.toList.take 3)

/-- A number with at least `width` digits, zeros in front. -/
def pad (width : Nat) (n : Int) : String :=
  let ds := Nat.toDigits 10 n.natAbs
  (if n < 0 then "-" else "") ++ String.ofList (List.replicate (width - ds.length) '0' ++ ds)

/-- A number with at least `width` places, blanks in front. -/
def padBlank (width n : Nat) : String :=
  let ds := Nat.toDigits 10 n
  String.ofList (List.replicate (width - ds.length) ' ' ++ ds)

/-! ## Writing dates -/

/-- An offset from UTC in a style. Its sign is that of its whole minutes; where those are none, the seconds show
theirs. -/
def OffsetStyle.render (style : OffsetStyle) (offset : Int) : String :=
  if style.zulu && offset = 0 then "Z"
  else
    let isBehind := offset.tdiv 60 < 0
    let n := offset.natAbs
    let seconds : Int := (if isBehind then -offset else offset).tmod 60
    let sep := if style.colons then ":" else ""
    (if isBehind then "-" else "+") ++ pad 2 (n / 3600)
      ++ (if style.parts ≥ 2 then sep ++ pad 2 (n / 60 % 60) else "")
      ++ (if style.parts ≥ 3 then sep ++ pad 2 seconds else "")

/-- A field of a date. -/
def Field.render (d : Date) (f : Field) : Text :=
  let c := d.clock
  let hour12 := if c.hour % 12 = 0 then 12 else c.hour % 12
  match f with
  | .longMonth => (monthNames[c.civil.month - 1]?).getD ""
  | .month => abbreviate ((monthNames[c.civil.month - 1]?).getD "")
  | .monthNumber => pad 0 c.civil.month
  | .zeroMonth => pad 2 c.civil.month
  | .longWeekday => (weekdayNames[Civil.weekday c.days]?).getD ""
  | .weekday => abbreviate ((weekdayNames[Civil.weekday c.days]?).getD "")
  | .day => pad 0 c.civil.day
  | .underDay => padBlank 2 c.civil.day
  | .zeroDay => pad 2 c.civil.day
  | .underYearDay => padBlank 3 c.civil.dayOfYear
  | .zeroYearDay => pad 3 c.civil.dayOfYear
  | .hour => pad 2 c.hour
  | .hour12 => pad 0 hour12
  | .zeroHour12 => pad 2 hour12
  | .minute => pad 0 c.minute
  | .zeroMinute => pad 2 c.minute
  | .second => pad 0 c.second
  | .zeroSecond => pad 2 c.second
  | .longYear => pad 4 c.civil.year
  | .year => pad 2 ((max 0 c.civil.year) % 100)
  | .upperHalf => if c.hour ≥ 12 then "PM" else "AM"
  | .lowerHalf => if c.hour ≥ 12 then "pm" else "am"
  | .zoneName =>
    let name := d.zone.nameAt d.seconds
    if name.isEmpty then
      let minutes := d.offset.tdiv 60
      (if minutes < 0 then "-" else "+") ++ pad 2 (minutes.natAbs / 60) ++ pad 2 (minutes.natAbs % 60)
    else name
  | .offset style => style.render d.offset
  | .fraction comma digits keepZeros =>
    let ds := ((pad 9 d.nanos).toList).take digits
    let ds := if keepZeros then ds else (ds.reverse.dropWhile (· = '0')).reverse
    if ds.isEmpty then "" else String.ofList ((if comma then ',' else '.') :: ds)

/-- A date written in a layout. -/
def format (l : Layout) (d : Date) : Text :=
  Text.concat (l.pieces.map fun p => match p with
    | .literal b => Text.ofByte b
    | .field f => f.render d)

/-! ## Reading dates -/

/-- What has been read of a date so far. -/
structure Reading where
  year : Int := 0
  month : Option Nat := none
  day : Option Nat := none
  yearDay : Option Nat := none
  hour : Nat := 0
  minute : Nat := 0
  second : Nat := 0
  nanos : Nat := 0
  afternoon : Bool := false
  morning : Bool := false
  utc : Bool := false
  offset : Option Int := none
  zoneName : Text := ⟨[]⟩

/-- The value of a digit. -/
def digit (b : UInt8) : Nat := b.toNat - 0x30

/-- A number of one or two digits; `fixed` asks for two. -/
def number? (fixed : Bool) : List UInt8 → Option (Nat × List UInt8)
  | [] => none
  | a :: rest =>
    if !Text.isDigitByte a then none
    else match rest with
      | b :: rest' =>
        if Text.isDigitByte b then some (digit a * 10 + digit b, rest')
        else if fixed then none else some (digit a, rest)
      | [] => if fixed then none else some (digit a, rest)

/-- A number of at most three digits; `fixed` asks for three. -/
def number3? (fixed : Bool) (bs : List UInt8) : Option (Nat × List UInt8) :=
  let ds := (bs.take 3).takeWhile Text.isDigitByte
  if ds.isEmpty || (fixed && ds.length ≠ 3) then none
  else some (ds.foldl (fun n b => n * 10 + digit b) 0, bs.drop ds.length)

/-- A whole number with an optional sign. -/
def signed? (bs : List UInt8) : Option Int :=
  let (negative, ds) := match bs with
    | 0x2D :: rest => (true, rest)
    | 0x2B :: rest => (false, rest)
    | _ => (false, bs)
  if ds.all Text.isDigitByte then
    let n : Int := ds.foldl (fun n b => n * 10 + digit b) 0
    some (if negative then -n else n)
  else none

/-- The place of the first name that the text begins with, in any case of letters. -/
def nameHere? (names : List String) (bs : List UInt8) : Option (Nat × List UInt8) :=
  let fits (s : String) : Bool :=
    let ns := bytesOf s
    ns.length ≤ bs.length && (ns.zip bs).all fun (a, b) => Text.lowerByte a = Text.lowerByte b
  (names.findIdx? fits).map fun i => (i, bs.drop ((names[i]?).getD "").length)

/-- The nanoseconds of a fraction: a point or comma and digits, the first of which may be a sign. What comes behind
the ninth is left out. -/
def nanosOf? : List UInt8 → Option Nat
  | mark :: ds => do
    guard (mark = 0x2E || mark = 0x2C)
    let ds := ds.take 9
    let n ← signed? ds
    guard (0 ≤ n)
    some (n.toNat * Nat.pow 10 (9 - ds.length))
  | [] => none

/-- The length of a signed hour offset at the front, zero when there is none. -/
def signedHours : List UInt8 → Nat
  | sign :: rest =>
    let ds := rest.takeWhile Text.isDigitByte
    if (sign = 0x2B || sign = 0x2D) && !ds.isEmpty
        && ds.foldl (fun n b => n * 10 + digit b) 0 ≤ 23 then ds.length + 1
    else 0
  | [] => 0

/-- The length of a zone name at the front. -/
def zoneLength? (bs : List UInt8) : Option Nat :=
  if bs.length < 3 then none
  else if begins "ChST" bs || begins "MeST" bs then some 4
  else if begins "GMT" bs then some (3 + signedHours (bs.drop 3))
  else if begins "+" bs || begins "-" bs then
    let n := signedHours bs
    if n > 0 then some n else none
  else
    let upper := ((bs.take 6).takeWhile fun b => 0x41 ≤ b && b ≤ 0x5A).length
    match upper with
    | 5 => if bs[4]? = some 0x54 then some 5 else none
    | 4 => if bs[3]? = some 0x54 || begins "WITA" bs then some 4 else none
    | 3 => some 3
    | _ => none

/-- Whether `n` lies below a bound, as a condition on reading. -/
def below (n bound : Nat) : Option Unit := if n < bound then some () else none

/-- The offset in a style at the front. -/
def OffsetStyle.read? (style : OffsetStyle) (bs : List UInt8) : Option (Int × List UInt8) := do
  let width := if style.colons then 3 * style.parts else 2 * style.parts + 1
  guard (width ≤ bs.length)
  let step := if style.colons then 3 else 2
  if style.colons then
    guard (style.parts < 2 || bs[3]? = some 0x3A)
    guard (style.parts < 3 || bs[6]? = some 0x3A)
  let part (k : Nat) : Option Nat :=
    if k < style.parts then (number? true ((bs.drop (1 + step * k)).take 2)).map (·.1) else some 0
  let hours ← part 0
  let minutes ← part 1
  let seconds ← part 2
  below hours 25
  below minutes 61
  below seconds 61
  let n : Int := ((hours * 60 + minutes) * 60 + seconds : Nat)
  match bs with
  | 0x2B :: _ => some (n, bs.drop width)
  | 0x2D :: _ => some (-n, bs.drop width)
  | _ => none

/-- Passes over at most `n` blanks. -/
def dropBlanks : Nat → List UInt8 → List UInt8
  | n + 1, 32 :: rest => dropBlanks n rest
  | _, bs => bs

/-- Whether the next field of a layout is a fraction of a second; literal pieces are passed over. -/
def fractionNext : List Piece → Bool
  | .field (.fraction ..) :: _ => true
  | .literal _ :: rest => fractionNext rest
  | _ => false

/-- Reads one field. `rest` is the layout after it. -/
def Field.read? (f : Field) (rest : List Piece) (r : Reading) (bs : List UInt8) :
    Option (Reading × List UInt8) := do
  match f with
  | .year =>
    guard (2 ≤ bs.length)
    let y ← signed? (bs.take 2)
    some ({ r with year := if y ≥ 69 then y + 1900 else y + 2000 }, bs.drop 2)
  | .longYear =>
    guard (4 ≤ bs.length && bs.head?.any Text.isDigitByte)
    let y ← signed? (bs.take 4)
    some ({ r with year := y }, bs.drop 4)
  | .month =>
    let (i, bs) ← nameHere? (monthNames.map abbreviate) bs
    some ({ r with month := some (i + 1) }, bs)
  | .longMonth =>
    let (i, bs) ← nameHere? monthNames bs
    some ({ r with month := some (i + 1) }, bs)
  | .monthNumber | .zeroMonth =>
    let (n, bs) ← number? (f = .zeroMonth) bs
    guard (0 < n && n ≤ 12)
    some ({ r with month := some n }, bs)
  | .weekday =>
    let (_, bs) ← nameHere? (weekdayNames.map abbreviate) bs
    some (r, bs)
  | .longWeekday =>
    let (_, bs) ← nameHere? weekdayNames bs
    some (r, bs)
  | .day | .underDay | .zeroDay =>
    let (n, bs) ← number? (f = .zeroDay) (if f = .underDay then dropBlanks 1 bs else bs)
    some ({ r with day := some n }, bs)
  | .underYearDay | .zeroYearDay =>
    let (n, bs) ← number3? (f = .zeroYearDay) (if f = .underYearDay then dropBlanks 2 bs else bs)
    some ({ r with yearDay := some n }, bs)
  | .hour =>
    let (n, bs) ← number? false bs
    below n 24
    some ({ r with hour := n }, bs)
  | .hour12 | .zeroHour12 =>
    let (n, bs) ← number? (f = .zeroHour12) bs
    below n 13
    some ({ r with hour := n }, bs)
  | .minute | .zeroMinute =>
    let (n, bs) ← number? (f = .zeroMinute) bs
    below n 60
    some ({ r with minute := n }, bs)
  | .second | .zeroSecond =>
    let (n, bs) ← number? (f = .zeroSecond) bs
    below n 60
    let r := { r with second := n }
    match bs with
    | mark :: d :: more =>
      if (mark = 0x2E || mark = 0x2C) && Text.isDigitByte d && !fractionNext rest then
        let ds := d :: more.takeWhile Text.isDigitByte
        let nanos ← nanosOf? (mark :: ds)
        some ({ r with nanos := nanos }, more.dropWhile Text.isDigitByte)
      else some (r, bs)
    | _ => some (r, bs)
  | .upperHalf =>
    if begins "PM" bs then some ({ r with afternoon := true }, bs.drop 2)
    else if begins "AM" bs then some ({ r with morning := true }, bs.drop 2)
    else none
  | .lowerHalf =>
    if begins "pm" bs then some ({ r with afternoon := true }, bs.drop 2)
    else if begins "am" bs then some ({ r with morning := true }, bs.drop 2)
    else none
  | .offset style =>
    if style.zulu && begins "Z" bs then some ({ r with utc := true }, bs.drop 1)
    else
      let (n, bs) ← style.read? bs
      some ({ r with offset := some n }, bs)
  | .zoneName =>
    if begins "UTC" bs then some ({ r with utc := true }, bs.drop 3)
    else
      let n ← zoneLength? bs
      some ({ r with zoneName := ⟨bs.take n⟩ }, bs.drop n)
  | .fraction _ digits true =>
    guard (digits + 1 ≤ bs.length)
    let nanos ← nanosOf? (bs.take (digits + 1))
    some ({ r with nanos := nanos }, bs.drop (digits + 1))
  | .fraction _ _ false =>
    match bs with
    | mark :: d :: more =>
      if (mark = 0x2E || mark = 0x2C) && Text.isDigitByte d then
        let ds := d :: more.takeWhile Text.isDigitByte
        let nanos ← nanosOf? (mark :: ds)
        some ({ r with nanos := nanos }, more.dropWhile Text.isDigitByte)
      else some (r, bs)
    | _ => some (r, bs)

/-- Reads the pieces of a layout; the whole text must be used up. A run of blanks in the layout
stands for any number of blanks, but not for none before other text. `blanks` tells whether the
piece before was a blank. -/
def readPieces : List Piece → Bool → Reading → List UInt8 → Option Reading
  | [], _, r, bs => if bs.isEmpty then some r else none
  | .literal b :: rest, blanks, r, bs =>
    if b = 32 then
      if blanks then readPieces rest true r bs
      else match bs with
        | [] => readPieces rest true r []
        | c :: _ => if c = 32 then readPieces rest true r (bs.dropWhile (· = 32)) else none
    else match bs with
      | c :: more => if c = b then readPieces rest false r more else none
      | [] => none
  | .field f :: rest, _, r, bs =>
    match f.read? rest r bs with
    | some (r, bs) => readPieces rest false r bs
    | none => none

/-- The month and day that a reading names; a day of the year must agree with them. -/
def Reading.monthDay? (r : Reading) : Option (Nat × Nat) :=
  match r.yearDay with
  | none => some (r.month.getD 1, r.day.getD 1)
  | some n =>
    let days := if Civil.isLeap r.year then 366 else 365
    if n < 1 || days < n then none
    else
      let c := Civil.ofDays (Civil.toDays ⟨r.year, 1, 1⟩ + ((n : Int) - 1))
      if r.month.all (· = c.month) && r.day.all (· = c.day) then some (c.month, c.day) else none

/-- The offset that counts as none having been read. -/
def noOffset : Int := -1

/-- The date that a reading names. Without a zone it is in the one given, which is also the zone of a date whose offset
or name is in force there then. -/
def Reading.date? (r : Reading) (here : Zone) : Option Date := do
  let hour := if r.afternoon && r.hour < 12 then r.hour + 12
    else if r.morning && r.hour = 12 then 0 else r.hour
  let (month, day) ← r.monthDay?
  guard (1 ≤ day && day ≤ Civil.daysIn r.year month)
  let base := Date.make ⟨r.year, month, day⟩ hour r.minute r.second r.nanos Zone.utc
  if r.utc then some base
  else match r.offset.filter (· ≠ noOffset) with
    | some n =>
      let seconds := base.seconds - n
      let isHere := here.offsetAt seconds = n && (r.zoneName.isEmpty || here.nameAt seconds = r.zoneName)
      some { base with seconds := seconds, zone := if isHere then here else .fixed r.zoneName n }
    | none =>
      if r.zoneName.isEmpty then some (base.shownIn here)
      else match here.offsetNamed? r.zoneName base.seconds with
        | some n => some { base with seconds := base.seconds - n, zone := here }
        | none =>
          let hours : Int := if begins "GMT" r.zoneName.bytes && r.zoneName.size > 3 then
            (signed? (r.zoneName.bytes.drop 3)).getD 0 else 0
          some { base with zone := .fixed r.zoneName (hours * 3600) }

/-- The date that a text names in a layout. -/
def parse? (l : Layout) (t : Text) (here : Zone) : Option Date :=
  (readPieces l.pieces false {} t.bytes).bind (·.date? here)

/-- The form in which scripts show dates. -/
def standard : Layout := ofText "2006-01-02 15:04:05"

/-- The form in which json holds dates. -/
def internet : Layout := ofText "2006-01-02T15:04:05Z07:00"

/-- The forms in which scripts may write dates, in the order in which they are tried. -/
def accepted : List Layout :=
  [standard, ofText "2006-01-02T15:04:05", ofText "2006-01-02 15:04", ofText "2006-01-02T15:04",
    ofText "2006-01-02", internet]

end Layout

/-- The date that a text names in one of the accepted forms. Without a zone it is in the one given. -/
def Date.readIn? (here : Zone) (t : Text) : Option Date := Layout.accepted.findSome? fun l => l.parse? t here

/-- The date that a text names in UTC. -/
def Date.ofText? (t : Text) : Option Date := readIn? .utc t

/-- A date as scripts show it. -/
def Date.inspect (d : Date) : Text := Layout.standard.format d

end ScriptEngine
