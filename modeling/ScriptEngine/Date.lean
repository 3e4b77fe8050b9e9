import ScriptEngine.Text
/-!
# Dates

A date is an instant, counted in seconds from the start of 1970 in UTC and a fraction in nanoseconds,
together with the zone in which it is shown. Days are counted in the Gregorian calendar, extended
without limit in both directions.

Dates are taken to be told apart by the wall clock alone: a reading of a monotonic clock, which two dates of one
run may have beside it, counts only when the wall clock was set in between, and is left out.
-/

namespace ScriptEngine

/-- A day of the Gregorian calendar. -/
structure Civil where
  year : Int
  month : Nat
  day : Nat
deriving DecidableEq, Repr, Inhabited

namespace Civil

/-- Whether a year has 366 days. -/
def isLeap (year : Int) : Bool := year % 4 = 0 && (year % 100 ≠ 0 || year % 400 = 0)

/-- The number of days of a month. -/
def daysIn (year : Int) (month : Nat) : Nat :=
  match month with
  | 2 => if isLeap year then 29 else 28
  | 4 | 6 | 9 | 11 => 30
  | _ => 31

/-- The number of days from the first of January 1970. Years are taken to begin in March, so that
the leap day is the last of its year. -/
def toDays (c : Civil) : Int :=
  let y : Int := if c.month ≤ 2 then c.year - 1 else c.year
  let era : Int := y / 400
  let yearOfEra : Int := y - era * 400
  let shifted : Int := if c.month > 2 then (c.month : Int) - 3 else (c.month : Int) + 9
  let dayOfYear : Int := (153 * shifted + 2) / 5 + (c.day : Int) - 1
  let dayOfEra : Int := yearOfEra * 365 + yearOfEra / 4 - yearOfEra / 100 + dayOfYear
  era * 146097 + dayOfEra - 719468

/-- The day a number of days after the first of January 1970. -/
def ofDays (days : Int) : Civil :=
  let z : Int := days + 719468
  let era : Int := z / 146097
  let doe : Int := z - era * 146097
  let yoe : Int := (doe - doe / 1460 + doe / 36524 - doe / 146096) / 365
  let doy : Int := doe - (365 * yoe + yoe / 4 - yoe / 100)
  let mp : Int := (5 * doy + 2) / 153
  let day : Int := doy - (153 * mp + 2) / 5 + 1
  let month : Int := if mp < 10 then mp + 3 else mp - 9
  let year : Int := yoe + era * 400
  ⟨if month ≤ 2 then year + 1 else year, month.toNat, day.toNat⟩

/-- The day of the week of a day count, Sunday being zero. -/
def weekday (days : Int) : Nat := ((days + 4) % 7).toNat

/-- The place of a day in its year, from one. -/
def dayOfYear (c : Civil) : Nat := (c.toDays - (Civil.toDays ⟨c.year, 1, 1⟩)).toNat + 1

/-- The year and number of the week of a day: weeks begin on Monday and belong to the year of their
Thursday. -/
def isoWeek (days : Int) : Int × Nat :=
  let monday := (weekday days + 6) % 7
  let thursday : Int := days - monday + 3
  let c := ofDays thursday
  (c.year, (c.dayOfYear - 1) / 7 + 1)

end Civil

/-- A second from which on a zone has another name and another offset. -/
structure Zone.Change where
  since : Int
  name : Text
  offset : Int
deriving DecidableEq

/-- A zone: its first name, empty when it has none, its first offset from UTC in seconds, and what they change to later,
the latest change first. -/
structure Zone where
  name : Text
  offset : Int
  changes : List Zone.Change
deriving DecidableEq, Inhabited

namespace Zone

/-- A zone that never changes. -/
def fixed (name : Text) (offset : Int) : Zone := ⟨name, offset, []⟩

/-- Coordinated universal time. -/
def utc : Zone := fixed "UTC" 0

/-- The name and the offset at a second. -/
def inForce (z : Zone) (t : Int) : Text × Int :=
  match z.changes.find? (·.since ≤ t) with
  | some c => (c.name, c.offset)
  | none => (z.name, z.offset)

/-- The name at a second. -/
def nameAt (z : Zone) (t : Int) : Text := (z.inForce t).1

/-- The offset at a second. -/
def offsetAt (z : Zone) (t : Int) : Int := (z.inForce t).2

/-- The offset that counts for a time which clocks in the zone show, in seconds as if it were UTC. Where clocks were set
forward past it, or back to show it twice, it is one of the two that come into question. -/
def offsetFor (z : Zone) (wall : Int) : Int := z.offsetAt (wall - z.offsetAt wall)

/-- The offset that a name stands for at a time which clocks show: one that is in force then, or the first of the name. -/
def offsetNamed? (z : Zone) (name : Text) (wall : Int) : Option Int :=
  let named := ((z.name, z.offset) :: z.changes.reverse.map fun c => (c.name, c.offset)).filter fun p => p.1 = name
  match named.find? fun p => z.nameAt (wall - p.2) = name with
  | some p => some (z.offsetAt (wall - p.2))
  | none => named.head?.map (·.2)

end Zone

/-- An instant and the zone it is shown in. -/
structure Date where
  seconds : Int
  nanos : Nat
  zone : Zone
deriving DecidableEq, Inhabited

/-- The calendar fields of a date. -/
structure Date.Clock where
  civil : Civil
  days : Int
  hour : Nat
  minute : Nat
  second : Nat

namespace Date

/-- The offset from UTC that its zone has at a date. -/
def offset (d : Date) : Int := d.zone.offsetAt d.seconds

/-- The time that clocks in its zone show at a date, in seconds as if it were UTC. -/
def wall (d : Date) : Int := d.seconds + d.offset

/-- The calendar fields of a date in its zone. -/
def clock (d : Date) : Clock :=
  let t : Int := d.wall
  let days := t / 86400
  let s := (t % 86400).toNat
  ⟨Civil.ofDays days, days, s / 3600, s / 60 % 60, s % 60⟩

/-- The date at which clocks in a zone show a time. -/
def atWall (wall : Int) (nanos : Nat) (zone : Zone) : Date := ⟨wall - zone.offsetFor wall, nanos, zone⟩

/-- The date with the given calendar fields in a zone. -/
def make (c : Civil) (hour minute second nanos : Nat) (zone : Zone) : Date :=
  atWall (c.toDays * 86400 + ((hour * 60 + minute) * 60 + second : Nat)) nanos zone

/-- The date at which clocks in a zone show what clocks in its own zone show at a date. -/
def shownIn (d : Date) (zone : Zone) : Date := atWall d.wall d.nanos zone

/-- The same time of day a number of days later. -/
def addDays (d : Date) (n : Int) : Date := atWall (d.wall + n * 86400) d.nanos d.zone

/-- The order of two instants. -/
def order (a b : Date) : Ordering :=
  if a.seconds < b.seconds then .lt
  else if b.seconds < a.seconds then .gt
  else compare a.nanos b.nanos

/-- Whether two dates are the same instant. -/
def sameInstant (a b : Date) : Bool := a.seconds = b.seconds && a.nanos = b.nanos

/-- The nanoseconds from `a` to `b`, kept within 64 bits. -/
def nanosBetween (a b : Date) : Int :=
  let d : Int := (b.seconds - a.seconds) * 1000000000 + ((b.nanos : Int) - a.nanos)
  max (-(2 ^ 63)) (min (2 ^ 63 - 1) d)

/-- The whole days from `a` to `b`, toward zero. -/
def daysBetween (a b : Date) : Int := (nanosBetween a b).tdiv 86400000000000

/-- The milliseconds from the start of 1970. -/
def millis (d : Date) : Int := d.seconds * 1000 + (d.nanos / 1000000 : Nat)

end Date

end ScriptEngine
