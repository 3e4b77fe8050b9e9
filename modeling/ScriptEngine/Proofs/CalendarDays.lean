import Mathlib.Tactic.IntervalCases
import Mathlib.Tactic.SplitIfs
import ScriptEngine.Eval
import ScriptEngine.Proofs.Local
/-!
# Days of the calendar and their count

The days of the Gregorian calendar and the whole numbers are one and the same: each day has a number, each number is that of one
day, and going from one to the other and back changes nothing.

Between the two stands the place of a day among years that begin in March. Then the leap day is the last of its year, a leap year is
the last of four, and what is special is at the end of each cycle, each century and each era.

The days from one date to another are counted by way of a span of nanoseconds in 64 bits. Such a span ends where 64 bits do, so no
count goes beyond 106751 days, some 292 years. Up to there counting is the opposite of adding days, and counts add up from one
midnight to the next.
-/

namespace ScriptEngine

namespace Civil

/-- A day that the calendar has. -/
def IsDay (c : Civil) : Prop := 1 ≤ c.month ∧ c.month ≤ 12 ∧ 1 ≤ c.day ∧ c.day ≤ daysIn c.year c.month

instance (c : Civil) : Decidable c.IsDay := inferInstanceAs (Decidable (_ ∧ _))

theorem daysIn_le (year : Int) (month : Nat) : daysIn year month ≤ 31 := by
  unfold daysIn
  split
  · split <;> decide
  all_goals decide

theorem daysIn_february (year : Int) : daysIn year 2 = if isLeap year then 29 else 28 := rfl

theorem daysIn_short {year : Int} {month : Nat} (short : month = 4 ∨ month = 6 ∨ month = 9 ∨ month = 11) : daysIn year month = 30 := by
  rcases short with rfl | rfl | rfl | rfl <;> rfl

/-- The place of a day. All is counted from zero, and months from March. -/
structure Place where
  era : Int
  century : Int
  cycle : Int
  year : Int
  month : Int
  day : Int

namespace Place

variable (p : Place)

/-- The leap day is in the last year of a cycle, but for the last cycle of the first three centuries. -/
def Leap : Prop := p.year = 3 ∧ (p.cycle < 24 ∨ p.century = 3)

/-- A place that a day has. -/
structure Within : Prop where
  century : 0 ≤ p.century ∧ p.century < 4
  cycle : 0 ≤ p.cycle ∧ p.cycle < 25
  year : 0 ≤ p.year ∧ p.year < 4
  month : 0 ≤ p.month ∧ p.month < 12
  day : 0 ≤ p.day ∧ p.day < 31
  /-- April, June, September and November. -/
  short : p.month = 1 ∨ p.month = 3 ∨ p.month = 6 ∨ p.month = 8 → p.day < 30
  /-- February. -/
  last : p.month = 11 → p.day < 28 ∨ p.day < 29 ∧ p.Leap

/-- The year that begins in March. -/
def marchYear : Int := 400 * p.era + 100 * p.century + 4 * p.cycle + p.year

/-- The days of the year before a day. -/
def dayOfYear : Int := (153 * p.month + 2) / 5 + p.day

/-- The days of the era before a day. -/
def dayOfEra : Int := 36524 * p.century + 1461 * p.cycle + 365 * p.year + p.dayOfYear

/-- The number of a day. -/
def days : Int := 146097 * p.era + p.dayOfEra - 719468

/-- The day in a year that begins in January. -/
def civil : Civil :=
  ⟨if p.month < 10 then p.marchYear else p.marchYear + 1, (if p.month < 10 then p.month + 3 else p.month - 9).toNat, (p.day + 1).toNat⟩

variable {p}

theorem Within.dayOfYear_nonneg (within : p.Within) : 0 ≤ p.dayOfYear := by
  have := within.month
  have := within.day
  unfold dayOfYear
  omega

theorem Within.dayOfYear_lt (within : p.Within) : p.dayOfYear < 365 ∨ p.dayOfYear < 366 ∧ p.Leap := by
  have month := within.month
  have day := within.day
  unfold dayOfYear
  by_cases february : p.month = 11
  · rw [february]
    rcases within.last february with common | ⟨added, leap⟩
    · left
      omega
    · exact .inr ⟨by omega, leap⟩
  · left
    omega

theorem Within.dayOfEra_lt (within : p.Within) : 0 ≤ p.dayOfEra ∧ p.dayOfEra < 146097 := by
  have := within.century
  have := within.cycle
  have := within.year
  have := within.dayOfYear_nonneg
  have := within.dayOfYear_lt
  unfold Leap at this
  unfold dayOfEra
  omega

/-! ## The steps of the count -/

/-- The month and the day of the month of a day of the year. -/
theorem Within.month_eq (within : p.Within) : (5 * p.dayOfYear + 2) / 153 = p.month := by
  obtain ⟨low, high⟩ := within.month
  have day := within.day
  have short := within.short
  have last := within.last
  unfold dayOfYear
  generalize p.month = month at *
  interval_cases month <;> omega

/-- The year of a day of the era. The leap days before it are made up for: one for each 1460 days, but for one in each century, and
the one at the end of the era. -/
theorem Within.year_eq (within : p.Within) :
    (p.dayOfEra - p.dayOfEra / 1460 + p.dayOfEra / 36524 - p.dayOfEra / 146096) / 365 = 100 * p.century + 4 * p.cycle + p.year := by
  have century := within.century
  have cycle := within.cycle
  have year := within.year
  have low := within.dayOfYear_nonneg
  have high := within.dayOfYear_lt
  unfold Leap at high
  unfold dayOfEra
  generalize p.dayOfYear = day at *
  have centuries : (36524 * p.century + 1461 * p.cycle + 365 * p.year + day) / 36524
      - (36524 * p.century + 1461 * p.cycle + 365 * p.year + day) / 146096 = p.century := by
    -- only the last day of an era is one more than four centuries hold
    by_cases ends : 1461 * p.cycle + 365 * p.year + day = 36524
    · omega
    · omega
  have cycles : (36524 * p.century + 1461 * p.cycle + 365 * p.year + day) / 1460
      = 25 * p.century + p.cycle + (24 * p.century + p.cycle + 365 * p.year + day) / 1460 := by
    omega
  omega

/-- The days of the era before a year. -/
theorem Within.start_eq (within : p.Within) :
    365 * (100 * p.century + 4 * p.cycle + p.year) + (100 * p.century + 4 * p.cycle + p.year) / 4
      - (100 * p.century + 4 * p.cycle + p.year) / 100 = 36524 * p.century + 1461 * p.cycle + 365 * p.year := by
  have := within.century
  have := within.cycle
  have := within.year
  omega

/-! ## From one to the other -/

/-- The day of a number is the day at its place. -/
theorem Within.ofDays_days (within : p.Within) : ofDays p.days = p.civil := by
  obtain ⟨low, high⟩ := within.dayOfEra_lt
  have era : (p.days + 719468) / 146097 = p.era := by
    unfold days
    omega
  have day : p.days + 719468 - p.era * 146097 = p.dayOfEra := by
    unfold days
    omega
  have rest : p.dayOfEra - (365 * (100 * p.century + 4 * p.cycle + p.year) + (100 * p.century + 4 * p.cycle + p.year) / 4
      - (100 * p.century + 4 * p.cycle + p.year) / 100) = p.dayOfYear := by
    rw [within.start_eq]
    unfold dayOfEra
    omega
  have month := within.month
  unfold ofDays
  simp only [era, day, within.year_eq, rest, within.month_eq]
  unfold civil marchYear dayOfYear
  congr 1
  · split_ifs <;> omega
  · omega

/-- The number of a day is the number of its place. -/
theorem Within.toDays_civil (within : p.Within) : toDays p.civil = p.days := by
  have := within.century
  have := within.cycle
  have := within.year
  obtain ⟨low, high⟩ := within.month
  obtain ⟨first, -⟩ := within.day
  have monthly : ((if p.month < 10 then p.month + 3 else p.month - 9).toNat : Int) = if p.month < 10 then p.month + 3 else p.month - 9 := by
    split_ifs <;> omega
  have daily : ((p.day + 1).toNat : Int) = p.day + 1 := by omega
  have early : (if p.month < 10 then p.month + 3 else p.month - 9).toNat ≤ 2 ↔ ¬p.month < 10 := by
    split_ifs <;> omega
  have era : p.marchYear / 400 = p.era := by
    unfold marchYear
    omega
  have year : p.marchYear - p.era * 400 = 100 * p.century + 4 * p.cycle + p.year := by
    unfold marchYear
    omega
  have march : (if ¬p.month < 10 then (if p.month < 10 then p.marchYear else p.marchYear + 1) - 1
      else if p.month < 10 then p.marchYear else p.marchYear + 1) = p.marchYear := by
    split_ifs <;> omega
  have shifted : (if (if p.month < 10 then p.month + 3 else p.month - 9).toNat > 2
      then (if p.month < 10 then p.month + 3 else p.month - 9) - 3
      else (if p.month < 10 then p.month + 3 else p.month - 9) + 9) = p.month := by
    split_ifs <;> omega
  unfold toDays civil
  simp only [early, march, monthly, daily, era, year, shifted]
  have start := within.start_eq
  unfold days dayOfEra dayOfYear
  omega

/-! ## Every day has a place -/

/-- Leap years by the number of the year in which the leap day is. -/
theorem isLeap_iff (century : 0 ≤ p.century ∧ p.century < 4) (cycle : 0 ≤ p.cycle ∧ p.cycle < 25) (year : 0 ≤ p.year ∧ p.year < 4) :
    isLeap (p.marchYear + 1) = true ↔ p.Leap := by
  unfold isLeap Leap marchYear
  simp only [Bool.and_eq_true, Bool.or_eq_true, decide_eq_true_eq, ne_eq]
  omega

/-- What a place stands for is a day of the calendar. -/
theorem Within.isDay_civil (within : p.Within) : p.civil.IsDay := by
  have leap := isLeap_iff within.century within.cycle within.year
  obtain ⟨low, high⟩ := within.month
  have day := within.day
  have short := within.short
  have last := within.last
  unfold IsDay civil
  generalize p.month = month at *
  interval_cases month
  case «11» =>
    simp only [Int.reduceLT, if_false, Int.reduceSub, Int.reduceToNat, daysIn_february]
    rcases last rfl with common | ⟨added, is⟩
    · split_ifs <;> omega
    · rw [if_pos (leap.mpr is)]
      omega
  all_goals
    simp [daysIn]
    omega

/-- A day of a year is in one of its months. -/
theorem exists_month {d : Int} (low : 0 ≤ d) (high : d < 366) :
    ∃ m k : Int, (0 ≤ m ∧ m < 12) ∧ (0 ≤ k ∧ k < 31) ∧ (m = 1 ∨ m = 3 ∨ m = 6 ∨ m = 8 → k < 30) ∧
      (m = 11 → k < 28 ∨ k < 29 ∧ d = 365) ∧ (153 * m + 2) / 5 + k = d := by
  obtain ⟨m, month⟩ : ∃ m, m = (5 * d + 2) / 153 := ⟨_, rfl⟩
  have within : 0 ≤ m ∧ m < 12 := by omega
  refine ⟨m, d - (153 * m + 2) / 5, within, ?_⟩
  obtain ⟨first, last⟩ := within
  interval_cases m <;> omega

/-- A day of an era is in one of its centuries. -/
theorem exists_century {d : Int} (low : 0 ≤ d) (high : d < 146097) :
    ∃ c k : Int, (0 ≤ c ∧ c < 4) ∧ 0 ≤ k ∧ (k < 36524 ∨ k = 36524 ∧ c = 3) ∧ 36524 * c + k = d :=
  ⟨min 3 (d / 36524), d - 36524 * min 3 (d / 36524), by omega, by omega, by omega, by omega⟩

/-- A day of a century is in one of its cycles. -/
theorem exists_cycle {d : Int} (low : 0 ≤ d) (high : d ≤ 36524) :
    ∃ q k : Int, (0 ≤ q ∧ q < 25) ∧ (0 ≤ k ∧ k < 1461) ∧ (k = 1460 → q < 24 ∨ d = 36524) ∧ 1461 * q + k = d :=
  ⟨d / 1461, d % 1461, by omega, by omega, by omega, by omega⟩

/-- A day of a cycle is in one of its years. -/
theorem exists_year {d : Int} (low : 0 ≤ d) (high : d < 1461) :
    ∃ y k : Int, (0 ≤ y ∧ y < 4) ∧ (0 ≤ k ∧ k < 366) ∧ (k = 365 → y = 3 ∧ d = 1460) ∧ 365 * y + k = d :=
  ⟨min 3 (d / 365), d - 365 * min 3 (d / 365), by omega, by omega, by omega, by omega⟩

/-- Every number is that of a place. -/
theorem exists_days (n : Int) : ∃ p : Place, p.Within ∧ p.days = n := by
  have day : 0 ≤ (n + 719468) % 146097 ∧ (n + 719468) % 146097 < 146097 := by omega
  obtain ⟨c, ofCentury, century, some, ends, whole⟩ := exists_century day.1 day.2
  obtain ⟨q, ofCycle, cycle, inside, closes, hundred⟩ := exists_cycle (d := ofCentury) some (by omega)
  obtain ⟨y, ofYear, year, within, leaps, four⟩ := exists_year inside.1 inside.2
  obtain ⟨m, k, month, first, short, last, one⟩ := exists_month within.1 within.2
  refine ⟨⟨(n + 719468) / 146097, c, q, y, m, k⟩, ⟨century, cycle, year, month, first, short, fun february => ?_⟩, ?_⟩
  · refine (last february).imp_right fun ⟨added, leap⟩ => ⟨added, (leaps leap).1, (closes (leaps leap).2).imp_right fun full => ?_⟩
    exact (ends.resolve_left (by omega)).2
  · show 146097 * ((n + 719468) / 146097) + (36524 * c + 1461 * q + 365 * y + ((153 * m + 2) / 5 + k)) - 719468 = n
    omega

/-- A day of a month of a year that begins in March has a place. -/
theorem exists_marchYear (y m k : Int) : ∃ p : Place, p.marchYear = y ∧ p.month = m ∧ p.day = k ∧
    (0 ≤ p.century ∧ p.century < 4) ∧ (0 ≤ p.cycle ∧ p.cycle < 25) ∧ 0 ≤ p.year ∧ p.year < 4 := by
  refine ⟨⟨y / 400, y % 400 / 100, y % 100 / 4, y % 4, m, k⟩, ?_, rfl, rfl, ?_⟩
  · show 400 * (y / 400) + 100 * (y % 400 / 100) + 4 * (y % 100 / 4) + y % 4 = y
    omega
  · show (0 ≤ y % 400 / 100 ∧ y % 400 / 100 < 4) ∧ (0 ≤ y % 100 / 4 ∧ y % 100 / 4 < 25) ∧ 0 ≤ y % 4 ∧ y % 4 < 4
    omega

/-- Every day of the calendar has a place. -/
theorem exists_civil {c : Civil} (is : c.IsDay) : ∃ p : Place, p.Within ∧ p.civil = c := by
  obtain ⟨year, month, day⟩ := c
  obtain ⟨low, high, first, last⟩ := is
  dsimp only at low high first last
  have size := daysIn_le year month
  have short : month = 4 ∨ month = 6 ∨ month = 9 ∨ month = 11 → daysIn year month = 30 := daysIn_short
  obtain ⟨p, march, monthly, daily, century, cycle, annual⟩ :=
    exists_marchYear (if month ≤ 2 then year - 1 else year) (if month ≤ 2 then month + 9 else month - 3) (day - 1)
  refine ⟨p, ⟨century, cycle, annual, ?_, ?_, ?_, ?_⟩, ?_⟩
  · split_ifs at monthly <;> omega
  · omega
  · split_ifs at monthly <;> omega
  · intro february
    obtain rfl : month = 2 := by split_ifs at monthly <;> omega
    have leap := isLeap_iff century cycle annual
    rw [march, if_pos (by decide), Int.sub_add_cancel] at leap
    rw [daysIn_february] at last
    split_ifs at last with is
    · exact .inr ⟨by omega, leap.mp is⟩
    · left
      omega
  · unfold civil
    rw [march, monthly, daily]
    congr 1
    · split_ifs <;> omega
    · split_ifs <;> omega
    · omega

end Place

/-! ## The count and the calendar -/

/-- The day of a number is one that the calendar has. -/
theorem isDay_ofDays (n : Int) : (ofDays n).IsDay := by
  obtain ⟨p, within, rfl⟩ := Place.exists_days n
  rw [within.ofDays_days]
  exact within.isDay_civil

/-- The number of the day of a number is that number. -/
theorem toDays_ofDays (n : Int) : (ofDays n).toDays = n := by
  obtain ⟨p, within, rfl⟩ := Place.exists_days n
  rw [within.ofDays_days, within.toDays_civil]

/-- The day of the number of a day is that day. -/
theorem ofDays_toDays {c : Civil} (is : c.IsDay) : ofDays c.toDays = c := by
  obtain ⟨p, within, rfl⟩ := Place.exists_civil is
  rw [within.toDays_civil, within.ofDays_days]

end Civil

/-! ## Clocks of a zone -/

namespace Zone

variable {z : Zone}

/-- Whether clocks in a zone show a time at all: they do unless they are set forward past it. -/
def Keeps (z : Zone) (wall : Int) : Prop := z.offsetAt (wall - z.offsetFor wall) = z.offsetFor wall

theorem offsetAt_eq (h : z.changes = []) (t : Int) : z.offsetAt t = z.offset := by
  rw [offsetAt, inForce, h]
  rfl

theorem offsetFor_eq (h : z.changes = []) (wall : Int) : z.offsetFor wall = z.offset := offsetAt_eq h _

/-- Where clocks are never set they show every time. -/
theorem keeps_of_changes (h : z.changes = []) (wall : Int) : z.Keeps wall := by
  rw [Keeps, offsetAt_eq h, offsetFor_eq h]

theorem keeps_utc (wall : Int) : utc.Keeps wall := keeps_of_changes rfl wall

end Zone

/-! ## The fields of a date -/

namespace Date

theorem wall_atWall {zone : Zone} {wall : Int} (keeps : zone.Keeps wall) (nanos : Nat) : (atWall wall nanos zone).wall = wall := by
  show wall - zone.offsetFor wall + zone.offsetAt (wall - zone.offsetFor wall) = wall
  rw [keeps]
  exact Int.sub_add_cancel ..

variable {c : Civil} {a b d : Date} {n : Int} {hour minute second : Nat}

/-- The fields of a date are those of the time that clocks show. -/
theorem clock_of_wall (is : c.IsDay) (hours : hour < 24) (minutes : minute < 60) (seconds : second < 60)
    (shows : d.wall = c.toDays * 86400 + ((hour * 60 + minute) * 60 + second : Nat)) :
    d.clock = ⟨c, c.toDays, hour, minute, second⟩ := by
  have days : (c.toDays * 86400 + ((hour * 60 + minute) * 60 + second : Nat)) / 86400 = c.toDays := by omega
  have rest : ((c.toDays * 86400 + ((hour * 60 + minute) * 60 + second : Nat)) % 86400).toNat = (hour * 60 + minute) * 60 + second := by
    omega
  unfold clock
  simp only [shows, days, rest, Civil.ofDays_toDays is]
  congr 1 <;> omega

theorem clock_make (is : c.IsDay) (hours : hour < 24) (minutes : minute < 60) (seconds : second < 60) (nanos : Nat) {zone : Zone}
    (keeps : zone.Keeps (c.toDays * 86400 + ((hour * 60 + minute) * 60 + second : Nat))) :
    (make c hour minute second nanos zone).clock = ⟨c, c.toDays, hour, minute, second⟩ :=
  clock_of_wall is hours minutes seconds (wall_atWall keeps nanos)

/-- The fields of a date are those of some time of some day of the calendar. -/
structure Clock.InRange (k : Clock) : Prop where
  day : k.civil.IsDay
  number : k.civil.toDays = k.days
  hour : k.hour < 24
  minute : k.minute < 60
  second : k.second < 60

theorem inRange_clock (d : Date) : d.clock.InRange where
  day := Civil.isDay_ofDays _
  number := Civil.toDays_ofDays _
  hour := by
    unfold clock
    dsimp only
    omega
  minute := by
    unfold clock
    dsimp only
    omega
  second := by
    unfold clock
    dsimp only
    omega

/-- The time that clocks show which have these fields, in seconds as if it were UTC. -/
def Clock.wall (k : Clock) : Int := k.days * 86400 + ((k.hour * 60 + k.minute) * 60 + k.second : Nat)

theorem wall_clock (d : Date) : d.clock.wall = d.wall := by
  unfold Clock.wall clock
  dsimp only
  omega

theorem clock_congr (h : a.wall = b.wall) : a.clock = b.clock := by
  unfold clock
  rw [h]

/-- A number of days later it is the same time of another day. -/
theorem clock_addDays (d : Date) (n : Int) (keeps : d.zone.Keeps (d.wall + n * 86400)) :
    (d.addDays n).clock = { d.clock with civil := Civil.ofDays (d.clock.days + n), days := d.clock.days + n } := by
  have days : (d.wall + n * 86400) / 86400 = d.wall / 86400 + n := by omega
  have rest : (d.wall + n * 86400) % 86400 = d.wall % 86400 := by omega
  unfold clock
  dsimp only
  rw [addDays, wall_atWall keeps, days, rest]

/-- Where clocks are never set, a day is as long as the next. -/
theorem seconds_addDays (h : d.zone.changes = []) (n : Int) : (d.addDays n).seconds = d.seconds + n * 86400 := by
  show d.wall + n * 86400 - d.zone.offsetFor _ = _
  rw [Zone.offsetFor_eq h, wall, offset, Zone.offsetAt_eq h]
  omega

/-! ## Spans of days -/

/-- The most days that a span of 64 bits holds. -/
def mostDays : Int := 106751

/-- A number of days as far as a span holds it. -/
def spanned (n : Int) : Int := max (-mostDays) (min mostDays n)

theorem spanned_eq_iff : spanned n = n ↔ -mostDays ≤ n ∧ n ≤ mostDays := by
  unfold spanned mostDays
  omega

theorem toInt_spanned (n : Int) : (Int64.ofInt (spanned n)).toInt = spanned n := by
  refine Int64.toInt_ofInt_of_le ?_ ?_ <;> unfold spanned mostDays <;> omega

/-- Cutting a span to 64 bits and cutting its days is the same, for days are counted toward zero. -/
theorem daysBetween_eq (a b : Date) :
    a.daysBetween b = spanned (((b.seconds - a.seconds) * 1000000000 + ((b.nanos : Int) - a.nanos)).tdiv 86400000000000) := by
  unfold daysBetween nanosBetween spanned mostDays
  generalize (b.seconds - a.seconds) * 1000000000 + ((b.nanos : Int) - a.nanos) = span
  have sign : Int.sign 86400000000000 = 1 := rfl
  simp only [Int.tdiv_eq_ediv, sign]
  split_ifs <;> omega

theorem daysBetween_of_days (h : (b.seconds - a.seconds) * 1000000000 + ((b.nanos : Int) - a.nanos) = n * 86400000000000) :
    a.daysBetween b = spanned n := by
  rw [daysBetween_eq, h, Int.mul_tdiv_cancel _ (by decide)]

/-- The days that were added are counted. -/
theorem daysBetween_addDays (h : d.zone.changes = []) (n : Int) : d.daysBetween (d.addDays n) = spanned n := by
  refine daysBetween_of_days ?_
  rw [seconds_addDays h, show (d.addDays n).nanos = d.nanos from rfl]
  omega

/-- The first moment of a day in UTC. -/
structure IsMidnight (d : Date) : Prop where
  zone : d.zone = Zone.utc
  hour : d.clock.hour = 0
  minute : d.clock.minute = 0
  second : d.clock.second = 0
  nanos : d.nanos = 0

theorem isMidnight_make {c : Civil} (is : c.IsDay) : (make c 0 0 0 0 .utc).IsMidnight := by
  have fields : (make c 0 0 0 0 .utc).clock = ⟨c, c.toDays, 0, 0, 0⟩ := clock_make is (by decide) (by decide) (by decide) 0 (Zone.keeps_utc _)
  exact ⟨rfl, congrArg Clock.hour fields, congrArg Clock.minute fields, congrArg Clock.second fields, rfl⟩

theorem IsMidnight.seconds_eq (midnight : d.IsMidnight) : d.seconds = d.clock.days * 86400 := by
  have shown : d.seconds + d.zone.offsetAt d.seconds = d.clock.wall := (wall_clock d).symm
  rw [midnight.zone, Zone.offsetAt_eq rfl, Clock.wall, midnight.hour, midnight.minute, midnight.second] at shown
  exact (Int.add_zero _).symm.trans (shown.trans (Int.add_zero _))

/-- From midnight to midnight the days of the calendar are counted. -/
theorem daysBetween_midnight (first : a.IsMidnight) (second : b.IsMidnight) : a.daysBetween b = spanned (b.clock.days - a.clock.days) := by
  refine daysBetween_of_days ?_
  rw [first.seconds_eq, second.seconds_eq, first.nanos, second.nanos]
  omega

end Date

/-! ## Calls -/

namespace DateOp

variable (sleep : Nat → Exec Unit) (m : Machine)

theorem call_addDays (d : Date) (n : Int32) :
    Builtin.call sleep "date.adddays" [.date d, .int n] m = .done (.date (d.addDays n.toInt)) m := by
  refine (Builtin.call_of_prepared sleep (.date .addDays) rfl).trans ?_
  show Outcome.done (Value.date (d.addDays n.toInt64.toInt)) m = _
  rw [Int32.toInt_toInt64]

theorem call_diffDays (a b : Date) :
    Builtin.call sleep "date.diffdays" [.date a, .date b] m = .done (.long (Int64.ofInt (a.daysBetween b))) m := by
  refine (Builtin.call_of_prepared sleep (.date .diffDays) rfl).trans ?_
  rfl

/-- **Adding days and counting them.** In UTC, and wherever clocks are never set, it is the same time of the day a number of days
later, that many days on. Counted, they are as many again as long as a span holds them, and no other number is. From midnight to
midnight what is counted are the days of the calendar as far as a span holds them, so the counts add up when it holds each of them. -/
theorem days_apart :
    (∀ (d : Date) (n : Int32), d.zone.changes = [] → ∃ (d' : Date) (r : Int64), Builtin.call sleep "date.adddays" [.date d, .int n] m = .done (.date d') m ∧
      d'.clock = { d.clock with civil := Civil.ofDays (d.clock.days + n.toInt), days := d.clock.days + n.toInt } ∧
      d'.nanos = d.nanos ∧ d'.zone = d.zone ∧
      Builtin.call sleep "date.diffdays" [.date d, .date d'] m = .done (.long r) m ∧ r.toInt = Date.spanned n.toInt ∧
      (r.toInt = n.toInt ↔ -106751 ≤ n.toInt ∧ n.toInt ≤ 106751)) ∧
    ∀ a b c : Date, a.IsMidnight → b.IsMidnight → c.IsMidnight → ∃ x y z : Int64,
      Builtin.call sleep "date.diffdays" [.date a, .date b] m = .done (.long x) m ∧
      Builtin.call sleep "date.diffdays" [.date b, .date c] m = .done (.long y) m ∧
      Builtin.call sleep "date.diffdays" [.date a, .date c] m = .done (.long z) m ∧
      x.toInt = Date.spanned (b.clock.days - a.clock.days) ∧
      ((b.clock.days - a.clock.days).natAbs ≤ 106751 → (c.clock.days - b.clock.days).natAbs ≤ 106751 →
        (c.clock.days - a.clock.days).natAbs ≤ 106751 → x.toInt + y.toInt = z.toInt) := by
  constructor
  · intro d n unchanging
    have counted : (Int64.ofInt (d.daysBetween (d.addDays n.toInt))).toInt = Date.spanned n.toInt := by
      rw [Date.daysBetween_addDays unchanging, Date.toInt_spanned]
    refine ⟨d.addDays n.toInt, _, call_addDays sleep m d n, Date.clock_addDays d _ (Zone.keeps_of_changes unchanging _), rfl, rfl, call_diffDays sleep m .., counted, ?_⟩
    rw [counted]
    exact Date.spanned_eq_iff
  · intro a b c first second third
    have counted {a b : Date} (first : a.IsMidnight) (second : b.IsMidnight) :
        (Int64.ofInt (a.daysBetween b)).toInt = Date.spanned (b.clock.days - a.clock.days) := by
      rw [Date.daysBetween_midnight first second, Date.toInt_spanned]
    refine ⟨_, _, _, call_diffDays sleep m .., call_diffDays sleep m .., call_diffDays sleep m .., counted first second, ?_⟩
    intro near later whole
    have within {n : Int} (h : n.natAbs ≤ 106751) : Date.spanned n = n :=
      Date.spanned_eq_iff.mpr (by unfold Date.mostDays; omega)
    rw [counted first second, counted second third, counted first third, within near, within later, within whole]
    omega

/-- The most days that are counted, from a leap day on, and three midnights around a leap day that is left out. -/
theorem days_apart_leap :
    let sleep : Nat → Exec Unit := fun _ => pure ()
    let m := Machine.initial (Host.initial default default) 10 ""
    let leap := Date.make ⟨2000, 2, 29⟩ 10 30 0 5 .utc
    let a := Date.make ⟨1900, 2, 28⟩ 0 0 0 0 .utc
    let b := Date.make ⟨1900, 3, 1⟩ 0 0 0 0 .utc
    let c := Date.make ⟨2000, 3, 1⟩ 0 0 0 0 .utc
    (∃ d' : Date, Builtin.call sleep "date.adddays" [.date leap, .int 106751] m = .done (.date d') m ∧
      Builtin.call sleep "date.diffdays" [.date leap, .date d'] m = .done (.long 106751) m) ∧
    (a.IsMidnight ∧ b.IsMidnight ∧ c.IsMidnight) ∧ ∃ x y z : Int64,
      Builtin.call sleep "date.diffdays" [.date a, .date b] m = .done (.long x) m ∧
      Builtin.call sleep "date.diffdays" [.date b, .date c] m = .done (.long y) m ∧
      Builtin.call sleep "date.diffdays" [.date a, .date c] m = .done (.long z) m ∧ x.toInt = 1 ∧ x.toInt + y.toInt = z.toInt := by
  intro sleep m leap a b c
  obtain ⟨inverse, adds⟩ := days_apart sleep m
  have midnights : a.IsMidnight ∧ b.IsMidnight ∧ c.IsMidnight :=
    ⟨Date.isMidnight_make (by decide), Date.isMidnight_make (by decide), Date.isMidnight_make (by decide)⟩
  constructor
  · obtain ⟨d', r, added, -, -, -, counted, -, exact⟩ := inverse leap 106751 rfl
    have r_eq : r = 106751 := Int64.toInt_inj.mp (exact.mpr (by decide))
    exact ⟨d', added, r_eq ▸ counted⟩
  · obtain ⟨x, y, z, first, second, third, one, sum⟩ := adds a b c midnights.1 midnights.2.1 midnights.2.2
    refine ⟨midnights, x, y, z, first, second, third, one.trans (by decide +kernel), sum ?_ ?_ ?_⟩ <;> decide +kernel

/-- Two hundred thousand days are not counted when they were added, and twice a hundred thousand do not add up. -/
theorem days_lost :
    let sleep : Nat → Exec Unit := fun _ => pure ()
    let m := Machine.initial (Host.initial default default) 10 ""
    let a := Date.make ⟨2000, 1, 1⟩ 0 0 0 0 .utc
    let b := Date.make ⟨2273, 10, 16⟩ 0 0 0 0 .utc
    let c := Date.make ⟨2547, 8, 1⟩ 0 0 0 0 .utc
    Builtin.call sleep "date.adddays" [.date a, .int 200000] m = .done (.date c) m ∧
      Builtin.call sleep "date.diffdays" [.date a, .date c] m = .done (.long 106751) m ∧
      Builtin.call sleep "date.diffdays" [.date a, .date b] m = .done (.long 100000) m ∧
      Builtin.call sleep "date.diffdays" [.date b, .date c] m = .done (.long 100000) m := by
  intro sleep m a b c
  have dates : a.addDays 200000 = c ∧ a.daysBetween c = 106751 ∧ a.daysBetween b = 100000 ∧ b.daysBetween c = 100000 := by
    decide +kernel
  obtain ⟨later, most, half, rest⟩ := dates
  refine ⟨(call_addDays sleep m a 200000).trans ?_, ?_, ?_, ?_⟩
  · rw [show (200000 : Int32).toInt = 200000 from rfl, later]
  · rw [call_diffDays, most]
    rfl
  · rw [call_diffDays, half]
    rfl
  · rw [call_diffDays, rest]
    rfl

end DateOp

end ScriptEngine
