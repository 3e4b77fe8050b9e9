import ScriptEngine.Date.Layout
import ScriptEngine.Proofs.CalendarDays
import ScriptEngine.Proofs.JsonTexts
import ScriptEngine.Proofs.LiteralTokens
import ScriptEngine.Store.Coerce
import ScriptEngine.Store.Conform
/-!
# Dates and their texts

Dates are shown in one form, held by json in another, and may be written in six. The forms are tried one after the other, and all of
them begin with a day. Behind it none but the right one takes what is there, as each of those before it meets another mark, stops short
of the end or comes to the end too early.
-/

namespace ScriptEngine

theorem Text.eq_mk {t : Text} {bs : List UInt8} (h : t.bytes = bs) : t = ⟨bs⟩ := congrArg mk h

namespace Layout

variable {ds more year month day hour minute second : List UInt8} {r : Reading} {ps : List Piece} {fixed blanks : Bool} {mark : UInt8}

/-! ## Digits -/

/-- The number that digits spell. -/
def spell (ds : List UInt8) : Nat := ds.foldl (fun n b => n * 10 + digit b) 0

theorem exists_pair (digits : IsDigits 2 ds) :
    ∃ a b, ds = [a, b] ∧ Text.isDigitByte a = true ∧ Text.isDigitByte b = true := by
  obtain ⟨length, all⟩ := digits
  match ds, length with
  | [a, b], _ => exact ⟨a, b, rfl, all a (by simp), all b (by simp)⟩

theorem number?_digits (digits : IsDigits 2 ds) (more : List UInt8) : number? fixed (ds ++ more) = some (spell ds, more) := by
  obtain ⟨a, b, rfl, first, second⟩ := exists_pair digits
  simp [number?, spell, first, second]

theorem foldl_digit (ds : List UInt8) (n : Nat) : ds.foldl (fun (v : Int) b => v * 10 + digit b) n =
    (ds.foldl (fun v b => v * 10 + digit b) n : Nat) := by
  induction ds generalizing n with
  | nil => rfl
  | cons d ds ih => exact ih (n * 10 + digit d)

theorem signed?_digits {n : Nat} (digits : IsDigits n ds) : signed? ds = some (spell ds : Int) := by
  have all : ds.all Text.isDigitByte = true := List.all_eq_true.mpr digits.2
  have plain (negative : ds.head? ≠ some 0x2D) (positive : ds.head? ≠ some 0x2B) : signed? ds =
      if ds.all Text.isDigitByte then some (ds.foldl (fun (v : Int) b => v * 10 + digit b) 0) else none := by
    clear digits all
    match ds with
    | [] => rfl
    | d :: ds =>
      unfold signed?
      dsimp only
      split
      · rename_i same
        cases same
        exact absurd rfl negative
      · rename_i same
        cases same
        exact absurd rfl positive
      · rfl
  have digit (b : UInt8) (h : Text.isDigitByte b = false) : ds.head? ≠ some b := by
    intro first
    exact Bool.false_ne_true (h.symm.trans (digits.2 b (List.mem_of_mem_head? first)))
  rw [plain (digit 0x2D (by decide)) (digit 0x2B (by decide)), if_pos all]
  exact congrArg some (foldl_digit ds 0)

/-! ## Reading fields -/

theorem read_longYear (digits : IsDigits 4 year) :
    Field.longYear.read? ps r (year ++ more) = some ({ r with year := spell year }, more) := by
  have long : 4 ≤ (year ++ more).length := by
    rw [List.length_append, digits.1]
    omega
  have first : (year ++ more).head?.any Text.isDigitByte = true := by
    obtain ⟨length, all⟩ := digits
    match year, length with
    | a :: _, _ => exact all a (by simp)
  have checked : (decide (4 ≤ (year ++ more).length) && (year ++ more).head?.any Text.isDigitByte) = true := by
    rw [first, decide_eq_true long]
    rfl
  unfold Field.read?
  simp only [checked, List.take_left' digits.1, List.drop_left' digits.1, signed?_digits digits]
  rfl

theorem read_zeroMonth (digits : IsDigits 2 month) (range : 0 < spell month ∧ spell month ≤ 12) :
    Field.zeroMonth.read? ps r (month ++ more) = some ({ r with month := some (spell month) }, more) := by
  simp [Field.read?, number?_digits digits, range.1, range.2]

theorem read_zeroDay (digits : IsDigits 2 day) :
    Field.zeroDay.read? ps r (day ++ more) = some ({ r with day := some (spell day) }, more) := by
  simp [Field.read?, number?_digits digits]

theorem read_hour (digits : IsDigits 2 hour) (range : spell hour < 24) :
    Field.hour.read? ps r (hour ++ more) = some ({ r with hour := spell hour }, more) := by
  simp [Field.read?, number?_digits digits, below, range]

theorem read_zeroMinute (digits : IsDigits 2 minute) (range : spell minute < 60) :
    Field.zeroMinute.read? ps r (minute ++ more) = some ({ r with minute := spell minute }, more) := by
  simp [Field.read?, number?_digits digits, below, range]

/-- Seconds that no fraction is behind. -/
theorem read_zeroSecond (digits : IsDigits 2 second) (range : spell second < 60) (whole : ∀ b ∈ more.head?, b ≠ 0x2E ∧ b ≠ 0x2C) :
    Field.zeroSecond.read? ps r (second ++ more) = some ({ r with second := spell second }, more) := by
  have early : below (spell second) 60 = some () := if_pos range
  unfold Field.read?
  simp only [number?_digits digits, Option.bind_eq_bind, Option.bind_some, early]
  match more, whole with
  | [], _ => rfl
  | [_], _ => rfl
  | b :: _ :: _, whole =>
    obtain ⟨point, comma⟩ := whole b rfl
    simp [point, comma]

/-- The offset that hours and minutes behind a sign stand for. -/
def signedOffset (sign : UInt8) (h m : Nat) : Int := if sign = 0x2D then -((h * 60 + m) * 60 : Nat) else ((h * 60 + m) * 60 : Nat)

/-- The way in which json holds offsets. -/
def internetStyle : OffsetStyle := ⟨true, true, 2⟩

theorem read_offset {sign : UInt8} (signed : sign = 0x2B ∨ sign = 0x2D) (hours : IsDigits 2 hour) (minutes : IsDigits 2 minute)
    (early : spell hour < 25) (within : spell minute < 61) :
    internetStyle.read? (sign :: (hour ++ 0x3A :: minute)) = some (signedOffset sign (spell hour) (spell minute), []) := by
  have number (ds : List UInt8) (digits : IsDigits 2 ds) : number? true ds = some (spell ds, []) := by
    rw [← number?_digits digits, List.append_nil]
  have first := number hour hours
  have second := number minute minutes
  obtain ⟨a, b, rfl, -⟩ := exists_pair hours
  obtain ⟨c, d, rfl, -⟩ := exists_pair minutes
  have zero : below 0 61 = some () := rfl
  have hourly : below (spell [a, b]) 25 = some () := if_pos early
  have minutely : below (spell [c, d]) 61 = some () := if_pos within
  rcases signed with rfl | rfl <;>
    simp [OffsetStyle.read?, internetStyle, first, second, hourly, minutely, zero, signedOffset]

/-! ## Reading pieces -/

/-- The pieces of a day, before others. -/
def dayPieces (ps : List Piece) : List Piece :=
  .field .longYear :: .literal 0x2D :: .field .zeroMonth :: .literal 0x2D :: .field .zeroDay :: ps

/-- The pieces of hours and minutes behind a mark, before others. -/
def timePieces (mark : UInt8) (ps : List Piece) : List Piece :=
  .literal mark :: .field .hour :: .literal 0x3A :: .field .zeroMinute :: ps

/-- The pieces of seconds, before others. -/
def secondPieces (ps : List Piece) : List Piece := .literal 0x3A :: .field .zeroSecond :: ps

/-- What the accepted forms have behind the day. -/
def behindDay : List (List Piece) :=
  [timePieces 0x20 (secondPieces []), timePieces 0x54 (secondPieces []), timePieces 0x20 [], timePieces 0x54 [], [],
    timePieces 0x54 (secondPieces [.field (.offset internetStyle)])]

theorem internet_eq : internet = ⟨dayPieces (timePieces 0x54 (secondPieces [.field (.offset internetStyle)]))⟩ := (rfl)

/-- All accepted forms begin with a day. -/
theorem accepted_eq : accepted = behindDay.map fun ps => ⟨dayPieces ps⟩ := (rfl)

theorem readPieces_day (years : IsDigits 4 year) (months : IsDigits 2 month) (days : IsDigits 2 day)
    (range : 0 < spell month ∧ spell month ≤ 12) (more : List UInt8) :
    readPieces (dayPieces ps) blanks r (year ++ 0x2D :: (month ++ 0x2D :: (day ++ more))) =
      readPieces ps false { r with year := spell year, month := some (spell month), day := some (spell day) } more := by
  simp [dayPieces, readPieces, read_longYear years, read_zeroMonth months range, read_zeroDay days]

/-- No other mark is taken, nor the end of the text. -/
theorem readPieces_time_other (other : more.head? ≠ some mark) : readPieces (timePieces mark ps) false r more = none := by
  unfold timePieces
  match more with
  | [] =>
    by_cases blank : mark = 32
    · -- blanks may be missing at the end, but the hours may not
      simp [readPieces, blank, Field.read?, number?]
    · simp [readPieces, blank]
  | c :: more =>
    have apart : c ≠ mark := fun same => other (congrArg some same)
    by_cases blank : mark = 32
    · simp [readPieces, blank, show c ≠ 32 from blank ▸ apart]
    · simp [readPieces, blank, apart]

theorem readPieces_time_apart {other : UInt8} (apart : mark ≠ other) (more : List UInt8) :
    readPieces (timePieces other ps) false r (mark :: more) = none :=
  readPieces_time_other fun same => apart (Option.some.inj same)

theorem dropWhile_digits {n : Nat} (digits : IsDigits (n + 1) ds) (more : List UInt8) :
    (ds ++ more).dropWhile (· = 32) = ds ++ more := by
  obtain ⟨length, all⟩ := digits
  match ds, length with
  | d :: ds, _ =>
    have solid : d ≠ 32 := by
      rintro rfl
      exact Bool.false_ne_true (all 32 (List.mem_cons_self ..))
    simp [solid]

theorem readPieces_time (ps : List Piece) (r : Reading) (sep : mark = 0x20 ∨ mark = 0x54) (hours : IsDigits 2 hour)
    (minutes : IsDigits 2 minute) (early : spell hour < 24) (within : spell minute < 60) (more : List UInt8) :
    readPieces (timePieces mark ps) false r (mark :: (hour ++ 0x3A :: (minute ++ more))) =
      readPieces ps false { r with hour := spell hour, minute := spell minute } more := by
  rcases sep with rfl | rfl
  · simp [timePieces, readPieces, dropWhile_digits hours, read_hour hours early, read_zeroMinute minutes within]
  · simp [timePieces, readPieces, read_hour hours early, read_zeroMinute minutes within]

theorem readPieces_second_end : readPieces (secondPieces ps) false r [] = none := rfl

theorem readPieces_second (ps : List Piece) (r : Reading) (digits : IsDigits 2 second) (range : spell second < 60)
    (whole : ∀ b ∈ more.head?, b ≠ 0x2E ∧ b ≠ 0x2C) :
    readPieces (secondPieces ps) false r (0x3A :: (second ++ more)) = readPieces ps false { r with second := spell second } more := by
  simp [secondPieces, readPieces, read_zeroSecond digits range whole]

/-- What may be written of a zone, with what it tells: that it is UTC, or an offset. -/
inductive Zoned : List UInt8 → Bool → Option Int → Prop where
  | zulu : Zoned [0x5A] true none
  | offset {sign : UInt8} {hour minute : List UInt8} (signed : sign = 0x2B ∨ sign = 0x2D) (hours : IsDigits 2 hour)
    (minutes : IsDigits 2 minute) (early : spell hour < 25) (within : spell minute < 61) :
    Zoned (sign :: (hour ++ 0x3A :: minute)) false (some (signedOffset sign (spell hour) (spell minute)))

variable {zone : List UInt8} {utc : Bool} {offset : Option Int}

theorem Zoned.exists_cons (zoned : Zoned zone utc offset) : ∃ b bs, zone = b :: bs ∧ b ≠ 0x2E ∧ b ≠ 0x2C := by
  cases zoned with
  | zulu => exact ⟨_, _, rfl, by decide, by decide⟩
  | offset signed => exact ⟨_, _, rfl, by rcases signed with rfl | rfl <;> decide⟩

theorem Zoned.readPieces (zoned : Zoned zone utc offset) (notUtc : r.utc = false) (none : r.offset = none) :
    readPieces [.field (.offset internetStyle)] false r zone = some { r with utc := utc, offset := offset } := by
  cases zoned with
  | zulu =>
    rw [← none]
    rfl
  | offset signed hours minutes early within =>
    rename_i sign hour minute
    have plain : begins "Z" (sign :: (hour ++ 0x3A :: minute)) = false := by
      rcases signed with rfl | rfl <;> rfl
    have read : Field.read? (.offset internetStyle) [] r (sign :: (hour ++ 0x3A :: minute)) =
        some ({ r with offset := some (signedOffset sign (spell hour) (spell minute)) }, []) := by
      unfold Field.read?
      simp [plain, read_offset signed hours minutes early within]
    unfold Layout.readPieces
    rw [read, ← notUtc]
    rfl

theorem readPieces_end : readPieces [] false r [] = some r := rfl

/-- What is left over is not passed by. -/
theorem readPieces_left_over (b : UInt8) (more : List UInt8) : readPieces [] false r (b :: more) = none := rfl

/-! ## Whole texts -/

/-- What may be behind a day, with the hours, minutes and seconds of it, and with what it tells of the zone: whether it is UTC, or the
offset. -/
inductive Timed : List UInt8 → Nat → Nat → Nat → Bool → Option Int → Prop where
  | midnight : Timed [] 0 0 0 false none
  | minutes {mark : UInt8} {hour minute : List UInt8} (sep : mark = 0x20 ∨ mark = 0x54) (hours : IsDigits 2 hour)
    (minutes : IsDigits 2 minute) : Timed (mark :: (hour ++ 0x3A :: minute)) (spell hour) (spell minute) 0 false none
  | seconds {mark : UInt8} {hour minute second : List UInt8} (sep : mark = 0x20 ∨ mark = 0x54) (hours : IsDigits 2 hour)
    (minutes : IsDigits 2 minute) (seconds : IsDigits 2 second) :
    Timed (mark :: (hour ++ 0x3A :: (minute ++ 0x3A :: second))) (spell hour) (spell minute) (spell second) false none
  | zoned {hour minute second zone : List UInt8} {utc : Bool} {offset : Option Int} (hours : IsDigits 2 hour)
    (minutes : IsDigits 2 minute) (seconds : IsDigits 2 second) (zoned : Zoned zone utc offset) :
    Timed (0x54 :: (hour ++ 0x3A :: (minute ++ 0x3A :: (second ++ zone)))) (spell hour) (spell minute) (spell second) utc offset

/-- What was read of a day and a time of day. -/
def dayReading (c : Civil) (h m s : Nat) (utc : Bool) (offset : Option Int) : Reading :=
  { year := c.year, month := some c.month, day := some c.day, hour := h, minute := m, second := s, utc := utc, offset := offset }

variable {c : Civil} {here : Zone}

theorem monthDay?_dayReading (h m s : Nat) : (dayReading c h m s utc offset).monthDay? = some (c.month, c.day) := rfl

theorem date?_utc (is : c.IsDay) (h m s : Nat) (here : Zone) :
    (dayReading c h m s true none).date? here = some (Date.make c h m s 0 .utc) := by
  obtain ⟨-, -, first, last⟩ := is
  simp [Reading.date?, monthDay?_dayReading]
  simp [dayReading, first, last]

/-- Behind an offset it is the date at which clocks that far from UTC show the time. -/
theorem date?_offset (is : c.IsDay) (h m s : Nat) {n : Int} (given : n ≠ noOffset) (here : Zone) :
    ∃ d : Date, (dayReading c h m s false (some n)).date? here = some d ∧ d.offset = n ∧
      d.wall = c.toDays * 86400 + ((h * 60 + m) * 60 + s : Nat) := by
  obtain ⟨-, -, first, last⟩ := is
  have nameless : (⟨[]⟩ : Text).isEmpty = true := rfl
  have kept : (some n).filter (fun n => !decide (n = noOffset)) = some n := by simp [Option.filter, given]
  obtain ⟨wall, wall_eq⟩ : ∃ wall, wall = c.toDays * 86400 + ((h * 60 + m) * 60 + s : Nat) := ⟨_, rfl⟩
  have base : Date.make c h m s 0 .utc = ⟨wall, 0, .utc⟩ := by
    rw [wall_eq, Date.make, Date.atWall, Zone.offsetFor_eq rfl, show Zone.utc.offset = 0 from rfl, Int.sub_zero]
  refine ⟨⟨wall - n, 0, if here.offsetAt (wall - n) = n then here else .fixed ⟨[]⟩ n⟩, ?_, ?_, ?_⟩
  · simp [Reading.date?, monthDay?_dayReading]
    simp [dayReading, first, last, nameless, kept, base]
  · show (if here.offsetAt (wall - n) = n then here else .fixed ⟨[]⟩ n : Zone).offsetAt (wall - n) = n
    split
    · assumption
    · exact Zone.offsetAt_eq rfl _
  · rw [← wall_eq]
    show wall - n + (if here.offsetAt (wall - n) = n then here else .fixed ⟨[]⟩ n : Zone).offsetAt (wall - n) = wall
    split
    · omega
    · rw [Zone.offsetAt_eq rfl]
      exact Int.sub_add_cancel ..

/-- A number written with at least so many digits, zeros in front. -/
def padded (width n : Nat) : List UInt8 := List.replicate (width - (Json.digitBytes n).length) 0x30 ++ Json.digitBytes n

theorem isDigits_padded {width n : Nat} (some : 0 < width) (small : n < 10 ^ width) : IsDigits width (padded width n) := by
  constructor
  · have length : (Json.digitBytes n).length ≤ width := by
      rw [Json.digitBytes, List.length_map]
      exact (Nat.length_toDigits_le_iff (by decide) some).mpr small
    rw [padded, List.length_append, List.length_replicate]
    omega
  · intro d mem
    rcases List.mem_append.mp mem with zero | digit
    · rw [List.eq_of_mem_replicate zero]
      rfl
    · exact List.all_eq_true.mp (Json.isDigits_digitBytes n).2 d digit

theorem spell_padded (width n : Nat) : spell (padded width n) = n := by
  have zeros (k : Nat) : (List.replicate k (0x30 : UInt8)).foldl (fun n b => n * 10 + digit b) 0 = 0 := by
    induction k with
    | zero => rfl
    | succ k ih => exact ih
  rw [spell, padded, List.foldl_append, zeros]
  exact Json.foldl_digitBytes n

theorem bytes_pad (width n : Nat) : (Text.ofString (pad width n)).bytes = padded width n := by
  have plain : (pad width n).toList = List.replicate (width - (Nat.toDigits 10 n).length) '0' ++ Nat.toDigits 10 n := by
    unfold pad
    rw [if_neg (by omega), Int.natAbs_natCast, String.toList_append, String.toList_ofList, String.toList_ofList]
    rfl
  have ascii : ∀ c ∈ (pad width n).toList, Text.encodeChar c = [c.toNat.toUInt8] := by
    intro c mem
    rw [plain, List.mem_append] at mem
    rcases mem with zero | digit
    · rw [List.eq_of_mem_replicate zero]
      rfl
    · have range := Json.toNat_toDigits digit
      exact if_pos (show c.toNat < 0x80 by omega)
  have mapped : (pad width n).toList.flatMap Text.encodeChar = (pad width n).toList.map fun c => c.toNat.toUInt8 :=
    (List.flatMap_congr ascii).trans (List.flatMap_pure_eq_map _ _)
  rw [Text.ofString, Text.ofChars, mapped, plain, List.map_append, List.map_replicate, padded, Json.digitBytes, List.length_map]
  rfl

theorem bytes_format_literal (b : UInt8) (ps : List Piece) (d : Date) :
    (format ⟨.literal b :: ps⟩ d).bytes = b :: (format ⟨ps⟩ d).bytes := rfl

theorem bytes_format_field (f : Field) (ps : List Piece) (d : Date) :
    (format ⟨.field f :: ps⟩ d).bytes = (f.render d).bytes ++ (format ⟨ps⟩ d).bytes := rfl

/-- A day as it is written, before other bytes. -/
def dayBytes (k : Date.Clock) (more : List UInt8) : List UInt8 :=
  padded 4 k.civil.year.toNat ++ 0x2D :: (padded 2 k.civil.month ++ 0x2D :: (padded 2 k.civil.day ++ more))

/-- A time of day as it is written behind a mark, before other bytes. -/
def timeBytes (mark : UInt8) (k : Date.Clock) (more : List UInt8) : List UInt8 :=
  mark :: (padded 2 k.hour ++ 0x3A :: (padded 2 k.minute ++ 0x3A :: (padded 2 k.second ++ more)))

variable {d : Date}

theorem bytes_format_day (positive : 0 ≤ d.clock.civil.year) (ps : List Piece) :
    (format ⟨dayPieces ps⟩ d).bytes = dayBytes d.clock (format ⟨ps⟩ d).bytes := by
  have year : (Text.ofString (pad 4 d.clock.civil.year)).bytes = padded 4 d.clock.civil.year.toNat := by
    rw [← bytes_pad, Int.toNat_of_nonneg positive]
  simp only [dayPieces, dayBytes, bytes_format_literal, bytes_format_field, Field.render, year, bytes_pad]

theorem bytes_format_time (d : Date) (mark : UInt8) (ps : List Piece) :
    (format ⟨timePieces mark (secondPieces ps)⟩ d).bytes = timeBytes mark d.clock (format ⟨ps⟩ d).bytes := by
  simp only [timePieces, secondPieces, timeBytes, bytes_format_literal, bytes_format_field, Field.render, bytes_pad]

/-- An offset as json holds it. Seconds are left out. -/
def zoneBytes (offset : Int) : List UInt8 :=
  if offset = 0 then [0x5A]
  else (if offset.tdiv 60 < 0 then 0x2D else 0x2B) ::
    (padded 2 (offset.natAbs / 3600) ++ 0x3A :: padded 2 (offset.natAbs / 60 % 60))

theorem bytes_render_internetStyle (offset : Int) : (Text.ofString (internetStyle.render offset)).bytes = zoneBytes offset := by
  have append (s t : String) : (Text.ofString (s ++ t)).bytes = (Text.ofString s).bytes ++ (Text.ofString t).bytes := by
    simp [Text.ofString, Text.ofChars]
  unfold OffsetStyle.render zoneBytes internetStyle
  by_cases utc : offset = 0
  · simp [utc]
    rfl
  · have hours : (offset.natAbs : Int) / 3600 = (offset.natAbs / 3600 : Nat) := rfl
    have minutes : (offset.natAbs : Int) / 60 % 60 = (offset.natAbs / 60 % 60 : Nat) := rfl
    have parts : ¬2 ≥ 3 := by decide
    simp only [utc, decide_false, Bool.and_false, Bool.false_eq_true, if_false, if_true, ge_iff_le, Nat.le_refl, parts, append, hours,
      minutes, bytes_pad]
    split <;> simp [Text.ofString, Text.ofChars] <;> rfl

/-- What is written of an offset is read again as far as it is written, in whole minutes. -/
theorem zoned_zoneBytes {n : Int} (some : 60 ≤ n.natAbs) (near : n.natAbs < 90000) :
    Zoned (zoneBytes n) false (.some (n.tdiv 60 * 60)) := by
  have hours : IsDigits 2 (padded 2 (n.natAbs / 3600)) := isDigits_padded (by decide) (by omega)
  have minutes : IsDigits 2 (padded 2 (n.natAbs / 60 % 60)) := isDigits_padded (by decide) (by omega)
  have apart : n ≠ 0 := by omega
  have offset : signedOffset (if n.tdiv 60 < 0 then 0x2D else 0x2B) (n.natAbs / 3600) (n.natAbs / 60 % 60) = n.tdiv 60 * 60 := by
    rcases Int.natAbs_eq n with positive | negative
    · have quotient : n.tdiv 60 = (n.natAbs / 60 : Nat) := by
        rw [positive]
        rfl
      rw [if_neg (by omega), quotient, signedOffset, if_neg (by decide)]
      omega
    · have quotient : n.tdiv 60 = -(n.natAbs / 60 : Nat) := by
        rw [negative, Int.neg_tdiv, Int.natAbs_neg]
        rfl
      rw [if_pos (by omega), quotient, signedOffset, if_pos rfl]
      omega
  have signed : (if n.tdiv 60 < 0 then (0x2D : UInt8) else 0x2B) = 0x2B ∨ (if n.tdiv 60 < 0 then (0x2D : UInt8) else 0x2B) = 0x2D := by
    split <;> simp
  have zoned := Zoned.offset signed hours minutes (by rw [spell_padded]; omega) (by rw [spell_padded]; omega)
  rw [spell_padded, spell_padded, offset] at zoned
  rw [zoneBytes, if_neg apart]
  exact zoned

/-- Seconds of an offset do not show. -/
theorem zoneBytes_minutes {n : Int} (some : 60 ≤ n.natAbs) : zoneBytes (n.tdiv 60 * 60) = zoneBytes n := by
  have quotient : (n.tdiv 60 * 60).tdiv 60 = n.tdiv 60 := Int.mul_tdiv_cancel _ (by decide)
  have size : (n.tdiv 60 * 60).natAbs = n.natAbs / 60 * 60 := by
    rw [Int.natAbs_mul, Int.natAbs_tdiv]
    rfl
  have hours : n.natAbs / 60 * 60 / 3600 = n.natAbs / 3600 := by omega
  have minutes : n.natAbs / 60 * 60 / 60 % 60 = n.natAbs / 60 % 60 := by omega
  have apart : n ≠ 0 := by omega
  have whole : n.tdiv 60 * 60 ≠ 0 := by omega
  rw [zoneBytes, if_neg whole, quotient, size, hours, minutes, zoneBytes, if_neg apart]

/-- A date as json holds it. -/
theorem bytes_internet (positive : 0 ≤ d.clock.civil.year) :
    (internet.format d).bytes = dayBytes d.clock (timeBytes 0x54 d.clock (zoneBytes d.offset)) := by
  have zone : (format ⟨[.field (.offset internetStyle)]⟩ d).bytes = zoneBytes d.offset := by
    rw [bytes_format_field, Field.render, bytes_render_internetStyle]
    exact List.append_nil _
  rw [internet_eq, bytes_format_day positive, bytes_format_time, zone]

end Layout

/-- **Forms of dates.** A day with what may be behind it is read as what is written, in the one form that takes it. -/
theorem Date.readIn?_timed {year month day time : List UInt8} {h m s : Nat} {utc : Bool} {offset : Option Int}
    (years : IsDigits 4 year) (months : IsDigits 2 month) (days : IsDigits 2 day) (timed : Layout.Timed time h m s utc offset)
    (is : Civil.IsDay ⟨Layout.spell year, Layout.spell month, Layout.spell day⟩) (early : h < 24) (minutes : m < 60) (seconds : s < 60)
    {d : Date} {here : Zone}
    (date : (Layout.dayReading ⟨Layout.spell year, Layout.spell month, Layout.spell day⟩ h m s utc offset).date? here = some d) :
    readIn? here ⟨year ++ 0x2D :: (month ++ 0x2D :: (day ++ time))⟩ = some d := by
  unfold Layout.dayReading at date
  have behind (ps : List Layout.Piece) :
      Layout.parse? ⟨Layout.dayPieces ps⟩ ⟨year ++ 0x2D :: (month ++ 0x2D :: (day ++ time))⟩ here =
      (Layout.readPieces ps false { year := Layout.spell year, month := some (Layout.spell month), day := some (Layout.spell day) }
        time).bind (·.date? here) := by
    rw [Layout.parse?, Layout.readPieces_day years months days ⟨is.1, is.2.1⟩]
  have apart : (0x20 : UInt8) ≠ 0x54 := by decide
  rw [readIn?, Layout.accepted_eq, List.findSome?_map]
  unfold Layout.behindDay
  simp only [List.findSome?_cons, Function.comp_apply, behind]
  -- the forms are gone through one by one, up to the one that takes what is there
  cases timed with
  | midnight =>
    have none (mark : UInt8) (ps : List Layout.Piece) (r : Layout.Reading) :
        Layout.readPieces (Layout.timePieces mark ps) false r [] = none := Layout.readPieces_time_other (by simp)
    simp only [none, Layout.readPieces_end, Option.bind_none, Option.bind_some, date]
  | minutes sep hourly minutely =>
    have read (ps : List Layout.Piece) (r : Layout.Reading) :=
      Layout.readPieces_time ps r sep hourly minutely early minutes []
    simp only [List.append_nil] at read
    rcases sep with rfl | rfl
    · simp only [read, Layout.readPieces_time_apart apart, Layout.readPieces_second_end, Layout.readPieces_end, Option.bind_none,
        Option.bind_some, date]
    · simp only [read, Layout.readPieces_time_apart apart.symm, Layout.readPieces_second_end, Layout.readPieces_end, Option.bind_none,
        Option.bind_some, date]
  | seconds sep hourly minutely secondly =>
    have read (ps : List Layout.Piece) (r : Layout.Reading) :=
      Layout.readPieces_time ps r sep hourly minutely early minutes
    have last (ps : List Layout.Piece) (r : Layout.Reading) :=
      Layout.readPieces_second ps r secondly seconds (show ∀ b ∈ ([] : List UInt8).head?, _ by simp)
    simp only [List.append_nil] at last
    rcases sep with rfl | rfl
    · simp only [read, last, Layout.readPieces_end, Option.bind_some, date]
    · simp only [read, last, Layout.readPieces_time_apart apart.symm, Layout.readPieces_end, Option.bind_none, Option.bind_some, date]
  | zoned hourly minutely secondly zoned =>
    have read (ps : List Layout.Piece) (r : Layout.Reading) :=
      Layout.readPieces_time ps r (.inr rfl) hourly minutely early minutes
    have zone {r : Layout.Reading} (notUtc : r.utc = false) (none : r.offset = none) := zoned.readPieces notUtc none
    obtain ⟨b, bs, rfl, point, comma⟩ := zoned.exists_cons
    have last (ps : List Layout.Piece) (r : Layout.Reading) :=
      Layout.readPieces_second ps r secondly seconds (show ∀ c ∈ (b :: bs).head?, _ by simp [point, comma])
    simp only [read, last, Layout.readPieces_time_apart apart.symm, Layout.readPieces_left_over, zone,
      Option.bind_none, Option.bind_some, date]

namespace Date

variable {d : Date}

theorem readIn?_dayBytes (positive : 0 ≤ d.clock.civil.year) (short : d.clock.civil.year ≤ 9999) {time : List UInt8} {utc : Bool}
    {offset : Option Int} (timed : Layout.Timed time d.clock.hour d.clock.minute d.clock.second utc offset) {e : Date} {here : Zone}
    (date : (Layout.dayReading d.clock.civil d.clock.hour d.clock.minute d.clock.second utc offset).date? here = some e) :
    readIn? here ⟨Layout.dayBytes d.clock time⟩ = some e := by
  have range := inRange_clock d
  obtain ⟨_, high, _, last⟩ := range.day
  have most := Civil.daysIn_le d.clock.civil.year d.clock.civil.month
  have year := Int.toNat_of_nonneg positive
  have day : (⟨Layout.spell (Layout.padded 4 d.clock.civil.year.toNat), Layout.spell (Layout.padded 2 d.clock.civil.month),
      Layout.spell (Layout.padded 2 d.clock.civil.day)⟩ : Civil) = d.clock.civil := by
    simp only [Layout.spell_padded, year]
  refine readIn?_timed (Layout.isDigits_padded (by decide) (by omega)) (Layout.isDigits_padded (by decide) (by omega))
    (Layout.isDigits_padded (by decide) (by omega)) timed ?_ range.hour range.minute range.second ?_
  · rw [day]
    exact range.day
  · rw [day]
    exact date

theorem isDigits_clock (d : Date) : IsDigits 2 (Layout.padded 2 d.clock.hour) ∧ IsDigits 2 (Layout.padded 2 d.clock.minute) ∧
    IsDigits 2 (Layout.padded 2 d.clock.second) := by
  have range := inRange_clock d
  have two {n : Nat} (small : n < 60) : IsDigits 2 (Layout.padded 2 n) :=
    Layout.isDigits_padded (by decide) (Nat.lt_trans small (by decide))
  exact ⟨two (Nat.lt_trans range.hour (by decide)), two range.minute, two range.second⟩

/-- The date with the fields of another is the one at which clocks show what they show there. -/
theorem make_clock (d : Date) (here : Zone) :
    make d.clock.civil d.clock.hour d.clock.minute d.clock.second 0 here = atWall d.wall 0 here := by
  rw [make, (inRange_clock d).number, ← wall_clock]
  rfl

/-- What is in UTC is the same instant there. -/
theorem shownIn_utc (utc : d.offset = 0) : d.shownIn .utc = { d with zone := .utc } := by
  rw [shownIn, atWall, Zone.offsetFor_eq rfl, show Zone.utc.offset = 0 from rfl, Int.sub_zero, wall, utc, Int.add_zero]

/-- The text that json holds is read, in any zone, if an offset but for seconds is written behind it and not one beyond 24 hours. -/
theorem readIn?_internet (positive : 0 ≤ d.clock.civil.year) (short : d.clock.civil.year ≤ 9999) {utc : Bool} {offset : Option Int}
    (zoned : Layout.Zoned (Layout.zoneBytes d.offset) utc offset) {e : Date} {here : Zone}
    (date : (Layout.dayReading d.clock.civil d.clock.hour d.clock.minute d.clock.second utc offset).date? here = some e) :
    readIn? here (Layout.internet.format d) = some e := by
  obtain ⟨hours, minutes, seconds⟩ := isDigits_clock d
  have timed := Layout.Timed.zoned hours minutes seconds zoned
  simp only [Layout.spell_padded] at timed
  rw [Text.eq_mk (Layout.bytes_internet positive)]
  exact readIn?_dayBytes positive short timed date

/-- In what json holds only the time that clocks show is seen, and the offset in whole minutes. -/
theorem internet_congr {a b : Date} (positive : 0 ≤ a.clock.civil.year) (wall : a.wall = b.wall)
    (offset : Layout.zoneBytes a.offset = Layout.zoneBytes b.offset) : Layout.internet.format a = Layout.internet.format b := by
  have clock := clock_congr wall
  have first := Layout.bytes_internet positive
  have second := Layout.bytes_internet (clock ▸ positive)
  rw [clock, offset] at first
  exact (Text.eq_mk first).trans (Text.eq_mk second).symm

/-- A date in UTC with whole seconds and a year of at most four digits. -/
structure IsPlain (d : Date) : Prop where
  utc : d.offset = 0
  whole : d.nanos = 0
  positive : 0 ≤ d.clock.civil.year
  short : d.clock.civil.year ≤ 9999

/-- A plain date is read from the text that json holds. -/
theorem IsPlain.readIn?_internet (plain : d.IsPlain) (here : Zone) :
    readIn? here (Layout.internet.format d) = some { d with zone := .utc } := by
  have zoned : Layout.Zoned (Layout.zoneBytes d.offset) true none := by
    rw [plain.utc]
    exact .zulu
  have date := Layout.date?_utc (inRange_clock d).day d.clock.hour d.clock.minute d.clock.second here
  rw [make_clock, ← plain.whole] at date
  rw [← shownIn_utc plain.utc]
  exact Date.readIn?_internet plain.positive plain.short zoned date

/-- A date with a year of at most four digits and an offset that shows in whole minutes, of which it may have at most 24 hours and
59 more. -/
structure IsWritten (d : Date) : Prop where
  positive : 0 ≤ d.clock.civil.year
  short : d.clock.civil.year ≤ 9999
  near : d.offset = 0 ∨ 60 ≤ d.offset.natAbs ∧ d.offset.natAbs < 90000

/-- What json data holds of a date is read, in any zone, as a date that json data holds in the same way. -/
theorem IsWritten.reads_again (written : d.IsWritten) (here : Zone) :
    ∃ e, readIn? here (Layout.internet.format d) = some e ∧ Layout.internet.format e = Layout.internet.format d := by
  have day := (inRange_clock d).day
  rcases written.near with utc | ⟨some, near⟩
  · have zoned : Layout.Zoned (Layout.zoneBytes d.offset) true none := by
      rw [utc]
      exact .zulu
    have date := Layout.date?_utc day d.clock.hour d.clock.minute d.clock.second here
    rw [make_clock] at date
    refine ⟨_, readIn?_internet written.positive written.short zoned date, (internet_congr written.positive ?_ ?_).symm⟩
    · exact (wall_atWall (Zone.keeps_utc _) 0).symm
    · rw [utc, Date.offset, Zone.offsetAt_eq rfl]
      rfl
  · have apart : d.offset.tdiv 60 * 60 ≠ Layout.noOffset := by
      unfold Layout.noOffset
      omega
    obtain ⟨e, date, offset, wall⟩ := Layout.date?_offset day d.clock.hour d.clock.minute d.clock.second apart here
    refine ⟨e, readIn?_internet written.positive written.short (Layout.zoned_zoneBytes some near) date,
      (internet_congr written.positive ?_ ?_).symm⟩
    · rw [wall, (inRange_clock d).number, ← wall_clock]
      rfl
    · rw [offset, Layout.zoneBytes_minutes some]

end Date

/-! ## Conversions -/

theorem StoreM.coerce_text {d : Date} {t : Text} {s : Store} (reads : Date.readIn? s.platform.zone t = some d) :
    (StoreM.coerce (.string t) .date).run.run s = (.ok (.date d), s) := by
  have seen : (get : StoreM Store).run.run s = (.ok s, s) := rfl
  have kind : s.kindOf (.string t) = .string := rfl
  unfold StoreM.coerce
  rw [StoreM.run_kindOf, kind, if_neg (by decide), if_neg (by decide)]
  dsimp only
  rw [ExceptT.run_bind, StateT.run_bind, seen]
  dsimp only [bind, ExceptT.bindCont]
  rw [reads]
  rfl

end ScriptEngine
