import ScriptEngine.Date.Layout
/-!
# Date templates

A template is a text in which a percent sign and a letter stand for a part of a date. Names are the
English ones. A letter that stands for nothing is left as it is, together with its percent sign, and so
is a percent sign at the end.
-/

namespace ScriptEngine.Template

open Layout (pad padBlank monthNames weekdayNames abbreviate)

/-- An offset in seconds, with its sign and at least four digits. -/
def offsetSeconds (offset : Int) : Text :=
  (if offset < 0 then "-" else "+") ++ pad 4 offset.natAbs

/-- A number with zeros in front; a minus sign counts as one of its places. -/
def padSigned (width : Nat) (n : Int) : String := pad (if n < 0 then width - 1 else width) n

/-- The templates that some letters stand for. -/
def shorthand? (letter : UInt8) : Option String :=
  match Char.ofNat letter.toNat with
  | 'c' => some "%a %b %e %H:%M:%S %Y"
  | 'D' | 'x' => some "%m/%d/%y"
  | 'F' => some "%Y-%m-%d"
  | 'r' => some "%I:%M:%S %p"
  | 'R' => some "%H:%M"
  | 'T' | 'X' => some "%H:%M:%S"
  | _ => none

/-- The part of a date that a letter stands for. -/
def part? (d : Date) (letter : UInt8) : Option Text :=
  let c := d.clock
  let week := Civil.isoWeek c.days
  let weekday := Civil.weekday c.days
  match Char.ofNat letter.toNat with
  | 'a' => some (abbreviate ((weekdayNames[weekday]?).getD ""))
  | 'A' => some ((weekdayNames[weekday]?).getD "")
  | 'b' => some (abbreviate ((monthNames[c.civil.month - 1]?).getD ""))
  | 'B' => some ((monthNames[c.civil.month - 1]?).getD "")
  | 'C' => some (pad 0 (c.civil.year.tdiv 100))
  | 'd' => some (pad 2 c.civil.day)
  | 'e' => some (padBlank 2 c.civil.day)
  | 'g' => some (padSigned 2 (week.1.tmod 100))
  | 'G' => some (pad 0 week.1)
  | 'H' => some (pad 2 c.hour)
  | 'I' => some (pad 2 (if c.hour % 12 = 0 then 12 else c.hour % 12))
  | 'j' => some (pad 3 c.civil.dayOfYear)
  | 'm' => some (pad 2 c.civil.month)
  | 'M' => some (pad 2 c.minute)
  | 'n' => some "\n"
  | 'p' => some (if c.hour ≥ 12 then "PM" else "AM")
  | 'S' => some (pad 2 c.second)
  | 't' => some "\t"
  | 'u' => some (toString (if weekday = 0 then 7 else weekday))
  | 'U' | 'V' => some (pad 2 week.2)
  | 'w' => some (toString weekday)
  | 'W' => some (pad 2 ((week.2 : Int) - 1))
  | 'y' => some (padSigned 2 (c.civil.year.tmod 100))
  | 'Y' => some (pad 0 c.civil.year)
  | 'z' => some (offsetSeconds d.offset)
  | 'Z' => some (d.zone.nameAt d.seconds)
  | '%' => some "%"
  | _ => none

/-- The bytes of a template with its letters replaced; `written` gives what a letter stands for. -/
def fill (written : UInt8 → Option Text) : List UInt8 → List UInt8
  | 0x25 :: letter :: rest =>
    match written letter with
    | some t => t.bytes ++ fill written rest
    | none => 0x25 :: letter :: fill written rest
  | b :: rest => b :: fill written rest
  | [] => []

/-- A date written by a template without shorthands. -/
def formatPlain (template : Text) (d : Date) : Text := ⟨fill (part? d) template.bytes⟩

/-- A date written by a template. -/
def format (template : Text) (d : Date) : Text :=
  ⟨fill (fun letter =>
    match shorthand? letter with
    | some s => some (formatPlain s d)
    | none => part? d letter) template.bytes⟩

/-- The moment whose parts name the fields of layouts. -/
def reference : Date := Date.make ⟨2006, 1, 2⟩ 15 4 5 0 (.fixed "MST" (-25200))

/-- The date that a text written by a template shows. -/
def parse? (template text : Text) (here : Zone) : Option Date :=
  (Layout.ofText (format template reference)).parse? text here

end ScriptEngine.Template
