import ScriptEngine.Text
/-!
# Sets of code points

A property of characters that a standard gives as a table is a list of closed ranges of code points. They are written
as hexadecimal numbers, each range by how far it begins behind the end of the one before it and how much farther it goes: `20+5e 23`
is the range from 20 to 7e and the single code point a1. `2*3` is `2` three times. Where several tables stand together, the name of
each, with a capital letter, is in front of its ranges.
-/

namespace ScriptEngine

/-- A closed range of code points. -/
structure CodeRange where
  first : Nat
  last : Nat
deriving DecidableEq, Repr, Inhabited

namespace CodeRange

/-- Whether a code point lies in the range. -/
def contains (r : CodeRange) (n : Nat) : Bool := r.first ≤ n && n ≤ r.last

/-- The number that hexadecimal digits spell. -/
def hexNumber (cs : List Char) : Nat :=
  cs.foldl (fun n c => n * 16 + ((Text.hexValue? c.toNat.toUInt8).getD 0)) 0

/-- The range that one word of a table spells behind a code point. -/
def ofWord (last : Nat) (cs : List Char) : CodeRange :=
  let first := last + hexNumber (cs.takeWhile (· ≠ '+'))
  ⟨first, first + hexNumber ((cs.dropWhile (· ≠ '+')).drop 1)⟩

/-- The words of a line of characters: the pieces between blanks. -/
def wordsOf (cs : List Char) : List (List Char) :=
  let step := fun (c : Char) (acc : List Char × List (List Char)) =>
    if c = ' ' then ([], if acc.1.isEmpty then acc.2 else acc.1 :: acc.2) else (c :: acc.1, acc.2)
  let r := cs.foldr step ([], [])
  if r.1.isEmpty then r.2 else r.1 :: r.2

/-- The ranges that words spell one behind the other. -/
def ofWords (last : Nat) : List (List Char) → List CodeRange
  | [] => []
  | w :: ws => ofWord last w :: ofWords (ofWord last w).last ws

/-- The words that one word of a table stands for. -/
def repeated (w : List Char) : List (List Char) :=
  let count := (w.dropWhile (· ≠ '*')).drop 1
  List.replicate (if count.isEmpty then 1 else hexNumber count) (w.takeWhile (· ≠ '*'))

/-- The ranges that the words of a table spell. -/
def ofTable (words : List (List Char)) : Array CodeRange := (ofWords 0 (words.flatMap repeated)).toArray

/-- The ranges of a table, given line by line. -/
def table (lines : List String) : Array CodeRange := ofTable (lines.flatMap fun s => wordsOf s.toList)

/-- Tables with their names, given line by line. -/
def tables (lines : List String) : List (String × Array CodeRange) :=
  let step := fun (w : List Char) (acc : List (List Char) × List (String × Array CodeRange)) =>
    if (w.head?.getD ' ').isUpper then ([], (String.ofList w, ofTable acc.1) :: acc.2) else (w :: acc.1, acc.2)
  ((lines.flatMap fun s => wordsOf s.toList).foldr step ([], [])).2

/-- The ranges of code points from a number on that are in none of some ranges in rising order. -/
def gaps (next : Nat) : List CodeRange → List CodeRange
  | [] => if next ≤ 0x10FFFF then [⟨next, 0x10FFFF⟩] else []
  | r :: rs => if next < r.first then ⟨next, r.first - 1⟩ :: gaps (r.last + 1) rs else gaps (r.last + 1) rs

/-- Whether one of the ranges of a table holds the code point; the ranges are in rising order, and
`fuel` bounds the number of halvings. -/
def search (rs : Array CodeRange) (n : Nat) : Nat → Nat → Nat → Bool
  | 0, _, _ => false
  | fuel + 1, lo, hi =>
    if lo < hi then
      let mid := (lo + hi) / 2
      match rs[mid]? with
      | none => false
      | some r =>
        if r.contains n then true
        else if n < r.first then search rs n fuel lo mid
        else search rs n fuel (mid + 1) hi
    else false

/-- Membership of a code point in a table whose ranges are in rising order. -/
def anyContains (rs : Array CodeRange) (n : Nat) : Bool := search rs n (rs.size + 1) 0 rs.size

end CodeRange

end ScriptEngine
