import ScriptEngine.Text.Letter
/-!
# Search patterns

A search pattern describes pieces of text. This module holds its parts: sets of characters, assertions about a
place between two characters, and the patterns built from them.
-/

namespace ScriptEngine

namespace Pattern

/-! ## Letters that differ in case -/

/-- The code points that a table of shifts moves. -/
def movedCodes (t : Array Text.CaseShift) : List Nat :=
  t.toList.flatMap fun s => (List.range ((s.range.last - s.range.first) / s.step + 1)).map fun i =>
    s.range.first + i * s.step

/-- The code points that fold to another one, each behind the one it folds to. -/
def foldedCodes : List (Nat × Nat) :=
  let tables := [Text.lowerShifts, Text.laterLowerShifts, Text.upperShifts, Text.laterUpperShifts, Text.laterFoldShifts]
  (tables.flatMap movedCodes).filterMap fun n =>
    let folded := (Text.foldChar (Char.ofNat n)).toNat
    if folded = n then none else some (folded, n)

/-- Puts a code point to the family of the one it folds to; the families are in rising order of those. -/
def addToFamily (families : List (Nat × List Nat)) (entry : Nat × Nat) : List (Nat × List Nat) :=
  match families with
  | (f, members) :: rest =>
    if f = entry.1 then (f, entry.2 :: members) :: rest else (entry.1, [entry.2, entry.1]) :: families
  | [] => [(entry.1, [entry.2, entry.1])]

/-- The families of code points that differ only in case. -/
def caseFamilies : List (List Nat) :=
  (((foldedCodes.mergeSort fun a b => a.1 ≤ b.1).foldl addToFamily []).map (·.2))

/-- The code points that differ from `n` only in case, `n` itself among them. -/
def caseVariants (n : Nat) : List Nat := (caseFamilies.find? (·.contains n)).getD [n]

/-- The next larger code point that differs from `n` only in case, or the smallest one behind the largest. -/
def nextVariant (n : Nat) : Nat :=
  let variants := caseVariants n
  match variants.filter (n < ·) with
  | [] => variants.foldl min n
  | v :: larger => larger.foldl min v

/-! ## Sets of characters -/

/-- The largest code point. -/
def maxCode : Nat := 0x10FFFF

/-- Joins ranges that overlap or touch, given in rising order of their first code points. -/
def joinRanges : List CodeRange → List CodeRange
  | [] => []
  | r :: rest =>
    match joinRanges rest with
    | [] => [r]
    | next :: more =>
      if next.first ≤ r.last + 1 then ⟨r.first, max r.last next.last⟩ :: more else r :: next :: more

/-- A set of code points: ranges in rising order that do not touch. -/
structure CharSet where
  ranges : Array CodeRange
deriving DecidableEq

namespace CharSet

/-- Whether a set holds a code point. -/
def contains (s : CharSet) (n : Nat) : Bool := CodeRange.anyContains s.ranges n

/-- The set of the code points in some ranges. -/
def ofRanges (rs : List CodeRange) : CharSet :=
  ⟨(joinRanges (rs.mergeSort fun a b => a.first ≤ b.first)).toArray⟩

/-- The set of the code points from one to another. -/
def range (first last : Nat) : CharSet := ⟨#[⟨first, last⟩]⟩

/-- The code points of several sets. -/
def union (sets : List CharSet) : CharSet := ofRanges (sets.flatMap fun s => s.ranges.toList)

/-- The gaps between ranges in rising order, from a code point on. -/
def gaps (start : Nat) : List CodeRange → List CodeRange
  | [] => if start ≤ maxCode then [⟨start, maxCode⟩] else []
  | r :: rest => (if start < r.first then [⟨start, r.first - 1⟩] else []) ++ gaps (r.last + 1) rest

/-- All other code points. -/
def complement (s : CharSet) : CharSet := ⟨(gaps 0 s.ranges.toList).toArray⟩

/-- The set, or all other code points if `b` holds. -/
def complementIf (b : Bool) (s : CharSet) : CharSet := if b then s.complement else s

/-- The set with all code points that differ from one of its own only in case. -/
def closed (s : CharSet) : CharSet :=
  let families := caseFamilies.filter fun family => family.any s.contains
  if families.isEmpty then s
  else ofRanges (s.ranges.toList ++ families.flatMap fun family => family.map fun n => ⟨n, n⟩)

/-- The set, closed under case if `b` holds. -/
def closedIf (b : Bool) (s : CharSet) : CharSet := if b then s.closed else s

/-- The set of one code point, or of its variants when case is folded away. -/
def single (n : Nat) (isFolded : Bool) : CharSet :=
  if isFolded then ofRanges ((caseVariants n).map fun v => ⟨v, v⟩) else range n n

/-- The set of all code points. -/
def all : CharSet := range 0 maxCode

/-- The set of all code points but the line feed. -/
def allButNewline : CharSet := (range 10 10).complement

/-- The code point that a set consists of, alone or with its only variant; the flag tells which. -/
def letter? (s : CharSet) : Option (Nat × Bool) :=
  match s.ranges.toList with
  | [⟨a, b⟩] =>
    if a = b then some (a, false)
    else if a + 1 = b && nextVariant a = b && nextVariant b = a then some (a, true)
    else none
  | [⟨a, b⟩, ⟨c, d⟩] =>
    if a = b && c = d && nextVariant a = c && nextVariant c = a then some (a, true) else none
  | _ => none

end CharSet

/-! ## Assertions -/

/-- What may be asked of a place between two characters. -/
inductive Assertion where
  | textStart
  | textEnd
  | lineStart
  | lineEnd
  | wordEdge
  | notWordEdge
deriving DecidableEq, Repr

/-- Whether a code point belongs to a word: an ASCII letter or digit, or the underscore. -/
def isWordCode (n : Nat) : Bool :=
  (0x30 ≤ n && n ≤ 0x39) || (0x41 ≤ n && n ≤ 0x5A) || n = 0x5F || (0x61 ≤ n && n ≤ 0x7A)

/-- Whether an assertion holds between the code point before a place and the one after it. -/
def Assertion.holds (a : Assertion) (before after : Option Nat) : Bool :=
  let atEdge := before.any isWordCode != after.any isWordCode
  match a with
  | textStart => before.isNone
  | textEnd => after.isNone
  | lineStart => before.all (· = 10)
  | lineEnd => after.all (· = 10)
  | wordEdge => atEdge
  | notWordEdge => !atEdge

end Pattern

/-! ## Patterns -/

/-- A description of pieces of text. Of the ways in which a piece matches, the one that takes the earlier
alternative and, in a greedy repetition, the longer one is preferred. -/
inductive Pattern where
  | empty
  /-- Characters one after the other, or their variants when case is folded away. -/
  | literal (codes : List Nat) (isFolded : Bool)
  | one (set : Pattern.CharSet)
  | assertion (a : Pattern.Assertion)
  | seq (parts : List Pattern)
  | either (choices : List Pattern)
  | times (least : Nat) (most : Option Nat) (isGreedy : Bool) (body : Pattern)
  | group (index : Nat) (body : Pattern)

namespace Pattern

mutual

/-- Whether a pattern matches without a character, assertions left aside. -/
def isNullable : Pattern → Bool
  | empty => true
  | literal codes _ => codes.isEmpty
  | one _ => false
  | assertion _ => true
  | seq ps => allNullable ps
  | either ps => anyNullable ps
  | times least _ _ p => least == 0 || p.isNullable
  | group _ p => p.isNullable

/-- Whether all of some patterns match without a character. -/
def allNullable : List Pattern → Bool
  | [] => true
  | p :: ps => p.isNullable && allNullable ps

/-- Whether one of some patterns matches without a character. -/
def anyNullable : List Pattern → Bool
  | [] => false
  | p :: ps => p.isNullable || anyNullable ps

end

mutual

/-- The number of levels that a pattern is nested. -/
def height : Pattern → Nat
  | seq ps => tallest ps + 1
  | either ps => tallest ps + 1
  | times _ _ _ p => p.height + 1
  | group _ p => p.height + 1
  | _ => 1

/-- The largest height of some patterns. -/
def tallest : List Pattern → Nat
  | [] => 0
  | p :: ps => max p.height (tallest ps)

end

mutual

/-- About how many instructions a pattern becomes. -/
def size : Pattern → Nat
  | literal codes _ => max 1 codes.length
  | seq ps => max 1 (totalSize ps)
  | either ps => max 1 (totalSize ps + (ps.length - 1))
  | group _ p => p.size + 2
  | times least none _ p => if least = 0 then p.size + 2 else least * p.size + 1
  | times least (some most) _ p => max 1 (most * p.size + (most - least))
  | _ => 1

/-- The sizes of some patterns together. -/
def totalSize : List Pattern → Nat
  | [] => 0
  | p :: ps => p.size + totalSize ps

end

mutual

/-- Whether nested counted repetitions ask for at most `limit` copies of their innermost body. -/
def copiesWithin (limit : Nat) : Pattern → Bool
  | seq ps => allCopiesWithin limit ps
  | either ps => allCopiesWithin limit ps
  | group _ p => p.copiesWithin limit
  | times least most _ p =>
    let copies := most.getD least
    if most = some 0 then true
    else if copies > limit then false
    else p.copiesWithin (if copies = 0 then limit else limit / copies)
  | _ => true

/-- Whether all of some patterns ask for at most `limit` copies. -/
def allCopiesWithin (limit : Nat) : List Pattern → Bool
  | [] => true
  | p :: ps => p.copiesWithin limit && allCopiesWithin limit ps

end

end Pattern

end ScriptEngine
