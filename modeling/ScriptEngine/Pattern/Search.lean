import ScriptEngine.Pattern.Reader
/-!
# Finding the pieces that match

A pattern becomes a list of instructions, and a search follows all ways through them at once, one character at
a time. The ways are kept in the order in which they are preferred; no two of them stand at one instruction,
so that the work for a character is bounded by the number of instructions.
-/

namespace ScriptEngine

namespace Pattern

/-! ## Instructions -/

/-- One instruction, with the places of those that may follow it. -/
inductive Instruction where
  | take (set : CharSet) (next : Nat)
  | fork (preferred other : Nat)
  | mark (slot next : Nat)
  | test (a : Assertion) (next : Nat)
  | accept
deriving DecidableEq

/-- The instructions made so far and the place where to begin. -/
structure Code where
  instructions : Array Instruction
  entry : Nat

namespace Code

/-- Puts one instruction in front, given what it does before the present entry. -/
def push (c : Code) (f : Nat → Instruction) : Code := ⟨c.instructions.push (f c.entry), c.instructions.size⟩

/-- A fork that prefers `inside` if the repetition is greedy. -/
def choose (isGreedy : Bool) (inside outside : Nat) : Instruction :=
  if isGreedy then .fork inside outside else .fork outside inside

/-- One or more times what `body` puts in front. -/
def oneOrMore (isGreedy : Bool) (body : Code → Code) (c : Code) : Code :=
  let loop := c.instructions.size
  let inner := body ⟨c.instructions.push .accept, loop⟩
  ⟨inner.instructions.setIfInBounds loop (choose isGreedy inner.entry c.entry), inner.entry⟩

/-- Any number of times what `body` puts in front, if that always takes a character. -/
def anyNumber (isGreedy : Bool) (body : Code → Code) (c : Code) : Code :=
  { oneOrMore isGreedy body c with entry := c.instructions.size }

/-- What `body` puts in front, or nothing. -/
def optional (isGreedy : Bool) (body : Code → Code) (c : Code) : Code :=
  let inner := body c
  ⟨inner.instructions.push (choose isGreedy inner.entry c.entry), inner.instructions.size⟩

/-- What `body` puts in front, `n` times. -/
def copies (body : Code → Code) : Nat → Code → Code
  | 0, c => c
  | n + 1, c => copies body n (body c)

/-- What `body` puts in front, at most `n` times: each further time only behind the one before. -/
def atMost (isGreedy : Bool) (body : Code → Code) (n : Nat) (c : Code) : Code :=
  let after := c.entry
  let rec go : Nat → Code → Code
    | 0, c => c
    | n + 1, c =>
      let inner := body (go n c)
      ⟨inner.instructions.push (choose isGreedy inner.entry after), inner.instructions.size⟩
  go n c

/-- Puts the instructions for characters one after the other in front. -/
def prependLiteral (isFolded : Bool) (codes : List Nat) (c : Code) : Code :=
  codes.foldr (fun n c => c.push (.take (.single n isFolded))) c

mutual

/-- Puts the instructions of a pattern in front. -/
def prepend : Pattern → Code → Code
  | .empty, c => c
  | .literal codes isFolded, c => prependLiteral isFolded codes c
  | .one set, c => c.push (.take set)
  | .assertion a, c => c.push (.test a)
  | .seq ps, c => prependAll ps c
  | .either ps, c => prependAny ps c
  | .group i p, c => (prepend p (c.push (.mark (2 * i + 1)))).push (.mark (2 * i))
  | .times least none isGreedy p, c =>
    match least with
    | 0 =>
      if p.isNullable then optional isGreedy (oneOrMore isGreedy (prepend p)) c
      else anyNumber isGreedy (prepend p) c
    | least + 1 => copies (prepend p) least (oneOrMore isGreedy (prepend p) c)
  | .times least (some most) isGreedy p, c =>
    if most = 0 then c
    else copies (prepend p) least (atMost isGreedy (prepend p) (most - least) c)

/-- Puts the instructions of patterns one after the other in front. -/
def prependAll : List Pattern → Code → Code
  | [], c => c
  | p :: ps, c => prepend p (prependAll ps c)

/-- Puts the instructions of a choice in front. -/
def prependAny : List Pattern → Code → Code
  | [], c => c
  | [p], c => prepend p c
  | p :: ps, c =>
    let second := prependAny ps c
    let first := prepend p ⟨second.instructions, c.entry⟩
    first.push fun entry => .fork entry second.entry

end

/-- The instructions of a pattern; the whole piece that matches is group zero. -/
def ofPattern (p : Pattern) : Code := prepend (.group 0 p) ⟨#[.accept], 0⟩

end Code

/-! ## Searching -/

/-- The places that were marked, by slot: group `i` begins at slot `2 i` and ends at slot `2 i + 1`. -/
abbrev Marks := Array (Option Nat)

/-- A way through the instructions: where it stands and what it marked. -/
structure Way where
  place : Nat
  marks : Marks

/-- A place between two characters of a text. -/
structure Spot where
  position : Nat
  before : Option Nat
  after : Option Nat

namespace Code

/-- Follows ways through the instructions that take no character, the most preferred first, up to those that
take one. Of several ways to one instruction only the first is kept. `seen` tells the instructions that were
reached, `kept` holds the ways kept so far in reverse, and `fuel` bounds the number of steps. -/
def follow (code : Array Instruction) (spot : Spot) : Nat → List Way → Array Bool → List Way → List Way
  | 0, _, _, kept => kept.reverse
  | _, [], _, kept => kept.reverse
  | fuel + 1, w :: ways, seen, kept =>
    if (seen[w.place]?).getD true then follow code spot fuel ways seen kept
    else
      let seen := seen.setIfInBounds w.place true
      match code[w.place]? with
      | none => follow code spot fuel ways seen kept
      | some (.take _ _) | some .accept => follow code spot fuel ways seen (w :: kept)
      | some (.fork a b) => follow code spot fuel (⟨a, w.marks⟩ :: ⟨b, w.marks⟩ :: ways) seen kept
      | some (.mark slot next) =>
        follow code spot fuel (⟨next, w.marks.setIfInBounds slot (some spot.position)⟩ :: ways) seen kept
      | some (.test a next) =>
        follow code spot fuel (if a.holds spot.before spot.after then ⟨next, w.marks⟩ :: ways else ways)
          seen kept

/-- Lets ways take a character. The first way that has reached the end is a match, and the ways behind it are
given up. -/
def advance (code : Array Instruction) (c : Option Nat) : List Way → List Way × Option Marks
  | [] => ([], none)
  | w :: ways =>
    match code[w.place]? with
    | some .accept => ([], some w.marks)
    | some (.take set next) =>
      let r := advance code c ways
      if c.any set.contains then (⟨next, w.marks⟩ :: r.1, r.2) else r
    | _ => advance code c ways

/-- Goes through the characters of a text. Until a match is found, a new way begins at each place; a match
found later comes from a way that was preferred. -/
def scan (code : Array Instruction) (first : Way) (before : Option Nat) (position : Nat) :
    List Nat → List Way → Option Marks → Option Marks
  | rest, ways, found =>
    let ways := if found.isNone then ways ++ [first] else ways
    if ways.isEmpty then found
    else
      let spot := ⟨position, before, rest.head?⟩
      let fuel := 2 * code.size + ways.length + 1
      let (ways, match?) :=
        advance code rest.head? (follow code spot fuel ways (Array.replicate code.size false) [])
      let found := match?.orElse fun _ => found
      match rest with
      | [] => found
      | c :: rest => scan code first (some c) (position + 1) rest ways found

end Code

/-- A pattern that is ready to search with. -/
structure Searcher where
  code : Code
  groups : Nat
  names : List (Text × Nat)

/-- The searcher for the pattern that a text spells. -/
def Searcher.ofText (t : Text) : Except Trouble Searcher :=
  (read t).map fun r => ⟨.ofPattern r.pattern, r.groups, r.names⟩

/-- The marks of the first piece that matches at or behind a position; `before` is the code point in front of
that position and `rest` are those behind it. -/
def Searcher.search? (s : Searcher) (before : Option Nat) (position : Nat) (rest : List Nat) : Option Marks :=
  Code.scan s.code.instructions ⟨s.code.entry, Array.replicate (2 * (s.groups + 1)) none⟩ before position
    rest [] none

end Pattern

end ScriptEngine
