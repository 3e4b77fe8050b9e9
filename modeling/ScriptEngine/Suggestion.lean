import ScriptEngine.Text.Letter
/-!
# Ranking names by likeness

A pattern fits a name when its characters occur in the name in order, in any case of letters. Fitting
names are ranked by a score: a match at the start, after a separator or at a capital counts for it,
matches in a row count more and more, and unmatched characters count against it.
-/

namespace ScriptEngine.Ranking

/-- The weight of a match at the first character. -/
def firstBonus : Int := 10
/-- The weight of a match after a separator or at a capital letter. -/
def boundaryBonus : Int := 20
/-- The weight of a match next to another. -/
def adjacentBonus : Int := 5
/-- The weight of an unmatched character before the first match. -/
def leadingPenalty : Int := -5
/-- The least that unmatched characters before the first match can count. -/
def leadingFloor : Int := -15

/-- Whether two characters are the same letter up to case. -/
def same (a b : Char) : Bool := Text.foldChar a = Text.foldChar b

/-- Whether a character separates the words of a name. -/
def isSeparator (c : Char) : Bool :=
  c = '/' || c = '-' || c = '_' || c = ' ' || c = '.' || c = '\\'

/-- The progress of matching a pattern against a name. -/
structure State where
  /-- The pattern from the character to be matched next. -/
  pattern : List Char
  /-- The best place so far for that character, with its score. -/
  best : Option (Nat × Int)
  /-- The places matched, latest first. -/
  matched : List Nat
  /-- The total of the matched places. -/
  score : Int
  /-- What the last adjacent match counted. -/
  run : Int
deriving Inhabited

/-- What matching the name's character at place `j` counts, and the run after it. -/
def weigh (st : State) (j : Nat) (last : Option Char) (c : Char) : Int × Int :=
  let first := if j = 0 then firstBonus else 0
  let camel := match last with
    | some l => if Text.lowerChar l = l && Text.upperChar l ≠ l && Text.upperChar c = c
        && Text.lowerChar c ≠ c then boundaryBonus else 0
    | none => 0
  let after := match last with
    | some l => if isSeparator l then boundaryBonus else 0
    | none => 0
  let adjacent := match st.matched with
    | m :: _ => if m + 1 = j then st.run * 2 + adjacentBonus else 0
    | [] => 0
  (first + camel + after + adjacent, st.run + adjacent)

/-- Reads one character of the name. `next` is the character after it, if any. -/
def step (st : State) (j : Nat) (last : Option Char) (c : Char) (next : Option Char) : State :=
  match st.pattern with
  | [] => st
  | p :: rest =>
    let st := if same p c then
        let (s, run) := weigh st j last c
        let better := match st.best with
          | none => true
          | some (_, b) => b < s
        { st with best := if better then some (j, s) else st.best, run := run }
      else st
    let closes := match next with
      | none => true
      | some n => match rest with
        | q :: _ => same q n
        | [] => false
    match closes, st.best with
    | true, some (place, s) =>
      let lead := if st.matched.isEmpty then max (leadingPenalty * place) leadingFloor else 0
      { st with pattern := rest, best := none, matched := place :: st.matched,
                score := st.score + s + lead }
    | _, _ => st

/-- Reads the characters of a name from place `j` on. -/
def run : State → Nat → Option Char → List Char → State
  | st, _, _, [] => st
  | st, j, last, c :: cs => run (step st j last c cs.head?) (j + 1) (some c) cs

/-- The score of a name for a pattern; `none` when it does not fit. -/
def score? (pattern name : List Char) : Option Int :=
  let st := run ⟨pattern, none, [], 0, 0⟩ 0 none name
  if st.pattern.isEmpty then some (st.score + (pattern.length : Int) - (name.length : Int)) else none

/-- Puts a name before all names with no higher score. -/
def place (x : Text × Int) : List (Text × Int) → List (Text × Int)
  | [] => [x]
  | y :: ys => if y.2 ≤ x.2 then x :: y :: ys else y :: place x ys

/-- The names that fit a pattern, by falling score; of equal scores the later name comes first. -/
def find (pattern : Text) (names : List Text) : List Text :=
  if pattern.isEmpty then []
  else
    let fits := names.filterMap fun n => (score? pattern.chars n.chars).map fun s => (n, s)
    (fits.foldl (fun acc x => place x acc) []).map (·.1)

end ScriptEngine.Ranking
