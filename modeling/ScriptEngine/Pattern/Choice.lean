import ScriptEngine.Pattern
/-!
# Sequences and choices in their plain form

A sequence inside a sequence, and a choice inside a choice, are written out. In a choice, what neighbouring
alternatives have in common at their beginning is put in front of the choice between the rest, neighbouring
single characters become one set, and neighbouring empty alternatives become one. The plain form matches the
same pieces in the same order of preference.
-/

namespace ScriptEngine

namespace Pattern

/-! ## Single characters -/

/-- The set of a pattern that always takes exactly one character. -/
def singleSet? : Pattern → Option CharSet
  | literal [n] isFolded => some (.single n isFolded)
  | one set => some set
  | _ => none

/-- Two patterns that take one character each as one. -/
def mergeSingle? (p q : Pattern) : Option Pattern :=
  match p, q with
  | literal [a] f, literal [b] g =>
    if a = b && f = g then some p else some (one (.union [.single a f, .single b g]))
  | _, _ => do return one (.union [← singleSet? p, ← singleSet? q])

/-! ## Sequences -/

/-- Puts a literal behind another one if both fold case alike. -/
def joinLiteral? (p q : Pattern) : Option Pattern :=
  match p, q with
  | literal a f, literal b g => if f = g then some (literal (a ++ b) f) else none
  | _, _ => none

/-- The patterns with sequences among them written out. -/
def flatSequence (ps : List Pattern) : List Pattern :=
  ps.flatMap fun p => match p with
    | seq qs => qs
    | p => [p]

/-- The plain form of patterns one after the other. -/
def sequence : List Pattern → Pattern
  | [] => empty
  | [p] => p
  | ps => seq (flatSequence ps)

/-! ## Choices -/

/-- The patterns with choices among them written out. -/
def flatChoice (ps : List Pattern) : List Pattern :=
  ps.flatMap fun p => match p with
    | either qs => qs
    | p => [p]

/-- The literal that a pattern begins with, and whether it folds case. -/
def leadingLiteral : Pattern → List Nat × Bool
  | literal codes f => (codes, f)
  | seq (literal codes f :: _) => (codes, f)
  | _ => ([], false)

/-- The rest of a literal without its first `n` characters. -/
def dropCodes (n : Nat) (codes : List Nat) (isFolded : Bool) : Pattern :=
  match codes.drop n with
  | [] => empty
  | rest => literal rest isFolded

/-- A pattern without the first `n` characters of the literal it begins with. -/
def dropLiteral (n : Nat) : Pattern → Pattern
  | literal codes f => dropCodes n codes f
  | seq (literal codes f :: rest) =>
    match dropCodes n codes f, rest with
    | empty, [p] => p
    | empty, ps => seq ps
    | p, ps => seq (p :: ps)
  | p => p

/-- The longest beginning that two lists share. -/
def commonPrefix : List Nat → List Nat → List Nat
  | a :: as, b :: bs => if a = b then a :: commonPrefix as bs else []
  | _, _ => []

/-- Neighbouring alternatives that begin with the same literal: that literal, whether it folds case, and the
alternatives with the last in front. -/
structure LiteralRun where
  shared : List Nat
  isFolded : Bool
  members : List Pattern

/-- Splits alternatives into runs, the last run in front. -/
def literalRuns (ps : List Pattern) : List LiteralRun :=
  ps.foldl (fun runs p =>
    let (codes, f) := leadingLiteral p
    match runs with
    | [] => [⟨codes, f, [p]⟩]
    | run :: rest =>
      let shared := commonPrefix run.shared codes
      if run.isFolded = f && !shared.isEmpty then ⟨shared, f, p :: run.members⟩ :: rest
      else ⟨codes, f, [p]⟩ :: run :: rest) []

/-- Whether two patterns are the same set of characters, or the same number of times the same set. -/
def isSameLead : Pattern → Pattern → Bool
  | literal [a] f, literal [b] g => a == b && f == g
  | one s, one t => s == t
  | times a (some b) f p, times c (some d) g q => a == b && a == c && b == d && f == g && isSameLead p q
  | _, _ => false

/-- The pattern that a pattern begins with. -/
def lead? : Pattern → Option Pattern
  | empty => none
  | seq (empty :: _) => none
  | seq (p :: _) => some p
  | p => some p

/-- A pattern without the pattern it begins with. -/
def dropLead : Pattern → Pattern
  | seq [_, p] => p
  | seq (_ :: ps) => seq ps
  | _ => empty

/-- Splits alternatives into runs with the same beginning, the last run and the last of each run in front. -/
def leadRuns (ps : List Pattern) : List (List Pattern) :=
  ps.foldl (fun runs p =>
    match runs with
    | (q :: run) :: rest =>
      let same := match lead? q, lead? p with
        | some a, some b => isSameLead a b
        | _, _ => false
      if same then (p :: q :: run) :: rest else [p] :: (q :: run) :: rest
    | _ => [p] :: runs) []

/-- Makes one set of neighbouring single characters. -/
def mergeSingles : List Pattern → List Pattern
  | [] => []
  | p :: ps =>
    match mergeSingles ps with
    | [] => [p]
    | q :: qs =>
      match singleSet? p, singleSet? q with
      | some s, some t => one (.union [s, t]) :: qs
      | _, _ => p :: q :: qs

/-- Makes one of neighbouring empty alternatives. -/
def mergeEmpty : List Pattern → List Pattern
  | empty :: empty :: ps => mergeEmpty (empty :: ps)
  | p :: ps => p :: mergeEmpty ps
  | [] => []

/-- The plain form of a choice; `fuel` bounds how often common beginnings are put in front. -/
def choiceWithin : Nat → List Pattern → Pattern
  | _, [] => empty
  | _, [p] => p
  | 0, ps => either ps
  | fuel + 1, ps =>
    let byLiteral := ((literalRuns (flatChoice ps)).map fun run =>
      match run.members with
      | [p] => p
      | members =>
        seq [literal run.shared run.isFolded,
          choiceWithin fuel (members.reverse.map (dropLiteral run.shared.length))]).reverse
    let byLead := ((leadRuns byLiteral).map fun run =>
      match run.reverse with
      | [p] => p
      | members =>
        match members.head?.bind lead? with
        | some p => seq [p, choiceWithin fuel (members.map dropLead)]
        | none => either members).reverse
    match mergeEmpty (mergeSingles byLead) with
    | [p] => p
    | ps => either ps

/-- The plain form of a choice, the first alternative preferred. -/
def choice (ps : List Pattern) : Pattern := choiceWithin (totalSize ps + 1) ps

end Pattern

end ScriptEngine
