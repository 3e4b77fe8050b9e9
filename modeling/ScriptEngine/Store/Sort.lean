import ScriptEngine.Store.Coerce
/-!
# Sorting values

Values of one kind, or numbers, have an order; others can not be compared. Sorting goes on past a pair
that can not be compared, taking the two as equal, and reports the first such pair at its end. As not
every order is total — a number that is none equals all others — the comparisons made and their sequence
are part of what is defined here: runs of twenty are sorted by insertion, and then neighbouring runs are
merged by splitting both at a pivot and exchanging the middle parts.
-/

namespace ScriptEngine

/-- A comparison that keeps the first fault it meets. -/
abbrev Sorting := StateM (Option Fault)

namespace Sorting

/-- Whether one value comes before another. Values that can not be compared do not. -/
def before (s : Store) (ascending : Bool) (a b : Value) : Sorting Bool := do
  match s.order a b with
  | .ok o => pure (o == if ascending then .lt else .gt)
  | .error f =>
    modify fun first => first.or (some f)
    pure false

variable (less : Value → Value → Sorting Bool)

/-- Puts a value behind the last one that does not come after it; the sorted values are given latest
first. -/
def insert (v : Value) : List Value → Sorting (List Value)
  | [] => pure [v]
  | w :: ws => do
    if ← less v w then
      let ws ← insert v ws
      pure (w :: ws)
    else pure (v :: w :: ws)

/-- Sorts a run by insertion; `sorted` is given latest first. -/
def insertAll (sorted : List Value) : List Value → Sorting (List Value)
  | [] => pure sorted.reverse
  | v :: vs => do
    let sorted ← insert less v sorted
    insertAll sorted vs

/-- The first number from `lo` to `hi` that a test accepts, if the numbers it accepts come last. -/
def searchFirst (test : Nat → Sorting Bool) : Nat → Nat → Nat → Sorting Nat
  | 0, lo, _ => pure lo
  | fuel + 1, lo, hi =>
    if lo < hi then do
      let mid := (lo + hi) / 2
      if ← test mid then searchFirst test fuel lo mid else searchFirst test fuel (mid + 1) hi
    else pure lo

/-- Merges two sorted runs. A run of one value is put into its place by halving; longer ones are cut so
that the parts before the cuts fill the first half of the result. -/
def merge : Nat → Array Value → Array Value → Sorting (Array Value)
  | 0, xs, ys => pure (xs ++ ys)
  | fuel + 1, xs, ys => do
    let m := xs.size
    let n := m + ys.size
    if m = 0 || ys.size = 0 then return xs ++ ys
    let all := xs ++ ys
    let item (i : Nat) : Value := (all[i]?).getD .null
    if m = 1 then
      let i ← searchFirst (fun h => do pure (!(← less (item h) (item 0)))) n m n
      return (all.extract 1 i).push (item 0) ++ all.extract i n
    if ys.size = 1 then
      let i ← searchFirst (fun h => less (item m) (item h)) n 0 m
      return (all.extract 0 i).push (item m) ++ all.extract i m
    let mid := n / 2
    let pivot := mid + m
    let (lo, hi) := if m > mid then (pivot - n, mid) else (0, m)
    let start ← searchFirst (fun c => less (item (pivot - 1 - c)) (item c)) n lo hi
    let stop := pivot - start
    let all :=
      if start < m && m < stop then
        all.extract 0 start ++ all.extract m stop ++ all.extract start m ++ all.extract stop n
      else all
    let left ←
      if 0 < start && start < mid then merge fuel (all.extract 0 start) (all.extract start mid)
      else pure (all.extract 0 mid)
    let right ←
      if mid < stop && stop < n then merge fuel (all.extract mid stop) (all.extract stop n)
      else pure (all.extract mid n)
    return left ++ right

/-- Cuts a list into runs of a length. -/
def runs (size : Nat) (fuel : Nat) (vs : List Value) : List (List Value) :=
  match fuel with
  | 0 => [vs]
  | fuel + 1 =>
    if vs.length ≤ size then [vs] else vs.take size :: runs size fuel (vs.drop size)

/-- Merges neighbouring runs in pairs. -/
def mergePairs : List (Array Value) → Sorting (List (Array Value))
  | xs :: ys :: rest => do
    let zs ← merge less (xs.size + ys.size) xs ys
    let rest ← mergePairs rest
    pure (zs :: rest)
  | rest => pure rest

/-- Merges runs until one is left. -/
def mergeAll : Nat → List (Array Value) → Sorting (Array Value)
  | 0, rs => pure (rs.foldl (· ++ ·) #[])
  | _ + 1, [] => pure #[]
  | _ + 1, [r] => pure r
  | fuel + 1, rs => do
    let rs ← mergePairs less rs
    mergeAll fuel rs

/-- The values in order, and the first fault that a comparison met. -/
def sort (s : Store) (ascending : Bool) (vs : List Value) : List Value × Option Fault :=
  let less := before s ascending
  let sorting : Sorting (Array Value) := do
    let rs ← (runs 20 vs.length vs).mapM fun r => do
      pure (← insertAll less [] r).toArray
    mergeAll less rs.length rs
  let (sorted, fault) := sorting none
  (sorted.toList, fault)

end Sorting

end ScriptEngine
