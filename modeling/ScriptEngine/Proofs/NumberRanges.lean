import ScriptEngine.Eval
import ScriptEngine.Proofs.PreparedArguments
import ScriptEngine.Proofs.WholeDoubles
import ScriptEngine.Proofs.WholeNumbers
/-!
# Operations on whole numbers that may leave 64 bits

The minus in front of a number works with 64 bits and has no look at whether the result fits them, unlike the operators
between numbers: the least long is its own opposite. The absolute value goes through a double. It is exact where a
double holds it; elsewhere it is rounded, and it becomes the least long when it is rounded up out of the range or is out of
it from the beginning.

A random whole number is chosen by its distance from the lower bound. The number of choices is a word of 64 bits, and bounds of
64 bits may be further apart than that: then nothing is left to choose from, and the run crashes.
-/

namespace ScriptEngine

/-- A value is the exact result of an operation on a whole number: an int if the operand is none of 64 bits and the result
fits 32 bits, and a long otherwise. -/
def Value.IsExact (s : Store) (operand : Value) (n : Int) (w : Value) : Prop :=
  w.whole? = some n ∧ s.kindOf w = (s.kindOf operand).ofResult (s.kindOf operand) n

namespace Value

/-- A number of 64 bits that is made as narrow as it can be is exact where no operand is a long. -/
theorem isExact_ofInt64 {s : Store} (operand : Value) (narrow : s.kindOf operand ≠ .long) (r : Int64) :
    IsExact s operand r.toInt (ofInt64 r) := by
  obtain ⟨value, kind⟩ := whole?_ofInt64 r s
  refine ⟨value, ?_⟩
  rw [kind, Kind.ofResult]
  by_cases fits : FitsInt r.toInt
  · rw [if_pos fits, if_neg]
    rintro (wide | wide | large)
    · exact narrow wide
    · exact narrow wide
    · exact large fits
  · rw [if_neg fits, if_pos (.inr (.inr fits))]

end Value

namespace Eval

variable {v : Value} {x : Int}

/-- The minus in front of a whole number gives the exact result, but the least long stays as it is. -/
theorem run_negate (h : v.whole? = some x) (s : Store) :
    ∃ w, (unary .negate v).run.run s = (.ok w, s) ∧ (x ≠ -2 ^ 63 → Value.IsExact s v (-x) w) ∧ (x = -2 ^ 63 → w = v) := by
  cases v with
  | byte n =>
    cases h
    have small := n.toNat_lt
    have operand : (Int32.ofNat n.toNat).toInt = n.toNat := Int32.toInt_ofNat_of_lt (by omega)
    have opposite : (-(Int32.ofNat n.toNat)).toInt = -n.toNat := by
      rw [Int32.toInt_neg, operand]
      exact Int.bmod_eq_of_le_mul_two (by omega) (by omega)
    have fits : FitsInt (-n.toNat) := by
      constructor
      · omega
      · omega
    refine ⟨_, rfl, fun _ => ⟨congrArg some opposite, ?_⟩, fun least => by omega⟩
    change Kind.int = Kind.ofResult .byte .byte _
    rw [Kind.ofResult, if_neg]
    simpa using fits
  | int n =>
    cases h
    have low := n.le_toInt
    have high := n.toInt_lt
    have opposite : (-n.toInt64).toInt = -n.toInt := by
      rw [Int64.toInt_neg, n.toInt_toInt64]
      exact Int.bmod_eq_of_le_mul_two (by omega) (by omega)
    have exact := Value.isExact_ofInt64 (s := s) (.int n) (by rintro ⟨⟩) (-n.toInt64)
    rw [opposite] at exact
    exact ⟨_, rfl, fun _ => exact, fun least => by omega⟩
  | long n =>
    cases h
    have low := n.le_toInt
    have high := n.toInt_lt
    refine ⟨_, rfl, fun inner => ⟨?_, rfl⟩, fun least => ?_⟩
    · change some (-n).toInt = _
      rw [Int64.toInt_neg, Int.bmod_eq_of_le_mul_two (by omega) (by omega)]
    · have lowest : n = Int64.minValue := by
        rw [← Int64.toInt_inj, least]
        rfl
      rw [lowest]
      rfl
  | _ => cases h

end Eval

/-- What the absolute value of a whole number is as a value: a double, cut off to 64 bits. -/
def Value.absolute (x : Int) : Int := if Double.ofWhole x.natAbs < 2 ^ 63 then Double.ofWhole x.natAbs else -2 ^ 63

/-- The absolute value is exact where a double holds it and it fits 64 bits. -/
theorem Value.absolute_eq_iff {x : Int} (fits : FitsLong x) : absolute x = x.natAbs ↔ x ≠ -2 ^ 63 ∧ Double.Holds x.natAbs := by
  obtain ⟨low, high⟩ := fits
  rw [← Double.ofWhole_eq_iff]
  unfold absolute
  split
  · omega
  · omega

/-- What a double is cut off to fits 64 bits. -/
theorem Args.fitsLong_wholeOf (f : Float) : FitsLong (wholeOf f) := by
  unfold wholeOf
  split
  · simp only [Bool.and_eq_true, decide_eq_true_eq]
    split
    · assumption
    · decide
  · decide

/-- Whole numbers become doubles, and their absolute values are whole numbers again. -/
theorem Value.wholeOf_toFloat {v : Value} {x : Int} (h : v.whole? = some x) :
    ∃ f, v.toFloat? = some f ∧ Args.wholeOf f.abs = absolute x := by
  cases v with
  | byte n =>
    cases h
    have small := n.toNat_lt
    have held : Double.ofWhole n.toNat = n.toNat := (Double.ofWhole_eq_iff _).mpr (Double.holds_of_lt (by omega))
    refine ⟨_, rfl, ?_⟩
    unfold absolute Args.wholeOf
    rw [Double.wholePart_abs_ofNat, Int.natAbs_natCast, held, if_pos (by omega)]
    simp only [Bool.and_eq_true, decide_eq_true_eq]
    rw [if_pos (by omega)]
  | int n =>
    cases h
    have low := n.le_toInt
    have high := n.toInt_lt
    exact ⟨_, rfl, Args.wholeOf_abs (by omega)⟩
  | long n =>
    cases h
    have low := n.le_toInt
    have high := n.toInt_lt
    exact ⟨_, rfl, Args.wholeOf_abs (by omega)⟩
  | _ => cases h

namespace MathOp

variable {v : Value} {x : Int}

/-- A whole number is an argument of `math.abs` as it is. -/
theorem prepare_abs (h : v.whole? = some x) (s : Store) : (abs.signature.prepare [v]).run.run s = (.ok [v], s) := by
  cases v with
  | byte n => rfl
  | int n => rfl
  | long n => rfl
  | _ => cases h

/-- The result is a number of the kind of the operand. -/
theorem isExact_likeOperand (h : v.whole? = some x) (f : Float) (s : Store) :
    Value.IsExact s v (Args.wholeOf f) (likeOperand v f) := by
  obtain ⟨low, high⟩ := Args.fitsLong_wholeOf f
  have back : (Int64.ofInt (Args.wholeOf f)).toInt = Args.wholeOf f := Int64.toInt_ofInt_of_le low high
  cases v with
  | byte n =>
    have exact := Value.isExact_ofInt64 (s := s) (.byte n) (by rintro ⟨⟩) (Int64.ofInt (Args.wholeOf f))
    rwa [back] at exact
  | int n =>
    have exact := Value.isExact_ofInt64 (s := s) (.int n) (by rintro ⟨⟩) (Int64.ofInt (Args.wholeOf f))
    rwa [back] at exact
  | long n => exact ⟨congrArg some back, rfl⟩
  | _ => cases h

/-- The absolute value of a whole number is that of its double. -/
theorem call_abs (h : v.whole? = some x) (sleep : Nat → Exec Unit) (m : Machine) :
    ∃ w, Builtin.call sleep "math.abs" [v] m = .done w m ∧ Value.IsExact m.store v (Value.absolute x) w := by
  obtain ⟨f, float, rounded⟩ := Value.wholeOf_toFloat h
  refine ⟨likeOperand v f.abs, ?_, ?_⟩
  · refine (Builtin.call_of_prepared sleep (.math .abs) (prepare_abs h m.store)).trans ?_
    change Outcome.done (likeOperand v ((v.toFloat?.getD 0.0).abs)) m = _
    rw [float]
    rfl
  · rw [← rounded]
    exact isExact_likeOperand h f.abs m.store

end MathOp

namespace Eval

variable {v : Value} {x : Int}

/-- Where the minus in front of a whole number and its absolute value are exact: the first for all but the least long,
and the second where, besides, a double holds the result. Neither ends in a fault. -/
theorem signs_exact (h : v.whole? = some x) (sleep : Nat → Exec Unit) (m : Machine) :
    (∃ w, (unary .negate v).run.run m.store = (.ok w, m.store) ∧ (Value.IsExact m.store v (-x) w ↔ x ≠ -2 ^ 63)) ∧
    ∃ w, Builtin.call sleep "math.abs" [v] m = .done w m ∧
      (Value.IsExact m.store v x.natAbs w ↔ x ≠ -2 ^ 63 ∧ Double.Holds x.natAbs) := by
  constructor
  · obtain ⟨w, run, exact, same⟩ := run_negate h m.store
    refine ⟨w, run, ?_, exact⟩
    rintro ⟨value, -⟩ rfl
    rw [same rfl, h] at value
    exact absurd value (by decide)
  · obtain ⟨w, run, exact⟩ := MathOp.call_abs h sleep m
    have fits : FitsLong x := by
      obtain ⟨k, -, rfl⟩ := Value.toInt64?_of_whole? h
      exact fitsLong_toInt k
    refine ⟨w, run, ?_⟩
    rw [← Value.absolute_eq_iff fits]
    constructor
    · rintro ⟨value, -⟩
      rw [exact.1] at value
      exact Option.some_inj.mp value
    · intro same
      rwa [same] at exact

/-- The opposite and the absolute value of the least int are longs. -/
theorem signs_exact_least :
    let m := Machine.initial (Host.initial default default) 10 ""
    let least := Value.int Int32.minValue
    least.whole? = some (-2 ^ 31) ∧
      (∃ w, (unary .negate least).run.run m.store = (.ok w, m.store) ∧ w.whole? = some (2 ^ 31) ∧ m.store.kindOf w = .long) ∧
      ∃ w, Builtin.call (fun _ => pure ()) "math.abs" [least] m = .done w m ∧ w.whole? = some (2 ^ 31) ∧
        m.store.kindOf w = .long := by
  intro m least
  have whole : least.whole? = some (-2 ^ 31) := by decide
  obtain ⟨⟨w, negated, exact⟩, ⟨u, called, absolute⟩⟩ := signs_exact whole (fun _ => pure ()) m
  have held : Double.Holds (-2 ^ 31 : Int).natAbs := ⟨1, 31, by decide, by decide⟩
  exact ⟨whole, ⟨w, negated, exact.mpr (by decide)⟩, ⟨u, called, absolute.mpr ⟨by decide, held⟩⟩⟩

/-- The least long is its own opposite, and the absolute value of a long beyond the digits of doubles is another number. -/
theorem signs_inexact :
    let m := Machine.initial (Host.initial default default) 10 ""
    (unary .negate (.long Int64.minValue)).run.run m.store = (.ok (.long Int64.minValue), m.store) ∧
      Builtin.call (fun _ => pure ()) "math.abs" [.long 9007199254740993] m = .done (.long 9007199254740992) m := by
  intro m
  refine ⟨rfl, ?_⟩
  obtain ⟨w, run, value, kind⟩ := MathOp.call_abs (v := .long 9007199254740993) rfl (fun _ => pure ()) m
  have rounded : w = .long 9007199254740992 := by
    cases w with
    | long n =>
      have number : n.toInt = (9007199254740992 : Int64).toInt := (Option.some_inj.mp value).trans (by decide)
      rw [Int64.toInt_inj.mp number]
    | byte n => cases kind
    | int n => cases kind
    | _ => cases value
  rw [← rounded]
  exact run

end Eval

/-! ## Random numbers between two bounds -/

theorem Value.toInt64?_ofInt64 (k : Int64) : (Value.ofInt64 k).toInt64? = some k := by
  rcases Value.ofInt64_cases k with ⟨i, same, whole⟩ | same
  · rw [same, ← whole]
    rfl
  · rw [same]
    rfl

namespace MathOp

variable {lo hi : Int} {m : Machine}

/-! ## Choices -/

/-- A number between two bounds, or the fault that there is none. -/
def Draws (lo hi : Int) (o : Outcome Value) : Prop :=
  (lo ≤ hi ∧ ∃ (v : Value) (k : Int64) (m' : Machine), o = .done v m' ∧ v.toInt64? = some k ∧ lo ≤ k.toInt ∧ k.toInt ≤ hi) ∨
    hi < lo ∧ ∃ (e : Fault) (m' : Machine), o = .failed e m' ∧ e.category = Fault.mathError

/-- There are more numbers between two bounds than can be chosen from. -/
def TooMany (lo hi : Int) : Prop := 2 ^ 63 - 1 ≤ hi - lo

instance (lo hi : Int) : Decidable (TooMany lo hi) := inferInstanceAs (Decidable (_ ≤ _))

/-- Without a number between the bounds there is a fault. -/
theorem randomBetween_of_lt (lt : hi < lo) (m : Machine) :
    ∃ e, randomBetween lo hi m = .failed e m ∧ e.category = Fault.mathError := by
  unfold randomBetween
  rw [if_pos lt]
  refine ⟨_, rfl, ?_⟩
  show Fault.mathError.upper = Fault.mathError
  decide +kernel

/-- A number of choices that is positive is chosen from. -/
theorem randomBetween_of_le (le : lo ≤ hi) (few : hi - lo < 2 ^ 63 - 1) (m : Machine) :
    ∃ n : UInt64, randomBetween lo hi m =
      .done (.ofInt64 (Int64.ofInt (lo + (n.toNat : Int) % (hi - lo + 1)))) { m with host := m.host.random.2 } := by
  have choices : (Int64.ofInt (hi - lo + 1)).toInt = hi - lo + 1 := Int64.toInt_ofInt_of_le (by omega) (by omega)
  refine ⟨m.host.random.1, ?_⟩
  unfold randomBetween
  rw [if_neg (by omega)]
  simp only [choices]
  rw [if_neg (by omega)]
  rfl

/-- What a choice between bounds of 64 bits comes to that are not too far apart. -/
theorem draws_randomBetween (low : -2 ^ 63 ≤ lo) (high : hi < 2 ^ 63) (few : ¬TooMany lo hi) (m : Machine) :
    Draws lo hi (randomBetween lo hi m) := by
  unfold TooMany at few
  by_cases lt : hi < lo
  · obtain ⟨e, failed, math⟩ := randomBetween_of_lt lt m
    exact .inr ⟨lt, e, m, failed, math⟩
  · have le : lo ≤ hi := by omega
    have near : hi - lo < 2 ^ 63 - 1 := by omega
    obtain ⟨n, done⟩ := randomBetween_of_le le near m
    have first : 0 ≤ (n.toNat : Int) % (hi - lo + 1) := Int.emod_nonneg _ (by omega)
    have last : (n.toNat : Int) % (hi - lo + 1) < hi - lo + 1 := Int.emod_lt_of_pos _ (by omega)
    have held : (Int64.ofInt (lo + (n.toNat : Int) % (hi - lo + 1))).toInt = lo + (n.toNat : Int) % (hi - lo + 1) :=
      Int64.toInt_ofInt_of_le (by omega) (by omega)
    refine .inl ⟨le, _, _, _, done, Value.toInt64?_ofInt64 _, ?_, ?_⟩ <;> rw [held] <;> omega

/-- Bounds of 64 bits that are too far apart crash the run: their number of choices is zero or negative as a word. -/
theorem crashed_randomBetween (low : -2 ^ 63 ≤ lo) (high : hi < 2 ^ 63) (many : TooMany lo hi) (m : Machine) :
    ∃ why, randomBetween lo hi m = .crashed why m := by
  unfold TooMany at many
  have choices : (Int64.ofInt (hi - lo + 1)).toInt ≤ 0 := by
    rw [Int64.toInt_ofInt, Int.bmod_def, show Int64.size = 2 ^ 64 from rfl]
    omega
  refine ⟨"invalid argument to Int64N", ?_⟩
  unfold randomBetween
  rw [if_neg (by omega)]
  simp only [if_pos choices]
  rfl

/-! ## Arguments -/

/-- An argument that is a bound, or is left out. -/
def IsBound (v : Value) : Prop := v = .null ∨ ∃ n, v = .long n

theorem isBound_of_accepts {name : Text} {s t : Store} {v w : Value} (accepts : (Signature.optional name .long).Accepts s t v w) :
    IsBound w := by
  cases present : w.isNull with
  | true =>
    cases w with
    | null => exact .inl rfl
    | _ => cases present
  | false =>
    rcases accepts.admitted present with (any | kind | ⟨array, -⟩) | ⟨keep, -⟩
    · cases any
    · cases w with
      | long n => exact .inr ⟨n, rfl⟩
      | array a =>
        have isArray := Cells.isArray_kind (t.array a).cells
        rw [show (t.array a).cells.kind = .long from kind] at isArray
        cases isArray
      | _ => cases kind
    · cases array
    · cases keep

/-- The arguments of a random number are two bounds, each of which may be left out. -/
theorem bounds_of_prepared {given args : List Value} {s t : Store} (prepared : (random.signature.prepare given).run.run s = (.ok args, t)) :
    ∃ a b, args = [a, b] ∧ IsBound a ∧ IsBound b := by
  unfold Signature.prepare at prepared
  split at prepared
  · cases prepared
  obtain ⟨-, length, accepts⟩ := Signature.accepts_prepareAll (by decide) prepared
  obtain ⟨a, b, rfl⟩ := List.length_eq_two.mp length
  obtain ⟨_, same, first⟩ := accepts 0 _ rfl
  cases same
  obtain ⟨_, same, second⟩ := accepts 1 _ rfl
  cases same
  exact ⟨a, b, rfl, isBound_of_accepts first, isBound_of_accepts second⟩

/-- The bounds that prepared arguments give: two, or an upper one alone, and the lower one is zero then. -/
def Bounds (args : List Value) (lo hi : Int64) : Prop := args = [.long lo, .long hi] ∨ lo = 0 ∧ args = [.long hi, .null]

variable (sleep : Nat → Exec Unit) (m : Machine)

theorem call_of_bounds {given args : List Value} {lo hi : Int64} {s : Store}
    (prepared : (random.signature.prepare given).run.run m.store = (.ok args, s)) (bounds : Bounds args lo hi) :
    Builtin.call sleep "math.random" given m = randomBetween lo.toInt hi.toInt { m with store := s } := by
  refine (Builtin.call_of_prepared sleep (.math .random) prepared).trans ?_
  rcases bounds with rfl | ⟨rfl, rfl⟩
  · rfl
  · rfl

/-- What a call comes to: its arguments are refused, or a number is given that needs no bounds, or the arguments give two bounds. -/
theorem call_random_cases (given : List Value) :
    (∃ e m', Builtin.call sleep "math.random" given m = .failed e m') ∨
    (∃ v m', Builtin.call sleep "math.random" given m = .done v m') ∨
    ∃ args lo hi s, (random.signature.prepare given).run.run m.store = (.ok args, s) ∧ Bounds args lo hi := by
  obtain ⟨r, s, run⟩ : ∃ r s, (random.signature.prepare given).run.run m.store = (r, s) := ⟨_, _, rfl⟩
  cases r with
  | error e => exact .inl ⟨e, _, Builtin.call_of_refused sleep (.math .random) run⟩
  | ok args =>
    obtain ⟨a, b, rfl, first, second⟩ := bounds_of_prepared run
    rcases first with rfl | ⟨lo, rfl⟩
    · exact .inr (.inl ⟨_, _, Builtin.call_of_prepared sleep (.math .random) run⟩)
    · rcases second with rfl | ⟨hi, rfl⟩
      · exact .inr (.inr ⟨_, 0, lo, s, run, .inr ⟨rfl, rfl⟩⟩)
      · exact .inr (.inr ⟨_, lo, hi, s, run, .inl rfl⟩)

/-- A choice between bounds of 64 bits crashes, or it draws. -/
theorem randomBetween_cases (lo hi : Int64) :
    TooMany lo.toInt hi.toInt ∧ (∃ why, randomBetween lo.toInt hi.toInt m = .crashed why m) ∨
      ¬TooMany lo.toInt hi.toInt ∧ Draws lo.toInt hi.toInt (randomBetween lo.toInt hi.toInt m) := by
  by_cases many : TooMany lo.toInt hi.toInt
  · exact .inl ⟨many, crashed_randomBetween lo.le_toInt hi.toInt_lt many m⟩
  · exact .inr ⟨many, draws_randomBetween lo.le_toInt hi.toInt_lt many m⟩

/-- A number that is drawn, and the fault that there is none, are neither a crash nor without end. -/
theorem Draws.ends {o : Outcome Value} (draws : Draws lo hi o) : o ≠ .outOfFuel ∧ ∀ why m', o ≠ .crashed why m' := by
  rcases draws with ⟨-, v, k, m', done, -⟩ | ⟨-, e, m', failed, -⟩
  · exact ⟨fun ends => (nomatch done.symm.trans ends), fun _ _ crashed => (nomatch done.symm.trans crashed)⟩
  · exact ⟨fun ends => (nomatch failed.symm.trans ends), fun _ _ crashed => (nomatch failed.symm.trans crashed)⟩

/-- **Random numbers between two bounds.** A call gives a number between its bounds, or fails with a fault of mathematics when there is
none, unless the bounds are too far apart. Then it crashes, and it does so for no other arguments, whatever they are. -/
theorem random_draws :
    (∀ lo hi : Int64, ¬TooMany lo.toInt hi.toInt → Draws lo.toInt hi.toInt (Builtin.call sleep "math.random" [.long lo, .long hi] m)) ∧
    (∀ (hi : Int64) (rest : List Value), ¬TooMany 0 hi.toInt → rest = [] ∨ rest = [.null] →
      Draws 0 hi.toInt (Builtin.call sleep "math.random" (.long hi :: rest) m)) ∧
    ∀ given : List Value, Builtin.call sleep "math.random" given m ≠ .outOfFuel ∧
      ((∃ why m', Builtin.call sleep "math.random" given m = .crashed why m') ↔
        ∃ args lo hi s, (random.signature.prepare given).run.run m.store = (.ok args, s) ∧ Bounds args lo hi ∧
          TooMany lo.toInt hi.toInt) := by
  refine ⟨fun lo hi few => ?_, fun hi rest few alone => ?_, fun given => ?_⟩
  · rw [call_of_bounds sleep m rfl (.inl rfl)]
    exact draws_randomBetween lo.le_toInt hi.toInt_lt few m
  · have prepared : (random.signature.prepare (.long hi :: rest)).run.run m.store = (.ok [.long hi, .null], m.store) := by
      rcases alone with rfl | rfl
      · rfl
      · rfl
    rw [call_of_bounds sleep m prepared (.inr ⟨rfl, rfl⟩), show (0 : Int64).toInt = 0 by decide]
    exact draws_randomBetween (by decide) hi.toInt_lt few m
  · have crashes {args : List Value} {lo hi : Int64} {s : Store} (prepared : (random.signature.prepare given).run.run m.store = (.ok args, s))
        (bounds : Bounds args lo hi) : Builtin.call sleep "math.random" given m ≠ .outOfFuel ∧
          ((∃ why m', Builtin.call sleep "math.random" given m = .crashed why m') ↔ TooMany lo.toInt hi.toInt) := by
      rw [call_of_bounds sleep m prepared bounds]
      rcases randomBetween_cases { m with store := s } lo hi with ⟨many, why, crashed⟩ | ⟨few, draws⟩
      · rw [crashed]
        exact ⟨nofun, iff_of_true ⟨why, _, rfl⟩ many⟩
      · obtain ⟨ends, stays⟩ := draws.ends
        exact ⟨ends, iff_of_false (fun ⟨why, m', crashed⟩ => stays why m' crashed) few⟩
    refine ⟨?_, ?_, ?_⟩
    · rcases call_random_cases sleep m given with ⟨e, m', failed⟩ | ⟨v, m', done⟩ | ⟨args, lo, hi, s, prepared, bounds⟩
      · rw [failed]
        exact nofun
      · rw [done]
        exact nofun
      · exact (crashes prepared bounds).1
    · rintro ⟨why, m', crashed⟩
      rcases call_random_cases sleep m given with ⟨e, k, failed⟩ | ⟨v, k, done⟩ | ⟨args, lo, hi, s, prepared, bounds⟩
      · cases failed.symm.trans crashed
      · cases done.symm.trans crashed
      · exact ⟨args, lo, hi, s, prepared, bounds, (crashes prepared bounds).2.mp ⟨why, m', crashed⟩⟩
    · rintro ⟨args, lo, hi, s, prepared, bounds, many⟩
      exact (crashes prepared bounds).2.mpr many

/-- The widest bounds between which a number is chosen, and an upper bound below zero. -/
theorem random_draws_widest :
    let sleep : Nat → Exec Unit := fun _ => pure ()
    let m := Machine.initial (Host.initial default default) 10 ""
    ¬TooMany (1 : Int64).toInt Int64.maxValue.toInt ∧ ¬TooMany 0 (-1 : Int64).toInt ∧
      (∃ v k m', Builtin.call sleep "math.random" [.long 1, .long Int64.maxValue] m = .done v m' ∧ v.toInt64? = some k ∧ 1 ≤ k.toInt) ∧
      ∃ e m', Builtin.call sleep "math.random" [.long (-1)] m = .failed e m' ∧ e.category = Fault.mathError := by
  intro sleep m
  obtain ⟨two, one, -⟩ := random_draws sleep m
  have few : ¬TooMany (1 : Int64).toInt Int64.maxValue.toInt ∧ ¬TooMany 0 (-1 : Int64).toInt := by decide
  refine ⟨few.1, few.2, ?_, ?_⟩
  · rcases two 1 Int64.maxValue few.1 with ⟨-, v, k, m', done, read, low, -⟩ | ⟨lt, -⟩
    · exact ⟨v, k, m', done, read, low⟩
    · exact absurd lt (by decide)
  · rcases one (-1) [] few.2 (.inl rfl) with ⟨le, -⟩ | ⟨-, failed⟩
    · exact absurd le (by decide)
    · exact failed

/-- From -5 to the greatest long, and from zero to it, there are more numbers than a word of 64 bits counts. -/
theorem random_crashes :
    let sleep : Nat → Exec Unit := fun _ => pure ()
    let m := Machine.initial (Host.initial default default) 10 ""
    Builtin.call sleep "math.random" [.long (-5), .long Int64.maxValue] m = .crashed "invalid argument to Int64N" m ∧
      Builtin.call sleep "math.random" [.long Int64.maxValue] m = .crashed "invalid argument to Int64N" m := by
  intro sleep m
  rw [call_of_bounds sleep m rfl (.inl rfl), call_of_bounds sleep m rfl (.inr ⟨rfl, rfl⟩)]
  exact ⟨rfl, rfl⟩

end MathOp

end ScriptEngine
