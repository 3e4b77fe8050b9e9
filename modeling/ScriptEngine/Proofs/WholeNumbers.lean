import ScriptEngine.Proofs.AssignedShapes
/-!
# Arithmetic on whole numbers

Arithmetic on bytes, ints and longs is done with 64 bits. A result that does not fit wraps around, and that it did is
found out afterwards: by the order of the sum and an operand, or by dividing the product back. The exact result is the
measure of both: whatever fits 64 bits is given exactly, and all else is a fault.
-/

namespace ScriptEngine

/-! ## Numbers of 64 bits -/

/-- A whole number fits 64 bits. -/
def FitsLong (n : Int) : Prop := -2 ^ 63 ≤ n ∧ n < 2 ^ 63

/-- A whole number fits 32 bits. -/
def FitsInt (n : Int) : Prop := -2 ^ 31 ≤ n ∧ n < 2 ^ 31

instance (n : Int) : Decidable (FitsLong n) := inferInstanceAs (Decidable (_ ∧ _))

instance (n : Int) : Decidable (FitsInt n) := inferInstanceAs (Decidable (_ ∧ _))

/-- A number of 64 bits fits them. -/
theorem fitsLong_toInt (x : Int64) : FitsLong x.toInt := ⟨x.le_toInt, x.toInt_lt⟩

/-- A wrapped number fits. -/
theorem fitsLong_bmod (n : Int) : FitsLong (n.bmod (2 ^ 64)) := by
  have low := Int.le_bmod (x := n) (m := 2 ^ 64) (by decide)
  have high := Int.bmod_lt (x := n) (m := 2 ^ 64) (by decide)
  constructor
  · omega
  · omega

/-- A number is left as it is by wrapping exactly when it fits. -/
theorem bmod_eq_iff (n : Int) : n.bmod (2 ^ 64) = n ↔ FitsLong n := by
  constructor
  · intro same
    rw [← same]
    exact fitsLong_bmod n
  · rintro ⟨low, high⟩
    exact Int.bmod_eq_of_le_mul_two (by omega) (by omega)

/-- A number that is off by no more than the range wraps around once. -/
theorem bmod_once {n : Int} (low : -2 ^ 64 ≤ n) (high : n < 2 ^ 64) :
    n.bmod (2 ^ 64) = if n < -2 ^ 63 then n + 2 ^ 64 else if n < 2 ^ 63 then n else n - 2 ^ 64 := by
  have range : ((2 ^ 64 : Nat) : Int) = 2 ^ 64 := by decide
  have up : (n + 2 ^ 64).bmod (2 ^ 64) = n.bmod (2 ^ 64) := range ▸ Int.add_bmod_right n (2 ^ 64)
  have down : (n - 2 ^ 64).bmod (2 ^ 64) = n.bmod (2 ^ 64) := range ▸ Int.sub_bmod_right n (2 ^ 64)
  split
  · rw [← up, bmod_eq_iff]
    constructor <;> omega
  · split
    · rw [bmod_eq_iff]
      constructor <;> omega
    · rw [← down, bmod_eq_iff]
      constructor <;> omega

/-- The only quotient of two numbers of 64 bits that does not fit is that of the least number and minus one. -/
theorem fitsLong_tdiv {x y : Int} (hx : FitsLong x) (hy : y ≠ 0) : ¬FitsLong (x.tdiv y) ↔ x = -2 ^ 63 ∧ y = -1 := by
  obtain ⟨low, high⟩ := hx
  constructor
  · intro big
    by_cases one : y.natAbs = 1
    · obtain rfl | rfl : y = 1 ∨ y = -1 := by omega
      · rw [Int.tdiv_one] at big
        exact absurd ⟨low, high⟩ big
      · rw [Int.tdiv_neg, Int.tdiv_one] at big
        unfold FitsLong at big
        omega
    · -- a divisor of two or more halves the dividend
      have half : (x.tdiv y).natAbs ≤ x.natAbs / 2 := by
        rw [Int.natAbs_tdiv]
        exact Nat.div_le_div_left (by omega) (by decide)
      unfold FitsLong at big
      omega
  · rintro ⟨rfl, rfl⟩ ⟨-, small⟩
    rw [Int.tdiv_neg, Int.tdiv_one] at small
    omega

/-! ## Exact results -/

/-- The operators of arithmetic on whole numbers. -/
def BinaryOp.IsArithmetic (op : BinaryOp) : Prop := op = .add ∨ op = .sub ∨ op = .mul ∨ op = .div ∨ op = .mod

/-- The exact result of an operator for two whole numbers, if there is one. A quotient is cut off toward zero, and a
remainder has the sign of the dividend. -/
def BinaryOp.exactResult? : BinaryOp → Int → Int → Option Int
  | .add, x, y => some (x + y)
  | .sub, x, y => some (x - y)
  | .mul, x, y => some (x * y)
  | .div, x, y => if y = 0 then none else some (x.tdiv y)
  | .mod, x, y => if y = 0 then none else some (x.tmod y)
  | _, _, _ => none

/-- Division by zero alone has no exact result. -/
theorem BinaryOp.exactResult?_eq_none_iff {op : BinaryOp} (h : op.IsArithmetic) (x y : Int) :
    op.exactResult? x y = none ↔ (op = .div ∨ op = .mod) ∧ y = 0 := by
  rcases h with rfl | rfl | rfl | rfl | rfl
  all_goals simp [exactResult?]

namespace Eval

/-- A sum wrapped around when it lies on the wrong side of an operand. -/
theorem overflows_add (x y : Int64) : overflows .add x y (x + y) = true ↔ ¬FitsLong (x.toInt + y.toInt) := by
  obtain ⟨xl, xh⟩ := fitsLong_toInt x
  obtain ⟨yl, yh⟩ := fitsLong_toInt y
  have sum := Int64.toInt_add x y
  rw [bmod_once (by omega) (by omega)] at sum
  simp only [overflows, Bool.or_eq_true, Bool.and_eq_true, decide_eq_true_eq, Int64.lt_iff_toInt_lt, Int64.toInt_zero]
  unfold FitsLong
  split at sum
  · omega
  · split at sum
    · omega
    · omega

/-- A difference wrapped around when it lies on the wrong side of the first operand. -/
theorem overflows_sub (x y : Int64) : overflows .sub x y (x - y) = true ↔ ¬FitsLong (x.toInt - y.toInt) := by
  obtain ⟨xl, xh⟩ := fitsLong_toInt x
  obtain ⟨yl, yh⟩ := fitsLong_toInt y
  have difference := Int64.toInt_sub x y
  rw [bmod_once (by omega) (by omega)] at difference
  simp only [overflows, Bool.or_eq_true, Bool.and_eq_true, decide_eq_true_eq, Int64.lt_iff_toInt_lt, Int64.toInt_zero]
  unfold FitsLong
  split at difference
  · omega
  · split at difference
    · omega
    · omega

/-- A product that divides back did not wrap around: what it is off by is a multiple of the range, and less than the
divisor. -/
theorem fitsLong_of_divides {x y r : Int} (hx : FitsLong x) (nonzero : x ≠ 0) (wrapped : r = (x * y).bmod (2 ^ 64))
    (back : r.tdiv x = y) : FitsLong (x * y) := by
  obtain ⟨low, high⟩ := hx
  have whole : x * y + r.tmod x = r := by
    rw [← back]
    exact Int.mul_tdiv_add_tmod r x
  have small : (r.tmod x).natAbs < x.natAbs := by
    rw [Int.natAbs_tmod]
    exact Nat.mod_lt _ (by omega)
  obtain ⟨k, off⟩ : (2 ^ 64 : Int) ∣ r - x * y := by
    rw [wrapped]
    exact_mod_cast Int.dvd_bmod_sub_self
  have none : k = 0 := by omega
  subst none
  rw [← bmod_eq_iff, ← wrapped]
  omega

/-- A product wrapped around when it does not divide back. That of minus one and the least number does divide back,
because the quotient wraps around as well. -/
theorem overflows_mul (x y : Int64) : overflows .mul x y (x * y) = true ↔ ¬FitsLong (x.toInt * y.toInt) := by
  have product := Int64.toInt_mul x y
  have quotient := Int64.toInt_div (x * y) x
  have least : y = Int64.minValue ↔ y.toInt = -2 ^ 63 := by rw [← Int64.toInt_inj, Int64.toInt_minValue]
  have minus : x = -1 ↔ x.toInt = -1 := by rw [← Int64.toInt_inj]; rfl
  have zero : x = 0 ↔ x.toInt = 0 := by rw [← Int64.toInt_inj, Int64.toInt_zero]
  have back : x * y / x = y ↔ ((x * y).toInt.tdiv x.toInt).bmod (2 ^ 64) = y.toInt := by rw [← Int64.toInt_inj, quotient]
  simp only [overflows, Bool.and_eq_true, Bool.or_eq_true, decide_eq_true_eq, ne_eq, least, minus, zero, back]
  constructor
  · rintro ⟨nonzero, found⟩ fits
    rw [product, (bmod_eq_iff _).mpr fits, Int.mul_tdiv_cancel_left _ nonzero, (bmod_eq_iff _).mpr (fitsLong_toInt y)] at found
    obtain other | ⟨one, lowest⟩ := found
    · exact other rfl
    · rw [one, lowest] at fits
      exact absurd fits (by decide)
  · intro big
    have nonzero : x.toInt ≠ 0 := by
      intro none
      rw [none, Int.zero_mul] at big
      exact big (by decide)
    refine ⟨nonzero, ?_⟩
    by_contra unseen
    push Not at unseen
    obtain ⟨divides, special⟩ := unseen
    refine big (fitsLong_of_divides (fitsLong_toInt x) nonzero product ?_)
    -- the quotient itself wraps around only where the product is the least number and `x` is minus one
    by_cases fits : FitsLong ((x * y).toInt.tdiv x.toInt)
    · rwa [(bmod_eq_iff _).mpr fits] at divides
    · obtain ⟨lowest, one⟩ := (fitsLong_tdiv (fitsLong_toInt _) nonzero).mp fits
      rw [lowest, one] at divides
      exact absurd divides.symm (special one)

/-- A quotient wrapped around when it is that of the least number and minus one. -/
theorem overflows_div (x y : Int64) (nonzero : y.toInt ≠ 0) :
    overflows .div x y (x / y) = true ↔ ¬FitsLong (x.toInt.tdiv y.toInt) := by
  rw [fitsLong_tdiv (fitsLong_toInt x) nonzero]
  simp only [overflows, Bool.and_eq_true, decide_eq_true_eq, ← Int64.toInt_inj, Int64.toInt_minValue]
  rfl

/-- The result of an operator for two numbers of 64 bits is the exact one, wrapped around, and that it wrapped around is
said exactly when the exact one does not fit. Without an exact result there is a fault. -/
theorem exact_wholeResult {op : BinaryOp} (h : op.IsArithmetic) (x y : Int64) :
    (op.exactResult? x.toInt y.toInt = none ∧ ∃ f, wholeResult op x y = .error f ∧ f.category = Fault.mathError) ∨
    ∃ n r, op.exactResult? x.toInt y.toInt = some n ∧ wholeResult op x y = .ok r ∧ r.toInt = n.bmod (2 ^ 64) ∧
      (overflows op x y r = true ↔ ¬FitsLong n) := by
  have zero : y = 0 ↔ y.toInt = 0 := by rw [← Int64.toInt_inj, Int64.toInt_zero]
  rcases h with rfl | rfl | rfl | rfl | rfl
  · exact .inr ⟨_, _, rfl, rfl, Int64.toInt_add x y, overflows_add x y⟩
  · exact .inr ⟨_, _, rfl, rfl, Int64.toInt_sub x y, overflows_sub x y⟩
  · exact .inr ⟨_, _, rfl, rfl, Int64.toInt_mul x y, overflows_mul x y⟩
  · by_cases none : y.toInt = 0
    · left
      rw [BinaryOp.exactResult?, wholeResult, if_pos none, if_pos (zero.mpr none)]
      exact ⟨rfl, _, rfl, by decide⟩
    · right
      rw [BinaryOp.exactResult?, wholeResult, if_neg none, if_neg (mt zero.mp none)]
      exact ⟨_, _, rfl, rfl, Int64.toInt_div x y, overflows_div x y none⟩
  · by_cases none : y.toInt = 0
    · left
      rw [BinaryOp.exactResult?, wholeResult, if_pos none, if_pos (zero.mpr none)]
      exact ⟨rfl, _, rfl, by decide⟩
    · right
      rw [BinaryOp.exactResult?, wholeResult, if_neg none, if_neg (mt zero.mp none)]
      -- a remainder is exact, and so it fits
      have fits : FitsLong (x.toInt.tmod y.toInt) := by
        rw [← Int64.toInt_mod]
        exact fitsLong_toInt _
      refine ⟨_, _, rfl, rfl, ?_, ?_⟩
      · rw [Int64.toInt_mod, (bmod_eq_iff _).mpr fits]
      · constructor
        · intro impossible
          cases impossible
        · intro big
          exact absurd fits big

end Eval

/-! ## Values that are whole numbers -/

/-- The whole number that a byte, an int or a long is. -/
def Value.whole? : Value → Option Int
  | .byte n => some n.toNat
  | .int n => some n.toInt
  | .long n => some n.toInt
  | _ => none

/-- The kind of a result of arithmetic on whole numbers of two kinds: long if one of them is long or the result does not
fit 32 bits, and int otherwise. -/
def Kind.ofResult (ka kb : Kind) (n : Int) : Kind := if ka = .long ∨ kb = .long ∨ ¬FitsInt n then .long else .int

/-- A whole number is worked with as a number of 64 bits. -/
theorem Value.toInt64?_of_whole? {v : Value} {x : Int} (h : v.whole? = some x) : ∃ k, v.toInt64? = some k ∧ k.toInt = x := by
  cases v with
  | byte n =>
    cases h
    have small := n.toNat_lt
    exact ⟨_, rfl, Int64.toInt_ofNat_of_lt (by omega)⟩
  | int n =>
    cases h
    exact ⟨_, rfl, n.toInt_toInt64⟩
  | long n =>
    cases h
    exact ⟨_, rfl, rfl⟩
  | _ => cases h

/-- A whole number is of one of three kinds. -/
theorem Store.kindOf_of_whole? {v : Value} {x : Int} (h : v.whole? = some x) (s : Store) :
    s.kindOf v = .byte ∨ s.kindOf v = .int ∨ s.kindOf v = .long := by
  cases v with
  | byte n => exact .inl rfl
  | int n => exact .inr (.inl rfl)
  | long n => exact .inr (.inr rfl)
  | _ => cases h

/-- Two kinds of whole numbers have a widest kind that is one too, and it is long if one of the two is. -/
theorem Kind.widest_whole {ka kb : Kind} (ha : ka = .byte ∨ ka = .int ∨ ka = .long) (hb : kb = .byte ∨ kb = .int ∨ kb = .long) :
    ka.widest kb ≠ .double ∧ (ka.widest kb = .long ↔ ka = .long ∨ kb = .long) := by
  rcases ha with rfl | rfl | rfl
  all_goals rcases hb with rfl | rfl | rfl
  all_goals decide

/-- A number of 64 bits becomes an int when it fits 32 bits, and a long otherwise. -/
theorem Value.whole?_ofInt64 (r : Int64) (s : Store) :
    (ofInt64 r).whole? = some r.toInt ∧ s.kindOf (ofInt64 r) = if FitsInt r.toInt then .int else .long := by
  unfold ofInt64
  by_cases fits : FitsInt r.toInt
  · obtain ⟨low, high⟩ := id fits
    rw [if_pos (by simp; omega), if_pos fits]
    refine ⟨?_, rfl⟩
    rw [whole?, Int32.toInt_ofInt_of_le (by omega) (by omega)]
  · rw [if_neg (by simp only [FitsInt] at fits; simp; omega), if_neg fits]
    exact ⟨rfl, rfl⟩

namespace Eval

/-- What an operator has to end in for the whole numbers `x` and `y`, the values `a` and `b`. The exact result is given
when it fits 64 bits, and there is a fault of mathematics exactly when zero divides or the exact result does not fit. -/
structure Exact (s : Store) (op : BinaryOp) (a b : Value) (x y : Int) (r : Except Fault Value) : Prop where
  fits : ∀ n, op.exactResult? x y = some n → FitsLong n →
    ∃ w, r = .ok w ∧ w.whole? = some n ∧ s.kindOf w = (s.kindOf a).ofResult (s.kindOf b) n
  faulty : (∃ f, r = .error f ∧ f.category = Fault.mathError) ↔
    (op = .div ∨ op = .mod) ∧ y = 0 ∨ ∃ n, op.exactResult? x y = some n ∧ ¬FitsLong n

section

variable {op : BinaryOp} {a b : Value} {x y : Int}

/-- Arithmetic on numbers of 64 bits gives the exact result when it fits, and is a fault when it does not fit or there is
none. -/
theorem exact_wholeArithmetic (h : op.IsArithmetic) (wide : Bool) (m n : Int64) :
    (∀ e, op.exactResult? m.toInt n.toInt = some e → FitsLong e →
      ∃ r : Int64, r.toInt = e ∧ wholeArithmetic op wide m n = .ok (if wide then .long r else .ofInt64 r)) ∧
    (op.exactResult? m.toInt n.toInt = none ∨ (∃ e, op.exactResult? m.toInt n.toInt = some e ∧ ¬FitsLong e) →
      ∃ f, wholeArithmetic op wide m n = .error f ∧ f.category = Fault.mathError) := by
  have mathematical : Fault.mathError.upper = Fault.mathError := by decide
  unfold wholeArithmetic
  obtain ⟨none, f, failed, mathematical⟩ | ⟨e, r, exact, worked, wrapped, found⟩ := exact_wholeResult h m n
  · rw [none, failed]
    constructor
    · intro _ impossible
      cases impossible
    · intro _
      exact ⟨f, rfl, mathematical⟩
  · rw [exact, worked]
    change (∀ _, _ → _ → ∃ _, _ ∧ (if overflows op m n r = true then _ else _) = _) ∧
      (_ → ∃ _, (if overflows op m n r = true then _ else _) = _ ∧ _)
    constructor
    · rintro _ ⟨⟩ fits
      rw [if_neg (mt found.mp (not_not.mpr fits))]
      exact ⟨r, wrapped.trans ((bmod_eq_iff e).mpr fits), rfl⟩
    · rintro (⟨⟨⟩⟩ | ⟨_, ⟨⟩, big⟩)
      rw [if_pos (found.mpr big)]
      exact ⟨_, rfl, mathematical⟩

/-- Arithmetic on whole numbers is exact. -/
theorem exact_arithmetic (h : op.IsArithmetic) (ha : a.whole? = some x) (hb : b.whole? = some y) (s : Store) :
    Exact s op a b x y (arithmetic op (s.kindOf a) (s.kindOf b) a b) := by
  obtain ⟨m, hm, rfl⟩ := Value.toInt64?_of_whole? ha
  obtain ⟨n, hn, rfl⟩ := Value.toInt64?_of_whole? hb
  obtain ⟨narrow, long⟩ := Kind.widest_whole (s.kindOf_of_whole? ha) (s.kindOf_of_whole? hb)
  have whole : arithmetic op (s.kindOf a) (s.kindOf b) a b =
      wholeArithmetic op ((s.kindOf a).widest (s.kindOf b) = .long) m n := by
    rcases h with rfl | rfl | rfl | rfl | rfl
    all_goals
      unfold arithmetic
      rw [if_neg (by decide), if_neg narrow, hm, hn]
      rfl
  obtain ⟨given, failed⟩ := exact_wholeArithmetic h ((s.kindOf a).widest (s.kindOf b) = .long) m n
  rw [whole]
  constructor
  · intro e exact fits
    obtain ⟨r, rfl, result⟩ := given e exact fits
    by_cases wide : (s.kindOf a).widest (s.kindOf b) = .long
    · rw [result, if_pos (decide_eq_true wide)]
      refine ⟨_, rfl, rfl, ?_⟩
      rw [Kind.ofResult, if_pos (or_assoc.mp (.inl (long.mp wide)))]
      rfl
    · rw [result, if_neg (by simpa using wide)]
      obtain ⟨whole, kind⟩ := Value.whole?_ofInt64 r s
      refine ⟨_, rfl, whole, kind.trans ?_⟩
      rw [long] at wide
      unfold Kind.ofResult
      by_cases small : FitsInt r.toInt
      · rw [if_pos small, if_neg (by tauto)]
      · rw [if_neg small, if_pos (by tauto)]
  · rw [← BinaryOp.exactResult?_eq_none_iff h]
    constructor
    · rintro ⟨f, fault, -⟩
      cases exact : op.exactResult? m.toInt n.toInt with
      | none => exact .inl rfl
      | some e =>
        refine .inr ⟨e, rfl, fun fits => ?_⟩
        obtain ⟨r, -, result⟩ := given e exact fits
        rw [result] at fault
        cases fault
    · exact failed

/-- An operator between two whole numbers is applied by arithmetic, and memory stays as it is. -/
theorem run_binary_whole (h : op.IsArithmetic) (ha : a.whole? = some x) (hb : b.whole? = some y) (s : Store) :
    (binary op a b).run.run s = (arithmetic op (s.kindOf a) (s.kindOf b) a b, s) := by
  have present {v : Value} {z : Int} (hv : v.whole? = some z) : v.isNull = false := by
    cases v with
    | null => cases hv
    | _ => rfl
  have numeric {v : Value} {z : Int} (hv : v.whole? = some z) : (s.kindOf v).isNumeric = true ∧ s.kindOf v ≠ .string := by
    rcases s.kindOf_of_whole? hv with k | k | k
    all_goals
      rw [k]
      decide
  obtain ⟨numberA, wordA⟩ := numeric ha
  obtain ⟨numberB, wordB⟩ := numeric hb
  rcases h with rfl | rfl | rfl | rfl | rfl
  all_goals
    unfold binary
    change ((do let s ← get; _ : StoreM Value)).run.run s = _
    rw [StoreM.run_get_bind]
    simp only [reduceCtorEq, decide_true, decide_false, present ha, present hb, Bool.not_false, Bool.and_true, Bool.false_eq_true,
      ↓reduceIte, wordA, wordB, Bool.or_self, Bool.and_self, Bool.and_false, isComparison, numberA, numberB]
    generalize arithmetic _ _ _ a b = r
    cases r with
    | ok v => rfl
    | error f => rfl

/-- The operator between two whole numbers ends in what it has to. -/
theorem exact_binary (h : op.IsArithmetic) (ha : a.whole? = some x) (hb : b.whole? = some y) (s : Store) :
    ∃ r, (binary op a b).run.run s = (r, s) ∧ Exact s op a b x y r :=
  ⟨_, run_binary_whole h ha hb s, exact_arithmetic h ha hb s⟩

end

end Eval

/-! ## Variables -/

namespace Machine

/-- A name stands for a variable with a value. -/
def Bound (m : Machine) (name : Text) (v : Value) : Prop :=
  ∃ frame b, m.store.lookup? m.scope name = some (frame, b) ∧ b.value = v

/-- A name stands for a variable that can be changed and of which nothing was declared. -/
def Untyped (m : Machine) (name : Text) : Prop :=
  ∃ frame value, m.store.lookup? m.scope name = some (frame, ⟨value, false, none, none⟩)

end Machine

namespace Eval

variable {m : Machine} {name : Text} {v w : Value}

/-- The value of a name that is bound. -/
theorem nameValue_of_bound (line : Nat) (bound : m.Bound name v) : nameValue line name m = .done v m := by
  obtain ⟨frame, b, found, rfl⟩ := bound
  have valued : (StoreM.valueOf m.scope name).run.run m.store = (.ok b.value, m.store) := by
    unfold StoreM.valueOf
    rw [StoreM.run_get_bind, found]
    rfl
  unfold nameValue
  rw [Exec.run_get_bind]
  unfold Exec.atLine
  rw [Exec.lift_ok valued]

/-- A variable of which nothing was declared takes every value as it is. -/
theorem assignName_of_untyped (untyped : m.Untyped name) (w : Value) :
    ∃ m', assignName name w m = .done w m' ∧ m'.Bound name w := by
  obtain ⟨frame, old, found⟩ := untyped
  let s := m.store.withBindings frame (setBinding name ⟨w, false, none, none⟩)
  have there : s.lookup? m.scope name = some (frame, ⟨w, false, none, none⟩) := Store.lookup_withBindings_self found
  have assigned : (StoreM.assign m.scope name w).run.run m.store = (.ok (), s) := by
    rw [StoreM.run_assign found rfl]
    rfl
  have valued : (StoreM.valueOf m.scope name).run.run s = (.ok w, s) := by
    unfold StoreM.valueOf
    rw [StoreM.run_get_bind, there]
    rfl
  refine ⟨{ m with store := s }, ?_, frame, _, there, rfl⟩
  unfold assignName
  rw [Exec.run_get_bind, found]
  exact (Exec.bind_of_done (Exec.lift_ok assigned)).trans (Exec.lift_ok valued)

/-- Where an operator ends in a result, the variable has it; where it ends in a fault, nothing is assigned. -/
def Stores (m : Machine) (name : Text) (r : Except Fault Value) (outcome : Value → Value) (o : Outcome Value) : Prop :=
  match r with
  | .ok w => ∃ m', o = .done (outcome w) m' ∧ m'.Bound name w
  | .error f => o = .failed f m

section

variable {op : BinaryOp} {a b : Value} {x y : Int}

/-- The result of an operator that is assigned to a variable. -/
theorem stores_binary (h : op.IsArithmetic) (ha : a.whole? = some x) (hb : b.whole? = some y) (untyped : m.Untyped name)
    (outcome : Value → Value) :
    ∃ r, Exact m.store op a b x y r ∧ Stores m name r outcome ((do
      let w ← binary op a b
      let w ← assignName name w
      pure (outcome w) : Exec Value) m) := by
  obtain ⟨r, run, exact⟩ := exact_binary h ha hb m.store
  refine ⟨r, exact, ?_⟩
  cases r with
  | ok w =>
    obtain ⟨m', assigned, bound⟩ := assignName_of_untyped untyped w
    refine ⟨m', ?_, bound⟩
    rw [Exec.bind_of_done (Exec.lift_ok run), Exec.bind_of_done assigned]
    rfl
  | error f => exact Exec.bind_of_failed (Exec.lift_error run)

/-- Arithmetic on bytes, ints and longs is exact: between two values, in an assignment to a variable that is joined with
an operator, and in a step by one. -/
theorem arithmetic_exact (rec : Runner) (h : op.IsArithmetic) (ha : a.whole? = some x) (hb : b.whole? = some y) :
    (∀ s, ∃ r, (binary op a b).run.run s = (r, s) ∧ Exact s op a b x y r) ∧
    (∀ (mark mark' : Mark) (assign : AssignOp) (e : Expr) (m₁ : Machine), assign.operator? = some op → m.Bound name a →
      evaluate rec e m = .done b m₁ → m₁.Untyped name →
      ∃ r, Exact m₁.store op a b x y r ∧ Stores m₁ name r id (expression rec (.assign mark assign (.name mark' name) e) m)) ∧
    (∀ (mark mark' : Mark) (step : StepOp), stepOperator step = op → b = .int 1 → m.Bound name a → m.Untyped name →
      ∃ r, Exact m.store op a b x y r ∧ Stores m name r (fun _ => a) (expression rec (.step mark step (.name mark' name)) m)) := by
  refine ⟨exact_binary h ha hb, ?_, ?_⟩
  · intro mark mark' assign e m₁ operator bound evaluated untyped
    obtain ⟨r, exact, stores⟩ := stores_binary h ha hb untyped id
    have goes : expression rec (.assign mark assign (.name mark' name) e) m =
        (binary op a b >>= fun w => assignName name w : Exec Value) m₁ := by
      change (newValue rec assign (nameValue mark'.line name) e >>= fun w => assignName name w) m = _
      unfold newValue
      rw [operator]
      dsimp only
      rw [bind_assoc, Exec.bind_of_done (nameValue_of_bound _ bound), bind_assoc, Exec.bind_of_done evaluated]
    refine ⟨r, exact, ?_⟩
    rw [goes]
    simpa only [id_eq, bind_pure] using stores
  · rintro mark mark' step rfl rfl bound untyped
    obtain ⟨r, exact, stores⟩ := stores_binary h ha hb untyped fun _ => a
    refine ⟨r, exact, ?_⟩
    have goes : expression rec (.step mark step (.name mark' name)) m =
        (binary (stepOperator step) a (.int 1) >>= fun w => assignName name w >>= fun _ => pure a : Exec Value) m :=
      Exec.bind_of_done (nameValue_of_bound _ bound)
    rw [goes]
    exact stores

/-- The least long times minus one does not fit, although the product divides back. -/
theorem arithmetic_exact_least :
    let mark : Mark := ⟨"x", 1⟩
    let m : Machine := { Machine.initial (Host.initial default default) 10 "" with
      store := { Store.initial with frames := #[⟨[("x", ⟨.long Int64.minValue, false, none, none⟩)], none⟩] } }
    let e : Expr := .assign mark .mul (.name mark "x") (.int mark (-1))
    BinaryOp.mul.IsArithmetic ∧ (Value.long Int64.minValue).whole? = some (-2 ^ 63) ∧ (Value.int (-1)).whole? = some (-1) ∧
      m.Bound "x" (.long Int64.minValue) ∧ m.Untyped "x" ∧
      ∃ f, expression (run 1) e m = .failed f m ∧ f.category = Fault.mathError := by
  intro mark m e
  have arithmetical : BinaryOp.mul.IsArithmetic := .inr (.inr (.inl rfl))
  have least : (Value.long Int64.minValue).whole? = some (-2 ^ 63) := by decide
  have minus : (Value.int (-1)).whole? = some (-1) := by decide
  have bound : m.Bound "x" (.long Int64.minValue) := ⟨0, _, rfl, rfl⟩
  have untyped : m.Untyped "x" := ⟨0, _, rfl⟩
  obtain ⟨r, exact, stores⟩ := (arithmetic_exact (run 1) arithmetical least minus).2.1 mark mark .mul (.int mark (-1)) m rfl bound
    rfl untyped
  obtain ⟨f, rfl, mathematical⟩ := exact.faulty.mpr (.inr ⟨2 ^ 63, by decide, by decide⟩)
  exact ⟨arithmetical, least, minus, bound, untyped, f, stores, mathematical⟩

end

end Eval

end ScriptEngine
