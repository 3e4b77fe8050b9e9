import Mathlib.Order.Compare
import ScriptEngine.Proofs.JsonRoundTrip
import ScriptEngine.Proofs.MemberPaths
import ScriptEngine.Proofs.WholeNumbers
/-!
# The order of values

Numbers, texts, dates and truth values are each in an order of their own, and nothing else is. Whatever its class, a value is
ordered by a list of whole numbers, compared from the first on: that is where the laws of the order come from. Texts are
compared by their bytes, which is the order of their characters, because the bytes of a greater character are greater.
-/

namespace ScriptEngine

/-! ## Texts -/

/-- The order of bytes is that of the whole numbers that they are. -/
theorem Text.compareBytes_eq (as bs : List UInt8) :
    compareBytes as bs = List.compareLex compare (as.map fun b => (b.toNat : Int)) (bs.map fun b => (b.toNat : Int)) := by
  fun_induction compareBytes as bs with
  | case1 | case2 | case3 => rfl
  | case4 a as b bs less =>
    rw [List.map_cons, List.map_cons, List.compareLex_cons_cons, Int.compare_eq_lt.mpr (by exact_mod_cast UInt8.lt_iff_toNat_lt.mp less)]
    rfl
  | case5 a as b bs _ greater =>
    rw [List.map_cons, List.map_cons, List.compareLex_cons_cons, Int.compare_eq_gt.mpr (by exact_mod_cast UInt8.lt_iff_toNat_lt.mp greater)]
    rfl
  | case6 a as b bs notLess notGreater ih =>
    obtain rfl : a = b := UInt8.le_antisymm (UInt8.not_lt.mp notGreater) (UInt8.not_lt.mp notLess)
    rw [List.map_cons, List.map_cons, List.compareLex_cons_cons, Int.compare_eq_eq.mpr rfl, ih]
    rfl

namespace Text

instance : Std.TransOrd Text where
  eq_swap := by
    intro a b
    show compareBytes a.bytes b.bytes = (compareBytes b.bytes a.bytes).swap
    rw [compareBytes_eq, compareBytes_eq]
    exact Std.OrientedCmp.eq_swap
  isLE_trans := by
    intro a b c
    show (compareBytes a.bytes b.bytes).isLE = true → (compareBytes b.bytes c.bytes).isLE = true → (compareBytes a.bytes c.bytes).isLE = true
    rw [compareBytes_eq, compareBytes_eq, compareBytes_eq]
    exact Std.TransCmp.isLE_trans

instance : Std.LawfulEqOrd Text where
  eq_of_compare := by
    intro a b same
    change compareBytes a.bytes b.bytes = .eq at same
    rw [compareBytes_eq, Std.LawfulEqCmp.compare_eq_iff_eq] at same
    refine congrArg Text.mk ((List.map_inj_right ?_).mp same)
    intro x y numbers
    exact UInt8.toNat_inj.mp (Int.ofNat_inj.mp numbers)

theorem ne_of_compare {a b : Text} (less : compare a b = .lt) : a ≠ b := by
  rintro rfl
  rw [Std.ReflOrd.compare_self] at less
  cases less

end Text

namespace Text

variable {x y : Nat} {as bs : List UInt8} {c d : Char}

/-- A list of bytes comes first when its first byte is less, or when that is the same and the rest comes first. -/
theorem compareBytes_digit (hx : x < 256) (hy : y < 256) (le : x ≤ y) (rest : x = y → compareBytes as bs = .lt) :
    compareBytes (x.toUInt8 :: as) (y.toUInt8 :: bs) = .lt := by
  rw [compareBytes]
  by_cases same : x = y
  · subst same
    rw [if_neg (UInt8.lt_irrefl _), if_neg (UInt8.lt_irrefl _), rest rfl]
  · have less : x.toUInt8 < y.toUInt8 := by
      rw [UInt8.lt_iff_toNat_lt, toNat_toUInt8 hx, toNat_toUInt8 hy]
      omega
    rw [if_pos less]

/-- The bytes of a character come before those of a greater one, whatever follows. -/
theorem compareBytes_encodeChar (h : c.toNat < d.toNat) : compareBytes (encodeChar c ++ as) (encodeChar d ++ bs) = .lt := by
  have top := toNat_lt_of_char d
  unfold encodeChar
  dsimp only
  -- a character of fewer bytes has a first byte that is less; of two with as many bytes the first that differs decides
  split
  · split
    · exact compareBytes_digit (by omega) (by omega) (by omega) (by omega)
    · split
      · exact compareBytes_digit (by omega) (by omega) (by omega) (by omega)
      · split
        · exact compareBytes_digit (by omega) (by omega) (by omega) (by omega)
        · exact compareBytes_digit (by omega) (by omega) (by omega) (by omega)
  · rw [if_neg (show ¬d.toNat < 0x80 by omega)]
    split
    · split
      · refine compareBytes_digit (by omega) (by omega) (by omega) fun first => ?_
        exact compareBytes_digit (by omega) (by omega) (by omega) (by omega)
      · split
        · exact compareBytes_digit (by omega) (by omega) (by omega) (by omega)
        · exact compareBytes_digit (by omega) (by omega) (by omega) (by omega)
    · rw [if_neg (show ¬d.toNat < 0x800 by omega)]
      split
      · split
        · refine compareBytes_digit (by omega) (by omega) (by omega) fun first => ?_
          refine compareBytes_digit (by omega) (by omega) (by omega) fun second => ?_
          exact compareBytes_digit (by omega) (by omega) (by omega) (by omega)
        · exact compareBytes_digit (by omega) (by omega) (by omega) (by omega)
      · rw [if_neg (show ¬d.toNat < 0x10000 by omega)]
        refine compareBytes_digit (by omega) (by omega) (by omega) fun first => ?_
        refine compareBytes_digit (by omega) (by omega) (by omega) fun second => ?_
        refine compareBytes_digit (by omega) (by omega) (by omega) fun third => ?_
        exact compareBytes_digit (by omega) (by omega) (by omega) (by omega)

/-- What two lists of bytes begin with in common does not matter. -/
theorem compareBytes_append (cs as bs : List UInt8) : compareBytes (cs ++ as) (cs ++ bs) = compareBytes as bs := by
  induction cs with
  | nil => rfl
  | cons c cs ih => rw [List.cons_append, List.cons_append, compareBytes, if_neg (UInt8.lt_irrefl c), if_neg (UInt8.lt_irrefl c), ih]

/-- The bytes of characters are in the order of the characters. -/
theorem compareBytes_flatMap (cs ds : List Char) :
    compareBytes (cs.flatMap encodeChar) (ds.flatMap encodeChar) = List.compareLex compare (cs.map Char.toNat) (ds.map Char.toNat) := by
  have some (c : Char) (bs : List UInt8) : ∃ b rest, encodeChar c ++ bs = b :: rest := by
    unfold encodeChar
    dsimp only
    split
    · exact ⟨_, _, rfl⟩
    · split
      · exact ⟨_, _, rfl⟩
      · split
        · exact ⟨_, _, rfl⟩
        · exact ⟨_, _, rfl⟩
  induction cs generalizing ds with
  | nil =>
    cases ds with
    | nil => rfl
    | cons d ds =>
      obtain ⟨b, rest, spelled⟩ := some d (ds.flatMap encodeChar)
      rw [List.flatMap_cons, spelled]
      rfl
  | cons c cs ih =>
    cases ds with
    | nil =>
      obtain ⟨b, rest, spelled⟩ := some c (cs.flatMap encodeChar)
      rw [List.flatMap_cons, spelled]
      rfl
    | cons d ds =>
      rw [List.flatMap_cons, List.flatMap_cons, List.map_cons, List.map_cons, List.compareLex_cons_cons]
      rcases Nat.lt_trichotomy c.toNat d.toNat with less | same | greater
      · rw [compareBytes_encodeChar less, Nat.compare_eq_lt.mpr less]
        rfl
      · obtain rfl : c = d := Char.ext (UInt32.toNat_inj.mp same)
        rw [compareBytes_append, ih, Nat.compare_eq_eq.mpr rfl]
        rfl
      · rw [Json.compareBytes_swap, compareBytes_encodeChar greater, Nat.compare_eq_gt.mpr greater]
        rfl

/-- A well-formed text is spelled by its characters. -/
theorem bytes_of_isValid {t : Text} (valid : t.isValid = true) : t.bytes = t.chars.flatMap encodeChar := by
  rw [chars, List.flatMap_map, ← flatMap_bytes_glyphs]
  refine List.flatMap_congr fun g mem => ?_
  obtain ⟨c, rfl⟩ := glyph_of_isValid valid mem
  rfl

/-- Well-formed texts are in the order of their characters, the first that differs deciding. -/
theorem compare_chars {t u : Text} (ht : t.isValid = true) (hu : u.isValid = true) :
    compare t u = List.compareLex compare (t.chars.map Char.toNat) (u.chars.map Char.toNat) := by
  rw [← compareBytes_flatMap, ← bytes_of_isValid ht, ← bytes_of_isValid hu]
  rfl

end Text

/-! ## Ranks -/

/-- The classes of values among which there is an order. -/
inductive OrderClass where
  | number
  | text
  | date
  | truth
deriving DecidableEq

namespace Value

/-- The class of a value that is in an order with others. -/
def orderClass? : Value → Option OrderClass
  | byte _ | int _ | long _ | double _ => some .number
  | string _ => some .text
  | date _ => some .date
  | bool _ => some .truth
  | _ => none

/-- Two values are of one class that has an order. -/
def SameClass (a b : Value) : Prop := ∃ c, a.orderClass? = some c ∧ b.orderClass? = some c

/-- What a value is ordered by: a whole number, the bytes of a text, seconds and nanoseconds, or no and yes. -/
def rank : Value → List Int
  | byte n => [n.toNat]
  | int n => [n.toInt]
  | long n => [n.toInt]
  | string t => t.bytes.map fun b => b.toNat
  | date d => [d.seconds, d.nanos]
  | bool b => [if b then 1 else 0]
  | _ => []

variable {s : Store} {v : Value} {x : Int}

theorem SameClass.symm {a b : Value} (same : a.SameClass b) : b.SameClass a := by
  obtain ⟨cls, classA, classB⟩ := same
  exact ⟨cls, classB, classA⟩

theorem SameClass.trans {a b c : Value} (same : a.SameClass b) (same' : b.SameClass c) : a.SameClass c := by
  obtain ⟨cls, classA, classB⟩ := same
  obtain ⟨cls', classB', classC⟩ := same'
  rw [classB] at classB'
  cases classB'
  exact ⟨cls, classA, classC⟩

theorem rank_of_whole? (h : v.whole? = some x) : v.rank = [x] := by
  cases v <;> cases h <;> rfl

/-- A number that is no double is a whole number. -/
theorem whole?_of_number (h : v.orderClass? = some .number) (narrow : s.kindOf v ≠ .double) : ∃ x, v.whole? = some x := by
  cases v with
  | byte n | int n | long n => exact ⟨_, rfl⟩
  | double x => exact absurd rfl narrow
  | _ => cases h

theorem string_of_text (h : v.orderClass? = some .text) : ∃ t, v = .string t := by
  cases v with
  | string t => exact ⟨t, rfl⟩
  | _ => cases h

theorem date_of_date (h : v.orderClass? = some .date) : ∃ d, v = .date d := by
  cases v with
  | date d => exact ⟨d, rfl⟩
  | _ => cases h

theorem bool_of_truth (h : v.orderClass? = some .truth) : ∃ b, v = .bool b := by
  cases v with
  | bool b => exact ⟨b, rfl⟩
  | _ => cases h

/-- What is worked with as a number, whole or not, is a number. -/
theorem number_of_toInt64? {n : Int64} (h : v.toInt64? = some n) : v.orderClass? = some .number := by
  cases v with
  | byte n | int n | long n => rfl
  | _ => cases h

theorem number_of_toFloat? {y : Float} (h : v.toFloat? = some y) : v.orderClass? = some .number := by
  cases v with
  | byte n | int n | long n | double y => rfl
  | _ => cases h

end Value

/-- The order of numbers of 64 bits is that of the whole numbers. -/
theorem orderInts_eq (x y : Int64) : orderInts x y = compare x.toInt y.toInt := by
  rw [orderInts, Int.compare_eq_ite_lt]
  simp only [gt_iff_lt, Int64.lt_iff_toInt_lt]

/-- The order of instants is that of their seconds, and of their nanoseconds when those are the same. -/
theorem Date.order_eq (d e : Date) : d.order e = (compare d.seconds e.seconds).then (compare d.nanos e.nanos) := by
  rw [order, Int.compare_eq_ite_lt]
  split
  · rfl
  · split
    · rfl
    · rfl

namespace Store

variable {s : Store} {a b c : Value}

/-- Whole numbers are compared as such. -/
theorem order_whole {x y : Int} (ha : a.whole? = some x) (hb : b.whole? = some y) : s.order a b = .ok (compare x y) := by
  obtain ⟨m, hm, rfl⟩ := Value.toInt64?_of_whole? ha
  obtain ⟨n, hn, rfl⟩ := Value.toInt64?_of_whole? hb
  have worked : s.order a b = .ok (orderInts m n) := by
    cases a with
    | byte _ | int _ | long _ =>
      cases b with
      | byte _ | int _ | long _ =>
        cases hm
        cases hn
        rfl
      | _ => cases hb
    | _ => cases ha
  rw [worked, ← orderInts_eq]

/-- Values of one class are ordered by their ranks. -/
theorem order_rank (ha : s.kindOf a ≠ .double) (hb : s.kindOf b ≠ .double) (same : a.SameClass b) :
    s.order a b = .ok (List.compareLex compare a.rank b.rank) := by
  obtain ⟨cls, classA, classB⟩ := same
  cases cls with
  | number =>
    obtain ⟨x, hx⟩ := Value.whole?_of_number classA ha
    obtain ⟨y, hy⟩ := Value.whole?_of_number classB hb
    rw [order_whole hx hy, Value.rank_of_whole? hx, Value.rank_of_whole? hy, List.compareLex_cons_cons, List.compareLex_nil_nil,
      Ordering.then_eq]
  | text =>
    obtain ⟨t, rfl⟩ := Value.string_of_text classA
    obtain ⟨u, rfl⟩ := Value.string_of_text classB
    exact congrArg Except.ok (Text.compareBytes_eq t.bytes u.bytes)
  | date =>
    obtain ⟨d, rfl⟩ := Value.date_of_date classA
    obtain ⟨e, rfl⟩ := Value.date_of_date classB
    refine congrArg Except.ok ((Date.order_eq d e).trans ?_)
    simp only [Value.rank, List.compareLex_cons_cons, List.compareLex_nil_nil, Ordering.then_eq, Int.compare_eq_ite_lt, Int.ofNat_lt,
      Nat.compare_eq_ite_lt]
  | truth =>
    obtain ⟨p, rfl⟩ := Value.bool_of_truth classA
    obtain ⟨q, rfl⟩ := Value.bool_of_truth classB
    cases p <;> cases q <;> rfl

/-- Values that are not of one class cannot be compared. -/
theorem order_apart (apart : ¬a.SameClass b) : ∃ f, s.order a b = .error f ∧ f.kind = .type := by
  unfold order
  split
  · exact absurd ⟨.text, rfl, rfl⟩ apart
  · exact absurd ⟨.date, rfl, rfl⟩ apart
  · exact absurd ⟨.truth, rfl, rfl⟩ apart
  · split
    · rename_i m n hm hn
      exact absurd ⟨.number, Value.number_of_toInt64? hm, Value.number_of_toInt64? hn⟩ apart
    · split
      · rename_i x y hx hy
        exact absurd ⟨.number, Value.number_of_toFloat? hx, Value.number_of_toFloat? hy⟩ apart
      · exact ⟨_, rfl, rfl⟩

/-! ## Laws -/

/-- Two values are found to be equal. -/
def Equates (s : Store) (a b : Value) : Prop := ∃ t, (StoreM.equal a b).run.run s = (.ok true, t)

end Store

/-- The operator that holds of two values in an order. -/
def BinaryOp.ofOrder : Ordering → BinaryOp
  | .lt => .lt
  | .eq => .eq
  | .gt => .gt

/-- The laws of the order `o` of two values. Equality and the operators agree with it: of less, equal and greater one holds. -/
structure Store.Ordered (s : Store) (a b : Value) (o : Ordering) : Prop where
  order : s.order a b = .ok o
  swapped : s.order b a = .ok o.swap
  equal : o = .eq ↔ s.Equates a b
  whole : ∀ x y, a.whole? = some x → b.whole? = some y → o = compare x y
  chars : ∀ t u, a = .string t → b = .string u → t.isValid = true → u.isValid = true →
    o = List.compareLex compare (t.chars.map Char.toNat) (u.chars.map Char.toNat)
  operators : ∀ op, op = .lt ∨ op = .eq ∨ op = .gt →
    (Eval.binary op a b).run.run s = (.ok (.bool (op = BinaryOp.ofOrder o)), s)

/-! ### Equality of single values -/

namespace StoreM

variable {s : Store} {a b : Value} {x y : Int}

/-- Whole numbers are equal when they are the same number, of whatever kinds. -/
theorem run_equalTo_whole (ha : a.whole? = some x) (hb : b.whole? = some y) (d : Nat) :
    (equalTo (d + 1) a b).run.run s = (.ok (x = y), s) := by
  have numeric {v : Value} {z : Int} (hv : v.whole? = some z) : (s.kindOf v).isNumeric = true := by
    rcases s.kindOf_of_whole? hv with k | k | k
    all_goals
      rw [k]
      rfl
  unfold equalTo
  rw [run_get_bind]
  dsimp only
  rw [numeric ha, numeric hb, Store.order_whole ha hb]
  refine congrArg (fun r => (Except.ok r, s)) (Bool.eq_iff_iff.mpr ?_)
  rw [beq_iff_eq, decide_eq_true_eq, Int.compare_eq_eq]

theorem run_equalTo_string (t u : Text) (s : Store) (d : Nat) :
    (equalTo (d + 1) (.string t) (.string u)).run.run s = (.ok (t = u), s) := by
  unfold equalTo
  rw [run_get_bind]
  rfl

theorem run_equalTo_date (t u : Date) (s : Store) (d : Nat) :
    (equalTo (d + 1) (.date t) (.date u)).run.run s = (.ok (t.sameInstant u), s) := by
  unfold equalTo
  rw [run_get_bind]
  rfl

theorem run_equalTo_bool (p q : Bool) (s : Store) (d : Nat) :
    (equalTo (d + 1) (.bool p) (.bool q)).run.run s = (.ok (p = q), s) := by
  unfold equalTo
  rw [run_get_bind]
  rfl

end StoreM

/-! ### Laws of the order -/

namespace Store

variable {s : Store} {a b c : Value}

/-- Values of one class are equal when their ranks are. -/
theorem run_equal_rank (ha : s.kindOf a ≠ .double) (hb : s.kindOf b ≠ .double) (same : a.SameClass b) :
    (StoreM.equal a b).run.run s = (.ok (List.compareLex compare a.rank b.rank == .eq), s) := by
  have ordered := order_rank ha hb same
  obtain ⟨cls, classA, classB⟩ := same
  -- what the order finds of two values is what the comparison for equality finds
  have found {r : Bool} (run : ∀ d, (StoreM.equalTo (d + 1) a b).run.run s = (.ok r, s)) (agrees : r = true ↔ s.order a b = .ok .eq) :
      (StoreM.equal a b).run.run s = (.ok (List.compareLex compare a.rank b.rank == .eq), s) := by
    rw [ordered, Except.ok.injEq] at agrees
    unfold StoreM.equal
    rw [StoreM.run_get_bind, run, Bool.eq_iff_iff.mpr (agrees.trans beq_iff_eq.symm)]
  cases cls with
  | number =>
    obtain ⟨x, hx⟩ := Value.whole?_of_number classA ha
    obtain ⟨y, hy⟩ := Value.whole?_of_number classB hb
    refine found (StoreM.run_equalTo_whole hx hy) ?_
    rw [order_whole hx hy, decide_eq_true_eq, Except.ok.injEq, Int.compare_eq_eq]
  | text =>
    obtain ⟨t, rfl⟩ := Value.string_of_text classA
    obtain ⟨u, rfl⟩ := Value.string_of_text classB
    refine found (StoreM.run_equalTo_string t u s) ?_
    rw [decide_eq_true_eq]
    constructor
    · rintro rfl
      exact congrArg Except.ok (Text.compare_self t)
    · intro same
      exact Text.eq_of_compare (Except.ok.inj same)
  | date =>
    obtain ⟨d, rfl⟩ := Value.date_of_date classA
    obtain ⟨e, rfl⟩ := Value.date_of_date classB
    refine found (StoreM.run_equalTo_date d e s) ?_
    change _ ↔ Except.ok (d.order e) = _
    rw [Except.ok.injEq, Date.order_eq, Ordering.then_eq_eq, Int.compare_eq_eq, Nat.compare_eq_eq, Date.sameInstant, Bool.and_eq_true,
      decide_eq_true_eq, decide_eq_true_eq]
  | truth =>
    obtain ⟨p, rfl⟩ := Value.bool_of_truth classA
    obtain ⟨q, rfl⟩ := Value.bool_of_truth classB
    refine found (StoreM.run_equalTo_bool p q s) ?_
    change _ ↔ Except.ok _ = _
    cases p <;> cases q <;> simp

/-- A value that is in an order with others is not null. -/
theorem isNull_of_sameClass (same : a.SameClass b) : a.isNull = false := by
  obtain ⟨cls, classA, -⟩ := same
  cases a with
  | null => cases classA
  | _ => rfl

/-- Of less, equal and greater, the operator holds that stands for the order. -/
theorem run_binary_order {op : BinaryOp} (hop : op = .lt ∨ op = .eq ∨ op = .gt) (ha : s.kindOf a ≠ .double)
    (hb : s.kindOf b ≠ .double) (same : a.SameClass b) :
    (Eval.binary op a b).run.run s = (.ok (.bool (op = BinaryOp.ofOrder (List.compareLex compare a.rank b.rank))), s) := by
  have ordered := order_rank ha hb same
  have equal := run_equal_rank ha hb same
  have presentA := isNull_of_sameClass same
  have presentB := isNull_of_sameClass same.symm
  generalize List.compareLex compare a.rank b.rank = o at ordered equal
  rcases hop with rfl | rfl | rfl
  case inr.inl =>
    unfold Eval.binary
    change ((StoreM.equal a b >>= fun r => pure (Value.bool r) : StoreM Value)).run.run s = _
    rw [ExceptT.run_bind, StateT.run_bind, equal]
    cases o <;> rfl
  all_goals
    unfold Eval.binary
    change ((do let s ← get; _ : StoreM Value)).run.run s = _
    rw [StoreM.run_get_bind]
    simp only [presentA, presentB, ordered, Eval.isComparison, Bool.not_false, Bool.and_true, Bool.false_eq_true, reduceCtorEq,
      decide_false, Bool.false_and, ↓reduceIte]
    cases o <;> rfl

/-- The laws hold of the order of two values of one class. -/
theorem ordered_rank (ha : s.kindOf a ≠ .double) (hb : s.kindOf b ≠ .double) (same : a.SameClass b) :
    s.Ordered a b (List.compareLex compare a.rank b.rank) := by
  have ordered := order_rank ha hb same
  refine ⟨ordered, ?_, ?_, ?_, ?_, fun op hop => run_binary_order hop ha hb same⟩
  · rw [order_rank hb ha same.symm]
    exact congrArg Except.ok Std.OrientedCmp.eq_swap
  · unfold Equates
    rw [run_equal_rank ha hb same]
    constructor
    · intro equal
      exact ⟨s, by rw [equal]; rfl⟩
    · rintro ⟨t, found⟩
      simpa using (Prod.mk.inj found).1
  · intro x y hx hy
    exact Except.ok.inj (ordered.symm.trans (order_whole hx hy))
  · rintro t u rfl rfl ht hu
    exact Except.ok.inj (ordered.symm.trans (congrArg Except.ok (Text.compare_chars ht hu)))

/-- **Values without doubles are in order.** Values of different classes, and all that are of none, cannot be compared, which is
a fault of type. Within a class the order is reflexive, the laws hold of any two values, and it is transitive. -/
theorem order_lawful (ha : s.kindOf a ≠ .double) (hb : s.kindOf b ≠ .double) (hc : s.kindOf c ≠ .double) :
    (¬a.SameClass b → ∃ f, s.order a b = .error f ∧ f.kind = .type) ∧
    (a.SameClass b → s.order a a = .ok .eq ∧ (∃ o, s.Ordered a b o) ∧
      ∀ o p, s.order a b = .ok o → s.order b c = .ok p → o ≠ .gt → p ≠ .gt → ∃ q, s.order a c = .ok q ∧ q ≠ .gt) := by
  refine ⟨order_apart, fun same => ⟨?_, ⟨_, ordered_rank ha hb same⟩, ?_⟩⟩
  · rw [order_rank ha ha (same.trans same.symm)]
    exact congrArg Except.ok Std.ReflCmp.compare_self
  · intro o p first second notAbove notAbove'
    have same' : b.SameClass c := by
      by_contra apart
      obtain ⟨f, fault, -⟩ := order_apart (s := s) apart
      rw [second] at fault
      cases fault
    rw [order_rank ha hb same] at first
    rw [order_rank hb hc same'] at second
    cases first
    cases second
    refine ⟨_, order_rank ha hc (same.trans same'), ?_⟩
    refine Ordering.isLE_iff_ne_gt.mp ?_
    exact Std.TransCmp.isLE_trans (Ordering.isLE_iff_ne_gt.mpr notAbove) (Ordering.isLE_iff_ne_gt.mpr notAbove')

/-- A character beyond the first planes comes behind all that two bytes of the other encoding hold. -/
theorem order_lawful_planes :
    let s := Store.initial
    let a := Value.string "\uffff"
    let b := Value.string "😀"
    s.kindOf a ≠ .double ∧ s.kindOf b ≠ .double ∧ a.SameClass b ∧ (Eval.binary .lt a b).run.run s = (.ok (.bool true), s) ∧
      (Eval.binary .eq a b).run.run s = (.ok (.bool false), s) := by
  intro s a b
  have ha : s.kindOf a ≠ .double := by decide
  have hb : s.kindOf b ≠ .double := by decide
  have same : a.SameClass b := ⟨.text, rfl, rfl⟩
  obtain ⟨o, laws⟩ := ((order_lawful ha hb hb).2 same).2.1
  obtain rfl : o = .lt := laws.chars _ _ rfl rfl (by decide) (by decide)
  exact ⟨ha, hb, same, laws.operators .lt (.inl rfl), laws.operators .eq (.inr (.inl rfl))⟩

end Store

end ScriptEngine
