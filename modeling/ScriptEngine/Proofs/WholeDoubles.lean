import Mathlib
import ScriptEngine.Builtin.Arguments
import ScriptEngine.Double
/-!
# Whole numbers as doubles

A double keeps 53 binary digits. A whole number that takes no more, but for zeros at its end, is a double itself; any
other comes to lie between two doubles and becomes the nearer one, and in the middle the even one. Signs are apart from
all this: the opposite and the absolute value of a double have the same digits.
-/

open Float.Model Float.Model.UnpackedFloat

namespace ScriptEngine

namespace Double

/-! ## The parts of a double -/

/-- A double is the number with a sign, a mantissa and an exponent of two. -/
def Is (x : Float) (s : Sign) (m : Nat) (e : Int) : Prop := ∃ positive, x.toModel.unpack = .finite s m e positive

/-- The mantissa has 53 binary digits, and the exponent is within the range of doubles. -/
structure Normal (m : Nat) (e : Int) : Prop where
  low : 2 ^ 52 ≤ m
  high : m < 2 ^ 53
  least : -1074 ≤ e
  most : e ≤ 971

variable {x : Float} {s : Sign} {m : Nat} {e : Int}

/-- The bits of the mantissa. -/
theorem toNat_unpackMantissa (b : BitVec Format.binary64.numBits) : (unpackMantissa b).toNat = b.toNat % 2 ^ 52 := by
  change (b.extractLsb 51 0).toNat = _
  simp [BitVec.extractLsb_toNat]

/-- The bits of the exponent. -/
theorem toNat_unpackExponent (b : BitVec Format.binary64.numBits) :
    (unpackExponent b).toNat = b.toNat / 2 ^ 52 % 2 ^ 11 := by
  change (b.extractLsb 62 52).toNat = _
  rw [BitVec.extractLsb_toNat, Nat.shiftRight_eq_div_pow]

/-- The bit of the sign. -/
theorem toNat_unpackSign (b : BitVec Format.binary64.numBits) : (unpackSign b).toNat = b.toNat / 2 ^ 63 := by
  change (b.extractLsb 63 63).toNat = _
  have small : b.toNat < 2 ^ 64 := b.isLt
  rw [BitVec.extractLsb_toNat, Nat.shiftRight_eq_div_pow]
  omega

/-- The mantissa is written without its first digit, which is one. -/
theorem toNat_one_append (v : BitVec 52) : (1#1 ++ v).toNat = 2 ^ 52 + v.toNat := by
  rw [BitVec.toNat_append, ← Nat.shiftLeft_add_eq_or_of_lt v.isLt]
  rfl

/-- A number with a mantissa of 53 binary digits is found again in its bits. -/
theorem unpack_pack (s : Sign) (positive : 0 < m) (normal : Normal m e) :
    (Float.Model.pack (.finite s m e positive)).unpack = .finite s m e positive := by
  obtain ⟨low, high, least, most⟩ := normal
  have digits : m.log2 = 52 := by
    rw [Nat.log2_eq_iff (by omega)]
    exact ⟨low, high⟩
  have bias : (e + Format.binary64.exponentBias + Format.binary64.mantissaBitsWithoutImplicit).toNat = (e + 1075).toNat := by
    change (e + (1023 : Nat) + (52 : Nat)).toNat = _
    omega
  have inRange : ¬2 ^ Format.binary64.exponentBits ≤ (e + 1075).toNat + 1 := by
    change ¬2 ^ 11 ≤ _
    omega
  have exponent : (BitVec.ofNat 11 (e + 1075).toNat).toNat = (e + 1075).toNat := by
    rw [BitVec.toNat_ofNat]
    omega
  have mantissa : (1#1 ++ BitVec.ofNat 52 m).toNat = m := by
    rw [toNat_one_append, BitVec.toNat_ofNat]
    omega
  have notLeast : BitVec.ofNat 11 (e + 1075).toNat ≠ 0#11 := by
    intro same
    have bits := congrArg BitVec.toNat same
    rw [exponent] at bits
    change _ = 0 at bits
    omega
  have notGreatest : BitVec.ofNat 11 (e + 1075).toNat ≠ -1#11 := by
    intro same
    have bits := congrArg BitVec.toNat same
    rw [exponent] at bits
    change _ = 2047 at bits
    omega
  have power : (((e + 1075).toNat : Nat) : Int) - (Format.binary64.exponentBias + Format.binary64.mantissaBitsWithoutImplicit) =
      e := by
    change ((e + 1075).toNat : Int) - ((1023 : Nat) + (52 : Nat)) = e
    omega
  have width : 52 + 1 = Format.binary64.mantissaBits := rfl
  change UnpackedFloat.unpack .binary64 (UnpackedFloat.pack .binary64 _) = _
  rw [UnpackedFloat.pack]
  simp only [bias, digits]
  rw [if_neg inRange, if_pos width, UnpackedFloat.unpack]
  simp only [unpackMantissa_packComponents, unpackExponent_packComponents, unpackSign_packComponents, Sign.ofBitVec_toBitVec, exponent,
    power]
  rw [if_neg notGreatest, if_neg notLeast]
  simp only [mantissa]

/-- Sign, mantissa and exponent in the bits of a number. -/
theorem fields_of_unpack {b : BitVec Format.binary64.numBits} {positive : 0 < m}
    (parts : UnpackedFloat.unpack .binary64 b = .finite s m e positive) (low : 2 ^ 52 ≤ m) :
    b.toNat % 2 ^ 52 + 2 ^ 52 = m ∧ ((b.toNat / 2 ^ 52 % 2 ^ 11 : Nat) : Int) = e + 1075 ∧ b.toNat / 2 ^ 52 % 2 ^ 11 ≠ 0 ∧
      b.toNat / 2 ^ 52 % 2 ^ 11 ≠ 2047 ∧ (b.toNat / 2 ^ 63 = 1 ↔ s = .negative) := by
  rw [UnpackedFloat.unpack] at parts
  rw [← toNat_unpackMantissa, ← toNat_unpackExponent, ← toNat_unpackSign]
  simp only at parts
  split at parts
  · split at parts <;> cases parts
  · rename_i notGreatest
    split at parts
    · split at parts
      · cases parts
      · -- a number with fewer digits has a smaller mantissa
        cases parts
        have small := (unpackMantissa b).isLt
        change (unpackMantissa b).toNat < 2 ^ 52 at small
        omega
    · rename_i notLeast
      cases parts
      refine ⟨?_, ?_, ?_, ?_, ?_⟩
      · exact (Nat.add_comm _ _).trans (toNat_one_append _).symm
      · change ((unpackExponent b).toNat : Int) = (unpackExponent b).toNat - ((1023 : Nat) + (52 : Nat)) + 1075
        omega
      · exact fun zeros => notLeast (BitVec.eq_of_toNat_eq zeros)
      · exact fun ones => notGreatest (BitVec.eq_of_toNat_eq ones)
      · obtain zero | one : unpackSign b = 0#1 ∨ unpackSign b = 1#1 := BitVec.eq_zero_or_eq_one _
        · rw [zero]
          simp [Sign.ofBitVec]
        · rw [one]
          simp [Sign.ofBitVec]

/-- The magnitude of a double is read off its mantissa and its exponent. -/
theorem ofFloat_of_is (h : Is x s m e) (low : 2 ^ 52 ≤ m) : Magnitude.ofFloat x = .finite m e := by
  obtain ⟨_, parts⟩ := h
  obtain ⟨fraction, biased, notLeast, notGreatest, -⟩ := fields_of_unpack parts low
  rw [UInt64.toNat_toBitVec] at fraction biased notLeast notGreatest
  unfold Magnitude.ofFloat Float.toBits
  simp only
  rw [if_neg notLeast, if_neg notGreatest, fraction, biased]
  congr
  omega

/-- The bit of the sign is set on negative doubles. -/
theorem signBit_of_is (h : Is x s m e) (low : 2 ^ 52 ≤ m) : signBit x = true ↔ s = .negative := by
  obtain ⟨_, parts⟩ := h
  obtain ⟨-, -, -, -, sign⟩ := fields_of_unpack parts low
  have top : x.toBits >>> 63 = 1 ↔ x.toBits.toNat / 2 ^ 63 = 1 := by
    rw [← UInt64.toNat_inj, UInt64.toNat_shiftRight, Nat.shiftRight_eq_div_pow]
    rfl
  unfold signBit
  rw [beq_iff_eq, top]
  exact sign

/-- The opposite of a double. -/
theorem is_neg (h : Is x s m e) (normal : Normal m e) : Is (-x) (-s) m e := by
  obtain ⟨positive, parts⟩ := h
  refine ⟨positive, ?_⟩
  change (Float.Model.pack x.toModel.unpack.neg).unpack = _
  rw [parts]
  exact unpack_pack _ positive normal

/-- The absolute value of a double. -/
theorem is_abs (h : Is x s m e) (normal : Normal m e) : Is x.abs .positive m e := by
  obtain ⟨positive, parts⟩ := h
  refine ⟨positive, ?_⟩
  change (Float.Model.pack x.toModel.unpack.abs).unpack = _
  rw [parts]
  exact unpack_pack _ positive normal

/-- The number that bits with a plus, an exponent between the extremes and a fraction stand for. -/
theorem unpack_of_bits {b : BitVec Format.binary64.numBits} {biased fraction : Nat} (bits : b.toNat = biased * 2 ^ 52 + fraction)
    (small : fraction < 2 ^ 52) (notLeast : 0 < biased) (notGreatest : biased < 2047) :
    UnpackedFloat.unpack .binary64 b = .finite .positive (2 ^ 52 + fraction) (biased - 1075) (by omega) := by
  have exponent : (unpackExponent b).toNat = biased := by
    rw [toNat_unpackExponent]
    omega
  have mantissa : (1#1 ++ unpackMantissa b).toNat = 2 ^ 52 + fraction := by
    refine (toNat_one_append _).trans ?_
    rw [toNat_unpackMantissa]
    omega
  have plus : unpackSign b = 0#1 := by
    refine BitVec.eq_of_toNat_eq ?_
    rw [toNat_unpackSign, BitVec.toNat_zero]
    omega
  have ones : unpackExponent b ≠ -1#11 := by
    intro same
    rw [same] at exponent
    exact Nat.ne_of_gt notGreatest exponent
  have zeros : unpackExponent b ≠ 0#11 := by
    intro same
    rw [same] at exponent
    exact Nat.ne_of_lt notLeast exponent
  have power : (biased : Int) - (Format.binary64.exponentBias + Format.binary64.mantissaBitsWithoutImplicit) = biased - 1075 := rfl
  rw [UnpackedFloat.unpack]
  simp only [if_neg ones, if_neg zeros, mantissa, exponent, plus, power]
  rfl

/-- The double with given bits. -/
theorem is_ofBits (normal : Normal m e) :
    Is (Float.ofBits ((e + 1075).toNat * 2 ^ 52 + (m - 2 ^ 52)).toUInt64) .positive m e := by
  obtain ⟨low, high, least, most⟩ := id normal
  obtain ⟨fraction, rfl⟩ := Nat.exists_eq_add_of_le low
  obtain ⟨biased, rfl⟩ : ∃ biased : Nat, e = biased - 1075 := ⟨(e + 1075).toNat, by omega⟩
  rw [Nat.add_sub_cancel_left, Int.sub_add_cancel, Int.toNat_natCast]
  have positive : 0 < 2 ^ 52 + fraction := by omega
  have bits : (biased * 2 ^ 52 + fraction).toUInt64.toBitVec.toNat = biased * 2 ^ 52 + fraction := by
    refine (UInt64.toNat_ofNat' ..).trans (Nat.mod_eq_of_lt ?_)
    omega
  refine ⟨positive, ?_⟩
  change (Float.Model.pack (UnpackedFloat.unpack .binary64 _)).unpack = _
  rw [unpack_of_bits bits (by omega) (by omega) (by omega)]
  exact unpack_pack _ positive normal

/-- The absolute value of a number with a mantissa and an exponent, without its fraction. -/
def whole (m : Nat) (e : Int) : Nat := if e ≥ 0 then m * Nat.pow 2 e.toNat else m / Nat.pow 2 (-e).toNat

/-- The whole part of a double. -/
theorem wholePart_of_is (h : Is x s m e) (low : 2 ^ 52 ≤ m) : wholePart x = some (s.apply (whole m e)) := by
  have negative := signBit_of_is h low
  unfold wholePart
  rw [ofFloat_of_is h low]
  cases s with
  | negative =>
    simp only [negative.mpr rfl, ↓reduceIte]
    rfl
  | positive =>
    have plus : ¬signBit x = true := fun set => by cases negative.mp set
    simp only [if_neg plus]
    rfl

end Double

/-! ## Rounding -/

namespace Decimal

variable {n d : Nat}

/-- A rounded quotient is the one below or the one above. -/
theorem roundDiv_bounds (n d : Nat) : n / d ≤ roundDiv n d ∧ roundDiv n d ≤ n / d + 1 := by
  simp only [roundDiv]
  split
  · omega
  · split
    · omega
    · split
      · omega
      · omega

/-- A multiple is divided without rounding. -/
theorem roundDiv_of_dvd (multiple : d ∣ n) (positive : 0 < d) : roundDiv n d = n / d := by
  simp only [roundDiv]
  rw [Nat.mod_eq_zero_of_dvd multiple, if_pos (by omega)]

end Decimal

namespace Double

/-- What a whole number becomes as a double: its first 53 binary digits, rounded. -/
def ofWhole (n : Nat) : Nat := Decimal.roundDiv n (2 ^ (n.log2 - 52)) * 2 ^ (n.log2 - 52)

/-- A double holds a whole number that has no more than 53 binary digits, but for zeros at the end. -/
def Holds (n : Nat) : Prop := ∃ m k, m < 2 ^ 53 ∧ n = m * 2 ^ k

/-- Small whole numbers are held. -/
theorem holds_of_lt {n : Nat} (small : n < 2 ^ 53) : Holds n := ⟨n, 0, small, by omega⟩

/-- The first binary digits of a number. -/
theorem digits_bounds {n j : Nat} (wide : j ≤ n.log2) (positive : 0 < n) :
    2 ^ j ≤ n / 2 ^ (n.log2 - j) ∧ n / 2 ^ (n.log2 - j) < 2 ^ (j + 1) := by
  obtain ⟨low, high⟩ := (Nat.log2_eq_iff (Nat.ne_of_gt positive)).mp (rfl : n.log2 = n.log2)
  constructor
  · rw [Nat.le_div_iff_mul_le (Nat.two_pow_pos _), ← Nat.pow_add, Nat.add_sub_cancel' wide]
    exact low
  · rw [Nat.div_lt_iff_lt_mul (Nat.two_pow_pos _), ← Nat.pow_add, Nat.add_right_comm, Nat.add_sub_cancel' wide]
    exact high

/-- The binary digits of a number and zeros behind them. -/
theorem digits_filled {n j : Nat} (narrow : n.log2 ≤ j) (positive : 0 < n) :
    2 ^ j ≤ n * 2 ^ (j - n.log2) ∧ n * 2 ^ (j - n.log2) < 2 ^ (j + 1) := by
  obtain ⟨low, high⟩ := (Nat.log2_eq_iff (Nat.ne_of_gt positive)).mp (rfl : n.log2 = n.log2)
  have power : 0 < 2 ^ (j - n.log2) := Nat.two_pow_pos _
  constructor
  · have least := Nat.mul_le_mul_right (2 ^ (j - n.log2)) low
    rwa [← Nat.pow_add, Nat.add_sub_cancel' narrow] at least
  · have most := Nat.mul_lt_mul_of_pos_right high power
    rwa [← Nat.pow_add, Nat.add_right_comm, Nat.add_sub_cancel' narrow] at most

/-- A whole number stays as it is exactly when a double holds it. -/
theorem ofWhole_eq_iff (n : Nat) : ofWhole n = n ↔ Holds n := by
  have power : 0 < 2 ^ (n.log2 - 52) := Nat.two_pow_pos _
  constructor
  · intro same
    obtain narrow | wide := Nat.lt_or_ge n (2 ^ 53)
    · exact holds_of_lt narrow
    · have enough : 53 ≤ n.log2 := (Nat.le_log2 (by omega)).mpr wide
      obtain ⟨low, high⟩ := digits_bounds (j := 52) (by omega : 52 ≤ n.log2) (by omega)
      obtain ⟨-, rounded⟩ := Decimal.roundDiv_bounds n (2 ^ (n.log2 - 52))
      obtain full | carried := Nat.lt_or_ge (Decimal.roundDiv n (2 ^ (n.log2 - 52))) (2 ^ 53)
      · exact ⟨_, _, full, same.symm⟩
      · -- rounded up to the next power of two
        have top : Decimal.roundDiv n (2 ^ (n.log2 - 52)) = 2 ^ 53 := by omega
        unfold ofWhole at same
        rw [top] at same
        refine ⟨1, 53 + (n.log2 - 52), by decide, ?_⟩
        rw [Nat.one_mul, Nat.pow_add]
        exact same.symm
  · rintro ⟨m, k, small, rfl⟩
    obtain rfl | positive := Nat.eq_zero_or_pos m
    · rw [Nat.zero_mul]
      decide
    · -- what is cut off are zeros at the end only
      have bound : m * 2 ^ k < 2 ^ (53 + k) := by
        rw [Nat.pow_add]
        exact Nat.mul_lt_mul_of_pos_right small (Nat.two_pow_pos k)
      have nonzero : m * 2 ^ k ≠ 0 := Nat.ne_of_gt (Nat.mul_pos positive (Nat.two_pow_pos k))
      have logarithm := (Nat.log2_lt nonzero).mpr bound
      have multiple : 2 ^ ((m * 2 ^ k).log2 - 52) ∣ m * 2 ^ k :=
        Nat.dvd_trans (Nat.pow_dvd_pow 2 (by omega)) (Nat.dvd_mul_left _ _)
      unfold ofWhole
      rw [Decimal.roundDiv_of_dvd multiple power, Nat.div_mul_cancel multiple]

end Double

namespace Decimal

open Double

/-- A whole number as a quotient by a power of two. -/
def scaledOne (n : Nat) (q : Int) : Nat × Nat := if q ≥ 0 then (n, 1 * Nat.pow 2 q.toNat) else (n * Nat.pow 2 (-q).toNat, 1)

/-- The quotient of a whole number by a power of two that leaves it a number of digits. -/
theorem scaledOne_bounds {n : Nat} (positive : 0 < n) (j : Nat) :
    2 ^ j ≤ (scaledOne n (n.log2 - j)).1 / (scaledOne n (n.log2 - j)).2 ∧
      (scaledOne n (n.log2 - j)).1 / (scaledOne n (n.log2 - j)).2 < 2 ^ (j + 1) := by
  unfold scaledOne
  by_cases wide : j ≤ n.log2
  · have shift : ((n.log2 : Int) - j).toNat = n.log2 - j := by omega
    rw [if_pos (by omega), shift]
    simp only [Nat.one_mul]
    exact digits_bounds wide positive
  · have shift : (-((n.log2 : Int) - j)).toNat = j - n.log2 := by omega
    rw [if_neg (by omega), shift]
    simp only [Nat.div_one]
    exact digits_filled (by omega) positive

/-- The double with a mantissa and an exponent; `none` when it would be infinite. -/
def assembled (m : Nat) (q : Int) : Option Float :=
  if q > 971 then none
  else if m < 2 ^ 52 then some (Float.ofBits m.toUInt64)
  else some (Float.ofBits (((q + 1075).toNat * 2 ^ 52 + (m - 2 ^ 52)).toUInt64))

/-- A mantissa of 53 binary digits is put into a double as it is. -/
theorem assembled_of_normal {m : Nat} {q : Int} (normal : Normal m q) :
    ∃ x, assembled m q = some x ∧ Is x .positive m q := by
  refine ⟨_, ?_, is_ofBits normal⟩
  unfold assembled
  rw [if_neg (by have := normal.most; omega), if_neg (Nat.not_lt.mpr normal.low)]

/-- The double that is nearest to a whole number has its first 53 digits, rounded. -/
theorem nearest_one_eq {n : Nat} (positive : 0 < n) :
    nearest n 1 =
      let q : Int := n.log2 - 52
      let m := roundDiv (scaledOne n q).1 (scaledOne n q).2
      if m = 2 ^ 53 then assembled (2 ^ 52) (q + 1) else assembled m q := by
  let fits (q : Int) : Bool := (scaledOne n q).1 / (scaledOne n q).2 < 2 ^ 53
  let rounded (q : Int) : Nat := roundDiv (scaledOne n q).1 (scaledOne n q).2
  let guess : Int := (n.log2 : Int) - (Nat.log2 1 : Nat) - 53
  let carried (q : Int) : Nat × Int := if rounded q = 2 ^ 53 then (2 ^ 52, q + 1) else (rounded q, q)
  let q : Int := max (if fits guess then guess else guess + 1) (-1074)
  have guessed : guess = n.log2 - (53 : Nat) := by
    have zero : Nat.log2 1 = 0 := by decide
    omega
  have tooLarge : ¬fits guess = true := by
    rw [guessed, decide_eq_true_iff]
    exact Nat.not_lt.mpr (scaledOne_bounds positive 53).1
  have settled : q = n.log2 - 52 := by
    change max (if fits guess then guess else guess + 1) (-1074) = _
    rw [if_neg tooLarge]
    omega
  change assembled (carried q).1 (carried q).2 = if rounded (n.log2 - 52) = 2 ^ 53 then _ else assembled (rounded (n.log2 - 52)) _
  rw [settled]
  change assembled (if _ then _ else _ : Nat × Int).1 (if _ then _ else _ : Nat × Int).2 = _
  split
  · rfl
  · rfl

/-- The first 53 digits of a number, rounded, and the zeros behind them. -/
theorem whole_rounded (n : Nat) :
    whole (roundDiv (scaledOne n (n.log2 - 52)).1 (scaledOne n (n.log2 - 52)).2) (n.log2 - 52) = ofWhole n := by
  unfold whole scaledOne ofWhole
  by_cases wide : (n.log2 : Int) - 52 ≥ 0
  · have shift : ((n.log2 : Int) - 52).toNat = n.log2 - 52 := by omega
    simp only [if_pos wide, shift, Nat.one_mul]
    rfl
  · have none : n.log2 - 52 = 0 := by omega
    have one : (2 : Nat) ^ 0 = 1 := Nat.pow_zero 2
    simp only [if_neg wide, none, one]
    rw [roundDiv_of_dvd (Nat.one_dvd _) Nat.one_pos, roundDiv_of_dvd (Nat.one_dvd _) Nat.one_pos, Nat.div_one, Nat.div_one,
      Nat.mul_one]
    exact Nat.mul_div_cancel n (Nat.two_pow_pos _)

/-- A mantissa of 54 digits that ends in zeros is one of 53 digits with a greater exponent. -/
theorem whole_carried (q : Int) : whole (2 ^ 52) (q + 1) = whole (2 ^ 53) q := by
  unfold whole
  by_cases up : q ≥ 0
  · have next : (q + 1).toNat = q.toNat + 1 := by omega
    rw [if_pos up, if_pos (by omega), next]
    change 2 ^ 52 * 2 ^ (q.toNat + 1) = 2 ^ 53 * 2 ^ q.toNat
    rw [← Nat.pow_add, ← Nat.pow_add]
    congr 1
    omega
  · by_cases last : q = -1
    · rw [last]
      decide
    · have next : (-q).toNat = 1 + (-(q + 1)).toNat := by omega
      rw [if_neg up, if_neg (by omega), next]
      change 2 ^ 52 / 2 ^ (-(q + 1)).toNat = 2 * 2 ^ 52 / 2 ^ (1 + (-(q + 1)).toNat)
      rw [Nat.pow_add, Nat.pow_one, Nat.mul_div_mul_left _ _ Nat.two_pos]

/-- The double that is nearest to a whole number. -/
theorem nearest_one {n : Nat} (positive : 0 < n) (inRange : n < 2 ^ 1000) :
    ∃ x m e, nearest n 1 = some x ∧ Is x .positive m e ∧ Normal m e ∧ whole m e = ofWhole n := by
  have few : n.log2 < 1000 := (Nat.log2_lt (Nat.ne_of_gt positive)).mpr inRange
  have digits := scaledOne_bounds positive 52
  have value := whole_rounded n
  rw [nearest_one_eq positive]
  change 2 ^ 52 ≤ (scaledOne n (n.log2 - 52)).1 / (scaledOne n (n.log2 - 52)).2 ∧
    (scaledOne n (n.log2 - 52)).1 / (scaledOne n (n.log2 - 52)).2 < 2 ^ 53 at digits
  dsimp only
  generalize scaledOne n (n.log2 - 52) = p at digits value ⊢
  obtain ⟨below, above⟩ := roundDiv_bounds p.1 p.2
  generalize roundDiv p.1 p.2 = r at below above value ⊢
  by_cases carry : r = 2 ^ 53
  · have normal : Normal (2 ^ 52) (n.log2 - 52 + 1) := ⟨by omega, by omega, by omega, by omega⟩
    obtain ⟨x, found, parts⟩ := assembled_of_normal normal
    refine ⟨x, _, _, (if_pos carry).trans found, parts, normal, ?_⟩
    rw [whole_carried, ← carry]
    exact value
  · have normal : Normal r (n.log2 - 52) := ⟨by omega, by omega, by omega, by omega⟩
    obtain ⟨x, found, parts⟩ := assembled_of_normal normal
    exact ⟨x, _, _, (if_neg carry).trans found, parts, normal, value⟩

end Decimal

namespace Double

variable {x : Int}

/-- The double of a whole number, without its sign. -/
theorem wholePart_abs_floatOfInt (inRange : x.natAbs < 2 ^ 1000) : wholePart (floatOfInt x).abs = some (ofWhole x.natAbs : Int) := by
  by_cases zero : x = 0
  · subst zero
    decide +kernel
  · obtain ⟨y, m, e, found, parts, normal, value⟩ := Decimal.nearest_one (Int.natAbs_pos.mpr zero) inRange
    have absolute : Is (floatOfInt x).abs .positive m e := by
      unfold floatOfInt
      rw [if_neg zero, found]
      by_cases negative : x < 0
      · rw [if_pos negative]
        exact is_abs (is_neg parts normal) normal
      · rw [if_neg negative]
        exact is_abs parts normal
    rw [wholePart_of_is absolute normal.low, value]
    rfl

/-- The double of a byte. -/
theorem wholePart_abs_ofNat (n : UInt8) : wholePart (Float.ofNat n.toNat).abs = some (n.toNat : Int) := by
  have bytes : ∀ k : Fin 256, wholePart (Float.ofNat k).abs = some (k : Int) := by
    decide +kernel
  exact bytes ⟨n.toNat, n.toNat_lt⟩

end Double

/-- A whole number that went through the absolute value of its double: it is rounded, and beyond 64 bits it is the least
number. -/
theorem Args.wholeOf_abs {x : Int} (inRange : x.natAbs < 2 ^ 1000) :
    wholeOf (floatOfInt x).abs = if Double.ofWhole x.natAbs < 2 ^ 63 then (Double.ofWhole x.natAbs : Int) else -2 ^ 63 := by
  unfold wholeOf
  rw [Double.wholePart_abs_floatOfInt inRange]
  generalize Double.ofWhole x.natAbs = n
  simp only [Bool.and_eq_true, decide_eq_true_eq]
  split
  · rw [if_pos (by omega)]
  · rw [if_neg (by omega)]

end ScriptEngine
