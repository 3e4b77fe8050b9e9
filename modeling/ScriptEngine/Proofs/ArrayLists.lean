import Mathlib.Data.Nat.Bitwise
import ScriptEngine.Proofs.LaterMemory
import ScriptEngine.Store.Sequence
/-!
# Arrays as lists

However the elements of an array lie in memory, the array is a list to whoever reads and writes it: a place holds what
was written to it last, converted for the kind of the elements, or the blank of the kind.
-/

namespace ScriptEngine

/-! ## Bits in bytes -/

namespace Bits

variable {bytes : Array UInt8} {i j n : Nat}

theorem toNat_mask (i : Nat) : (mask i).toNat = 2 ^ (i % 8) := by
  have each : ∀ k < 8, ((1 : UInt8) <<< UInt8.ofNat k).toNat = 2 ^ k := by decide
  exact each _ (Nat.mod_lt _ (by decide))

/-- What a mask leaves of a byte tells whether the bit is on. -/
theorem and_mask (byte : UInt8) (i : Nat) : ((byte &&& mask i) != 0) = byte.toNat.testBit (i % 8) := by
  have number : (byte &&& mask i).toNat = (byte.toNat.testBit (i % 8)).toNat * 2 ^ (i % 8) := by
    rw [UInt8.toNat_and, toNat_mask, Nat.and_two_pow]
  have power : 0 < 2 ^ (i % 8) := Nat.two_pow_pos _
  cases bit : byte.toNat.testBit (i % 8) with
  | true =>
    rw [bit, Bool.toNat_true, Nat.one_mul] at number
    refine bne_iff_ne.mpr fun zero => ?_
    rw [zero] at number
    exact absurd number.symm (Nat.ne_of_gt power)
  | false =>
    rw [bit, Bool.toNat_false, Nat.zero_mul] at number
    rw [show byte &&& mask i = 0 from UInt8.toNat_inj.mp number]
    rfl

theorem get_eq (bytes : Array UInt8) (i : Nat) : get bytes i = ((bytes[i / 8]?).getD 0).toNat.testBit (i % 8) :=
  and_mask _ _

/-- A bit of a byte in which all places but one are on. -/
theorem testBit_not_mask {k : Nat} (low : k < 8) : (~~~(mask i)).toNat.testBit k = !decide (i % 8 = k) := by
  rw [UInt8.toNat_not, toNat_mask, show UInt8.size = 2 ^ 8 from rfl, Nat.sub_sub, Nat.add_comm 1,
    Nat.testBit_two_pow_sub_succ (Nat.pow_lt_pow_right (by decide) (Nat.mod_lt _ (by decide))), Nat.testBit_two_pow,
    decide_eq_true low, Bool.true_and]

/-- The bit that is written is as it was written, and all others are as they were. -/
theorem get_set (inside : i / 8 < bytes.size) (on : Bool) (j : Nat) :
    get (set bytes i on) j = if j = i then on else get bytes j := by
  rw [get_eq, get_eq, set, Array.getElem?_modify]
  by_cases byte : i / 8 = j / 8
  · have place : i % 8 = j % 8 ↔ j = i := by omega
    rw [if_pos byte, ← byte, Array.getElem?_eq_getElem inside, Option.map_some, Option.getD_some, Option.getD_some]
    cases on with
    | true =>
      rw [if_pos rfl, UInt8.toNat_or, toNat_mask, Nat.testBit_or, Nat.testBit_two_pow]
      by_cases same : j = i <;> simp [same, place]
    | false =>
      rw [if_neg Bool.false_ne_true, UInt8.toNat_and, Nat.testBit_and, testBit_not_mask (Nat.mod_lt _ (by decide))]
      by_cases same : j = i <;> simp [same, place]
  · rw [if_neg byte, if_neg (show ¬j = i from fun same => byte (by rw [same]))]

theorem size_set (on : Bool) : (set bytes i on).size = bytes.size := Array.size_modify

/-- Reserved bytes hold the bits that were there, and behind them all bits are off. -/
theorem get_reserve : get (reserve bytes n) i = get bytes i := by
  rw [get, get, reserve, Array.getElem?_append]
  split
  · rfl
  · rename_i out
    rw [Array.getElem?_replicate, Array.getElem?_eq_none (Nat.not_lt.mp out)]
    split <;> rfl

theorem le_reserve : n ≤ 8 * (reserve bytes n).size := by
  rw [reserve, Array.size_append, Array.size_replicate]
  omega

theorem get_empty : get #[] i = false := by
  rw [get_eq, Array.getElem?_eq_none (Nat.zero_le _)]
  exact Nat.zero_testBit _

end Bits

/-! ## What an array holds for a value -/

/-- The element that stands for a missing one in arrays of a kind. -/
def Kind.blank : Kind → Value
  | .byte => .byte 0
  | .bitmap => .bool false
  | .intMap => .int 0
  | k => Value.zero k

/-- The whole number that a packed array takes a value for: null is zero. -/
def Value.CountsAs (v : Value) (n : Int) : Prop := v = .null ∧ n = 0 ∨ ∃ m, v.toInt64? = some m ∧ n = m.toInt

/-- What lies in a place of an array of a kind for a value `v` is `w`. Packed places take numbers in their range, and bits also
truth values; all other places take values as they are. -/
def Kind.Packs (k : Kind) (v w : Value) : Prop :=
  match k with
  | .byte => ∃ b : UInt8, w = .byte b ∧ v.CountsAs b.toNat
  | .bitmap => ∃ b : Bool, w = .bool b ∧ (v = .bool b ∨ v.CountsAs b.toNat)
  | .intMap => ∃ n : Int32, w = .int n ∧ v.CountsAs n.toInt
  | _ => w = v

/-- What an array of a kind holds for a value `v` that is written to it is `w`: where elements are neither packed nor
arrays, it is what the value is converted to. -/
def Store.Converts (s : Store) (element : Kind) (v w : Value) : Prop :=
  match element with
  | .byte | .bitmap | .intMap | .array => element.Packs v w
  | k => ∃ t, (StoreM.coerce v k).run.run s = (.ok w, t)

/-- Whether a kind has packed arrays. -/
def Kind.isPacked : Kind → Bool
  | .byte | .bitmap | .intMap => true
  | _ => false

/-! ## Layouts of elements -/

namespace Cells

variable {c c' : Cells} {k kind : Kind} {v w : Value} {i n : Nat}

/-- Elements that lie as those of an array of a kind do. Bits that are not in use are off. -/
def LaidFor : Cells → Kind → Prop
  | boxed _, k => k.isPacked = false
  | bytes _, k => k = .byte
  | bits octets n, k => k = .bitmap ∧ n ≤ 8 * octets.size ∧ ∀ i, n ≤ i → Bits.get octets i = false
  | ints _, k => k = .intMap

theorem get?_eq (c : Cells) (i : Nat) : c.get? i = c.toList[i]? := by
  cases c with
  | boxed items => exact Array.getElem?_toList.symm
  | bytes items | ints items => rw [get?, toList, List.getElem?_map, Array.getElem?_toList]
  | bits octets n =>
    rw [get?, toList, List.getElem?_map]
    split
    · rename_i inside
      rw [List.getElem?_range inside, Option.map_some]
    · rename_i out
      rw [List.getElem?_eq_none (by rw [List.length_range]; omega), Option.map_none]

theorem laidFor_fresh (k : Kind) (n : Nat) : (fresh k n).LaidFor k := by
  cases k with
  | bitmap => exact ⟨rfl, Bits.le_reserve, fun i _ => Bits.get_reserve.trans Bits.get_empty⟩
  | _ => rfl

theorem toList_fresh (k : Kind) (n : Nat) : (fresh k n).toList = List.replicate n k.blank := by
  cases k with
  | bitmap =>
    refine List.eq_replicate_iff.mpr ⟨by rw [fresh, toList, List.length_map, List.length_range], fun v hv => ?_⟩
    obtain ⟨i, -, rfl⟩ := List.mem_map.mp hv
    exact congrArg Value.bool (Bits.get_reserve.trans Bits.get_empty)
  | byte | intMap =>
    rw [fresh, toList, Array.toList_replicate, List.map_replicate]
    rfl
  | _ => exact Array.toList_replicate

theorem laidFor_grow (laid : c.LaidFor k) (n : Nat) : (c.grow k n).LaidFor k := by
  cases c with
  | bits octets len =>
    obtain ⟨bitmap, -, off⟩ := laid
    exact ⟨bitmap, Bits.le_reserve, fun i out => Bits.get_reserve.trans (off i (by omega))⟩
  | _ => exact laid

/-- Behind the elements that were there, an array that grows holds blanks. -/
theorem toList_grow (laid : c.LaidFor k) (n : Nat) : (c.grow k n).toList = c.toList ++ List.replicate n k.blank := by
  cases c with
  | boxed items =>
    rw [grow, toList, toList, Array.toList_append, Array.toList_replicate]
    cases k <;> first | rfl | cases laid
  | bytes items | ints items =>
    cases laid
    rw [grow, toList, toList, Array.toList_append, Array.toList_replicate, List.map_append, List.map_replicate]
    rfl
  | bits octets len =>
    obtain ⟨rfl, -, off⟩ := laid
    rw [grow, toList, toList, List.range_add, List.map_append]
    simp only [Bits.get_reserve]
    congr 1
    refine List.eq_replicate_iff.mpr ⟨by rw [List.length_map, List.length_map, List.length_range], fun v hv => ?_⟩
    obtain ⟨i, later, rfl⟩ := List.mem_map.mp hv
    obtain ⟨j, -, rfl⟩ := List.mem_map.mp later
    exact congrArg Value.bool (off _ (Nat.le_add_right _ _))

/-! ### Putting an element into its place -/

/-- A packed place takes a value for the whole number that it counts as, when the number is in range. -/
theorem packed_eq_ok {lo hi m : Int} (zero : lo ≤ 0 ∧ 0 ≤ hi) :
    packed kind v lo hi = .ok m ↔ v.CountsAs m ∧ lo ≤ m ∧ m ≤ hi := by
  unfold packed
  split
  · constructor
    · rintro ⟨⟩
      exact ⟨.inl ⟨rfl, rfl⟩, zero⟩
    · rintro ⟨⟨-, rfl⟩ | ⟨_, none, -⟩, -⟩
      · rfl
      · cases none
  rename_i present
  split
  · rename_i none
    constructor
    · rintro ⟨⟩
    · rintro ⟨⟨null, -⟩ | ⟨_, some, -⟩, -⟩
      · exact absurd null present
      · cases none.symm.trans some
  · rename_i n some
    have counts : v.CountsAs m ↔ n.toInt = m := by
      constructor
      · rintro (⟨null, -⟩ | ⟨_, same, rfl⟩)
        · exact absurd null present
        · cases some.symm.trans same
          rfl
      · rintro rfl
        exact .inr ⟨n, some, rfl⟩
    rw [counts]
    split
    · rename_i out
      simp only [Bool.or_eq_true, decide_eq_true_eq] at out
      constructor
      · rintro ⟨⟩
      · rintro ⟨rfl, low, high⟩
        omega
    · rename_i inside
      simp only [Bool.or_eq_true, decide_eq_true_eq] at inside
      constructor
      · rintro ⟨⟩
        exact ⟨rfl, by omega, by omega⟩
      · rintro ⟨rfl, -⟩
        rfl

theorem map_eq_ok {r : Except Fault Int} {f : Int → Cells} : r.map f = .ok c ↔ ∃ m, r = .ok m ∧ c = f m := by
  cases r with
  | error _ =>
    constructor
    · rintro ⟨⟩
    · rintro ⟨_, ⟨⟩, -⟩
  | ok m =>
    constructor
    · rintro ⟨⟩
      exact ⟨m, rfl, rfl⟩
    · rintro ⟨_, ⟨⟩, rfl⟩
      rfl

/-- Bits take whatever is no truth value for a number. -/
theorem put_bits {octets : Array UInt8} {len : Nat} (number : ∀ b, v ≠ .bool b) :
    (bits octets len).put i kind v = (packed kind v 0 1).map fun n => bits (Bits.set octets i (n = 1)) len := by
  cases v with
  | bool b => exact absurd rfl (number b)
  | _ => rfl

/-- A bit that is put into its place is the one that the value packs to. -/
theorem put_bits_packs {octets : Array UInt8} {len : Nat} (put : (bits octets len).put i kind v = .ok c') :
    ∃ b, Kind.bitmap.Packs v (.bool b) ∧ c' = .bits (Bits.set octets i b) len := by
  by_cases truth : ∃ b, v = .bool b
  · obtain ⟨b, rfl⟩ := truth
    cases put
    exact ⟨b, ⟨b, rfl, .inl rfl⟩, rfl⟩
  · rw [put_bits fun b same => truth ⟨b, same⟩] at put
    obtain ⟨m, fits, rfl⟩ := map_eq_ok.mp put
    obtain ⟨counts, low, high⟩ := (packed_eq_ok (by decide)).mp fits
    refine ⟨decide (m = 1), ⟨_, rfl, .inr ?_⟩, rfl⟩
    obtain rfl | rfl : m = 0 ∨ m = 1 := by omega
    · exact counts
    · exact counts

theorem toList_set_bits {octets : Array UInt8} {b : Bool} (inside : i / 8 < octets.size) (len : Nat) :
    (bits (Bits.set octets i b) len).toList = (bits octets len).toList.set i (.bool b) := by
  refine List.ext_getElem? fun j => ?_
  rw [List.getElem?_set, toList, toList, List.getElem?_map, List.getElem?_map, List.length_map, List.length_range]
  by_cases used : j < len
  · rw [List.getElem?_range used, Option.map_some, Option.map_some, Bits.get_set inside]
    by_cases same : i = j
    · subst same
      rw [if_pos rfl, if_pos rfl, if_pos used]
    · rw [if_neg fun h => same h.symm, if_neg same]
  · rw [List.getElem?_eq_none (by rw [List.length_range]; omega), Option.map_none, Option.map_none]
    split
    · rename_i same
      rw [if_neg (same ▸ used)]
    · rfl

/-- An element that is put into its place lies there as its kind packs it, and all others as they did. -/
theorem put_packs (laid : c.LaidFor k) (inside : i < c.length) (put : c.put i kind v = .ok c') :
    ∃ w, k.Packs v w ∧ c'.LaidFor k ∧ c'.toList = c.toList.set i w := by
  cases c with
  | boxed items =>
    cases put
    refine ⟨v, ?_, laid, Array.toList_setIfInBounds ..⟩
    cases k <;> first | rfl | cases laid
  | bytes items =>
    cases laid
    obtain ⟨m, fits, rfl⟩ := map_eq_ok.mp put
    obtain ⟨counts, low, high⟩ := (packed_eq_ok (by decide)).mp fits
    refine ⟨.byte m.toNat.toUInt8, ⟨_, rfl, ?_⟩, rfl, ?_⟩
    · have number : ((m.toNat.toUInt8).toNat : Int) = m := by
        rw [UInt8.toNat_ofNat', Nat.mod_eq_of_lt (by omega)]
        omega
      rwa [number]
    · rw [toList, toList, Array.toList_setIfInBounds, List.map_set]
  | ints items =>
    cases laid
    obtain ⟨m, fits, rfl⟩ := map_eq_ok.mp put
    obtain ⟨counts, low, high⟩ := (packed_eq_ok (by decide)).mp fits
    refine ⟨.int (Int32.ofInt m), ⟨_, rfl, ?_⟩, rfl, ?_⟩
    · rwa [Int32.toInt_ofInt_of_le (by omega) (by omega)]
    · rw [toList, toList, Array.toList_setIfInBounds, List.map_set]
  | bits octets len =>
    obtain ⟨rfl, room, off⟩ := laid
    change i < len at inside
    have byte : i / 8 < octets.size := by omega
    obtain ⟨b, packs, rfl⟩ := put_bits_packs put
    refine ⟨_, packs, ⟨rfl, (Bits.size_set b).symm ▸ room, fun j out => ?_⟩, toList_set_bits byte len⟩
    rw [Bits.get_set byte, if_neg (by omega)]
    exact off j out

/-- What fits a packed place can be put into it. -/
theorem put_of_packs (laid : c.LaidFor k) (packs : k.Packs v w) (i : Nat) (kind : Kind) :
    ∃ c', c.put i kind v = .ok c' := by
  cases c with
  | boxed items => exact ⟨_, rfl⟩
  | bytes items =>
    cases laid
    obtain ⟨b, -, counts⟩ := packs
    have := b.toNat_lt
    exact ⟨_, map_eq_ok.mpr ⟨_, (packed_eq_ok (by decide)).mpr ⟨counts, by omega, by omega⟩, rfl⟩⟩
  | ints items =>
    cases laid
    obtain ⟨n, -, counts⟩ := packs
    exact ⟨_, map_eq_ok.mpr ⟨_, (packed_eq_ok (by decide)).mpr ⟨counts, n.le_toInt, Int.le_of_lt_add_one n.toInt_lt⟩, rfl⟩⟩
  | bits octets len =>
    obtain ⟨rfl, -⟩ := laid
    obtain ⟨b, -, rfl | counts⟩ := packs
    · exact ⟨_, rfl⟩
    · have number : ∀ b, v ≠ .bool b := by
        rintro _ rfl
        obtain ⟨⟨⟩, -⟩ | ⟨_, ⟨⟩, -⟩ := counts
      rw [put_bits number]
      exact ⟨_, map_eq_ok.mpr ⟨_, (packed_eq_ok (by decide)).mpr ⟨counts, by omega, by cases b <;> decide⟩, rfl⟩⟩

end Cells

/-! ## Arrays in memory -/

/-- Reading changes nothing. -/
theorem StoreM.arrayGet_keeps {a : Nat} {i : Int} {r : Except Fault Value} {s t : Store} (run : (arrayGet a i).run.run s = (r, t)) :
    t = s := by
  rw [arrayGet, run_get_bind] at run
  dsimp only at run
  split at run <;> cases run <;> rfl

/-- What is added lies behind the end. -/
theorem StoreM.arraySet_of_arrayAppend {a : Nat} {v : Value} {s t : Store} (run : (arrayAppend a v).run.run s = (.ok (), t)) :
    (arraySet a (s.array a).length v).run.run s = (.ok (), t) := by
  rw [arrayAppend, run_get_bind] at run
  dsimp only at run
  split at run
  · cases run
  · exact run

/-- What can be put into its place has no reason against it. -/
theorem StoreM.putFault?_of_put {c c' : Cells} {k : Kind} {v : Value} {i : Nat} (put : c.put i k v = .ok c') :
    putFault? c k v = none := by
  cases c with
  | boxed _ => rfl
  | bytes _ | ints _ =>
    obtain ⟨m, fits, -⟩ := Cells.map_eq_ok.mp put
    rw [putFault?, fits]
  | bits octets len =>
    by_cases truth : ∃ b, v = .bool b
    · obtain ⟨b, rfl⟩ := truth
      rfl
    · rw [Cells.put_bits fun b same => truth ⟨b, same⟩] at put
      obtain ⟨m, fits, -⟩ := Cells.map_eq_ok.mp put
      cases v with
      | bool b => rfl
      | _ =>
        rw [putFault?, fits]
        rintro _ ⟨⟩

section Lists

variable {s t : Store} {a n i : Nat} {k : Kind} {fixed : Bool} {vs : List Value} {v w : Value}

/-- An array in memory that is declared for a kind of elements, and whose elements are those of a list. -/
def Store.Lists (s : Store) (a : Nat) (k : Kind) (fixed : Bool) (vs : List Value) : Prop :=
  ∃ c : Cells, s.arrays[a]? = some ⟨k, fixed, c⟩ ∧ c.LaidFor k ∧ c.toList = vs

/-- Memory in which an array has a place for what is written to it: where the place is just behind the end, an array that
may grow has one more blank. -/
def Store.readied (s : Store) (a : Nat) (i : Int) : Store :=
  if i = (s.array a).length && !(s.array a).fixed then
    { s with arrays := s.arrays.modify a fun d => { d with cells := d.cells.grow (s.array a).element 1 } }
  else s

/-- A write goes on in memory in which the array has a place for what is written: the place is looked at, and the value is
converted and put there. -/
theorem StoreM.arraySet_readied (a : Nat) (i : Int) (v : Value) (s : Store) :
    (arraySet a i v).run.run s = (do
      let length := ((← get).array a).length
      if i < 0 || (length : Int) ≤ i then throw (outOfBounds i length)
      let w ← forElement (s.array a).element (s.array a).cells v
      arrayPut a i.toNat w : StoreM Unit).run.run (s.readied a i) := by
  rw [arraySet, run_get_bind, Store.readied]
  dsimp only
  split <;> rfl

/-- The elements of an array with a place for what is written to it. -/
def withRoom (k : Kind) (fixed : Bool) (vs : List Value) (i : Nat) : List Value :=
  if i = vs.length ∧ fixed = false then vs ++ [k.blank] else vs

theorem lt_withRoom (room : i < vs.length ∨ i = vs.length ∧ fixed = false) : i < (withRoom k fixed vs i).length := by
  rw [withRoom]
  split
  · rw [List.length_append, List.length_singleton]
    omega
  · exact room.resolve_right ‹_›

/-- What is put into an array changes its elements alone. -/
theorem StoreM.done_arrayPut {d : ArrayData} (lies : s.arrays[a]? = some d) (run : (arrayPut a i v).run.run s = (.ok (), t)) :
    ∃ c, d.cells.put i (s.kindOf v) v = .ok c ∧ t.arrays[a]? = some { d with cells := c } := by
  rw [arrayPut, run_kindOf, run_get_bind, Store.array, lies, Option.getD_some] at run
  split at run
  · cases run
  rename_i fits
  obtain ⟨c, put⟩ := put_of_putFault? (i := i) fits
  cases run
  refine ⟨c, put, ?_⟩
  change (s.arrays.modify a _)[a]? = _
  rw [Array.getElem?_modify, if_pos rfl, lies]
  dsimp only [Option.map_some]
  rw [put]

/-- A computation fails because of a place outside an array, and changes nothing. -/
def StoreM.Misses {α : Type} (x : StoreM α) (s : Store) : Prop := ∃ f, f.kind = .index ∧ x.run.run s = (.error f, s)

namespace Store.Lists

theorem array_eq (h : s.Lists a k fixed vs) :
    (s.array a).element = k ∧ (s.array a).fixed = fixed ∧ (s.array a).length = vs.length ∧ (s.array a).cells.toList = vs ∧
      (s.array a).cells.LaidFor k := by
  obtain ⟨c, lies, laid, rfl⟩ := h
  rw [Store.array, lies, Option.getD_some]
  exact ⟨rfl, rfl, c.length_toList.symm, rfl, laid⟩

theorem length_eq (h : s.Lists a k fixed vs) : (s.array a).length = vs.length := h.array_eq.2.2.1

/-- An array lies in memory as it did while the memory keeps it. -/
theorem kept (h : s.Lists a k fixed vs) (same : t.arrays[a]? = s.arrays[a]?) : t.Lists a k fixed vs := by
  obtain ⟨c, lies, h⟩ := h
  exact ⟨c, same.trans lies, h⟩

/-- The conversion of a value for an array writes to no array. -/
theorem converted (h : s.Lists a k fixed vs) {element : Kind} {c : Cells}
    (run : (StoreM.forElement element c v).run.run s = (.ok w, t)) : t.Lists a k fixed vs := by
  obtain ⟨c', lies, laid⟩ := h
  obtain ⟨later, -⟩ := (StoreM.makes_forElement v element c).adds run
  obtain ⟨d, lies', -, same⟩ := later.arrays a _ lies
  rw [same id] at lies'
  exact ⟨c', lies', laid⟩

theorem run_arrayGet (h : s.Lists a k fixed vs) (here : vs[i]? = some w) : (StoreM.arrayGet a i).run.run s = (.ok w, s) := by
  obtain ⟨-, -, -, elements, -⟩ := h.array_eq
  rw [StoreM.arrayGet, StoreM.run_get_bind]
  dsimp only
  rw [if_neg (by omega), Int.toNat_natCast, Cells.get?_eq, elements, here]
  rfl

theorem arrayGet_misses (h : s.Lists a k fixed vs) {i : Int} (out : i < 0 ∨ vs.length ≤ i) : (StoreM.arrayGet a i).Misses s := by
  obtain ⟨-, -, -, elements, -⟩ := h.array_eq
  refine ⟨StoreM.outOfBounds i (s.array a).length, rfl, ?_⟩
  have none : (if i < 0 then none else (s.array a).cells.get? i.toNat) = none := by
    split
    · rfl
    · rw [Cells.get?_eq, elements, List.getElem?_eq_none (by omega)]
  rw [StoreM.arrayGet, StoreM.run_get_bind]
  dsimp only
  rw [none]
  rfl

theorem arraySet_misses (h : s.Lists a k fixed vs) {i : Int} (out : i < 0 ∨ vs.length < i ∨ i = vs.length ∧ fixed = true) (v : Value) :
    (StoreM.arraySet a i v).Misses s := by
  obtain ⟨-, still, length, -⟩ := h.array_eq
  have notEnd : ¬((decide (i = (s.array a).length) && !(s.array a).fixed) = true) := by
    rw [still, length, Bool.and_eq_true, decide_eq_true_eq, Bool.not_eq_true']
    rintro ⟨rfl, grows⟩
    obtain out | out | ⟨-, stays⟩ := out
    · omega
    · omega
    · cases stays.symm.trans grows
  have outside : (decide (i < 0) || decide (((s.array a).length : Int) ≤ i)) = true := by
    rw [length, Bool.or_eq_true, decide_eq_true_eq, decide_eq_true_eq]
    omega
  refine ⟨StoreM.outOfBounds i (s.array a).length, rfl, ?_⟩
  rw [StoreM.arraySet, StoreM.run_get_bind]
  dsimp only
  rw [if_neg notEnd, StoreM.run_get_bind, if_pos outside]
  rfl

theorem arrayAppend_misses (h : s.Lists a k true vs) (v : Value) : (StoreM.arrayAppend a v).Misses s := by
  obtain ⟨-, still, -⟩ := h.array_eq
  refine ⟨Fault.badIndex ("cannot append to fixed array of length " ++ toString (s.array a).length), rfl, ?_⟩
  rw [StoreM.arrayAppend, StoreM.run_get_bind]
  dsimp only
  rw [if_pos still]
  rfl

/-- The array that is written to, once it has a place for what is written. -/
theorem readied (h : s.Lists a k fixed vs) (i : Nat) :
    (s.readied a i).Lists a k fixed (withRoom k fixed vs i) := by
  obtain ⟨element, still, length, -⟩ := h.array_eq
  rw [Store.readied, withRoom, element, still, length]
  by_cases grows : i = vs.length ∧ fixed = false
  · obtain ⟨c, lies, laid, rfl⟩ := h
    rw [if_pos grows, if_pos (by rw [grows.1, grows.2]; simp)]
    refine ⟨c.grow k 1, ?_, Cells.laidFor_grow laid 1, Cells.toList_grow laid 1⟩
    change (s.arrays.modify a _)[a]? = _
    rw [Array.getElem?_modify, if_pos rfl, lies]
    rfl
  · rw [if_neg grows, if_neg (by simpa [Int.natCast_inj] using grows)]
    exact h

/-- A write inside an array, or just behind the end of one that may grow, converts the value in memory in which the array has
a place for it, and puts it there. -/
theorem run_arraySet (h : s.Lists a k fixed vs) (room : i < vs.length ∨ i = vs.length ∧ fixed = false) (v : Value) :
    (StoreM.arraySet a i v).run.run s = (do
      let w ← StoreM.forElement k (s.array a).cells v
      StoreM.arrayPut a i w : StoreM Unit).run.run (s.readied a i) := by
  obtain ⟨element, still, length, -⟩ := h.array_eq
  have inside : ¬(decide ((i : Int) < 0) || decide ((((s.readied a i).array a).length : Int) ≤ i)) = true := by
    have longer : i < ((s.readied a i).array a).length := by
      rw [(h.readied i).length_eq]
      exact lt_withRoom room
    rw [Bool.or_eq_true, decide_eq_true_eq, decide_eq_true_eq]
    omega
  rw [StoreM.arraySet_readied, StoreM.run_get_bind]
  dsimp only
  rw [if_neg inside, element, Int.toNat_natCast]

/-- What is put into a place that there is lies there as its kind packs it. -/
theorem arrayPut_done (h : s.Lists a k fixed vs) (inside : i < vs.length)
    (run : (StoreM.arrayPut a i v).run.run s = (.ok (), t)) : ∃ w, k.Packs v w ∧ t.Lists a k fixed (vs.set i w) := by
  obtain ⟨c, lies, laid, rfl⟩ := h
  obtain ⟨c', put, lies'⟩ := StoreM.done_arrayPut lies run
  obtain ⟨w, packs, laid', elements⟩ := Cells.put_packs laid (c.length_toList ▸ inside) put
  exact ⟨w, packs, c', lies', laid', elements⟩

/-- What fits a packed place is put into it. -/
theorem arrayPut_of_packs (h : s.Lists a k fixed vs) (packs : k.Packs v w) : ∃ t, (StoreM.arrayPut a i v).run.run s = (.ok (), t) := by
  obtain ⟨c, lies, laid, rfl⟩ := h
  obtain ⟨c', put⟩ := Cells.put_of_packs laid packs i (s.kindOf v)
  rw [StoreM.arrayPut, StoreM.run_kindOf, StoreM.run_get_bind, Store.array, lies, Option.getD_some]
  dsimp only
  rw [StoreM.putFault?_of_put put]
  exact ⟨_, rfl⟩

end Store.Lists

/-- A value is converted for an array, and packed into its place. -/
theorem Store.converts_iff {c : Cells} (laid : c.LaidFor k) :
    s.Converts k v w ↔ ∃ u t, (StoreM.forElement k c v).run.run s = (.ok u, t) ∧ k.Packs u w := by
  have asIs (run : (StoreM.forElement k c v).run.run s = (.ok v, s)) (same : s.Converts k v w ↔ k.Packs v w) :
      s.Converts k v w ↔ ∃ u t, (StoreM.forElement k c v).run.run s = (.ok u, t) ∧ k.Packs u w := by
    rw [same, run]
    constructor
    · exact fun packs => ⟨v, s, rfl, packs⟩
    · rintro ⟨_, _, ⟨⟩, packs⟩
      exact packs
  have converted (run : (StoreM.forElement k c v).run.run s = (StoreM.coerce v k).run.run s)
      (same : s.Converts k v w ↔ ∃ t, (StoreM.coerce v k).run.run s = (.ok w, t)) (packs : ∀ u, k.Packs u w ↔ w = u) :
      s.Converts k v w ↔ ∃ u t, (StoreM.forElement k c v).run.run s = (.ok u, t) ∧ k.Packs u w := by
    rw [same, run]
    constructor
    · rintro ⟨t, run⟩
      exact ⟨w, t, run, (packs w).mpr rfl⟩
    · rintro ⟨u, t, run, packed⟩
      rw [(packs u).mp packed]
      exact ⟨t, run⟩
  cases c with
  | bytes _ | ints _ =>
    cases laid
    exact asIs rfl .rfl
  | bits _ _ =>
    cases laid.1
    exact asIs rfl .rfl
  | boxed _ =>
    cases k with
    | byte | bitmap | intMap => cases laid
    | array => exact asIs rfl .rfl
    | any => exact converted (StoreM.coerce_of_holds (.inr (.inl (.inl rfl)))).symm .rfl fun _ => .rfl
    | _ => exact converted rfl .rfl fun _ => .rfl

namespace Store.Lists

/-- A write that succeeds is one inside the array, or just behind the end of one that may grow. What the value is converted
to lies at its place then, and all other elements are as they were. -/
theorem arraySet_done (h : s.Lists a k fixed vs) {i : Int} (run : (StoreM.arraySet a i v).run.run s = (.ok (), t)) :
    ∃ (j : Nat) (w : Value), i = j ∧ (j < vs.length ∨ j = vs.length ∧ fixed = false) ∧ (s.readied a j).Converts k v w ∧
      t.Lists a k fixed ((withRoom k fixed vs j).set j w) := by
  by_cases place : 0 ≤ i ∧ (i < vs.length ∨ i = vs.length ∧ fixed = false)
  · obtain ⟨natural, room⟩ := place
    obtain ⟨j, rfl⟩ := Int.eq_ofNat_of_zero_le natural
    have room : j < vs.length ∨ j = vs.length ∧ fixed = false := by simpa only [Int.ofNat_lt, Int.natCast_inj] using room
    refine ⟨j, ?_⟩
    rw [h.run_arraySet room] at run
    obtain ⟨u, t', element, put⟩ := Signature.run_bind_ok run
    obtain ⟨w, packs, lists⟩ := ((h.readied j).converted element).arrayPut_done (lt_withRoom room) put
    exact ⟨w, rfl, room, (Store.converts_iff h.array_eq.2.2.2.2).mpr ⟨u, t', element, packs⟩, lists⟩
  · obtain ⟨f, -, fails⟩ := h.arraySet_misses (i := i) (by cases fixed <;> simp at place ⊢ <;> omega) v
    cases fails.symm.trans run

/-- A write inside the array, or just behind the end of one that may grow, succeeds when the value is converted. -/
theorem arraySet_of_converts (h : s.Lists a k fixed vs) (room : i < vs.length ∨ i = vs.length ∧ fixed = false)
    (converts : (s.readied a i).Converts k v w) : ∃ t, (StoreM.arraySet a i v).run.run s = (.ok (), t) := by
  obtain ⟨u, t', element, packs⟩ := (Store.converts_iff h.array_eq.2.2.2.2).mp converts
  rw [h.run_arraySet room, ExceptT.run_bind, StateT.run_bind, element]
  exact ((h.readied i).converted element).arrayPut_of_packs packs

end Store.Lists

end Lists

/-! ## Arrays after any reads and writes -/

section History

variable {s t : Store} {a n i : Nat} {element : Kind} {fixed : Bool} {ws : List ArrayWrite} {v w : Value}

/-- A write to an array: the place, the value, and the memory in which it was written. -/
structure ArrayWrite where
  place : Nat
  value : Value
  memory : Store

/-- How many writes, the last one first, were just behind the end of an array that began with some elements. -/
def ArrayWrite.growing (n : Nat) : List ArrayWrite → Nat
  | [] => 0
  | x :: ws => ArrayWrite.growing n ws + if x.place = n + ArrayWrite.growing n ws then 1 else 0

/-- What a place shows after some writes, the last one first: what the last value that was written there was converted to when
it was, or the blank of the kind when there was none. -/
def ArrayWrite.Shows (a : Nat) (element : Kind) (ws : List ArrayWrite) (i : Nat) (w : Value) : Prop :=
  (ws.find? (·.place = i)).elim (w = element.blank) fun x => (x.memory.readied a i).Converts element x.value w

/-- What packed arrays hold. -/
def Kind.Ranges (k : Kind) (w : Value) : Prop :=
  match k with
  | .byte => ∃ b : UInt8, w = .byte b ∧ b.toNat ≤ 255
  | .bitmap => ∃ b : Bool, w = .bool b
  | .intMap => ∃ n : Int32, w = .int n ∧ -2147483648 ≤ n.toInt ∧ n.toInt ≤ 2147483647
  | _ => True

/-- Memory after reads and writes that succeeded, of a new array with some blanks. Between them anything may happen that leaves
the array as it is. -/
inductive Store.Handled (element : Kind) (n : Nat) (fixed : Bool) (a : Nat) : List ArrayWrite → Store → Prop
  | new {s t : Store} (run : (StoreM.newZeros element n fixed).run.run s = (.ok (.array a), t)) : Handled element n fixed a [] t
  | aside {ws : List ArrayWrite} {s t : Store} (before : Handled element n fixed a ws s) (kept : t.arrays[a]? = s.arrays[a]?) :
    Handled element n fixed a ws t
  | get {ws : List ArrayWrite} {s t : Store} {i : Int} {w : Value} (before : Handled element n fixed a ws s)
    (run : (StoreM.arrayGet a i).run.run s = (.ok w, t)) : Handled element n fixed a ws t
  | set {ws : List ArrayWrite} {s t : Store} {i : Int} {v : Value} (before : Handled element n fixed a ws s)
    (run : (StoreM.arraySet a i v).run.run s = (.ok (), t)) : Handled element n fixed a (⟨i.toNat, v, s⟩ :: ws) t
  | append {ws : List ArrayWrite} {s t : Store} {v : Value} (before : Handled element n fixed a ws s)
    (run : (StoreM.arrayAppend a v).run.run s = (.ok (), t)) : Handled element n fixed a (⟨(s.array a).length, v, s⟩ :: ws) t

/-- An array is a list to whoever reads and writes it. -/
structure Store.ActsAsList (s : Store) (a : Nat) (element : Kind) (n : Nat) (fixed : Bool) (ws : List ArrayWrite) : Prop where
  /-- The length is the first one and the number of writes just behind the end. -/
  length : (s.array a).length = n + ArrayWrite.growing n ws
  /-- An array of a fixed length keeps it. -/
  stays : fixed = true → (s.array a).length = n
  /-- Every place inside is read as what was written there last, or the blank; and packed elements are in their range. -/
  reads : ∀ i < (s.array a).length, ∃ w, (StoreM.arrayGet a i).run.run s = (.ok w, s) ∧
    ArrayWrite.Shows a element ws i w ∧ element.Ranges w
  /-- No place outside is read. -/
  outside : ∀ i : Int, i < 0 ∨ (s.array a).length ≤ i → (StoreM.arrayGet a i).Misses s
  /-- No place outside is written, except the one just behind the end of an array that may grow. -/
  refuses : ∀ i : Int, i < 0 ∨ (s.array a).length < i ∨ i = (s.array a).length ∧ fixed = true →
    ∀ v, (StoreM.arraySet a i v).Misses s
  /-- Nothing is added to an array of a fixed length. -/
  full : fixed = true → ∀ v, (StoreM.arrayAppend a v).Misses s
  /-- All other writes succeed just when the value is converted. -/
  takes : ∀ i, i < (s.array a).length ∨ i = (s.array a).length ∧ fixed = false → ∀ v,
    (∃ t, (StoreM.arraySet a i v).run.run s = (.ok (), t)) ↔ ∃ w, (s.readied a i).Converts element v w
  /-- A write changes no other place. -/
  others : ∀ (i : Int) v t, (StoreM.arraySet a i v).run.run s = (.ok (), t) → ∀ j < (s.array a).length, i ≠ j →
    ((StoreM.arrayGet a j).run.run t).1 = ((StoreM.arrayGet a j).run.run s).1

/-- What was written to an array, told by the list of its elements. -/
structure ArrayWrite.Tells (a : Nat) (element : Kind) (n : Nat) (fixed : Bool) (ws : List ArrayWrite)
    (vs : List Value) : Prop where
  length : vs.length = n + ArrayWrite.growing n ws
  stays : fixed = true → vs.length = n
  shows : ∀ i w, vs[i]? = some w → ArrayWrite.Shows a element ws i w ∧ element.Ranges w

theorem Kind.ranges_blank (k : Kind) : k.Ranges k.blank := by
  cases k with
  | byte => exact ⟨0, rfl, by decide⟩
  | bitmap => exact ⟨false, rfl⟩
  | intMap => exact ⟨0, rfl, by decide⟩
  | _ => trivial

/-- What an array holds for a value is in the range of its kind. -/
theorem Store.Converts.ranges (h : s.Converts element v w) : element.Ranges w := by
  cases element with
  | byte =>
    obtain ⟨b, rfl, -⟩ := h
    exact ⟨b, rfl, Nat.le_of_lt_succ b.toNat_lt⟩
  | bitmap =>
    obtain ⟨b, rfl, -⟩ := h
    exact ⟨b, rfl⟩
  | intMap =>
    obtain ⟨m, rfl, -⟩ := h
    exact ⟨m, rfl, m.le_toInt, Int.le_of_lt_add_one m.toInt_lt⟩
  | _ => trivial

namespace ArrayWrite.Tells

variable {vs : List Value}

theorem new (a : Nat) (element : Kind) (n : Nat) (fixed : Bool) :
    ArrayWrite.Tells a element n fixed [] (List.replicate n element.blank) where
  length := List.length_replicate
  stays := fun _ => List.length_replicate
  shows := fun i w here => by
    obtain rfl := List.eq_of_mem_replicate (List.mem_of_getElem? here)
    exact ⟨rfl, element.ranges_blank⟩

/-- A write adds to what is told. -/
theorem write (h : ArrayWrite.Tells a element n fixed ws vs) {j : Nat} (room : j < vs.length ∨ j = vs.length ∧ fixed = false)
    (converts : (s.readied a j).Converts element v w) :
    ArrayWrite.Tells a element n fixed (⟨j, v, s⟩ :: ws) ((withRoom element fixed vs j).set j w) where
  length := by
    rw [List.length_set, withRoom, ArrayWrite.growing, ← Nat.add_assoc, ← h.length]
    obtain inside | atEnd := room
    · rw [if_neg fun last => Nat.ne_of_lt inside last.1, if_neg (Nat.ne_of_lt inside)]
      rfl
    · rw [if_pos atEnd, if_pos atEnd.1, List.length_append, List.length_singleton]
  stays := fun still => by
    rw [List.length_set, withRoom, if_neg fun last => by cases still.symm.trans last.2]
    exact h.stays still
  shows := fun i u here => by
    rw [List.getElem?_set] at here
    by_cases same : j = i
    · subst same
      rw [if_pos rfl, if_pos (lt_withRoom room)] at here
      cases here
      refine ⟨?_, converts.ranges⟩
      rw [ArrayWrite.Shows, List.find?_cons_of_pos (by simp)]
      exact converts
    · rw [if_neg same] at here
      have before : vs[i]? = some u := by
        rw [withRoom] at here
        split at here
        · rename_i atEnd
          obtain ⟨inside, -⟩ := List.getElem?_eq_some_iff.mp here
          rw [List.length_append, List.length_singleton] at inside
          rwa [List.getElem?_append_left (by omega)] at here
        · exact here
      refine ⟨?_, (h.shows i u before).2⟩
      rw [ArrayWrite.Shows, List.find?_cons_of_neg (by simpa using same)]
      exact (h.shows i u before).1

end ArrayWrite.Tells

/-- Reads and writes that succeed keep an array one of a list that its writes tell. -/
theorem Store.Handled.tells (h : Handled element n fixed a ws s) :
    ∃ vs, s.Lists a element fixed vs ∧ ArrayWrite.Tells a element n fixed ws vs := by
  have written {ws : List ArrayWrite} {s t : Store} {vs : List Value} {i : Int} {v : Value} (lists : s.Lists a element fixed vs)
      (tells : ArrayWrite.Tells a element n fixed ws vs) (run : (StoreM.arraySet a i v).run.run s = (.ok (), t)) :
      ∃ vs, t.Lists a element fixed vs ∧ ArrayWrite.Tells a element n fixed (⟨i.toNat, v, s⟩ :: ws) vs := by
    obtain ⟨j, w, rfl, room, converts, lists'⟩ := lists.arraySet_done run
    exact ⟨_, lists', tells.write room converts⟩
  induction h with
  | new run =>
    cases run
    refine ⟨_, ⟨Cells.fresh element n, ?_, Cells.laidFor_fresh element n, Cells.toList_fresh element n⟩, .new _ element n fixed⟩
    exact Array.getElem?_push_size
  | aside _ kept ih =>
    obtain ⟨vs, lists, tells⟩ := ih
    exact ⟨vs, lists.kept kept, tells⟩
  | get _ run ih =>
    obtain ⟨vs, lists, tells⟩ := ih
    cases StoreM.arrayGet_keeps run
    exact ⟨vs, lists, tells⟩
  | set _ run ih =>
    obtain ⟨vs, lists, tells⟩ := ih
    exact written lists tells run
  | append _ run ih =>
    obtain ⟨vs, lists, tells⟩ := ih
    exact written lists tells (StoreM.arraySet_of_arrayAppend run)

/-- **An array is a list.** A new array of any kind of elements, after any reads and writes that succeed, has the length
it began with and one more for each write just behind its end; every place holds what was written there last, converted for
the kind, or the blank of the kind; a place outside is neither read nor written; and an array of a fixed length keeps it. -/
theorem Store.Handled.actsAsList (h : Handled element n fixed a ws s) : s.ActsAsList a element n fixed ws := by
  obtain ⟨vs, lists, tells⟩ := h.tells
  refine ⟨?_, ?_, ?_, ?_, ?_, ?_, ?_, ?_⟩ <;> try rw [lists.length_eq]
  · exact tells.length
  · exact tells.stays
  · intro i inside
    have here := List.getElem?_eq_getElem inside
    exact ⟨vs[i], lists.run_arrayGet here, tells.shows i _ here⟩
  · exact fun i out => lists.arrayGet_misses out
  · exact fun i out => lists.arraySet_misses out
  · rintro rfl v
    exact lists.arrayAppend_misses v
  · intro i room v
    constructor
    · rintro ⟨t, run⟩
      obtain ⟨j, w, same, -, converts, -⟩ := lists.arraySet_done run
      cases Int.ofNat_inj.mp same
      exact ⟨w, converts⟩
    · rintro ⟨w, converts⟩
      exact lists.arraySet_of_converts room converts
  · intro i v t run j inside other
    obtain ⟨k, w, rfl, room, -, lists'⟩ := lists.arraySet_done run
    have here := List.getElem?_eq_getElem inside
    have there : ((withRoom element fixed vs k).set k w)[j]? = some vs[j] := by
      rw [List.getElem?_set, if_neg fun same => other (congrArg Int.ofNat same), withRoom]
      split
      · rw [List.getElem?_append_left inside, here]
      · exact here
    rw [lists.run_arrayGet here, lists'.run_arrayGet there]

/-- A ninth bit takes another byte, and is no other bit. -/
theorem Store.bitmap_of_nine : ∃ ws s, Store.Handled .bitmap 8 false 0 ws s ∧ s.ActsAsList 0 .bitmap 8 false ws ∧
    (s.array 0).length = 9 ∧ ((StoreM.arrayGet 0 8).run.run s).1 = .ok (.bool true) ∧
    ((StoreM.arrayGet 0 0).run.run s).1 = .ok (.bool false) := by
  have new : Store.Handled .bitmap 8 false 0 [] _ := .new (s := Store.initial) rfl
  have appended := Store.Handled.append (v := .bool true) new rfl
  have handled := Store.Handled.set (i := 7) (v := .int 1) appended rfl
  exact ⟨_, _, handled, Store.Handled.actsAsList handled, rfl, rfl, rfl⟩

end History

end ScriptEngine
