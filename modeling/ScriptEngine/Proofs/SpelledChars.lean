import Mathlib.Order.Bounds.Basic
import ScriptEngine.Proofs.OrderedValues
import ScriptEngine.Proofs.TrimmedTexts
/-!
# Characters in the bytes that spell them

A list of characters is read back from the bytes that spell it. No character begins inside another one, and none is the
beginning of another, so that a list of characters stands in a text exactly where its bytes stand in the bytes of the text.
-/

namespace ScriptEngine.Text

variable {b : UInt8} {c d : Char} {cs ds fs : List Char} {as bs : List UInt8} {i j k : Nat}

/-! ## Reading back what is spelled -/

/-- The first byte of a character continues no other one, and all other bytes do. -/
theorem encodeChar_front (c : Char) :
    ∃ b own, encodeChar c = b :: own ∧ isContinuation b = false ∧ ∀ x ∈ own, isContinuation x = true := by
  have top := toNat_lt_of_char c
  have follows (n : Nat) : isContinuation (0x80 + n % 64).toUInt8 = true := by
    rw [isContinuation_iff, toNat_toUInt8 (by omega)]
    omega
  have starts {n : Nat} (h : n < 256) (outside : n < 0x80 ∨ 0xC0 ≤ n) : isContinuation n.toUInt8 = false := by
    rw [Bool.eq_false_iff]
    intro inside
    rw [isContinuation_iff, toNat_toUInt8 h] at inside
    omega
  unfold encodeChar
  dsimp only
  split
  · exact ⟨_, _, rfl, starts (by omega) (by omega), nofun⟩
  split
  · refine ⟨_, _, rfl, starts (by omega) (by omega), ?_⟩
    exact List.forall_mem_cons.mpr ⟨follows _, nofun⟩
  split
  · refine ⟨_, _, rfl, starts (by omega) (by omega), ?_⟩
    exact List.forall_mem_cons.mpr ⟨follows _, List.forall_mem_cons.mpr ⟨follows _, nofun⟩⟩
  · refine ⟨_, _, rfl, starts (by omega) (by omega), ?_⟩
    have last : ∀ x ∈ [(0x80 + c.toNat % 64).toUInt8], isContinuation x = true := List.forall_mem_cons.mpr ⟨follows _, nofun⟩
    exact List.forall_mem_cons.mpr ⟨follows _, List.forall_mem_cons.mpr ⟨follows _, last⟩⟩

/-- Some character is read from the bytes of a character, whatever follows. -/
theorem readChar?_isSome {own : List UInt8} (front : encodeChar c = b :: own) (rest : List UInt8) :
    (readChar? b (own ++ rest)).isSome = true := by
  have valid := c.valid
  have value : c.val.toNat = c.toNat := rfl
  unfold UInt32.isValidChar Nat.isValidChar at valid
  rw [value] at valid
  unfold encodeChar at front
  dsimp only at front
  unfold readChar?
  split at front
  · obtain ⟨rfl, rfl⟩ := List.cons.inj front
    rw [if_pos (by rw [UInt8.lt_iff_toNat_lt, toNat_toUInt8 (by omega)]; assumption)]
    rfl
  split at front
  · obtain ⟨rfl, rfl⟩ := List.cons.inj front
    have first : (0xC0 + c.toNat / 64).toUInt8.toNat = 0xC0 + c.toNat / 64 := toNat_toUInt8 (by omega)
    have second : (0x80 + c.toNat % 64).toUInt8.toNat = 0x80 + c.toNat % 64 := toNat_toUInt8 (by omega)
    simp only [List.cons_append, List.nil_append, UInt8.lt_iff_toNat_lt, UInt8.le_iff_toNat_le, isContinuation, Bool.and_eq_true,
      decide_eq_true_eq, first, second, UInt8.reduceToNat]
    rw [if_neg (by omega), if_pos (by omega), if_pos (by omega)]
    rfl
  split at front
  · obtain ⟨rfl, rfl⟩ := List.cons.inj front
    have first : (0xE0 + c.toNat / 4096).toUInt8.toNat = 0xE0 + c.toNat / 4096 := toNat_toUInt8 (by omega)
    have second : (0x80 + c.toNat / 64 % 64).toUInt8.toNat = 0x80 + c.toNat / 64 % 64 := toNat_toUInt8 (by omega)
    have third : (0x80 + c.toNat % 64).toUInt8.toNat = 0x80 + c.toNat % 64 := toNat_toUInt8 (by omega)
    simp only [List.cons_append, List.nil_append, UInt8.lt_iff_toNat_lt, UInt8.le_iff_toNat_le, isContinuation, Bool.and_eq_true,
      decide_eq_true_eq, first, second, third, UInt8.reduceToNat, ← UInt8.toNat_inj]
    rw [if_neg (by omega), if_neg (by omega), if_pos (by omega)]
    split_ifs <;> grind
  · obtain ⟨rfl, rfl⟩ := List.cons.inj front
    have first : (0xF0 + c.toNat / 262144).toUInt8.toNat = 0xF0 + c.toNat / 262144 := toNat_toUInt8 (by omega)
    have second : (0x80 + c.toNat / 4096 % 64).toUInt8.toNat = 0x80 + c.toNat / 4096 % 64 := toNat_toUInt8 (by omega)
    have third : (0x80 + c.toNat / 64 % 64).toUInt8.toNat = 0x80 + c.toNat / 64 % 64 := toNat_toUInt8 (by omega)
    have fourth : (0x80 + c.toNat % 64).toUInt8.toNat = 0x80 + c.toNat % 64 := toNat_toUInt8 (by omega)
    simp only [List.cons_append, List.nil_append, UInt8.lt_iff_toNat_lt, UInt8.le_iff_toNat_le, isContinuation, Bool.and_eq_true,
      decide_eq_true_eq, first, second, third, fourth, UInt8.reduceToNat, ← UInt8.toNat_inj]
    rw [if_neg (by omega), if_neg (by omega), if_neg (by omega)]
    split_ifs <;> grind

/-- No character is the beginning of another one. -/
theorem encodeChar_append_inj (h : encodeChar c ++ as = encodeChar d ++ bs) : c = d ∧ as = bs := by
  have self (xs : List UInt8) : compareBytes xs xs = .eq := by
    have := compareBytes_append xs [] []
    rwa [List.append_nil] at this
  rcases Nat.lt_trichotomy c.toNat d.toNat with less | same | greater
  · have apart : compareBytes (encodeChar c ++ as) (encodeChar d ++ bs) = .lt := compareBytes_encodeChar less
    rw [h, self] at apart
    cases apart
  · obtain rfl : c = d := Char.ext (UInt32.toNat_inj.mp same)
    exact ⟨rfl, List.append_cancel_left h⟩
  · have apart : compareBytes (encodeChar d ++ bs) (encodeChar c ++ as) = .lt := compareBytes_encodeChar greater
    rw [h, self] at apart
    cases apart

/-- A character is read from its own bytes, whatever follows them. -/
theorem readChar?_encodeChar {own : List UInt8} (front : encodeChar c = b :: own) (rest : List UInt8) :
    readChar? b (own ++ rest) = some (c, own.length) := by
  obtain ⟨⟨d, n⟩, read⟩ := Option.isSome_iff_exists.mp (readChar?_isSome front rest)
  obtain ⟨spelled, enough⟩ := encodeChar_of_readChar? read
  -- two characters at the front of the same bytes are one
  have both : encodeChar d ++ (own ++ rest).drop n = encodeChar c ++ rest := by
    rw [spelled, front, List.cons_append, List.cons_append, List.take_append_drop]
  obtain ⟨rfl, -⟩ := encodeChar_append_inj both
  rw [spelled] at front
  have taken : (own ++ rest).take n = own := (List.cons.inj front).2
  have size : n = own.length := by
    rw [← taken, List.length_take_of_le enough]
  rw [read, size]

/-- Characters that are spelled are read back. -/
@[simp] theorem glyphs_ofChars (cs : List Char) : (ofChars cs).glyphs = cs.map Glyph.char := by
  show glyphsFrom (cs.flatMap encodeChar) 0 = cs.map Glyph.char
  induction cs with
  | nil => rfl
  | cons c cs ih =>
    obtain ⟨b, own, front, -, -⟩ := encodeChar_front c
    have read : readGlyph b (own ++ cs.flatMap encodeChar) = (.char c, own.length) := by
      rw [readGlyph, readChar?_encodeChar front]
    rw [List.flatMap_cons, front, List.cons_append, glyphsFrom, read, List.map_cons]
    dsimp only
    rw [glyphsFrom_drop, List.drop_left, ih]

@[simp] theorem chars_ofChars (cs : List Char) : (ofChars cs).chars = cs := by
  rw [chars, glyphs_ofChars, List.map_map]
  exact List.map_id' cs

theorem ofChars_append (xs ys : List Char) : ofChars (xs ++ ys) = ofChars xs ++ ofChars ys :=
  congrArg Text.mk List.flatMap_append

@[simp] theorem length_ofChars (cs : List Char) : (ofChars cs).length = cs.length := by
  rw [length, glyphs_ofChars, List.length_map]

theorem length_chars (t : Text) : t.chars.length = t.length := List.length_map _

/-- A well-formed text is what its characters spell. -/
theorem ofChars_chars {t : Text} (valid : t.isValid = true) : ofChars t.chars = t := by
  have spelled := bytes_of_isValid valid
  cases t
  exact congrArg Text.mk spelled.symm

/-! ## Characters among bytes -/

theorem length_le_flatMap (cs : List Char) : cs.length ≤ (cs.flatMap encodeChar).length := by
  induction cs with
  | nil => exact Nat.le_refl 0
  | cons c cs ih =>
    obtain ⟨b, own, front, -, -⟩ := encodeChar_front c
    rw [List.flatMap_cons, front, List.length_append, List.length_cons, List.length_cons]
    omega

/-- The bytes of characters begin with those of others just when the characters do. -/
theorem spelled_prefix_iff : fs.flatMap encodeChar <+: cs.flatMap encodeChar ↔ fs <+: cs := by
  constructor
  · intro front
    induction fs generalizing cs with
    | nil => exact List.nil_prefix
    | cons f fs ih =>
      obtain ⟨more, same⟩ := front
      cases cs with
      | nil =>
        obtain ⟨b, own, first, -, -⟩ := encodeChar_front f
        rw [List.flatMap_cons, first] at same
        cases same
      | cons c cs =>
        rw [List.flatMap_cons, List.flatMap_cons, List.append_assoc] at same
        obtain ⟨rfl, rest⟩ := encodeChar_append_inj same
        exact List.cons_prefix_cons.mpr ⟨rfl, ih ⟨more, rest⟩⟩
  · rintro ⟨more, rfl⟩
    rw [List.flatMap_append]
    exact List.prefix_append _ _

/-- Where a byte that continues no character stands, a character begins. -/
theorem exists_take {before rest : List UInt8} (split : cs.flatMap encodeChar = before ++ b :: rest)
    (starts : isContinuation b = false) :
    ∃ i, i ≤ cs.length ∧ before = (cs.take i).flatMap encodeChar ∧ b :: rest = (cs.drop i).flatMap encodeChar := by
  induction cs generalizing before with
  | nil => cases before <;> cases split
  | cons c cs ih =>
    have later {more : List UInt8} (here : before = encodeChar c ++ more) (rest' : cs.flatMap encodeChar = more ++ b :: rest) :
        ∃ i, i ≤ (c :: cs).length ∧ before = ((c :: cs).take i).flatMap encodeChar ∧
          b :: rest = ((c :: cs).drop i).flatMap encodeChar := by
      obtain ⟨i, inside, front, back⟩ := ih rest'
      refine ⟨i + 1, Nat.succ_le_succ inside, ?_, back⟩
      rw [List.take_succ_cons, List.flatMap_cons, here, front]
    rw [List.flatMap_cons] at split
    rcases List.append_eq_append_iff.mp split with ⟨more, here, rest'⟩ | ⟨more, here, rest'⟩
    · exact later here rest'
    · cases more with
      | nil =>
        rw [List.append_nil] at here
        exact later (here.symm.trans (List.append_nil _).symm) rest'.symm
      | cons x more =>
        obtain ⟨rfl, -⟩ := List.cons.inj rest'
        cases before with
        | nil => exact ⟨0, Nat.zero_le _, rfl, split.symm⟩
        | cons first before =>
          -- the byte would lie inside the character and continue it
          obtain ⟨_, own, front, -, follow⟩ := encodeChar_front c
          rw [front] at here
          obtain ⟨-, rfl⟩ := List.cons.inj here
          have inside := follow b (by simp)
          rw [starts] at inside
          cases inside

/-! ## Places -/

/-- The places of a list in another one, by the number of elements in front of them. -/
def places {α : Type} (p t : List α) : Set Nat := {i | i ≤ t.length ∧ p <+: t.drop i}

section Places

variable {α : Type} {p t : List α} {a : α}

theorem zero_mem_places : 0 ∈ places p t ↔ p <+: t := by
  simp [places]

theorem succ_mem_places : i + 1 ∈ places p (a :: t) ↔ i ∈ places p t := by
  simp [places]

theorem places_nil : places ([] : List α) t = {i | i ≤ t.length} := by
  simp [places]

theorem places_of_nil (h : p ≠ []) : places p [] = ∅ := by
  ext i
  simp [places, h]

/-- A list stands in another at a place when it is what is taken there. -/
theorem mem_places_iff_take : i ∈ places p t ↔ i ≤ t.length ∧ (t.drop i).take p.length = p := by
  show _ ∧ _ ↔ _ ∧ _
  rw [List.prefix_iff_eq_take, eq_comm]

end Places

/-- The first place in a list of bytes is found. -/
theorem isLeast_findBytes (h : findBytes as bs = some k) : IsLeast (places as bs) k := by
  induction bs generalizing k with
  | nil =>
    obtain ⟨empty, zero⟩ := Option.ite_none_right_eq_some.mp h
    obtain rfl := Option.some.inj zero
    rw [List.isEmpty_iff] at empty
    subst empty
    exact ⟨zero_mem_places.mpr List.nil_prefix, fun _ _ => Nat.zero_le _⟩
  | cons b bs ih =>
    rw [findBytes] at h
    split at h
    · rename_i front
      obtain rfl := Option.some.inj h
      rw [List.isPrefixOf_iff_prefix] at front
      exact ⟨zero_mem_places.mpr front, fun _ _ => Nat.zero_le _⟩
    · rename_i other
      obtain ⟨n, found, rfl⟩ := Option.map_eq_some_iff.mp h
      obtain ⟨there, first⟩ := ih found
      refine ⟨succ_mem_places.mpr there, ?_⟩
      intro i mem
      cases i with
      | zero => exact absurd (List.isPrefixOf_iff_prefix.mpr (zero_mem_places.mp mem)) other
      | succ i => exact Nat.succ_le_succ (first (succ_mem_places.mp mem))

/-- What is not found is nowhere. -/
theorem places_of_findBytes (h : findBytes as bs = none) : places as bs = ∅ := by
  induction bs with
  | nil =>
    refine places_of_nil ?_
    rintro rfl
    cases h
  | cons b bs ih =>
    rw [findBytes] at h
    split at h
    · cases h
    · rename_i other
      have later := ih (Option.map_eq_none_iff.mp h)
      ext i
      cases i with
      | zero => simpa [zero_mem_places] using other
      | succ i => rw [succ_mem_places, later]; rfl

theorem places_of_findLastBytes (h : findLastBytes as bs = none) : places as bs = ∅ := by
  induction bs with
  | nil =>
    refine places_of_nil ?_
    rintro rfl
    cases h
  | cons b bs ih =>
    rw [findLastBytes] at h
    split at h
    · cases h
    · rename_i none
      have later := ih none
      ext i
      cases i with
      | zero => simpa [zero_mem_places] using h
      | succ i => rw [succ_mem_places, later]; rfl

/-- The last place in a list of bytes is found. -/
theorem isGreatest_findLastBytes (h : findLastBytes as bs = some k) : IsGreatest (places as bs) k := by
  induction bs generalizing k with
  | nil =>
    obtain ⟨empty, zero⟩ := Option.ite_none_right_eq_some.mp h
    obtain rfl := Option.some.inj zero
    rw [List.isEmpty_iff] at empty
    subst empty
    exact ⟨zero_mem_places.mpr List.nil_prefix, fun _ mem => mem.1⟩
  | cons b bs ih =>
    rw [findLastBytes] at h
    split at h
    · rename_i n found
      obtain rfl := Option.some.inj h
      obtain ⟨there, last⟩ := ih found
      refine ⟨succ_mem_places.mpr there, ?_⟩
      intro i mem
      cases i with
      | zero => exact Nat.zero_le _
      | succ i => exact Nat.succ_le_succ (last (succ_mem_places.mp mem))
    · rename_i none
      obtain ⟨front, zero⟩ := Option.ite_none_right_eq_some.mp h
      obtain rfl := Option.some.inj zero
      rw [List.isPrefixOf_iff_prefix] at front
      refine ⟨zero_mem_places.mpr front, ?_⟩
      intro i mem
      cases i with
      | zero => exact Nat.le_refl 0
      | succ i =>
        have nowhere := places_of_findLastBytes none
        rw [succ_mem_places, nowhere] at mem
        exact absurd mem (Set.notMem_empty i)

/-- The number of bytes in front of a place among characters. -/
def offset (cs : List Char) (i : Nat) : Nat := ((cs.take i).flatMap encodeChar).length

theorem flatMap_split (cs : List Char) (i : Nat) :
    cs.flatMap encodeChar = (cs.take i).flatMap encodeChar ++ (cs.drop i).flatMap encodeChar := by
  rw [← List.flatMap_append, List.take_append_drop]

theorem drop_offset (cs : List Char) (i : Nat) : (cs.flatMap encodeChar).drop (offset cs i) = (cs.drop i).flatMap encodeChar := by
  rw [flatMap_split cs i, offset, List.drop_left]

theorem take_offset (cs : List Char) (i : Nat) : (cs.flatMap encodeChar).take (offset cs i) = (cs.take i).flatMap encodeChar := by
  rw [flatMap_split cs i, offset, List.take_left]

theorem offset_lt (less : i < j) (inside : j ≤ cs.length) : offset cs i < offset cs j := by
  have split : cs.take j = cs.take i ++ (cs.take j).drop i := by
    conv_lhs => rw [← List.take_append_drop i (cs.take j), List.take_take, Nat.min_eq_left (Nat.le_of_lt less)]
  have some : 0 < ((cs.take j).drop i).length := by
    rw [List.length_drop, List.length_take]
    omega
  have more := length_le_flatMap ((cs.take j).drop i)
  rw [offset, offset, split, List.flatMap_append, List.length_append]
  omega

theorem offset_le_iff (hi : i ≤ cs.length) (hj : j ≤ cs.length) : offset cs i ≤ offset cs j ↔ i ≤ j := by
  constructor
  · intro le
    by_contra less
    exact absurd (offset_lt (Nat.lt_of_not_le less) hi) (Nat.not_lt_of_le le)
  · intro le
    rcases Nat.eq_or_lt_of_le le with rfl | less
    · exact Nat.le_refl _
    · exact Nat.le_of_lt (offset_lt less hj)

theorem offset_le (cs : List Char) (i : Nat) : offset cs i ≤ (cs.flatMap encodeChar).length := by
  rw [flatMap_split cs i, List.length_append]
  exact Nat.le_add_right _ _

/-- Where characters stand among others, their bytes stand among those of the others. -/
theorem offset_mem_places (there : i ∈ places fs cs) :
    offset cs i ∈ places (fs.flatMap encodeChar) (cs.flatMap encodeChar) := by
  refine ⟨offset_le cs i, ?_⟩
  rw [drop_offset]
  exact spelled_prefix_iff.mpr there.2

/-- Bytes of characters stand only where the characters stand. -/
theorem exists_place (some : fs ≠ []) (there : k ∈ places (fs.flatMap encodeChar) (cs.flatMap encodeChar)) :
    ∃ i, i ∈ places fs cs ∧ k = offset cs i := by
  obtain ⟨inside, front⟩ := there
  obtain ⟨f, fs, rfl⟩ := List.exists_cons_of_ne_nil some
  obtain ⟨b, own, first, starts, -⟩ := encodeChar_front f
  obtain ⟨more, rest⟩ := front
  rw [List.flatMap_cons, first, List.cons_append, List.cons_append] at rest
  have split : cs.flatMap encodeChar = (cs.flatMap encodeChar).take k ++ b :: (own ++ fs.flatMap encodeChar ++ more) := by
    rw [rest, List.take_append_drop]
  obtain ⟨i, within, before, behind⟩ := exists_take split starts
  refine ⟨i, ⟨within, spelled_prefix_iff.mp ⟨more, ?_⟩⟩, ?_⟩
  · rw [← behind, List.flatMap_cons, first, List.cons_append, List.cons_append]
  · rw [offset, ← before, List.length_take_of_le inside]

/-- The first place among bytes is the first place among characters. -/
theorem isLeast_of_offset (h : IsLeast (places (fs.flatMap encodeChar) (cs.flatMap encodeChar)) k) :
    ∃ i, k = offset cs i ∧ IsLeast (places fs cs) i := by
  by_cases empty : fs = []
  · subst empty
    have zero := h.2 (zero_mem_places.mpr List.nil_prefix)
    exact ⟨0, Nat.le_zero.mp zero, zero_mem_places.mpr List.nil_prefix, fun _ _ => Nat.zero_le _⟩
  · obtain ⟨i, there, rfl⟩ := exists_place empty h.1
    refine ⟨i, rfl, there, ?_⟩
    intro j other
    exact (offset_le_iff there.1 other.1).mp (h.2 (offset_mem_places other))

/-- The last place among bytes is the last place among characters. -/
theorem isGreatest_of_offset (h : IsGreatest (places (fs.flatMap encodeChar) (cs.flatMap encodeChar)) k) :
    ∃ i, k = offset cs i ∧ IsGreatest (places fs cs) i := by
  by_cases empty : fs = []
  · subst empty
    have whole : (cs.flatMap encodeChar).length ∈ places (([] : List Char).flatMap encodeChar) (cs.flatMap encodeChar) := by
      rw [List.flatMap_nil, places_nil]
      exact Nat.le_refl _
    have last : k = (cs.flatMap encodeChar).length := Nat.le_antisymm h.1.1 (h.2 whole)
    refine ⟨cs.length, ?_, ?_, fun _ mem => mem.1⟩
    · rw [last, offset, List.take_length]
    · rw [places_nil]
      exact Nat.le_refl _
  · obtain ⟨i, there, rfl⟩ := exists_place empty h.1
    refine ⟨i, rfl, there, ?_⟩
    intro j other
    exact (offset_le_iff other.1 there.1).mp (h.2 (offset_mem_places other))

/-- Characters stand somewhere among others when their bytes do. -/
theorem places_eq_empty_iff : places (fs.flatMap encodeChar) (cs.flatMap encodeChar) = ∅ ↔ places fs cs = ∅ := by
  constructor
  · intro nowhere
    refine Set.eq_empty_of_forall_notMem fun i there => ?_
    have := offset_mem_places there
    rw [nowhere] at this
    exact Set.notMem_empty _ this
  · intro nowhere
    have some : fs ≠ [] := by
      rintro rfl
      have zero : 0 ∈ places [] cs := zero_mem_places.mpr List.nil_prefix
      rw [nowhere] at zero
      exact Set.notMem_empty _ zero
    refine Set.eq_empty_of_forall_notMem fun k there => ?_
    obtain ⟨i, place, -⟩ := exists_place some there
    rw [nowhere] at place
    exact Set.notMem_empty _ place

end ScriptEngine.Text
