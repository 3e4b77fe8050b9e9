import ScriptEngine.Proofs.JsonGrammar
/-!
# Strings and numbers of json as they are written

A text without bytes that belong to no character is escaped to a string that stands for it, and a whole number of 64 bits
is written with digits that stand for it.
-/

namespace ScriptEngine

/-! ## Characters -/

namespace Text

variable {b : UInt8} {rest bs : List UInt8} {c : Char} {g : Glyph} {k n : Nat}

theorem bytes_append (t u : Text) : (t ++ u).bytes = t.bytes ++ u.bytes := rfl

theorem toNat_ofNat {n : Nat} (valid : n.isValidChar) : (Char.ofNat n).toNat = n := by
  rw [Char.ofNat, dif_pos valid]
  rfl

theorem toUInt8_eq {m : Nat} (h : m = b.toNat) : m.toUInt8 = b := by
  rw [h]
  exact UInt8.ofNat_toNat

theorem isContinuation_iff : isContinuation b = true ↔ 0x80 ≤ b.toNat ∧ b.toNat ≤ 0xBF := by
  simp only [isContinuation, Bool.and_eq_true, decide_eq_true_eq, UInt8.le_iff_toNat_le, UInt8.reduceToNat]

/-- The second byte of a character is held in narrower bounds behind two first bytes, so that no longer form than needed and no
half of a pair is read. -/
theorem second_bounds {b₁ x y lo hi : UInt8} (low : 0x80 ≤ lo.toNat) (high : hi.toNat ≤ 0xBF) (apart : x ≠ y)
    (h : (if b = x then decide (lo ≤ b₁) && decide (b₁ ≤ 0xBF) else if b = y then decide (0x80 ≤ b₁) && decide (b₁ ≤ hi)
      else isContinuation b₁) = true) :
    0x80 ≤ b₁.toNat ∧ b₁.toNat ≤ 0xBF ∧ (b.toNat = x.toNat → lo.toNat ≤ b₁.toNat) ∧ (b.toNat = y.toNat → b₁.toNat ≤ hi.toNat) := by
  simp only [UInt8.toNat_inj]
  split at h
  · rename_i same
    simp only [Bool.and_eq_true, decide_eq_true_eq, UInt8.le_iff_toNat_le, UInt8.reduceToNat] at h
    exact ⟨by omega, h.2, fun _ => h.1, fun other => absurd (same.symm.trans other) apart⟩
  split at h
  · rename_i other _
    simp only [Bool.and_eq_true, decide_eq_true_eq, UInt8.le_iff_toNat_le, UInt8.reduceToNat] at h
    exact ⟨h.1, by omega, fun same => absurd same other, fun _ => h.2⟩
  · rename_i first second
    rw [isContinuation_iff] at h
    exact ⟨h.1, h.2, fun same => absurd same first, fun same => absurd same second⟩

/-- The bytes of a character that is read are those that it is read from. -/
theorem encodeChar_of_readChar? (h : readChar? b rest = some (c, n)) : encodeChar c = b :: rest.take n ∧ n ≤ rest.length := by
  unfold readChar? at h
  split at h
  · rename_i small
    cases h
    have small : b.toNat < 0x80 := small
    rw [encodeChar, toNat_ofNat (.inl (by omega)), if_pos small, toUInt8_eq rfl]
    exact ⟨rfl, Nat.zero_le _⟩
  rename_i large
  have large : ¬b.toNat < 0x80 := large
  split at h
  · cases h
  rename_i b₁ rest₁
  split at h
  · rename_i two
    simp only [Bool.and_eq_true, decide_eq_true_eq, UInt8.le_iff_toNat_le, UInt8.reduceToNat] at two
    obtain ⟨next, h⟩ := Option.ite_none_right_eq_some.mp h
    rw [isContinuation_iff] at next
    obtain ⟨rfl, rfl⟩ := Prod.mk.inj (Option.some.inj h)
    rw [encodeChar, toNat_ofNat (.inl (by omega)), if_neg (by omega), if_pos (by omega), toUInt8_eq (b := b) (by omega),
      toUInt8_eq (b := b₁) (by omega)]
    exact ⟨rfl, by simp⟩
  split at h
  · cases h
  rename_i b₂ rest₂
  split at h
  · rename_i three
    simp only [Bool.and_eq_true, decide_eq_true_eq, UInt8.le_iff_toNat_le, UInt8.reduceToNat] at three
    obtain ⟨next, h⟩ := Option.ite_none_right_eq_some.mp h
    rw [Bool.and_eq_true, isContinuation_iff] at next
    obtain ⟨second, third⟩ := next
    have second := second_bounds (by decide) (by decide) (by decide) second
    simp only [UInt8.reduceToNat] at second
    obtain ⟨rfl, rfl⟩ := Prod.mk.inj (Option.some.inj h)
    rw [encodeChar, toNat_ofNat (by unfold Nat.isValidChar; omega), if_neg (by omega), if_neg (by omega), if_pos (by omega),
      toUInt8_eq (b := b) (by omega), toUInt8_eq (b := b₁) (by omega), toUInt8_eq (b := b₂) (by omega)]
    exact ⟨rfl, by simp⟩
  split at h
  · cases h
  rename_i b₃ rest₃
  obtain ⟨four, h⟩ := Option.ite_none_right_eq_some.mp h
  rw [Bool.and_eq_true, Bool.and_eq_true, Bool.and_eq_true, isContinuation_iff, isContinuation_iff] at four
  obtain ⟨⟨⟨first, second⟩, third⟩, fourth⟩ := four
  simp only [Bool.and_eq_true, decide_eq_true_eq, UInt8.le_iff_toNat_le, UInt8.reduceToNat] at first
  have second := second_bounds (by decide) (by decide) (by decide) second
  simp only [UInt8.reduceToNat] at second
  obtain ⟨rfl, rfl⟩ := Prod.mk.inj (Option.some.inj h)
  rw [encodeChar, toNat_ofNat (by unfold Nat.isValidChar; omega), if_neg (by omega), if_neg (by omega), if_neg (by omega),
    toUInt8_eq (b := b) (by omega), toUInt8_eq (b := b₁) (by omega), toUInt8_eq (b := b₂) (by omega),
    toUInt8_eq (b := b₃) (by omega)]
  exact ⟨rfl, by simp⟩

/-- The glyphs of a text are the text. -/
theorem flatMap_bytes_glyphsFrom (bs : List UInt8) (k : Nat) : (glyphsFrom bs k).flatMap Glyph.bytes = bs.drop k := by
  induction bs generalizing k with
  | nil => rw [glyphsFrom, List.drop_nil, List.flatMap_nil]
  | cons b bs ih =>
    cases k with
    | succ k => rw [glyphsFrom, ih, List.drop_succ_cons]
    | zero =>
      rw [glyphsFrom, List.flatMap_cons, ih, List.drop_zero]
      cases read : readChar? b bs with
      | none =>
        rw [readGlyph, read]
        rfl
      | some read' =>
        obtain ⟨c, n⟩ := read'
        rw [readGlyph, read]
        dsimp only [Glyph.bytes]
        rw [(encodeChar_of_readChar? read).1, List.cons_append, List.take_append_drop]

theorem flatMap_bytes_glyphs (t : Text) : t.glyphs.flatMap Glyph.bytes = t.bytes := flatMap_bytes_glyphsFrom t.bytes 0

/-- A text that is well-formed is made of characters. -/
theorem glyph_of_isValid {t : Text} (valid : t.isValid = true) (mem : g ∈ t.glyphs) : ∃ c, g = .char c := by
  have := List.all_eq_true.mp valid g mem
  cases g with
  | char c => exact ⟨c, rfl⟩
  | stray b => cases this

/-- A text that is well-formed needs no repair. -/
theorem repaired_of_isValid {t : Text} (valid : t.isValid = true) : Json.repaired t.bytes = t := by
  have same : t.glyphs.flatMap (fun g => encodeChar g.toChar) = t.glyphs.flatMap Glyph.bytes := by
    refine List.flatMap_congr fun g mem => ?_
    obtain ⟨c, rfl⟩ := glyph_of_isValid valid mem
    rfl
  have spelled : (Json.repaired t.bytes).bytes = t.bytes := by
    rw [Json.repaired, ofChars, chars, List.flatMap_map, same]
    exact flatMap_bytes_glyphs t
  exact congrArg Text.mk spelled

end Text

namespace Json

variable {t : Text} {bs out rest : List UInt8}

/-- Bytes that stand for themselves in a string. -/
theorem Quoted.plain {cs : List UInt8} (plain : ∀ b ∈ cs, b ≠ 0x22 ∧ b ≠ 0x5C ∧ ¬b < 0x20) (more : Quoted bs out rest) :
    Quoted (cs ++ bs) (cs ++ out) rest := by
  induction cs with
  | nil => exact more
  | cons b cs ih =>
    obtain ⟨quote, slash, control⟩ := plain b (List.mem_cons_self ..)
    exact .byte quote slash control (ih fun b hb => plain b (List.mem_cons_of_mem _ hb))

/-- A character that is not escaped is spelled by bytes that stand for themselves. -/
theorem plain_encodeChar {c : Char} (quote : c.toNat ≠ 0x22) (slash : c.toNat ≠ 0x5C) (control : ¬c.toNat < 0x20) :
    ∀ b ∈ Text.encodeChar c, b ≠ 0x22 ∧ b ≠ 0x5C ∧ ¬b < 0x20 := by
  have plain {n : Nat} (byte : n < 256) (good : n ≠ 0x22 ∧ n ≠ 0x5C ∧ ¬n < 0x20) :
      n.toUInt8 ≠ 0x22 ∧ n.toUInt8 ≠ 0x5C ∧ ¬n.toUInt8 < 0x20 := by
    simp only [ne_eq, ← UInt8.toNat_inj, UInt8.lt_iff_toNat_lt, UInt8.toNat_ofNat', Nat.mod_eq_of_lt byte, UInt8.reduceToNat]
    exact good
  have bound := Text.toNat_lt_of_char c
  unfold Text.encodeChar
  dsimp only
  intro b hb
  split at hb
  · obtain rfl := List.mem_singleton.mp hb
    exact plain (by omega) ⟨quote, slash, control⟩
  split at hb
  · simp only [List.mem_cons, List.not_mem_nil, or_false] at hb
    obtain rfl | rfl := hb <;> exact plain (by omega) (by omega)
  split at hb
  · simp only [List.mem_cons, List.not_mem_nil, or_false] at hb
    obtain rfl | rfl | rfl := hb <;> exact plain (by omega) (by omega)
  · simp only [List.mem_cons, List.not_mem_nil, or_false] at hb
    obtain rfl | rfl | rfl | rfl := hb <;> exact plain (by omega) (by omega)

/-- The code points that are escaped by their numbers, and how. -/
theorem escape_code : ∀ n ∈ List.range 0x20 ++ [0x3C, 0x3E, 0x26, 0x2028, 0x2029],
    ∃ ds, (Text.ofString ("u" ++ Text.hex 4 n)).bytes = 0x75 :: ds ∧ ds.length = 4 ∧ hex4? ds = some n := by
  have all : ∀ n ∈ List.range 0x20 ++ [0x3C, 0x3E, 0x26, 0x2028, 0x2029],
      (Text.ofString ("u" ++ Text.hex 4 n)).bytes.head? = some 0x75 ∧ (Text.ofString ("u" ++ Text.hex 4 n)).bytes.tail.length = 4 ∧
        hex4? (Text.ofString ("u" ++ Text.hex 4 n)).bytes.tail = some n := by
    decide +kernel
  intro n mem
  obtain ⟨first, length, digits⟩ := all n mem
  exact ⟨_, List.eq_cons_of_mem_head? first, length, digits⟩

/-- A character in a string is spelled as it is escaped. -/
theorem Quoted.glyph (c : Char) (more : Quoted bs out rest) : Quoted (escapeGlyph (.char c) ++ bs) (Text.encodeChar c ++ out) rest := by
  have letter {e x : UInt8} {s : String} (spelled : (Text.ofString s).bytes = [e]) (escape : escapedByte? e = some x)
      (byte : Text.encodeChar c = [x]) : Quoted (0x5C :: (Text.ofString s).bytes ++ bs) (Text.encodeChar c ++ out) rest := by
    rw [spelled, byte]
    exact .letter escape more
  unfold escapeGlyph
  dsimp only
  split
  · rename_i same
    subst same
    exact letter rfl rfl rfl
  split
  · rename_i same
    subst same
    exact letter rfl rfl rfl
  rename_i quote slash
  have byte {n : Nat} (same : c.toNat = n) (small : n < 0x80) : Text.encodeChar c = [n.toUInt8] := by
    rw [Text.encodeChar, same, if_pos small]
  iterate 5
    split
    · rename_i same
      exact letter rfl rfl (byte same (by decide))
  have codepoint {d : Char} (same : c.toNat = d.toNat) : c = d := Char.toNat_inj.mp same
  split
  · rename_i escaped
    have mem : c.toNat ∈ List.range 0x20 ++ [0x3C, 0x3E, 0x26, 0x2028, 0x2029] := by
      simp only [Bool.or_eq_true, decide_eq_true_eq] at escaped
      rw [List.mem_append, List.mem_range]
      obtain ((((small | rfl) | rfl) | rfl) | same) | same := escaped
      · exact .inl small
      · exact .inr (by decide)
      · exact .inr (by decide)
      · exact .inr (by decide)
      · exact .inr (by rw [same]; decide)
      · exact .inr (by rw [same]; decide)
    obtain ⟨ds, spelled, length, digits⟩ := escape_code c.toNat mem
    obtain ⟨a, b, d, e, more', rfl, digits⟩ := hex4_some digits
    cases more' with
    | cons => simp at length
    | nil =>
      rw [spelled, show c = Char.ofNat c.toNat from (Char.ofNat_toNat c).symm]
      have whole : ¬IsHigh c.toNat ∧ ¬IsLow c.toNat := by
        have few : ∀ n ∈ List.range 0x20 ++ [0x3C, 0x3E, 0x26, 0x2028, 0x2029], n < 0xD800 := by decide
        have := few _ mem
        unfold IsHigh IsLow
        omega
      exact .code digits whole more
  · rename_i escaped
    simp only [Bool.or_eq_true, decide_eq_true_eq, not_or] at escaped
    refine more.plain (plain_encodeChar (fun same => quote (codepoint same)) (fun same => slash (codepoint same)) ?_)
    exact escaped.1.1.1.1.1

/-- A text that is well-formed is spelled by its json string. -/
theorem quoted_quoteText (valid : t.isValid = true) (rest : List UInt8) :
    ∃ bs, (quoteText t).bytes ++ rest = 0x22 :: bs ∧ Quoted bs t.bytes rest := by
  refine ⟨t.glyphs.flatMap escapeGlyph ++ 0x22 :: rest, ?_, ?_⟩
  · rw [quoteText, List.append_assoc, List.cons_append]
    rfl
  · have glyphs (gs : List Text.Glyph) (chars : ∀ g ∈ gs, ∃ c, g = .char c) :
        Quoted (gs.flatMap escapeGlyph ++ 0x22 :: rest) (gs.flatMap Text.Glyph.bytes) rest := by
      induction gs with
      | nil => exact .close
      | cons g gs ih =>
        obtain ⟨c, rfl⟩ := chars g (List.mem_cons_self ..)
        rw [List.flatMap_cons, List.flatMap_cons, List.append_assoc]
        exact .glyph c (ih fun g hg => chars g (List.mem_cons_of_mem _ hg))
    rw [← Text.flatMap_bytes_glyphs t]
    exact glyphs t.glyphs fun g => Text.glyph_of_isValid valid

/-! ## Whole numbers -/

/-- The digits of a number in a text. -/
def digitBytes (n : Nat) : List UInt8 := (Nat.toDigits 10 n).map fun c => c.toNat.toUInt8

theorem toNat_toDigits {n : Nat} {c : Char} (mem : c ∈ Nat.toDigits 10 n) : 0x30 ≤ c.toNat ∧ c.toNat ≤ 0x39 :=
  Char.isDigit_iff_toNat.mp (Nat.isDigit_of_mem_toDigits (by decide) (by decide) mem)

theorem bytes_repr (n : Nat) : (Text.ofString n.repr).bytes = digitBytes n := by
  rw [Text.ofString, Text.ofChars, Nat.repr_eq_ofList_toDigits, String.toList_ofList, digitBytes, ← List.flatMap_pure_eq_map]
  refine List.flatMap_congr fun c mem => ?_
  have digit := toNat_toDigits mem
  exact if_pos (show c.toNat < 0x80 by omega)

theorem isDigits_digitBytes (n : Nat) : IsDigits (digitBytes n) := by
  refine ⟨fun none => Nat.toDigits_ne_nil (List.map_eq_nil_iff.mp none), List.all_eq_true.mpr fun b hb => ?_⟩
  obtain ⟨c, mem, rfl⟩ := List.mem_map.mp hb
  have digit := toNat_toDigits mem
  simp only [Text.isDigitByte, Bool.and_eq_true, decide_eq_true_eq, UInt8.le_iff_toNat_le, UInt8.toNat_ofNat', UInt8.reduceToNat]
  omega

theorem foldl_digitBytes (n : Nat) : (digitBytes n).foldl (fun n b => n * 10 + (b.toNat - 0x30)) 0 = n := by
  have fold (cs : List Char) (digits : ∀ c ∈ cs, 0x30 ≤ c.toNat ∧ c.toNat ≤ 0x39) (m : Nat) :
      (cs.map fun c => c.toNat.toUInt8).foldl (fun n b => n * 10 + (b.toNat - 0x30)) m = Nat.ofDigitChars 10 cs m := by
    induction cs generalizing m with
    | nil => rfl
    | cons c cs ih =>
      have digit := digits c (List.mem_cons_self ..)
      rw [List.map_cons, List.foldl_cons, ih fun d hd => digits d (List.mem_cons_of_mem _ hd), Nat.ofDigitChars, Nat.ofDigitChars,
        List.foldl_cons, UInt8.toNat_ofNat', Nat.mod_eq_of_lt (by omega), Nat.mul_comm]
      rfl
  rw [digitBytes, fold _ fun c => toNat_toDigits]
  exact Nat.ofDigitChars_toDigits (by decide) (by decide)

/-- Only zero begins with a zero. -/
theorem head?_digitBytes {n : Nat} (zero : (digitBytes n).head? = some 0x30) : n = 0 := by
  induction n using Nat.strongRecOn with
  | _ n ih =>
    by_cases small : n < 10
    · rw [digitBytes, Nat.toDigits_of_lt_base small] at zero
      have each : ∀ m < 10, ([m.digitChar].map fun c : Char => c.toNat.toUInt8).head? = some 0x30 → m = 0 := by decide
      exact each n small zero
    · rw [digitBytes, Nat.toDigits_of_base_le (by decide) (Nat.not_lt.mp small), List.map_append,
        List.head?_append_of_ne_nil _ (by simp)] at zero
      have := ih (n / 10) (by omega) zero
      omega

theorem isWhole_digitBytes (n : Nat) : IsWhole (digitBytes n) := by
  by_cases zero : (digitBytes n).head? = some 0x30
  · obtain rfl := head?_digitBytes zero
    exact .inl rfl
  · exact .inr ⟨isDigits_digitBytes n, zero⟩

/-- A whole number is a number, with a sign and without one. -/
theorem isNumber_of_isWhole {sign whole : List UInt8} (isSign : IsSign [0x2D] sign) (isWhole : IsWhole whole) :
    IsNumber (sign ++ whole) :=
  ⟨sign, whole, [], [], by simp only [List.append_nil], isSign, isWhole, .inl rfl, .inl rfl⟩

theorem exactNumber_digits {m : Nat} (small : m ≤ 2 ^ 63 - 1) : exactNumber (digitBytes m) = .int (Int64.ofInt m) := by
  have first : ¬(digitBytes m).head? = some 0x2D := by
    obtain ⟨b, behind, same, digit⟩ := (isDigits_digitBytes m).head_eq
    rw [same]
    rintro ⟨⟩
    cases digit
  rw [exactNumber]
  simp only [first, if_false, foldl_digitBytes, (isDigits_digitBytes m).2, Bool.true_and]
  exact if_pos (decide_eq_true small)

theorem exactNumber_negative {m : Nat} (small : m ≤ 2 ^ 63) : exactNumber (0x2D :: digitBytes m) = .int (Int64.ofInt (-m)) := by
  rw [exactNumber]
  simp only [List.head?_cons, if_true, List.drop_succ_cons, List.drop_zero, foldl_digitBytes,
    (isDigits_digitBytes m).2, Bool.true_and]
  exact if_pos (decide_eq_true small)

/-- A whole number of 64 bits is spelled by its digits. -/
theorem number_toString (n : Int64) :
    IsNumber (Text.ofString (toString n.toInt)).bytes ∧ exactNumber (Text.ofString (toString n.toInt)).bytes = .int n := by
  have low := n.le_toInt
  have high := n.toInt_lt
  have text : toString n.toInt = if 0 ≤ n.toInt then n.toInt.toNat.repr else "-" ++ (-n.toInt).toNat.repr := Int.repr_eq_if
  rw [text]
  split
  · rename_i natural
    rw [bytes_repr, exactNumber_digits (by omega), Int.toNat_of_nonneg natural, Int64.ofInt_toInt]
    exact ⟨isNumber_of_isWhole (.inl rfl) (isWhole_digitBytes _), rfl⟩
  · rename_i negative
    have bytes : (Text.ofString ("-" ++ (-n.toInt).toNat.repr)).bytes = 0x2D :: digitBytes (-n.toInt).toNat := by
      rw [← bytes_repr, Text.ofString, Text.ofChars, String.toList_append, List.flatMap_append]
      rfl
    rw [bytes, exactNumber_negative (by omega), Int.toNat_of_nonneg (by omega), Int.neg_neg, Int64.ofInt_toInt]
    exact ⟨isNumber_of_isWhole (.inr ⟨_, List.mem_singleton_self _, rfl⟩) (isWhole_digitBytes _), rfl⟩

end Json

end ScriptEngine
