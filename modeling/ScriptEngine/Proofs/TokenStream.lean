import Mathlib.Data.List.TakeWhile
import ScriptEngine.Proofs.LexemeScan
/-!
# The stream of tokens

Every token but the end mark takes at least one byte of the source text, whatever the text holds. So the reading of
tokens ends, and it ends with the only end mark.
-/

namespace ScriptEngine

/-- A word as its token spells it: ASCII bytes in lower case, of which the first is a letter. -/
structure Text.IsWord (t : Text) : Prop where
  first : ∃ b rest, t.bytes = b :: rest ∧ Cursor.isLetter b = true
  ascii : t.bytes.all (· < 0x80) = true
  lowered : t.lowerAscii = t

/-- A word without dots. -/
structure Text.IsUndotted (t : Text) : Prop extends t.IsWord where
  undotted : t.contains "." = false

/-- The literal of a token fits its kind. -/
structure Token.Formed (t : Token) : Prop where
  word : t.kind = .ident → t.literal.IsWord
  type : t.kind = .typeName → (Token.canonicalType? t.literal).isSome = true

namespace Text.IsWord

variable {t : Text}

theorem lower (h : t.IsWord) : t.lower = t := by
  unfold Text.lower
  rw [if_pos h.ascii]
  exact h.lowered

theorem bytes_ne_nil (h : t.IsWord) : t.bytes ≠ [] := by
  obtain ⟨b, rest, hb, -⟩ := h.first
  rw [hb]
  exact List.cons_ne_nil b rest

theorem upper_bytes_ne_nil (h : t.IsWord) : t.upper.bytes ≠ [] := by
  unfold Text.upper
  rw [if_pos h.ascii]
  intro none
  exact h.bytes_ne_nil (List.map_eq_nil_iff.mp none)

end Text.IsWord

/-! ## Kinds of words -/

/-- No word is illegal. -/
theorem Token.Kind.ofWord_ne_illegal (w : Text) : Token.Kind.ofWord w ≠ .illegal := by
  have table : ∀ p ∈ Token.keywords, p.2 ≠ .illegal := by decide
  rcases Token.Kind.ofWord_cases w with ⟨k, listed, kind⟩ | ⟨-, kind⟩ | kind
  · rw [kind]
    exact table _ listed
  · simp [kind]
  · simp [kind]

/-- A word that is read as the name of a type names one. -/
theorem Text.IsWord.canonicalType {w : Text} (h : w.IsWord) (kind : Token.Kind.ofWord w = .typeName) :
    (Token.canonicalType? w).isSome = true := by
  have table : ∀ p ∈ Token.keywords, p.2 ≠ .typeName := by decide
  rw [Token.canonicalType?, h.lowered]
  rcases Token.Kind.ofWord_cases w with ⟨k, listed, keyword⟩ | ⟨type, -⟩ | name
  · exact absurd (keyword.symm.trans kind) (table _ listed)
  · exact type
  · rw [name] at kind
    cases kind

namespace Cursor

/-! ## Gaps and quoted literals -/

/-- Behind a gap stands what is left of the bytes. -/
theorem skipGap_suffix (bs : List UInt8) (g : Gap) (line column : Nat) :
    (skipGap bs g line column).1.rest <:+ bs := by
  fun_induction skipGap bs g line column <;> first
    | exact List.suffix_rfl
    | exact List.IsSuffix.trans ‹_› (List.suffix_cons _ _)
    | exact List.IsSuffix.trans ‹_› ⟨[_, _], rfl⟩

/-- A comment that does not end has begun with a mark of its own. -/
theorem skipGap_unterminated (bs : List UInt8) (g : Gap) (line column : Nat) (outside : g = .blank ∨ g = .lineComment)
    (h : (skipGap bs g line column).2 ≠ none) : (skipGap bs g line column).1.rest.length < bs.length := by
  fun_induction skipGap bs g line column with
  | case14 rest line column ih =>
    have inside := (skipGap_suffix rest (.blockComment line column) line (column + 2)).length_le
    simp only [List.length_cons]
    omega
  -- every other step but one out of a comment stays outside of comments
  | case4 _ _ _ _ _ ih | case7 _ _ _ _ _ _ ih | case10 _ _ _ ih | case11 _ _ _ ih | case12 _ _ _ ih | case13 _ _ _ ih =>
    have shorter := ih (by simp) h
    simp only [List.length_cons]
    omega
  | case1 | case3 | case5 | case8 | case9 => rcases outside with inside | inside <;> cases inside
  | case2 | case6 | case15 => exact absurd rfl h

/-- Behind a quoted literal stands what is left of the bytes. -/
theorem literal_suffix (quote : UInt8) (bs : List UInt8) (skip : Nat) (value : List UInt8) (line column : Nat) :
    (literal quote bs skip value line column).2.2.rest <:+ bs := by
  fun_induction literal quote bs skip value line column <;> first
    | exact List.suffix_rfl
    | exact List.suffix_cons _ _
    | exact List.IsSuffix.trans ‹_› (List.suffix_cons _ _)
    | exact List.IsSuffix.trans ‹_› ⟨[_, _], rfl⟩

/-! ## Words, numbers and operators -/

/-- A number begins with a digit, or with a point and a digit. -/
theorem number_begins {b : UInt8} {rest : List UInt8} (h : (isDigit b || (b = 0x2E && rest.head?.any isDigit)) = true) :
    (b :: rest).takeWhile isDigit ≠ [] ∨ fraction ((b :: rest).dropWhile isDigit) ≠ [] := by
  by_cases digit : isDigit b = true
  · rw [List.takeWhile_cons_of_pos digit]
    exact .inl (List.cons_ne_nil _ _)
  · rw [Bool.or_eq_true, or_iff_right digit, Bool.and_eq_true, decide_eq_true_eq] at h
    obtain ⟨rfl, more⟩ := h
    obtain - | ⟨d, rest⟩ := rest
    · cases more
    have more : isDigit d = true := by simpa using more
    rw [List.dropWhile_cons_of_neg digit, fraction, if_pos more]
    exact .inr (List.cons_ne_nil _ _)

/-- A number has a byte where a digit or a fraction begins. -/
theorem number_ne_nil {b : UInt8} {rest : List UInt8}
    (h : (isDigit b || (b = 0x2E && rest.head?.any isDigit)) = true) : (number (b :: rest)).1 ≠ [] := by
  have literal : (number (b :: rest)).1 = (b :: rest).takeWhile isDigit ++ fraction ((b :: rest).dropWhile isDigit)
      ++ exponent (((b :: rest).dropWhile isDigit).drop (fraction ((b :: rest).dropWhile isDigit)).length) := by
    unfold number
    dsimp only
    split
    · rfl
    split
    · rfl
    split
    · rfl
    split
    · rfl
    split <;> rfl
  rw [literal]
  rcases number_begins h with whole | frac
  · simp [whole]
  · simp [frac]

/-- The kind of a number is that of a number. -/
theorem kind_number (bs : List UInt8) :
    (number bs).2.1 = .double ∨ (number bs).2.1 = .long ∨ (number bs).2.1 = .int := by
  unfold number
  dsimp only
  split
  · exact .inl rfl
  split
  · exact .inr (.inl rfl)
  split
  · exact .inl rfl
  split
  · exact .inl rfl
  split
  · exact .inr (.inl rfl)
  · exact .inr (.inr rfl)

/-- The bytes of a word are ASCII. -/
theorem isWordByte_ascii {b : UInt8} (h : isWordByte b = true) : b < 0x80 := by
  unfold isWordByte isLetter isDigit at h
  simp [← UInt8.toNat_inj, UInt8.le_iff_toNat_le, UInt8.lt_iff_toNat_lt] at *
  omega

/-- The bytes of the segments that join a word are ASCII. -/
theorem moreSegments_ascii (fuel : Nat) (bs : List UInt8) : ∀ b ∈ moreSegments fuel bs, b < 0x80 := by
  fun_induction moreSegments fuel bs with
  | case1 | case3 | case4 => simp
  | case2 fuel b rest letter segment after other ih =>
    intro c hc
    rcases List.mem_append.mp hc with inside | behind
    · rcases List.mem_cons.mp inside with rfl | inside
      · decide
      · exact isWordByte_ascii (List.mem_takeWhile_imp inside)
    · exact ih c behind

/-- The bytes of a word are ASCII. -/
theorem word_ascii (bs : List UInt8) : ∀ b ∈ word bs, b < 0x80 := by
  intro b hb
  unfold word at hb
  rcases List.mem_append.mp hb with inside | behind
  · exact isWordByte_ascii (List.mem_takeWhile_imp inside)
  · exact moreSegments_ascii _ _ b behind

/-- A word begins with the letter that it is read at. -/
theorem word_cons {b : UInt8} (rest : List UInt8) (h : isLetter b = true) : ∃ more, word (b :: rest) = b :: more := by
  unfold word
  rw [List.takeWhile_cons_of_pos (by simp [isWordByte, h])]
  exact ⟨_, rfl⟩

theorem lowerByte_lowerByte (b : UInt8) : Text.lowerByte (Text.lowerByte b) = Text.lowerByte b := by
  unfold Text.lowerByte
  split
  · rename_i upper
    rw [if_neg]
    simp [UInt8.le_iff_toNat_le, UInt8.toNat_add] at *
    omega
  · rfl

theorem isLetter_lowerByte {b : UInt8} (h : isLetter b = true) : isLetter (Text.lowerByte b) = true := by
  unfold Text.lowerByte
  split
  · unfold isLetter at *
    simp [← UInt8.toNat_inj, UInt8.le_iff_toNat_le, UInt8.toNat_add] at *
    omega
  · exact h

theorem ascii_lowerByte {b : UInt8} (h : b < 0x80) : Text.lowerByte b < 0x80 := by
  unfold Text.lowerByte
  split
  · simp [UInt8.le_iff_toNat_le, UInt8.lt_iff_toNat_lt, UInt8.toNat_add] at *
    omega
  · exact h

/-- What is read at a letter is a word, in lower case. -/
theorem isWord_word {b : UInt8} (rest : List UInt8) (h : isLetter b = true) :
    (Text.lowerAscii ⟨word (b :: rest)⟩).IsWord := by
  obtain ⟨more, hw⟩ := word_cons rest h
  refine ⟨⟨Text.lowerByte b, more.map Text.lowerByte, ?_, isLetter_lowerByte h⟩, ?_, ?_⟩
  · unfold Text.lowerAscii
    rw [hw]
    rfl
  · unfold Text.lowerAscii
    rw [List.all_eq_true]
    intro c hc
    obtain ⟨d, hd, rfl⟩ := List.mem_map.mp hc
    exact decide_eq_true (ascii_lowerByte (word_ascii _ d hd))
  · unfold Text.lowerAscii
    rw [List.map_map]
    congr 1
    exact List.map_congr_left fun c _ => lowerByte_lowerByte c

theorem mem_operators {bs : List UInt8} {o : Token.Kind × String × Nat} (h : operator? bs = some o) : o ∈ operators := by
  rw [operator?_eq, Option.map_eq_some_iff] at h
  obtain ⟨p, found, rfl⟩ := h
  exact (List.of_mem_zip (List.mem_of_find?_eq_some found)).2

/-- An operator has a byte and is no other token. -/
theorem operator_kind {bs : List UInt8} {k : Token.Kind} {spelling : String} {n : Nat}
    (h : operator? bs = some (k, spelling, n)) :
    1 ≤ n ∧ k ≠ .eof ∧ k ≠ .ident ∧ k ≠ .typeName ∧ k ≠ .illegal := by
  have table : ∀ o ∈ operators, 1 ≤ o.2.2 ∧ o.1 ≠ .eof ∧ o.1 ≠ .ident ∧ o.1 ≠ .typeName ∧ o.1 ≠ .illegal := by decide
  exact table _ (mem_operators h)

/-! ## Tokens -/

/-- A token that stands at a cursor takes at least one byte, unless it is the end mark. -/
theorem tokenHere_shorter (c : Cursor) (h : c.tokenHere.token.kind ≠ .eof) :
    c.tokenHere.after.rest.length < c.rest.length := by
  have skip_shorter (n : Nat) (hn : 1 ≤ n) (hc : c.rest ≠ []) : (c.skip n).rest.length < c.rest.length := by
    have bytes : 0 < c.rest.length := List.length_pos_iff.mpr hc
    rw [Cursor.skip, List.length_drop]
    omega
  unfold tokenHere at h ⊢
  split at h
  · exact absurd rfl h
  rename_i b rest hc
  have some_byte : c.rest ≠ [] := by
    rw [hc]
    exact List.cons_ne_nil b rest
  split at h
  · exact absurd rfl h
  rename_i notEnd
  simp only [notEnd, if_false]
  split
  · have inside := (literal_suffix b (c.rest.drop 1) 0 [] c.line (c.column + 1)).length_le
    rw [hc, List.drop_one, List.tail_cons] at inside
    unfold quotedToken
    dsimp only
    rw [hc, List.drop_one, List.tail_cons, List.length_cons]
    split <;> exact Nat.lt_succ_of_le inside
  split
  · rename_i digits
    have bytes : 0 < (number c.rest).1.length := by
      rw [hc]
      exact List.length_pos_iff.mpr (number_ne_nil digits)
    exact skip_shorter _ (by omega) some_byte
  split
  · rename_i letter
    obtain ⟨more, hw⟩ := word_cons rest letter
    refine skip_shorter _ ?_ some_byte
    rw [hc, hw]
    exact Nat.succ_le_succ (Nat.zero_le _)
  split
  · rename_i found
    exact skip_shorter _ (operator_kind found).1 some_byte
  · exact skip_shorter 1 (Nat.le_refl 1) some_byte

/-- Every token but the end mark takes at least one byte, also one that is illegal. -/
theorem next_shorter (c : Cursor) (h : c.next.token.kind ≠ .eof) : c.next.after.rest.length < c.rest.length := by
  unfold next at h ⊢
  split at h
  · rename_i c' line column unterminated
    have shorter := skipGap_unterminated c.rest .blank c.line c.column (.inl rfl)
    rw [show skipGap c.rest .blank c.line c.column = _ from unterminated] at shorter
    exact shorter (Option.some_ne_none _)
  · rename_i c' gap
    have behind := (skipGap_suffix c.rest .blank c.line c.column).length_le
    rw [show skipGap c.rest .blank c.line c.column = _ from gap] at behind
    exact Nat.lt_of_lt_of_le (tokenHere_shorter c' h) behind

/-- Behind a token that stands at a cursor is what is left of the bytes. -/
theorem tokenHere_suffix (c : Cursor) : c.tokenHere.after.rest <:+ c.rest := by
  unfold tokenHere
  split
  · exact List.suffix_rfl
  split
  · exact List.suffix_rfl
  split
  · unfold quotedToken
    dsimp only
    split
    · exact (literal_suffix _ _ _ _ _ _).trans (List.drop_suffix 1 c.rest)
    · exact (literal_suffix _ _ _ _ _ _).trans (List.drop_suffix 1 c.rest)
  split
  · exact List.drop_suffix _ c.rest
  split
  · exact List.drop_suffix _ c.rest
  split
  · exact List.drop_suffix _ c.rest
  · exact List.drop_suffix 1 c.rest

/-- Reading a token takes bytes from the front and never goes back. -/
theorem next_suffix (c : Cursor) : c.next.after.rest <:+ c.rest := by
  have gap := skipGap_suffix c.rest .blank c.line c.column
  unfold next
  split
  · rename_i c' line column unterminated
    rw [show skipGap c.rest .blank c.line c.column = _ from unterminated] at gap
    exact gap
  · rename_i c' passed
    rw [show skipGap c.rest .blank c.line c.column = _ from passed] at gap
    exact (tokenHere_suffix c').trans gap

/-- A token that stands at a cursor is formed, and an illegal one comes with a fault. -/
theorem tokenHere_formed (c : Cursor) :
    c.tokenHere.token.Formed ∧ (c.tokenHere.token.kind = .illegal → c.tokenHere.faults ≠ []) := by
  have plain {k : Token.Kind} {t : Text} (hi : k ≠ .ident) (ht : k ≠ .typeName) :
      (⟨k, t, c.line, c.column⟩ : Token).Formed := ⟨fun h => absurd h hi, fun h => absurd h ht⟩
  unfold tokenHere
  split
  · exact ⟨plain (by decide) (by decide), fun h => by cases h⟩
  rename_i b rest hc
  split
  · exact ⟨plain (by decide) (by decide), fun h => by cases h⟩
  split
  · unfold quotedToken
    dsimp only
    split
    · split
      · exact ⟨plain (by decide) (by decide), fun h => by cases h⟩
      · exact ⟨plain (by decide) (by decide), fun h => by cases h⟩
    · exact ⟨plain (by decide) (by decide), fun _ => List.cons_ne_nil _ _⟩
  split
  · rcases kind_number c.rest with kind | kind | kind
    all_goals
      refine ⟨plain (by simp [kind]) (by simp [kind]), fun illegal => ?_⟩
      rw [numberToken, kind] at illegal
      cases illegal
  split
  · rename_i letter
    have word := isWord_word rest letter
    rw [← hc] at word
    refine ⟨⟨fun _ => word, fun type => ?_⟩, fun illegal => ?_⟩
    · change Token.Kind.ofWord (Text.lowerAscii ⟨Cursor.word c.rest⟩) = .typeName at type
      exact word.canonicalType type
    · exact absurd illegal (Token.Kind.ofWord_ne_illegal _)
  split
  · rename_i found
    obtain ⟨-, -, ident, type, legal⟩ := operator_kind found
    exact ⟨plain ident type, fun illegal => absurd illegal legal⟩
  · exact ⟨plain (by decide) (by decide), fun _ => List.cons_ne_nil _ _⟩

/-- The next token is formed, and an illegal one comes with a fault. -/
theorem next_formed (c : Cursor) : c.next.token.Formed ∧ (c.next.token.kind = .illegal → c.next.faults ≠ []) := by
  unfold next
  split
  · refine ⟨⟨fun h => ?_, fun h => ?_⟩, fun _ => List.cons_ne_nil _ _⟩
    · cases h
    · cases h
  · exact tokenHere_formed _

/-! ## All tokens -/

/-- With more fuel than there are bytes, the tokens end with the only end mark. -/
theorem tokensFrom_ends (fuel : Nat) (c : Cursor) (h : c.rest.length < fuel) :
    ∃ front last, (tokensFrom fuel c).1 = front ++ [last] ∧ last.kind = .eof ∧ ∀ t ∈ front, t.kind ≠ .eof := by
  induction fuel generalizing c with
  | zero => exact absurd h (Nat.not_lt_zero _)
  | succ fuel ih =>
    rw [tokensFrom]
    by_cases ended : c.next.token.kind = .eof
    · refine ⟨[], c.next.token, ?_, ended, fun _ ht => absurd ht List.not_mem_nil⟩
      simp only [ended, if_true, List.nil_append]
    · have shorter := next_shorter c ended
      obtain ⟨front, last, shape, isEnd, inside⟩ := ih c.next.after (by omega)
      refine ⟨c.next.token :: front, last, ?_, isEnd, fun t ht => ?_⟩
      · simp only [ended, if_false, shape, List.cons_append]
      · rcases List.mem_cons.mp ht with rfl | ht
        · exact ended
        · exact inside t ht

/-- More fuel than there are bytes is as good as any other such. -/
theorem tokensFrom_fuel {fuel fuel' : Nat} (c : Cursor) (h : c.rest.length < fuel) (h' : c.rest.length < fuel') :
    tokensFrom fuel c = tokensFrom fuel' c := by
  induction fuel generalizing c fuel' with
  | zero => exact absurd h (Nat.not_lt_zero _)
  | succ fuel ih =>
    cases fuel' with
    | zero => exact absurd h' (Nat.not_lt_zero _)
    | succ fuel' =>
      rw [tokensFrom, tokensFrom]
      by_cases ended : c.next.token.kind = .eof
      · simp only [ended, if_true]
      · have shorter := next_shorter c ended
        simp only [ended, if_false]
        rw [ih c.next.after (by omega) (by omega : c.next.after.rest.length < fuel')]

/-- The tokens of a text are formed, and one that is illegal comes with a fault. -/
theorem tokensFrom_formed (fuel : Nat) (c : Cursor) :
    ∀ t ∈ (tokensFrom fuel c).1, t.Formed ∧ (t.kind = .illegal → (tokensFrom fuel c).2 ≠ []) := by
  induction fuel generalizing c with
  | zero => exact fun _ ht => absurd ht List.not_mem_nil
  | succ fuel ih =>
    intro t ht
    rw [tokensFrom] at ht ⊢
    dsimp only at ht ⊢
    split at ht
    · rename_i ended
      rw [if_pos ended]
      cases List.mem_singleton.mp ht
      exact next_formed c
    · rename_i more
      rw [if_neg more]
      rcases List.mem_cons.mp ht with rfl | ht
      · refine ⟨(next_formed c).1, fun illegal none => ?_⟩
        exact (next_formed c).2 illegal (List.append_eq_nil_iff.mp none).1
      · obtain ⟨formed, faulty⟩ := ih c.next.after t ht
        exact ⟨formed, fun illegal none => faulty illegal (List.append_eq_nil_iff.mp none).2⟩

end Cursor

end ScriptEngine
