import ScriptEngine.Proofs.SourceBytes
/-!
# Source text in lower case

Case enters reading in many places: words are put into lower case, reserved words and the segments behind a dot are looked
up, and exponents and suffixes of numbers have two letters each. Each place is asked the same questions about a byte and its
lower-case form, and answers them in the same way; so the tokens of a text without quotes are those of the text in lower
case, read by read.
-/

namespace ScriptEngine

namespace Cursor

/-! ## Bytes -/

variable {b c : UInt8} {bs rest : List UInt8}

/-- What is no letter stays as it is. -/
theorem lowerByte_of_not_letter (h : isLetter b = false) : Text.lowerByte b = b := by
  unfold Text.lowerByte
  rw [if_neg]
  intro upper
  rw [isLetter, upper] at h
  simp at h

/-- A letter stays one. -/
@[simp]
theorem isLetter_lower (b : UInt8) : isLetter (Text.lowerByte b) = isLetter b := by
  cases h : isLetter b with
  | true => exact isLetter_lowerByte h
  | false => rw [lowerByte_of_not_letter h, h]

theorem lowerByte_eq_iff (hc : isLetter c = false) : Text.lowerByte b = c ↔ b = c := by
  constructor
  · intro same
    rw [← same, isLetter_lower] at hc
    rw [← same, lowerByte_of_not_letter hc]
  · rintro rfl
    exact lowerByte_of_not_letter hc

theorem lowerByte_ne (hc : isLetter c = false) (h : b ≠ c) : Text.lowerByte b ≠ c := mt (lowerByte_eq_iff hc).mp h

theorem decide_lower (hc : isLetter c = false) (b : UInt8) : decide (Text.lowerByte b = c) = decide (b = c) :=
  decide_eq_decide.mpr (lowerByte_eq_iff hc)

@[simp]
theorem isDigit_lower (b : UInt8) : isDigit (Text.lowerByte b) = isDigit b := by
  cases h : isLetter b with
  | true => rw [(isLetter_first h).2.2.2.2.2, (isLetter_first (isLetter_lowerByte h)).2.2.2.2.2]
  | false => rw [lowerByte_of_not_letter h]

@[simp]
theorem isWordByte_lower (b : UInt8) : isWordByte (Text.lowerByte b) = isWordByte b := by
  rw [isWordByte, isWordByte, isLetter_lower, isDigit_lower]

/-- A byte that is no letter begins the lowered bytes where it begins the bytes. -/
theorem map_lower_eq_cons (hc : isLetter c = false) (h : bs.map Text.lowerByte = c :: rest) : ∃ more, bs = c :: more := by
  cases bs with
  | nil => cases h
  | cons b more =>
    rw [List.map_cons, List.cons.injEq, lowerByte_eq_iff hc] at h
    exact ⟨more, by rw [h.1]⟩

/-- The cursor in the lowered text. -/
def lower (c : Cursor) : Cursor := ⟨c.rest.map Text.lowerByte, c.line, c.column⟩

/-- White space and comments are the same in lower case. -/
theorem skipGap_lower (bs : List UInt8) (g : Gap) (line column : Nat) :
    skipGap (bs.map Text.lowerByte) g line column =
      ((skipGap bs g line column).1.lower, (skipGap bs g line column).2) := by
  fun_induction skipGap bs g line column with
  | case1 | case5 => rfl
  | case2 g line column outside | case6 rest g line column outside =>
    cases g with
    | blockComment l k => exact absurd rfl (outside l k)
    | _ => rfl
  | case4 rest g line column outside ih =>
    cases g with
    | blockComment l k => exact absurd rfl (outside l k)
    | _ => exact ih
  | case3 _ _ _ _ _ ih | case8 _ _ _ _ _ ih | case10 _ _ _ ih | case11 _ _ _ ih | case12 _ _ _ ih
  | case13 _ _ _ ih | case14 _ _ _ ih => exact ih
  | case7 b rest line column feed zero ih =>
    rw [List.map_cons, skipGap]
    · exact ih
    · exact lowerByte_ne (by decide) feed
    · exact lowerByte_ne (by decide) zero
  | case9 b rest l k line column feed zero mark ih =>
    rw [List.map_cons, skipGap]
    · exact ih
    · exact lowerByte_ne (by decide) feed
    · exact lowerByte_ne (by decide) zero
    · intro more star slash
      obtain ⟨more', rfl⟩ := map_lower_eq_cons (by decide) slash
      exact mark more' ((lowerByte_eq_iff (by decide)).mp star) rfl
  | case15 b rest line column feed zero space tab back lineMark blockMark =>
    rw [List.map_cons, skipGap]
    · rfl
    · exact lowerByte_ne (by decide) feed
    · exact lowerByte_ne (by decide) zero
    · exact lowerByte_ne (by decide) space
    · exact lowerByte_ne (by decide) tab
    · exact lowerByte_ne (by decide) back
    · intro more first second
      obtain ⟨more', rfl⟩ := map_lower_eq_cons (by decide) second
      exact lineMark more' ((lowerByte_eq_iff (by decide)).mp first) rfl
    · intro more first second
      obtain ⟨more', rfl⟩ := map_lower_eq_cons (by decide) second
      exact blockMark more' ((lowerByte_eq_iff (by decide)).mp first) rfl

/-! ## Words and numbers -/

/-- Bytes up to the first of another sort, when the sort does not depend on case. -/
theorem takeWhile_lower {p : UInt8 → Bool} (h : ∀ b, p (Text.lowerByte b) = p b) (bs : List UInt8) :
    (bs.map Text.lowerByte).takeWhile p = (bs.takeWhile p).map Text.lowerByte := by
  rw [List.takeWhile_map, show p ∘ Text.lowerByte = p from funext h]

theorem dropWhile_lower {p : UInt8 → Bool} (h : ∀ b, p (Text.lowerByte b) = p b) (bs : List UInt8) :
    (bs.map Text.lowerByte).dropWhile p = (bs.dropWhile p).map Text.lowerByte := by
  rw [List.dropWhile_map, show p ∘ Text.lowerByte = p from funext h]

theorem lowerAscii_map (bs : List UInt8) : Text.lowerAscii ⟨bs.map Text.lowerByte⟩ = Text.lowerAscii ⟨bs⟩ := by
  unfold Text.lowerAscii
  rw [List.map_map, show Text.lowerByte ∘ Text.lowerByte = Text.lowerByte from funext lowerByte_lowerByte]

theorem isKeyword_lower (bs : List UInt8) : Token.isKeyword ⟨bs.map Text.lowerByte⟩ = Token.isKeyword ⟨bs⟩ := by
  rw [Token.isKeyword, Token.isKeyword, lowerAscii_map]

/-- A call is told from a word by its parenthesis. -/
theorem callFollows_lower (bs : List UInt8) : callFollows (bs.map Text.lowerByte) = callFollows bs := by
  have blank (b : UInt8) : (decide (Text.lowerByte b = 32) || decide (Text.lowerByte b = 9)) =
      (decide (b = 32) || decide (b = 9)) := by
    rw [decide_lower (by decide), decide_lower (by decide)]
  unfold callFollows
  rw [dropWhile_lower blank]
  generalize bs.dropWhile _ = rest
  cases rest with
  | nil => rfl
  | cons b rest =>
    rw [List.map_cons]
    by_cases opens : b = 40
    · rw [opens]
      rfl
    · split
      · rename_i same
        exact absurd (List.cons.inj same).1 (lowerByte_ne (by decide) opens)
      · split
        · rename_i same
          cases same
          exact absurd rfl opens
        · rfl

/-- Segments of a word are joined by their sort, by the table of reserved words and by what follows, and none of these
depends on case. -/
theorem moreSegments_lower (fuel : Nat) (bs : List UInt8) :
    moreSegments fuel (bs.map Text.lowerByte) = (moreSegments fuel bs).map Text.lowerByte := by
  have goes (fuel : Nat) (b : UInt8) (rest : List UInt8) (letter : isLetter b = true) :
      moreSegments (fuel + 1) ((46 :: b :: rest).map Text.lowerByte) =
        if Token.isKeyword ⟨(b :: rest).takeWhile isWordByte⟩ && !callFollows ((b :: rest).dropWhile isWordByte) then []
        else 46 :: ((b :: rest).takeWhile isWordByte).map Text.lowerByte ++
          moreSegments fuel (((b :: rest).dropWhile isWordByte).map Text.lowerByte) := by
    rw [List.map_cons, List.map_cons, show Text.lowerByte 46 = 46 from rfl, moreSegments, isLetter_lower, if_pos letter]
    dsimp only
    rw [← List.map_cons, takeWhile_lower isWordByte_lower, dropWhile_lower isWordByte_lower, isKeyword_lower, callFollows_lower]
  fun_induction moreSegments fuel bs with
  | case1 fuel b rest letter segment after reserved =>
    rw [goes _ _ _ letter, if_pos reserved]
    rfl
  | case2 fuel b rest letter segment after joined ih =>
    rw [goes _ _ _ letter, if_neg joined, ih, List.map_append]
    rfl
  | case3 fuel b rest other =>
    rw [List.map_cons, List.map_cons, show Text.lowerByte 46 = 46 from rfl, moreSegments, isLetter_lower, if_neg other]
    rfl
  | case4 fuel bs other =>
    rw [moreSegments]
    · rfl
    · rintro fuel' c more rfl shape
      obtain ⟨more', rfl⟩ := map_lower_eq_cons (by decide) shape
      rw [List.map_cons, List.cons.injEq] at shape
      cases more' with
      | nil => cases shape.2
      | cons d more' => exact other fuel' d more' rfl rfl

theorem word_lower (bs : List UInt8) : word (bs.map Text.lowerByte) = (word bs).map Text.lowerByte := by
  unfold word
  rw [takeWhile_lower isWordByte_lower, dropWhile_lower isWordByte_lower]
  dsimp only
  rw [List.length_map, moreSegments_lower, List.map_append]

/-- A letter is the same in both cases, whichever of the two is asked for. -/
theorem either_case (low : 0x61 ≤ c ∧ c ≤ 0x7A) (b : UInt8) :
    (decide (Text.lowerByte b = c) || decide (Text.lowerByte b = c - 32)) = (decide (b = c) || decide (b = c - 32)) := by
  rw [Bool.eq_iff_iff]
  unfold Text.lowerByte
  split
  · simp [← UInt8.toNat_inj, UInt8.le_iff_toNat_le, UInt8.toNat_add, UInt8.toNat_sub] at *
    omega
  · rfl

theorem head_lower {p : UInt8 → Bool} (h : ∀ b, p (Text.lowerByte b) = p b) (bs : List UInt8) :
    (bs.map Text.lowerByte).head?.any p = bs.head?.any p := by
  cases bs with
  | nil => rfl
  | cons b rest => exact h b

theorem fraction_lower (bs : List UInt8) : fraction (bs.map Text.lowerByte) = (fraction bs).map Text.lowerByte := by
  fun_cases fraction bs with
  | case1 d rest digit =>
    rw [List.map_cons, List.map_cons, show Text.lowerByte 46 = 46 from rfl, fraction, isDigit_lower, if_pos digit,
      takeWhile_lower isDigit_lower]
    rfl
  | case2 d rest other =>
    rw [List.map_cons, List.map_cons, show Text.lowerByte 46 = 46 from rfl, fraction, isDigit_lower, if_neg other]
    rfl
  | case3 bs other =>
    rw [fraction]
    · rfl
    · intro d rest shape
      obtain ⟨more, rfl⟩ := map_lower_eq_cons (by decide) shape
      cases more with
      | nil => cases shape
      | cons d' more => exact other d' more rfl

theorem exponent_lower (bs : List UInt8) : exponent (bs.map Text.lowerByte) = (exponent bs).map Text.lowerByte := by
  match bs with
  | [] => rfl
  | [e] => rfl
  | e :: s :: rest =>
    have mark : (decide (Text.lowerByte e = 0x65) || decide (Text.lowerByte e = 0x45)) =
        (decide (e = 0x65) || decide (e = 0x45)) := either_case (by decide) e
    rw [List.map_cons, List.map_cons, exponent, exponent, mark, decide_lower (by decide), decide_lower (by decide),
      isDigit_lower, head_lower isDigit_lower, takeWhile_lower isDigit_lower]
    split
    · split
      · rfl
      · split <;> rfl
    · rfl

/-- Digits have no case. -/
theorem digits_lower (bs : List UInt8) : (bs.takeWhile isDigit).map Text.lowerByte = bs.takeWhile isDigit := by
  refine (List.map_congr_left fun b hb => ?_).trans (List.map_id _)
  have digit := List.mem_takeWhile_imp hb
  cases letter : isLetter b with
  | true =>
    rw [(isLetter_first letter).2.2.2.2.2] at digit
    cases digit
  | false => exact lowerByte_of_not_letter letter

/-- A number has the same form and value, and a suffix of the same length. -/
theorem number_lower (bs : List UInt8) :
    number (bs.map Text.lowerByte) = ((number bs).1.map Text.lowerByte, (number bs).2) := by
  have double (b : UInt8) : (decide (Text.lowerByte b = 0x64) || decide (Text.lowerByte b = 0x44) ||
      decide (Text.lowerByte b = 0x66) || decide (Text.lowerByte b = 0x46)) =
        (decide (b = 0x64) || decide (b = 0x44) || decide (b = 0x66) || decide (b = 0x46)) := by
    have d : (decide (Text.lowerByte b = 0x64) || decide (Text.lowerByte b = 0x44)) = (decide (b = 0x64) || decide (b = 0x44)) :=
      either_case (by decide) b
    have f : (decide (Text.lowerByte b = 0x66) || decide (Text.lowerByte b = 0x46)) = (decide (b = 0x66) || decide (b = 0x46)) :=
      either_case (by decide) b
    rw [d, Bool.or_assoc, f, ← Bool.or_assoc]
  have long (b : UInt8) : (decide (Text.lowerByte b = 0x6C) || decide (Text.lowerByte b = 0x4C)) =
      (decide (b = 0x6C) || decide (b = 0x4C)) := either_case (by decide) b
  unfold number
  dsimp only
  rw [takeWhile_lower isDigit_lower, dropWhile_lower isDigit_lower, fraction_lower, List.length_map, ← List.map_drop,
    exponent_lower, List.length_map, ← List.map_drop, head_lower double, head_lower long, digits_lower]
  have whole := digits_lower bs
  generalize bs.takeWhile isDigit = digits at whole ⊢
  generalize exponent _ = exp
  generalize fraction _ = frac
  have literal : digits ++ frac.map Text.lowerByte ++ exp.map Text.lowerByte = (digits ++ frac ++ exp).map Text.lowerByte := by
    rw [List.map_append, List.map_append, whole]
  rw [List.isEmpty_map, List.isEmpty_map, literal]
  split
  · rfl
  split
  · rfl
  split
  · rfl
  split
  · rfl
  split <;> rfl

/-! ## Operators -/

/-- Two texts begin with the same bytes as far as these are no letters. -/
def SameFront (bs bs' : List UInt8) : Prop :=
  ∀ bytes, (∀ b ∈ bytes, isLetter b = false) → ((∃ after, bs = bytes ++ after) ↔ ∃ after, bs' = bytes ++ after)

variable {bs' : List UInt8}

/-- An operator is read by its front alone. -/
theorem operator_sameFront (same : SameFront bs bs') : operator? bs = operator? bs' := by
  have plain : ∀ front ∈ operatorFronts, ∀ b ∈ front, isLetter b = false := by decide +kernel
  refine operator?_congr fun front mem => Bool.eq_iff_iff.mpr ?_
  rw [List.isPrefixOf_iff_prefix, List.isPrefixOf_iff_prefix]
  exact (exists_congr fun _ => eq_comm).trans ((same front (plain front mem)).trans (exists_congr fun _ => eq_comm))

theorem sameFront_lower (bs : List UInt8) : SameFront bs (bs.map Text.lowerByte) := by
  intro bytes plain
  constructor
  · rintro ⟨after, rfl⟩
    refine ⟨after.map Text.lowerByte, ?_⟩
    rw [List.map_append, List.append_left_inj]
    exact (List.map_congr_left fun b hb => lowerByte_of_not_letter (plain b hb)).trans (List.map_id bytes)
  · induction bytes generalizing bs with
    | nil => exact fun _ => ⟨bs, rfl⟩
    | cons b bytes ih =>
      rintro ⟨after, shape⟩
      rw [List.forall_mem_cons] at plain
      obtain ⟨more, rfl⟩ := map_lower_eq_cons plain.1 shape
      obtain ⟨after', rfl⟩ := ih more plain.2 ⟨after, (List.cons.inj shape).2⟩
      exact ⟨after', rfl⟩

theorem operator_lower (bs : List UInt8) : operator? (bs.map Text.lowerByte) = operator? bs :=
  (operator_sameFront (sameFront_lower bs)).symm

/-- The spelling of an operator has no letters. -/
theorem operator_spelling {k : Token.Kind} {spelling : String} {n : Nat} (h : operator? bs = some (k, spelling, n)) :
    Text.lowerAscii spelling = spelling := by
  have table : ∀ o ∈ operators, Text.lowerAscii o.2.1 = o.2.1 := by decide +kernel
  exact table (k, spelling, n) (mem_operators h)

/-- The literal of a byte that is no letter is the same in lower case. -/
theorem lowerAscii_ofChar (h : isLetter b = false) :
    Text.lowerAscii (Text.ofChar (Char.ofNat b.toNat)) = Text.ofChar (Char.ofNat b.toNat) := by
  have all : ∀ n < 256, isLetter n.toUInt8 = false →
      (Text.encodeChar (Char.ofNat n)).map Text.lowerByte = Text.encodeChar (Char.ofNat n) := by
    decide +kernel
  have same := all b.toNat b.toNat_lt (by simpa using h)
  rw [Text.ofChar, Text.lowerAscii, same]

end Cursor

/-! ## Tokens -/

/-- The token with its literal in lower case. -/
def Token.lower (t : Token) : Token := { t with literal := t.literal.lowerAscii }

namespace Cursor

/-- A step in the lowered text. -/
def Step.lower (s : Step) : Step := ⟨s.token.lower, s.faults, s.after.lower⟩

theorem lower_skip (c : Cursor) (n : Nat) : c.lower.skip n = (c.skip n).lower := by
  unfold skip lower
  rw [List.map_drop]

theorem numberToken_lower (c : Cursor) : c.lower.numberToken = c.numberToken.lower := by
  unfold numberToken
  dsimp only
  rw [show c.lower.rest = c.rest.map Text.lowerByte from rfl, number_lower]
  dsimp only
  rw [List.length_map, lower_skip]
  rfl

theorem wordToken_lower (c : Cursor) : c.lower.wordToken = c.wordToken.lower := by
  unfold wordToken
  dsimp only
  rw [show c.lower.rest = c.rest.map Text.lowerByte from rfl, word_lower, lowerAscii_map, List.length_map, lower_skip]
  unfold Step.lower Token.lower
  dsimp only
  have twice : Text.lowerAscii (Text.lowerAscii ⟨word c.rest⟩) = Text.lowerAscii ⟨word c.rest⟩ := lowerAscii_map _
  rw [twice]
  rfl

/-- A token that is not quoted is told by the sort of its first bytes. -/
theorem tokenHere_bare (rest : List UInt8) (line column : Nat) (solid : b ≠ 0) (bare : b ≠ 0x22 ∧ b ≠ 0x27) :
    tokenHere ⟨b :: rest, line, column⟩ =
      if isDigit b || (decide (b = 0x2E) && rest.head?.any isDigit) then numberToken ⟨b :: rest, line, column⟩
      else if isLetter b then wordToken ⟨b :: rest, line, column⟩
      else match operator? (b :: rest) with
        | some (kind, spelling, n) => ⟨⟨kind, spelling, line, column⟩, [], skip ⟨b :: rest, line, column⟩ n⟩
        | none => ⟨⟨.illegal, Text.ofChar (Char.ofNat b.toNat), line, column⟩, [⟨.unrecognized b, line, column⟩],
            skip ⟨b :: rest, line, column⟩ 1⟩ := by
  have unquoted : ¬(decide (b = 0x22) || decide (b = 0x27)) = true := by simpa using bare
  rw [tokenHere]
  dsimp only
  exact (if_neg solid).trans ((if_neg unquoted).trans rfl)

/-- What stands at a cursor outside of quotes is the same in lower case. -/
theorem tokenHere_lower {c : Cursor} (unquoted : ∀ b ∈ c.rest, ¬IsQuote b) : c.lower.tokenHere = c.tokenHere.lower := by
  obtain ⟨bs, line, column⟩ := c
  cases bs with
  | nil => rfl
  | cons b rest =>
    have plain := unquoted b (List.mem_cons_self ..)
    rw [IsQuote, not_or] at plain
    by_cases zero : b = 0
    · subst zero
      rfl
    have lowered : lower ⟨b :: rest, line, column⟩ = ⟨Text.lowerByte b :: rest.map Text.lowerByte, line, column⟩ := rfl
    rw [tokenHere_bare rest line column zero plain, lowered, tokenHere_bare _ line column (lowerByte_ne (by decide) zero)
      ⟨lowerByte_ne (by decide) plain.1, lowerByte_ne (by decide) plain.2⟩, isDigit_lower, decide_lower (by decide),
      head_lower isDigit_lower, isLetter_lower, ← List.map_cons, operator_lower]
    split
    · exact numberToken_lower ⟨b :: rest, line, column⟩
    split
    · exact wordToken_lower ⟨b :: rest, line, column⟩
    rename_i other
    split
    · rename_i kind spelling n found
      have same := operator_spelling found
      rw [Step.lower, Token.lower, same]
      exact congrArg _ (lower_skip ⟨b :: rest, line, column⟩ n)
    · have alone : isLetter b = false := Bool.eq_false_iff.mpr other
      rw [lowerByte_of_not_letter alone, Step.lower, Token.lower, lowerAscii_ofChar alone]
      exact congrArg _ (lower_skip ⟨b :: rest, line, column⟩ 1)

/-- A token is read in the same way in lower case. -/
theorem next_lower {c : Cursor} (unquoted : ∀ b ∈ c.rest, ¬IsQuote b) : c.lower.next = c.next.lower := by
  have behind := skipGap_suffix c.rest .blank c.line c.column
  have gap : c.lower.skipBlanks = (c.skipBlanks.1.lower, c.skipBlanks.2) := skipGap_lower c.rest .blank c.line c.column
  unfold next
  rw [gap]
  rw [show skipGap c.rest .blank c.line c.column = c.skipBlanks from rfl] at behind
  generalize c.skipBlanks = passed at behind ⊢
  obtain ⟨c', _ | ⟨line, column⟩⟩ := passed
  · exact tokenHere_lower fun b hb => unquoted b (behind.mem hb)
  · rfl

/-- All tokens are read in the same way in lower case, with the same faults at the same places. -/
theorem tokensFrom_lower (fuel : Nat) {c : Cursor} (unquoted : ∀ b ∈ c.rest, ¬IsQuote b) :
    tokensFrom fuel c.lower = ((tokensFrom fuel c).1.map Token.lower, (tokensFrom fuel c).2) := by
  induction fuel generalizing c with
  | zero => rfl
  | succ fuel ih =>
    rw [tokensFrom, tokensFrom, next_lower unquoted]
    by_cases ended : c.next.token.kind = .eof
    · rw [if_pos ended, if_pos (show c.next.lower.token.kind = .eof from ended)]
      rfl
    · have rest := ih (c := c.next.after) fun b hb => unquoted b ((next_suffix c).mem hb)
      rw [if_neg ended, if_neg (show c.next.lower.token.kind ≠ .eof from ended),
        show c.next.lower.after = c.next.after.lower from rfl, rest]
      rfl

end Cursor

/-- **Outside of quotes case does not matter.** A text without quotes and the same text with every ASCII letter in lower case
have the same tokens, of the same kinds and at the same places, and the same faults. The literals are those of the text, in
lower case. -/
theorem Token.scan_lowerAscii {source : Text} (unquoted : ∀ b ∈ source.bytes, b ≠ 0x22 ∧ b ≠ 0x27) :
    Token.scan source.lowerAscii = ((Token.scan source).1.map Token.lower, (Token.scan source).2) := by
  have size : source.lowerAscii.size = source.size := List.length_map _
  rw [Token.scan, size]
  exact Cursor.tokensFrom_lower (source.size + 1) (c := Cursor.start source) fun b hb quote =>
    quote.elim (unquoted b hb).1 (unquoted b hb).2

/-- Names, a reserved word behind a dot, an exponent, a suffix and a byte that begins no token, in capitals. -/
theorem Token.scan_lowerAscii_capitals :
    let source : Text := "LET N = JSON.Set(1E5, 7L) @ A.IF;"
    (∀ b ∈ source.bytes, b ≠ 0x22 ∧ b ≠ 0x27) ∧
      Token.scan "let n = json.set(1e5, 7l) @ a.if;" = ((Token.scan source).1.map Token.lower, (Token.scan source).2) ∧
      (Token.scan source).2 = [⟨.unrecognized 0x40, 1, 27⟩] := by
  intro source
  have unquoted : ∀ b ∈ source.bytes, b ≠ 0x22 ∧ b ≠ 0x27 := by decide +kernel
  have lowered : source.lowerAscii = "let n = json.set(1e5, 7l) @ a.if;" := by decide +kernel
  exact ⟨unquoted, lowered ▸ Token.scan_lowerAscii unquoted, by decide +kernel⟩

end ScriptEngine
