import Mathlib.Data.List.Basic
import Mathlib.Data.List.Find
import ScriptEngine.Proofs.Spelling
/-!
# Lexemes are read as their tokens

Lexemes that are written one after the other are read as the tokens that they stand for, and no others. The reader of
tokens never goes back to an earlier line, and the first line of a source text is counted as one.
-/

namespace ScriptEngine.Cursor

/-! ## Lines -/

/-- Passing over a gap leads to no earlier line. -/
theorem line_le_skipGap (bs : List UInt8) (g : Gap) (line column : Nat) :
    line ≤ (skipGap bs g line column).1.line := by
  fun_induction skipGap bs g line column <;> first | exact Nat.le_refl _ | assumption | omega

/-- The end of a quoted literal lies on no earlier line. -/
theorem line_le_literal (quote : UInt8) (bs : List UInt8) (skip : Nat) (value : List UInt8) (line column : Nat) :
    line ≤ (literal quote bs skip value line column).2.2.line := by
  fun_induction literal quote bs skip value line column <;> first | exact Nat.le_refl _ | assumption | omega

/-- The token at a cursor lies on its line, and the cursor behind it on no earlier one. -/
theorem line_tokenHere (c : Cursor) : c.tokenHere.token.line = c.line ∧ c.line ≤ c.tokenHere.after.line := by
  unfold tokenHere
  split
  · exact ⟨rfl, Nat.le_refl _⟩
  split
  · exact ⟨rfl, Nat.le_refl _⟩
  split
  · unfold quotedToken
    dsimp only
    split <;> exact ⟨rfl, line_le_literal _ _ _ _ _ _⟩
  split
  · exact ⟨rfl, Nat.le_refl _⟩
  split
  · exact ⟨rfl, Nat.le_refl _⟩
  split <;> exact ⟨rfl, Nat.le_refl _⟩

/-- The next token and the cursor behind it lie on no earlier line. -/
theorem line_le_next (c : Cursor) : c.line ≤ c.next.token.line ∧ c.line ≤ c.next.after.line := by
  have gap : c.line ≤ c.skipBlanks.1.line := line_le_skipGap _ _ _ _
  unfold next
  split
  · rename_i c' line column h
    rw [h] at gap
    exact ⟨gap, gap⟩
  · rename_i c' h
    rw [h] at gap
    have here := line_tokenHere c'
    exact ⟨Nat.le_trans gap (Nat.le_of_eq here.1.symm), Nat.le_trans gap here.2⟩

/-- All tokens from a cursor on lie on no earlier line. -/
theorem line_le_tokensFrom (fuel : Nat) (c : Cursor) : ∀ t ∈ (tokensFrom fuel c).1, c.line ≤ t.line := by
  induction fuel generalizing c with
  | zero => exact fun _ ht => nomatch ht
  | succ fuel ih =>
    intro t ht
    rw [tokensFrom] at ht
    dsimp only at ht
    split at ht
    · cases List.mem_singleton.mp ht
      exact (line_le_next c).1
    · cases ht with
      | head => exact (line_le_next c).1
      | tail _ ht => exact Nat.le_trans (line_le_next c).2 (ih _ t ht)

/-- There is a token from a cursor on. -/
theorem tokensFrom_ne_nil (fuel : Nat) (c : Cursor) : (tokensFrom (fuel + 1) c).1 ≠ [] := by
  rw [tokensFrom]
  dsimp only
  split <;> exact List.cons_ne_nil _ _

/-- Every token of a source text, the last one repeated included, lies on a line counted from one. -/
theorem scan_lined (source : Text) :
    (∀ t ∈ (Token.scan source).1, 1 ≤ t.line) ∧ 1 ≤ ((Token.scan source).1.getLast?.getD default).line := by
  have lined : ∀ t ∈ (Token.scan source).1, 1 ≤ t.line := line_le_tokensFrom _ (start source)
  refine ⟨lined, ?_⟩
  have some_token : (Token.scan source).1 ≠ [] := tokensFrom_ne_nil _ _
  rw [List.getLast?_eq_some_getLast some_token]
  exact lined _ (List.getLast_mem some_token)

/-! ## White space -/

theorem skipGap_blank {gap : List UInt8} (blank : Blank gap) (rest : List UInt8) (line column : Nat) :
    ∃ line' column', skipGap (gap ++ rest) .blank line column = skipGap rest .blank line' column' := by
  induction gap generalizing line column with
  | nil => exact ⟨line, column, rfl⟩
  | cons b gap ih =>
    have more (line column : Nat) := ih (fun c hc => blank c (List.mem_cons_of_mem b hc)) line column
    have here := blank b List.mem_cons_self
    rcases List.mem_cons.mp here with rfl | here
    · exact more line (column + 1)
    rcases List.mem_cons.mp here with rfl | here
    · exact more line (column + 1)
    rcases List.mem_cons.mp here with rfl | here
    · exact more line (column + 1)
    rcases List.mem_singleton.mp here with rfl
    exact more (line + 1) 1

/-- What begins neither white space nor a comment nor the end of the text ends a gap. -/
theorem skipGap_stop {b : UInt8} {rest : List UInt8} (line column : Nat) (hb : b ∉ [10, 0, 32, 9, 13])
    (hc : b = 47 → ∀ c, rest.head? = some c → c ≠ 47 ∧ c ≠ 42) :
    skipGap (b :: rest) .blank line column = (⟨b :: rest, line, column⟩, none) := by
  unfold skipGap
  split <;> simp_all

/-! ## The first byte of a lexeme -/

theorem isLetter_first {b : UInt8} (h : isLetter b = true) :
    b ∉ [10, 0, 32, 9, 13] ∧ b ≠ 47 ∧ b ≠ 0x22 ∧ b ≠ 0x27 ∧ b ≠ 0x2E ∧ isDigit b = false := by
  unfold isLetter at h
  unfold isDigit
  refine ⟨?_, ?_, ?_, ?_, ?_, ?_⟩ <;> simp [← UInt8.toNat_inj, UInt8.le_iff_toNat_le] at * <;> omega

theorem isDigit_first {b : UInt8} (h : isDigit b = true) :
    b ∉ [10, 0, 32, 9, 13] ∧ b ≠ 47 ∧ b ≠ 0x22 ∧ b ≠ 0x27 := by
  unfold isDigit at h
  refine ⟨?_, ?_, ?_, ?_⟩ <;> simp [← UInt8.toNat_inj, UInt8.le_iff_toNat_le] at * <;> omega

/-! ## Words and numbers -/

/-- A run of bytes is cut off where the first other byte follows. -/
theorem takeWhile_run {p : UInt8 → Bool} {run text : List UInt8} (h : run.all p = true)
    (stops : ∀ b, text.head? = some b → p b = false) :
    (run ++ text).takeWhile p = run ∧ (run ++ text).dropWhile p = text := by
  have inside : ∀ b ∈ run, p b = true := List.all_eq_true.mp h
  rw [List.takeWhile_append_of_pos inside, List.dropWhile_append_of_pos inside]
  cases text with
  | nil => exact ⟨List.append_nil run, rfl⟩
  | cons b rest =>
    have outside := stops b rfl
    rw [List.takeWhile_cons_of_neg (by simp [outside]), List.dropWhile_cons_of_neg (by simp [outside])]
    exact ⟨List.append_nil run, rfl⟩

/-- Without a dot, no segment joins a word. -/
theorem moreSegments_stop (fuel : Nat) {text : List UInt8} (stops : ∀ b, text.head? = some b → b ≠ 0x2E) :
    moreSegments fuel text = [] := by
  unfold moreSegments
  split
  · next b rest => exact absurd rfl (stops 46 rfl)
  · rfl

/-- A word is read up to the first byte that belongs to no word. -/
theorem word_run {run text : List UInt8} (h : run.all isWordByte = true)
    (stops : ∀ b, text.head? = some b → (!isWordByte b && b != 0x2E) = true) : word (run ++ text) = run := by
  have outside : ∀ b, text.head? = some b → isWordByte b = false := fun b hb => by
    have both := stops b hb
    rw [Bool.and_eq_true, Bool.not_eq_true'] at both
    exact both.1
  have noDot : ∀ b, text.head? = some b → b ≠ 0x2E := fun b hb => by
    have both := stops b hb
    rw [Bool.and_eq_true, bne_iff_ne] at both
    exact both.2
  obtain ⟨taken, left⟩ := takeWhile_run h outside
  unfold word
  dsimp only
  rw [taken, left, moreSegments_stop _ noDot, List.append_nil]

theorem fraction_stop {text : List UInt8} (stops : ∀ b, text.head? = some b → b ≠ 0x2E) : fraction text = [] := by
  unfold fraction
  split
  · exact absurd rfl (stops 46 rfl)
  · rfl

theorem exponent_stop {text : List UInt8} (stops : ∀ b, text.head? = some b → b ≠ 0x65 ∧ b ≠ 0x45) :
    exponent text = [] := by
  unfold exponent
  split
  · next e s rest =>
    have other := stops e rfl
    rw [if_neg]
    simp [other]
  · rfl

/-- Digits are read as a whole number where nothing follows that may belong to a number. -/
theorem number_digits {ds text : List UInt8} (h : ds.all isDigit = true)
    (stops : (Lexeme.digits ds).StopsBefore text) : number (ds ++ text) = (ds, (Lexeme.digits ds).kind, 0) := by
  have outside : ∀ b, text.head? = some b → isDigit b = false ∧
      b ≠ 0x2E ∧ b ≠ 0x65 ∧ b ≠ 0x45 ∧ b ≠ 0x64 ∧ b ≠ 0x44 ∧ b ≠ 0x66 ∧ b ≠ 0x46 ∧ b ≠ 0x6C ∧ b ≠ 0x4C := fun b hb => by
    have both := stops b hb
    simpa [Lexeme.stopsAt] using both
  obtain ⟨taken, left⟩ := takeWhile_run h fun b hb => (outside b hb).1
  have noFraction : fraction text = [] := fraction_stop fun b hb => (outside b hb).2.1
  have noExponent : exponent text = [] := exponent_stop fun b hb => ⟨(outside b hb).2.2.1, (outside b hb).2.2.2.1⟩
  have noSuffix (q : UInt8 → Bool) (hq : ∀ b, text.head? = some b → q b = false) : text.head?.any q = false := by
    cases head : text.head? with
    | none => rfl
    | some b => exact hq b head
  unfold number Lexeme.kind
  simp only [taken, left, noFraction, noExponent, List.length_nil, List.drop_zero, List.append_nil, List.isEmpty_nil,
    Bool.and_self, Bool.not_true, Bool.not_false, Bool.true_and, Bool.false_eq_true, if_false]
  rw [noSuffix _ fun b hb => by simp [outside b hb], noSuffix _ fun b hb => by simp [outside b hb]]
  simp only [Bool.false_eq_true, if_false, ge_iff_le]
  split
  · rfl
  · split <;> rfl

/-- Digits with the suffix of a long are read as a long. -/
theorem number_long {ds text : List UInt8} {suffix : UInt8} (h : ds.all isDigit = true)
    (hs : suffix = 0x6C ∨ suffix = 0x4C) : number (ds ++ suffix :: text) = (ds, .long, 1) := by
  have noDigit : isDigit suffix = false := by rcases hs with rfl | rfl <;> rfl
  have stops : ∀ b, (suffix :: text).head? = some b → isDigit b = false := fun b hb => Option.some.inj hb ▸ noDigit
  obtain ⟨taken, left⟩ := takeWhile_run h stops
  have noFraction : fraction (suffix :: text) = [] :=
    fraction_stop fun b hb => Option.some.inj hb ▸ by rcases hs with rfl | rfl <;> decide
  have noExponent : exponent (suffix :: text) = [] :=
    exponent_stop fun b hb => Option.some.inj hb ▸ by rcases hs with rfl | rfl <;> decide
  unfold number
  simp only [taken, left, noFraction, noExponent, List.length_nil, List.drop_zero, List.append_nil, List.isEmpty_nil,
    Bool.and_self, Bool.not_true, Bool.not_false, Bool.true_and, List.head?_cons, Option.any_some]
  rcases hs with rfl | rfl <;> rfl

/-! ## Symbols -/

/-- The operators and delimiters, with their literals and lengths. -/
def operators : List (Token.Kind × String × Nat) :=
  [(.eq, "==", 2), (.lte, "<=", 2), (.gte, ">=", 2), (.assign, "=", 1), (.plusPlus, "++", 2),
    (.plusEq, "+=", 2), (.plus, "+", 1), (.minusMinus, "--", 2), (.minusEq, "-=", 2), (.minus, "-", 1),
    (.starEq, "*=", 2), (.star, "*", 1), (.slashEq, "/=", 2), (.slash, "/", 1), (.notEq, "!=", 2),
    (.bang, "!", 1), (.lte, "<=", 2), (.notEq, "<>", 2), (.lt, "<", 1), (.gte, ">=", 2), (.gt, ">", 1),
    (.and, "&&", 2), (.or, "||", 2), (.percent, "%", 1), (.caret, "^", 1), (.comma, ",", 1),
    (.colon, ":", 1), (.semicolon, ";", 1), (.lparen, "(", 1), (.rparen, ")", 1), (.dot, ".", 1),
    (.lbrace, "\x7b", 1), (.rbrace, "\x7d", 1), (.lbracket, "[", 1), (.rbracket, "]", 1), (.hash, "#", 1)]

/-- What the operators and delimiters are written with. The longer of two that begin alike stands in front. -/
def operatorFronts : List (List UInt8) :=
  [[0x3D, 0x3D], [0x3D, 0x3C], [0x3D, 0x3E], [0x3D], [0x2B, 0x2B], [0x2B, 0x3D], [0x2B], [0x2D, 0x2D], [0x2D, 0x3D], [0x2D],
    [0x2A, 0x3D], [0x2A], [0x2F, 0x3D], [0x2F], [0x21, 0x3D], [0x21], [0x3C, 0x3D], [0x3C, 0x3E], [0x3C], [0x3E, 0x3D], [0x3E],
    [0x26, 0x26], [0x7C, 0x7C], [0x25], [0x5E], [0x2C], [0x3A], [0x3B], [0x28], [0x29], [0x2E], [0x7B], [0x7D], [0x5B], [0x5D],
    [0x23]]

theorem isPrefixOf_eq_false (front : List UInt8) {bs : List UInt8} (h : ∀ after, bs = front ++ after → False) :
    front.isPrefixOf bs = false := by
  rw [← Bool.not_eq_true, List.isPrefixOf_iff_prefix]
  rintro ⟨after, shape⟩
  exact h after shape.symm

/-- The operator at the front is the first one that the text begins with. -/
theorem operator?_eq (bs : List UInt8) : operator? bs = ((operatorFronts.zip operators).find? (·.1.isPrefixOf bs)).map Prod.snd := by
  unfold operator?
  split
  -- two bytes, and one that nothing makes longer, are found whatever follows
  any_goals rfl
  case h_37 =>
    -- no pattern fits, so the text begins with none of them
    rw [eq_comm, Option.map_eq_none_iff, List.find?_eq_none]
    simp only [operatorFronts, operators, List.zip_cons_cons, List.zip_nil_right, List.forall_mem_cons]
    and_intros
    all_goals first
      | exact List.forall_mem_nil _
      | exact Bool.eq_false_iff.mp (isPrefixOf_eq_false _ (by assumption))
  -- what is left are the bytes that may begin two; all of these may have an equals sign behind them
  all_goals
    have equals := isPrefixOf_eq_false [0x3D] (by assumption)
    simp only [operatorFronts, operators, List.zip_cons_cons, List.find?_cons, List.isPrefixOf_cons_cons, beq_self_eq_true,
      Bool.true_and, equals]
  case h_4 => rw [isPrefixOf_eq_false [0x3C] (by assumption), isPrefixOf_eq_false [0x3E] (by assumption)]; rfl
  case h_7 => rw [isPrefixOf_eq_false [0x2B] (by assumption)]; rfl
  case h_10 => rw [isPrefixOf_eq_false [0x2D] (by assumption)]; rfl
  case h_19 => rw [isPrefixOf_eq_false [0x3E] (by assumption)]; rfl
  all_goals rfl

theorem front_cases {front : List UInt8} (mem : front ∈ operatorFronts) : (∃ b, front = [b]) ∨ ∃ b c, front = [b, c] := by
  have lengths : ∀ f ∈ operatorFronts, f.length = 1 ∨ f.length = 2 := by decide
  exact (lengths front mem).imp List.length_eq_one_iff.mp List.length_eq_two.mp

/-- Two texts that begin with the same of what operators are written with begin with the same operator. -/
theorem operator?_congr {bs bs' : List UInt8} (same : ∀ front ∈ operatorFronts, front.isPrefixOf bs = front.isPrefixOf bs') :
    operator? bs = operator? bs' := by
  rw [operator?_eq, operator?_eq]
  exact congrArg _ (List.find?_congr fun p mem => same _ (List.of_mem_zip mem).1)

/-- No operator has more than two bytes. -/
theorem operator?_cons_cons (b c : UInt8) (text : List UInt8) : operator? (b :: c :: text) = operator? [b, c] := by
  refine operator?_congr fun front mem => ?_
  obtain ⟨d, rfl⟩ | ⟨d, e, rfl⟩ := front_cases mem <;> rfl

/-- Where a byte begins no operator of two bytes, nothing else counts. -/
theorem operator?_cons {b : UInt8} {text : List UInt8} (alone : ∀ c, [b, c] ∈ operatorFronts → [c].isPrefixOf text = false) :
    operator? (b :: text) = operator? [b] := by
  refine operator?_congr fun front mem => ?_
  obtain ⟨d, rfl⟩ | ⟨d, e, rfl⟩ := front_cases mem
  · rfl
  · by_cases same : d = b
    · subst same
      rw [List.isPrefixOf_cons_cons, List.isPrefixOf_cons_cons, alone e mem]
      rfl
    · rw [List.isPrefixOf_cons_cons, List.isPrefixOf_cons_cons, beq_false_of_ne same, Bool.false_and, Bool.false_and]

/-- A symbol is read where nothing follows that makes more of it. -/
theorem operator_symbol {k : Token.Kind} {s : String} (mem : (k, s) ∈ Lexeme.symbols) {text : List UInt8}
    (stops : (Lexeme.symbol k s).StopsBefore text) :
    operator? ((s : Text).bytes ++ text) = some (k, Lexeme.shown s, (s : Text).bytes.length) := by
  have table : ∀ p ∈ Lexeme.symbols, operator? (p.2 : Text).bytes = some (p.1, Lexeme.shown p.2, (p.2 : Text).bytes.length) ∧
      ((p.2 : Text).bytes ∈ operatorFronts) ∧ ((p.2 : Text).bytes.length = 1 → ∀ front ∈ operatorFronts,
        front.head? = (p.2 : Text).bytes.head? → ∀ c ∈ front.tail, (Lexeme.symbol p.1 p.2).stopsAt c = false) := by decide +kernel
  obtain ⟨itself, among, longer⟩ := table _ mem
  rw [← itself]
  obtain ⟨b, shape⟩ | ⟨b, c, shape⟩ := front_cases among
  · rw [shape] at longer ⊢
    refine operator?_cons fun c more => isPrefixOf_eq_false [c] fun after here => ?_
    subst here
    exact absurd (stops c rfl) (by simp [longer rfl _ more rfl c (List.mem_singleton_self c)])
  · rw [shape]
    exact operator?_cons_cons b c text

/-- A symbol begins with a byte that begins nothing else; only a slash may begin a comment. -/
theorem symbol_first {k : Token.Kind} {s : String} (mem : (k, s) ∈ Lexeme.symbols) :
    ∃ b rest, (s : Text).bytes = b :: rest ∧ b ∉ [10, 0, 32, 9, 13] ∧ b ≠ 0x22 ∧ b ≠ 0x27 ∧ b ≠ 0x2E ∧
      isDigit b = false ∧ isLetter b = false ∧ (b = 47 → s = "/") := by
  have all : ∀ p ∈ Lexeme.symbols, (p.2 : Text).bytes.head?.all (fun b => b ∉ [10, 0, 32, 9, 13] ∧ b ≠ 0x22 ∧
      b ≠ 0x27 ∧ b ≠ 0x2E ∧ isDigit b = false ∧ isLetter b = false ∧ (b = 47 → p.2 = "/")) = true := by decide
  have some : ∀ p ∈ Lexeme.symbols, (p.2 : Text).bytes ≠ [] := by decide
  have here := all (k, s) mem
  cases bytes : (s : Text).bytes with
  | nil => exact absurd bytes (some (k, s) mem)
  | cons b rest =>
    rw [bytes, List.head?_cons, Option.all_some, decide_eq_true_iff] at here
    exact ⟨b, rest, rfl, here⟩

/-! ## Lexemes -/

/-- No lexeme begins a gap. -/
theorem lexeme_first {a : Lexeme} (formed : a.Formed) {text : List UInt8} (stops : a.StopsBefore text) :
    ∃ b rest, a.bytes ++ text = b :: rest ∧ b ∉ [10, 0, 32, 9, 13] ∧
      (b = 47 → ∀ c, rest.head? = some c → c ≠ 47 ∧ c ≠ 42) := by
  cases a with
  | word bs =>
    obtain ⟨b, rest, rfl, letter, -⟩ := formed
    obtain ⟨solid, notSlash, -⟩ := isLetter_first letter
    exact ⟨b, rest ++ text, rfl, solid, fun h => absurd h notSlash⟩
  | digits ds =>
    obtain ⟨some, all⟩ := formed
    obtain ⟨b, rest, rfl⟩ := List.exists_cons_of_ne_nil some
    obtain ⟨solid, notSlash, -⟩ := isDigit_first (List.all_eq_true.mp all b List.mem_cons_self)
    exact ⟨b, rest ++ text, rfl, solid, fun h => absurd h notSlash⟩
  | long ds suffix =>
    obtain ⟨some, all, -⟩ := formed
    obtain ⟨b, rest, rfl⟩ := List.exists_cons_of_ne_nil some
    obtain ⟨solid, notSlash, -⟩ := isDigit_first (List.all_eq_true.mp all b List.mem_cons_self)
    exact ⟨b, rest ++ [suffix] ++ text, by simp [Lexeme.bytes], solid, fun h => absurd h notSlash⟩
  | symbol k s =>
    obtain ⟨b, rest, bytes, solid, -, -, -, -, -, slash⟩ := symbol_first formed
    refine ⟨b, rest ++ text, by simp [Lexeme.bytes, bytes], solid, fun h c hc => ?_⟩
    have hs := slash h
    subst hs
    obtain ⟨-, rfl⟩ : 47 = b ∧ [] = rest := List.cons.inj bytes
    have free := stops c hc
    constructor <;> rintro rfl <;> exact absurd free (by simp [Lexeme.stopsAt, Lexeme.lengthening])

/-- A lexeme is read as its token, up to the text that it stops before. -/
theorem tokenHere_lexeme {a : Lexeme} (formed : a.Formed) {text : List UInt8} (stops : a.StopsBefore text)
    (line column : Nat) : ∃ column', tokenHere ⟨a.bytes ++ text, line, column⟩ =
      ⟨⟨a.kind, a.literal, line, column⟩, [], ⟨text, line, column'⟩⟩ := by
  cases a with
  | word bs =>
    obtain ⟨b, rest, rfl, letter, inside⟩ := formed
    obtain ⟨solid, -, notDouble, notSingle, notDot, noDigit⟩ := isLetter_first letter
    have run : word (b :: rest ++ text) = b :: rest :=
      word_run (List.all_cons ▸ by simp [isWordByte, letter, inside]) stops
    refine ⟨column + (b :: rest).length, ?_⟩
    simp only [List.mem_cons, not_or] at solid
    have notZero := solid.2.1
    simp only [tokenHere, Lexeme.bytes, List.cons_append, notZero, notDouble, notSingle, notDot, noDigit, letter,
      if_false, if_true, Bool.false_or, Bool.false_and, decide_false, Bool.false_eq_true]
    rw [wordToken, ← List.cons_append, run]
    simp [Lexeme.kind, Lexeme.literal, skip]
  | digits ds =>
    obtain ⟨some, all⟩ := formed
    have run := number_digits all stops
    obtain ⟨b, rest, rfl⟩ := List.exists_cons_of_ne_nil some
    have digit := List.all_eq_true.mp all b List.mem_cons_self
    obtain ⟨solid, -, notDouble, notSingle⟩ := isDigit_first digit
    refine ⟨column + (b :: rest).length, ?_⟩
    simp only [List.mem_cons, not_or] at solid
    have notZero := solid.2.1
    simp only [tokenHere, Lexeme.bytes, List.cons_append, notZero, notDouble, notSingle, digit, if_false, if_true,
      Bool.or_self, Bool.true_or, decide_false, Bool.false_eq_true]
    rw [numberToken, ← List.cons_append, run]
    simp [Lexeme.literal, skip]
  | long ds suffix =>
    obtain ⟨some, all, hs⟩ := formed
    have run : number (ds ++ suffix :: text) = (ds, .long, 1) := number_long all hs
    obtain ⟨b, rest, rfl⟩ := List.exists_cons_of_ne_nil some
    have digit := List.all_eq_true.mp all b List.mem_cons_self
    obtain ⟨solid, -, notDouble, notSingle⟩ := isDigit_first digit
    refine ⟨column + ((b :: rest).length + 1), ?_⟩
    simp only [List.mem_cons, not_or] at solid
    have notZero := solid.2.1
    have shape : b :: rest ++ [suffix] ++ text = b :: rest ++ suffix :: text := by simp
    rw [Lexeme.bytes, shape]
    simp only [tokenHere, List.cons_append, notZero, notDouble, notSingle, digit, if_false, if_true,
      Bool.or_self, Bool.true_or, decide_false, Bool.false_eq_true]
    rw [numberToken, ← List.cons_append, run]
    simp [Lexeme.kind, Lexeme.literal, skip]
  | symbol k s =>
    have run := operator_symbol formed stops
    obtain ⟨b, rest, bytes, solid, notDouble, notSingle, notDot, noDigit, noLetter, -⟩ := symbol_first formed
    refine ⟨column + (s : Text).bytes.length, ?_⟩
    simp only [List.mem_cons, not_or] at solid
    have notZero := solid.2.1
    rw [Lexeme.bytes]
    rw [bytes] at run ⊢
    simp only [tokenHere, List.cons_append, notZero, notDouble, notSingle, notDot, noDigit, noLetter, if_false,
      Bool.or_self, Bool.false_and, decide_false, Bool.false_eq_true]
    rw [← List.cons_append, run]
    simp [Lexeme.kind, Lexeme.literal, skip]

/-- Behind a gap, a lexeme is read as its token. -/
theorem next_lexeme {a : Lexeme} (formed : a.Formed) {gap text : List UInt8} (blank : Blank gap)
    (stops : a.StopsBefore text) (line column : Nat) : ∃ line' column' column'',
      next ⟨gap ++ (a.bytes ++ text), line, column⟩ =
        ⟨⟨a.kind, a.literal, line', column'⟩, [], ⟨text, line', column''⟩⟩ := by
  obtain ⟨line', column', passed⟩ := skipGap_blank blank (a.bytes ++ text) line column
  obtain ⟨b, rest, first, solid, slash⟩ := lexeme_first formed stops
  obtain ⟨column'', here⟩ := tokenHere_lexeme formed stops line' column'
  refine ⟨line', column', column'', ?_⟩
  have stopped : skipGap (a.bytes ++ text) .blank line' column' = (⟨a.bytes ++ text, line', column'⟩, none) := by
    rw [first]
    exact skipGap_stop line' column' solid slash
  simp only [next, skipBlanks, passed, stopped, here]

/-- White space to the end of a text is read as the end mark. -/
theorem next_blank {gap : List UInt8} (blank : Blank gap) (line column : Nat) :
    ∃ line' column', next ⟨gap, line, column⟩ = ⟨⟨.eof, ⟨[]⟩, line', column'⟩, [], ⟨[], line', column'⟩⟩ := by
  obtain ⟨line', column', passed⟩ := skipGap_blank blank [] line column
  rw [List.append_nil] at passed
  refine ⟨line', column', ?_⟩
  simp only [next, skipBlanks, passed]
  rfl

end ScriptEngine.Cursor

namespace ScriptEngine

/-- What of a token does not depend on where it stands. -/
def Token.face (t : Token) : Token.Kind × Text := (t.kind, t.literal)

/-- The face of the token that a lexeme is read as. -/
def Lexeme.face (a : Lexeme) : Token.Kind × Text := (a.kind, a.literal)

/-- What is found under a word is listed with it. -/
theorem Text.mem_of_lookup {α : Type} {entries : List (Text × α)} {w : Text} {a : α} (h : entries.lookup w = some a) :
    (w, a) ∈ entries := by
  obtain ⟨before, after, shape, -⟩ := List.lookup_eq_some_iff.mp h
  simp [shape]

/-- A word is a keyword, the name of a type or any other name. -/
theorem Token.Kind.ofWord_cases (w : Text) : (∃ k, (w, k) ∈ Token.keywords ∧ Token.Kind.ofWord w = k) ∨
    ((Token.typeWords.lookup w).isSome = true ∧ Token.Kind.ofWord w = .typeName) ∨ Token.Kind.ofWord w = .ident := by
  unfold Token.Kind.ofWord
  split
  · rename_i k found
    exact .inl ⟨k, Text.mem_of_lookup found, rfl⟩
  · split
    · exact .inr (.inl ⟨‹_›, rfl⟩)
    · exact .inr (.inr rfl)

/-- No word ends a text. -/
theorem Token.Kind.ofWord_ne_eof (w : Text) : Token.Kind.ofWord w ≠ .eof := by
  have table : ∀ p ∈ Token.keywords, p.2 ≠ .eof := by decide
  rcases Token.Kind.ofWord_cases w with ⟨k, listed, kind⟩ | ⟨-, kind⟩ | kind
  · rw [kind]
    exact table _ listed
  · simp [kind]
  · simp [kind]

/-- No lexeme ends a text. -/
theorem Lexeme.kind_ne_eof {a : Lexeme} (formed : a.Formed) : a.kind ≠ .eof := by
  cases a with
  | word bs => exact Token.Kind.ofWord_ne_eof _
  | digits ds =>
    simp only [Lexeme.kind]
    split
    · simp
    · split <;> simp
  | long ds suffix => simp [Lexeme.kind]
  | symbol k s =>
    have table : ∀ p ∈ Lexeme.symbols, p.1 ≠ .eof := by decide
    exact table (k, s) formed

/-- A lexeme has a byte. -/
theorem Lexeme.bytes_length {a : Lexeme} (formed : a.Formed) : 0 < a.bytes.length := by
  have stops : a.StopsBefore [] := fun b hb => nomatch hb
  obtain ⟨b, rest, first, -⟩ := Cursor.lexeme_first formed stops
  rw [List.append_nil] at first
  simp [first]

/-- The tokens of a text are those of the lexemes that it is written with, and the end mark. -/
theorem Cursor.tokensFrom_written {as : List Lexeme} {text : List UInt8} (written : Written as text) (fuel : Nat)
    (enough : text.length < fuel) (line column : Nat) : ∃ ts e,
      Cursor.tokensFrom fuel ⟨text, line, column⟩ = (ts ++ [e], []) ∧ ts.map Token.face = as.map Lexeme.face ∧
        e.kind = .eof := by
  induction written generalizing fuel line column with
  | @nil gap blank =>
    obtain ⟨line', column', last⟩ := Cursor.next_blank blank line column
    obtain ⟨fuel, rfl⟩ := Nat.exists_eq_add_one_of_ne_zero (Nat.ne_zero_of_lt enough)
    refine ⟨[], ⟨.eof, ⟨[]⟩, line', column'⟩, ?_, rfl, rfl⟩
    simp only [Cursor.tokensFrom, last, if_true, List.nil_append]
  | @cons gap text a as blank formed stops rest ih =>
    obtain ⟨line', column', column'', here⟩ := Cursor.next_lexeme formed blank stops line column
    obtain ⟨fuel, rfl⟩ := Nat.exists_eq_add_one_of_ne_zero (Nat.ne_zero_of_lt enough)
    have bytes := Lexeme.bytes_length formed
    simp only [List.length_append] at enough
    obtain ⟨ts, e, more, faces, last⟩ := ih fuel (by omega) line' column''
    refine ⟨⟨a.kind, a.literal, line', column'⟩ :: ts, e, ?_, ?_, last⟩
    · simp only [Cursor.tokensFrom, here, Lexeme.kind_ne_eof formed, if_false, more, List.nil_append,
        List.cons_append]
    · simp [faces, Token.face, Lexeme.face]

/-- The tokens of a text are those of the lexemes that it is written with, and the end mark. -/
theorem Token.scan_written {as : List Lexeme} {text : List UInt8} (written : Written as text) : ∃ ts e,
    Token.scan ⟨text⟩ = (ts ++ [e], []) ∧ ts.map Token.face = as.map Lexeme.face ∧ e.kind = .eof :=
  Cursor.tokensFrom_written written (text.length + 1) (Nat.lt_succ_self _) 1 1

/-! ## Texts next to each other -/

theorem blank_nil : Blank [] := fun _ hb => nomatch hb

theorem blank_space : Blank [0x20] := fun b hb => by
  obtain rfl := List.mem_singleton.mp hb
  decide

/-- White space in front of a written text. -/
theorem Written.gap {as : List Lexeme} {gap text : List UInt8} (blank : Blank gap) (written : Written as text) :
    Written as (gap ++ text) := by
  have both {more : List UInt8} (h : Blank more) : Blank (gap ++ more) := fun b hb =>
    (List.mem_append.mp hb).elim (blank b) (h b)
  cases written with
  | nil h => exact .nil (both h)
  | cons h formed stops rest =>
    rw [← List.append_assoc]
    exact .cons (both h) formed stops rest

/-- The bytes that every lexeme ends before. -/
def Lexeme.separators : List UInt8 := [0x20, 0x28, 0x29, 0x2C, 0x3B, 0x5B, 0x5D]

/-- A text that begins with one of them. -/
theorem Lexeme.separated {b : UInt8} (hb : b ∈ Lexeme.separators) (text : List UInt8) :
    ∀ b', (b :: text).head? = some b' → b' ∈ Lexeme.separators := by
  intro b' head
  obtain rfl : b = b' := Option.some.inj head
  exact hb

/-- A lexeme ends before a text whose first byte it ends before. -/
theorem Lexeme.stopsBefore_cons {a : Lexeme} {b : UInt8} (h : a.stopsAt b = true) (text : List UInt8) :
    a.StopsBefore (b :: text) := by
  intro b' head
  obtain rfl : b = b' := Option.some.inj head
  exact h

theorem Lexeme.stopsAt_separator (a : Lexeme) {b : UInt8} (hb : b ∈ Lexeme.separators) : a.stopsAt b = true := by
  cases a with
  | word bs =>
    have all : Lexeme.separators.all (fun b => !Cursor.isWordByte b && b != 0x2E) = true := by decide
    exact List.all_eq_true.mp all b hb
  | digits ds =>
    have all : Lexeme.separators.all (fun b => !Cursor.isDigit b &&
      !([0x2E, 0x65, 0x45, 0x64, 0x44, 0x66, 0x46, 0x6C, 0x4C].contains b)) = true := by decide
    exact List.all_eq_true.mp all b hb
  | long ds suffix => rfl
  | symbol k s =>
    have all : Lexeme.separators.all (fun b => !((lengthening s).contains b)) = true := by
      unfold Lexeme.lengthening
      split <;> decide
    exact List.all_eq_true.mp all b hb

/-- A text may be written behind another that ends before its first byte. -/
theorem Written.append {as bs : List Lexeme} {text rest : List UInt8} (written : Written as text)
    (more : Written bs rest) (separated : ∀ b, rest.head? = some b → b ∈ Lexeme.separators) :
    Written (as ++ bs) (text ++ rest) := by
  induction written with
  | nil blank => exact more.gap blank
  | @cons gap text a as blank formed stops _ ih =>
    have stopsMore : a.StopsBefore (text ++ rest) := fun b hb => by
      cases text with
      | nil => exact a.stopsAt_separator (separated b hb)
      | cons c text => exact stops b hb
    rw [List.append_assoc, List.append_assoc]
    exact .cons blank formed stopsMore ih

theorem Lexeme.formed_symbol {k : Token.Kind} {s : String} (h : (k, s) ∈ Lexeme.symbols) :
    (Lexeme.symbol k s).Formed := h

theorem Written.formed {as : List Lexeme} {text : List UInt8} (written : Written as text) : ∀ a ∈ as, a.Formed := by
  induction written with
  | nil blank => exact fun a ha => nomatch ha
  | cons blank formed stops rest ih =>
    rw [List.forall_mem_cons]
    exact ⟨formed, ih⟩

/-- A single lexeme is written as its bytes. -/
theorem Written.single {a : Lexeme} (formed : a.Formed) : Written [a] a.bytes := by
  have stops : a.StopsBefore [] := fun b hb => nomatch hb
  have written : Written [a] ([] ++ (a.bytes ++ [])) := .cons blank_nil formed stops (.nil blank_nil)
  rw [List.nil_append, List.append_nil] at written
  exact written

/-- A lexeme in front of a text that it ends before. -/
theorem Written.push {a : Lexeme} {as : List Lexeme} {text : List UInt8} (written : Written as text) (formed : a.Formed)
    (stops : a.StopsBefore text) : Written (a :: as) (a.bytes ++ text) :=
  Written.cons blank_nil formed stops written

end ScriptEngine
