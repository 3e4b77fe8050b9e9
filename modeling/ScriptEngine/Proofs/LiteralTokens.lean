import Mathlib.Data.List.Forall2
import ScriptEngine.Proofs.SourceBytes
/-!
# The tokens of literals

A text between two quotes is read as one token, whatever bytes it holds, when the quotes and the backslashes in it have a
backslash before them. A number with a fraction or an exponent is read again from the digits of its token. And whatever source
text a token comes from, its literal has the form that its kind asks for.
-/

namespace ScriptEngine

open Text

/-! ## The form of a date -/

/-- A number of digits. -/
def IsDigits (n : Nat) (ds : List UInt8) : Prop := ds.length = n ∧ ∀ d ∈ ds, Cursor.isDigit d = true

/-- A time of day: a blank or `T`, hours and minutes, and perhaps seconds. -/
def HasTimeForm (v : List UInt8) : Prop :=
  ∃ mark hour minute second, (mark = 0x20 ∨ mark = 0x54) ∧ IsDigits 2 hour ∧ IsDigits 2 minute ∧
    (second = [] ∨ ∃ ds, IsDigits 2 ds ∧ second = 0x3A :: ds) ∧ v = mark :: (hour ++ 0x3A :: (minute ++ second))

/-- A day: `yyyy-mm-dd`, perhaps with a time of day behind it. -/
def HasDateForm (v : List UInt8) : Prop :=
  ∃ year month day time, IsDigits 4 year ∧ IsDigits 2 month ∧ IsDigits 2 day ∧ (time = [] ∨ HasTimeForm time) ∧
    v = year ++ 0x2D :: (month ++ 0x2D :: (day ++ time))

namespace Cursor

/-- A byte fits a character of a pattern. -/
def fitsChar (b : UInt8) (p : Char) : Bool :=
  if p = '9' then isDigit b else if p = '_' then b = 32 || b = 0x54 else b.toNat = p.toNat

/-- Bytes fit a pattern. -/
def Fits (bs : List UInt8) (ps : List Char) : Prop := List.Forall₂ (fun b p => fitsChar b p = true) bs ps

theorem fits_iff (bs : List UInt8) (ps : List Char) :
    (decide (bs.length = ps.length) && (bs.zip ps).all fun (b, p) => fitsChar b p) = true ↔ Fits bs ps := by
  rw [Fits, List.forall₂_iff_zip, Bool.and_eq_true, decide_eq_true_eq, List.all_eq_true]
  exact and_congr_right fun _ => ⟨fun h b p mem => h (b, p) mem, fun h x mem => h mem⟩

theorem isDateForm_fits (bs : List UInt8) : isDateForm bs = true ↔
    (Fits bs "9999-99-99".toList ∨ Fits bs "9999-99-99_99:99".toList) ∨ Fits bs "9999-99-99_99:99:99".toList := by
  rw [← fits_iff, ← fits_iff, ← fits_iff, ← Bool.or_eq_true, ← Bool.or_eq_true]
  rfl

section Patterns

variable {bs : List UInt8} {ps : List Char}

theorem fits_nil : Fits bs [] ↔ bs = [] := List.forall₂_nil_right_iff

/-- A character that stands for itself. -/
theorem fits_mark {p : Char} {c : UInt8} (mark : ∀ b, fitsChar b p = true ↔ b = c) :
    Fits bs (p :: ps) ↔ ∃ cs, bs = c :: cs ∧ Fits cs ps := by
  rw [Fits, List.forall₂_cons_right_iff]
  constructor
  · rintro ⟨b, cs, fits, more, rfl⟩
    exact ⟨cs, by rw [(mark b).mp fits], more⟩
  · rintro ⟨cs, rfl, more⟩
    exact ⟨c, cs, (mark c).mpr rfl, more, rfl⟩

theorem fits_dash : Fits bs ('-' :: ps) ↔ ∃ cs, bs = 0x2D :: cs ∧ Fits cs ps :=
  fits_mark fun b => by simp [fitsChar, ← UInt8.toNat_inj]

theorem fits_colon : Fits bs (':' :: ps) ↔ ∃ cs, bs = 0x3A :: cs ∧ Fits cs ps :=
  fits_mark fun b => by simp [fitsChar, ← UInt8.toNat_inj]

/-- Digits, and what follows them. -/
theorem fits_digits (n : Nat) :
    Fits bs (List.replicate n '9' ++ ps) ↔ ∃ ds cs, IsDigits n ds ∧ Fits cs ps ∧ bs = ds ++ cs := by
  induction n generalizing bs with
  | zero =>
    constructor
    · exact fun more => ⟨[], bs, ⟨rfl, fun _ hd => absurd hd List.not_mem_nil⟩, more, rfl⟩
    · rintro ⟨ds, cs, ⟨none, -⟩, more, rfl⟩
      rwa [List.length_eq_zero_iff.mp none]
  | succ n ih =>
    rw [List.replicate_succ, List.cons_append, Fits, List.forall₂_cons_right_iff]
    constructor
    · rintro ⟨b, _, digit, fits, rfl⟩
      obtain ⟨ds, cs, ⟨length, digits⟩, more, rfl⟩ := ih.mp fits
      refine ⟨b :: ds, cs, ⟨by rw [List.length_cons, length], ?_⟩, more, rfl⟩
      exact List.forall_mem_cons.mpr ⟨digit, digits⟩
    · rintro ⟨ds, cs, ⟨length, digits⟩, more, rfl⟩
      obtain - | ⟨d, ds⟩ := ds
      · cases length
      obtain ⟨digit, digits⟩ := List.forall_mem_cons.mp digits
      exact ⟨d, ds ++ cs, digit, ih.mpr ⟨ds, cs, ⟨Nat.succ.inj length, digits⟩, more, rfl⟩, rfl⟩

/-- A day, and what follows it. -/
theorem fits_day : Fits bs ("9999-99-99".toList ++ ps) ↔ ∃ year month day time, IsDigits 4 year ∧ IsDigits 2 month ∧ IsDigits 2 day ∧
    Fits time ps ∧ bs = year ++ 0x2D :: (month ++ 0x2D :: (day ++ time)) := by
  have pattern : "9999-99-99".toList ++ ps =
    List.replicate 4 '9' ++ '-' :: (List.replicate 2 '9' ++ '-' :: (List.replicate 2 '9' ++ ps)) := rfl
  rw [pattern, fits_digits]
  simp only [fits_dash, fits_digits]
  constructor
  · rintro ⟨year, _, hy, ⟨_, rfl, month, _, hm, ⟨_, rfl, day, time, hd, more, rfl⟩, rfl⟩, rfl⟩
    exact ⟨year, month, day, time, hy, hm, hd, more, rfl⟩
  · rintro ⟨year, month, day, time, hy, hm, hd, more, rfl⟩
    exact ⟨year, _, hy, ⟨_, rfl, month, _, hm, ⟨_, rfl, day, time, hd, more, rfl⟩, rfl⟩, rfl⟩

/-- A time of day, and what follows its minutes. -/
theorem fits_time : Fits bs ("_99:99".toList ++ ps) ↔ ∃ mark hour minute second, (mark = 0x20 ∨ mark = 0x54) ∧ IsDigits 2 hour ∧
    IsDigits 2 minute ∧ Fits second ps ∧ bs = mark :: (hour ++ 0x3A :: (minute ++ second)) := by
  have pattern : "_99:99".toList ++ ps = '_' :: (List.replicate 2 '9' ++ ':' :: (List.replicate 2 '9' ++ ps)) := rfl
  have mark (b : UInt8) : fitsChar b '_' = true ↔ b = 0x20 ∨ b = 0x54 := by simp [fitsChar]
  rw [pattern, Fits, List.forall₂_cons_right_iff]
  constructor
  · rintro ⟨b, _, sep, hours, rfl⟩
    obtain ⟨hour, _, hh, colon, rfl⟩ := (fits_digits 2).mp hours
    obtain ⟨_, rfl, minutes⟩ := fits_colon.mp colon
    obtain ⟨minute, second, hm, more, rfl⟩ := (fits_digits 2).mp minutes
    exact ⟨b, hour, minute, second, (mark b).mp sep, hh, hm, more, rfl⟩
  · rintro ⟨b, hour, minute, second, sep, hh, hm, fits, rfl⟩
    have minutes := (fits_digits 2).mpr ⟨minute, second, hm, fits, rfl⟩
    have hours := (fits_digits 2).mpr ⟨hour, _, hh, fits_colon.mpr ⟨_, rfl, minutes⟩, rfl⟩
    exact ⟨b, _, (mark b).mpr sep, hours, rfl⟩

/-- Seconds. -/
theorem fits_second : Fits bs ":99".toList ↔ ∃ ds, IsDigits 2 ds ∧ bs = 0x3A :: ds := by
  have pattern : ":99".toList = ':' :: (List.replicate 2 '9' ++ []) := rfl
  rw [pattern, fits_colon]
  constructor
  · rintro ⟨_, rfl, fits⟩
    obtain ⟨ds, cs, digits, none, rfl⟩ := (fits_digits 2).mp fits
    rw [fits_nil.mp none, List.append_nil]
    exact ⟨ds, digits, rfl⟩
  · rintro ⟨ds, digits, rfl⟩
    exact ⟨ds, rfl, (fits_digits 2).mpr ⟨ds, [], digits, fits_nil.mpr rfl, (List.append_nil ds).symm⟩⟩

/-- **Dates.** A literal is read as a date when it has the form of one. -/
theorem isDateForm_iff : isDateForm bs = true ↔ HasDateForm bs := by
  have minutes : "9999-99-99_99:99".toList = "9999-99-99".toList ++ ("_99:99".toList ++ []) := rfl
  have seconds : "9999-99-99_99:99:99".toList = "9999-99-99".toList ++ ("_99:99".toList ++ ":99".toList) := rfl
  rw [isDateForm_fits, ← List.append_nil "9999-99-99".toList, minutes, seconds, fits_day, fits_day, fits_day]
  simp only [fits_time, fits_nil, fits_second]
  constructor
  · rintro ((⟨year, month, day, time, hy, hm, hd, none, shape⟩ |
      ⟨year, month, day, time, hy, hm, hd, ⟨mark, hour, minute, second, sep, hh, hmin, none, rfl⟩, shape⟩) |
      ⟨year, month, day, time, hy, hm, hd, ⟨mark, hour, minute, second, sep, hh, hmin, some_, rfl⟩, shape⟩)
    · exact ⟨year, month, day, time, hy, hm, hd, .inl none, shape⟩
    · exact ⟨year, month, day, _, hy, hm, hd, .inr ⟨mark, hour, minute, second, sep, hh, hmin, .inl none, rfl⟩, shape⟩
    · exact ⟨year, month, day, _, hy, hm, hd, .inr ⟨mark, hour, minute, second, sep, hh, hmin, .inr some_, rfl⟩, shape⟩
  · rintro ⟨year, month, day, time, hy, hm, hd, none | ⟨mark, hour, minute, second, sep, hh, hmin, none | some_, rfl⟩, shape⟩
    · exact .inl (.inl ⟨year, month, day, time, hy, hm, hd, none, shape⟩)
    · exact .inl (.inr ⟨year, month, day, _, hy, hm, hd, ⟨mark, hour, minute, second, sep, hh, hmin, none, rfl⟩, shape⟩)
    · exact .inr ⟨year, month, day, _, hy, hm, hd, ⟨mark, hour, minute, second, sep, hh, hmin, some_, rfl⟩, shape⟩

/-- The form of a date is made of printable ASCII characters. -/
theorem ascii_of_fits (fits : Fits bs ps) (marks : ∀ p ∈ ps, p ∈ ['9', '-', ':', '_']) : ∀ b ∈ bs, 0x20 ≤ b ∧ b < 0x7F := by
  induction fits with
  | nil => exact nofun
  | @cons b p bs ps fits _ ih =>
    obtain ⟨mark, marks⟩ := List.forall_mem_cons.mp marks
    refine List.forall_mem_cons.mpr ⟨?_, ih marks⟩
    rw [UInt8.le_iff_toNat_le, UInt8.lt_iff_toNat_lt]
    simp only [List.mem_cons, List.not_mem_nil, or_false] at mark
    rcases mark with rfl | rfl | rfl | rfl <;>
      simp [fitsChar, isDigit, UInt8.le_iff_toNat_le, ← UInt8.toNat_inj] at fits <;> simp <;> omega

theorem isDateForm_ascii (form : isDateForm bs = true) : ∀ b ∈ bs, 0x20 ≤ b ∧ b < 0x7F := by
  rcases (isDateForm_fits bs).mp form with (fits | fits) | fits
  · exact ascii_of_fits fits (by simp)
  · exact ascii_of_fits fits (by simp)
  · exact ascii_of_fits fits (by simp)

end Patterns

end Cursor

/-! ## Texts between quotes -/

/-- A text with a backslash before each backslash and each quote in it. -/
def escapeIn (quote : UInt8) (v : List UInt8) : List UInt8 :=
  v.flatMap fun b => if b = 0x5C ∨ b = quote then [0x5C, b] else [b]

/-- A text between two quotes. -/
def quoteWith (quote : UInt8) (v : List UInt8) : Text := ⟨quote :: (escapeIn quote v ++ [quote])⟩

section Quoting

variable {quote : UInt8} {body v rest : List UInt8}

/-- What was escaped is the body of a literal, and stands for the text. -/
theorem unquoted_escapeIn (isQuote : IsQuote quote) (solid : 0 ∉ v) : Unquoted quote (escapeIn quote v) v := by
  induction v with
  | nil => exact .nil
  | cons b v ih =>
    rw [List.mem_cons, not_or] at solid
    have more := ih solid.2
    rw [escapeIn, List.flatMap_cons, ← escapeIn]
    split
    · rename_i special
      have simple : b ≠ 0x75 ∧ b ≠ 0x78 ∧ Cursor.escaped b = [b] := by
        rcases special with rfl | rfl
        · decide
        · rcases isQuote with rfl | rfl <;> decide
      have escape := Unquoted.escape (Ne.symm solid.1) ⟨simple.1, simple.2.1⟩ more
      rwa [simple.2.2] at escape
    · rename_i plain
      rw [not_or] at plain
      exact .byte plain.2 (Ne.symm solid.1) plain.1 more

/-- No line feed is escaped, so every byte of it counts. -/
theorem countedIn_escapeIn (isQuote : IsQuote quote) (v rest : List UInt8) :
    countedIn (escapeIn quote v ++ rest) = escapeIn quote v ++ countedIn rest := by
  induction v with
  | nil => rfl
  | cons b v ih =>
    rw [escapeIn, List.flatMap_cons, ← escapeIn]
    split
    · rename_i special
      have other : b ≠ 10 := by
        rcases special with rfl | rfl
        · decide
        · exact isQuote.plain.2.1
      rw [List.append_assoc, List.cons_append, List.cons_append, countedIn, if_neg other, List.nil_append, ih]
      rfl
    · rename_i plain
      rw [not_or] at plain
      rw [List.append_assoc, List.cons_append, List.nil_append, countedIn_cons plain.1, ih]
      rfl

namespace Cursor

/-- Digits that no other follows are read whole. -/
theorem hexRun_append {n : Nat} {digits : List UInt8} (most : digits.length ≤ n)
    (hex : ∀ d ∈ digits, (Text.hexValue? d).isSome = true)
    (fewer : digits.length < n → ∀ b, rest.head? = some b → Text.hexValue? b = none) : hexRun n (digits ++ rest) = digits := by
  induction digits generalizing n with
  | nil =>
    cases n with
    | zero => rfl
    | succ n =>
      cases rest with
      | nil => rfl
      | cons b rest =>
        have none := fewer (Nat.zero_lt_succ n) b rfl
        rw [List.nil_append, hexRun, none]
        rfl
  | cons d digits ih =>
    cases n with
    | zero => cases most
    | succ n =>
      obtain ⟨digit, hex⟩ := List.forall_mem_cons.mp hex
      rw [List.cons_append, hexRun, if_pos digit, ih (Nat.le_of_succ_le_succ most) hex fun less => fewer (Nat.succ_lt_succ less)]

/-- **The body of a literal is read as what it stands for**, up to the quote behind it. -/
theorem literal_unquoted (isQuote : IsQuote quote) (h : Unquoted quote body v) (rest before value : List UInt8) :
    literalBehind quote before (body ++ quote :: rest) value =
      (v.reverse ++ value, true, behind (before ++ (countedIn body ++ [quote])) rest) := by
  induction h generalizing before value with
  | nil => exact literalBehind_quote isQuote before rest value
  | @byte b body v inside solid plain more ih =>
    rw [List.cons_append, literalBehind_byte inside solid plain, ih, countedIn_cons plain]
    simp
  | @escape e body v solid simple more ih =>
    rw [List.cons_append, List.cons_append, literalBehind_escape isQuote solid simple, ih, countedIn]
    simp
  | @code e n digits body v sort most hex fewer more ih =>
    have mark : e ≠ 10 := by
      rcases sort with ⟨rfl, -⟩ | ⟨rfl, -⟩ <;> decide
    have backslash : 0x5C ∉ digits := fun bad => (hexDigit_plain (hex _ bad)).1 rfl
    -- the quote is no digit
    have ends : digits.length < n → ∀ b, (body ++ quote :: rest).head? = some b → Text.hexValue? b = none := by
      intro less b hb
      cases body with
      | nil =>
        cases hb
        rcases isQuote with rfl | rfl <;> rfl
      | cons c body =>
        cases hb
        exact fewer less _ rfl
    rw [List.cons_append, List.cons_append, List.append_assoc, literalBehind_code isQuote sort (hexRun_append most hex ends) hex, ih,
      countedIn, if_neg mark, countedIn_append backslash]
    simp

/-- A literal between two quotes is the next token, whatever is behind it. -/
theorem next_unquoted (isQuote : IsQuote quote) (h : Unquoted quote body v) (rest : List UInt8) :
    (start ⟨quote :: (body ++ quote :: rest)⟩).next =
      ⟨⟨if isDateForm v then .date else .string, ⟨v⟩, 1, 1⟩, [], behind ([quote] ++ (countedIn body ++ [quote])) rest⟩ := by
  have gap : (start ⟨quote :: (body ++ quote :: rest)⟩).skipBlanks = (start ⟨quote :: (body ++ quote :: rest)⟩, none) := by
    refine skipGap_stop 1 1 ?_ fun slash => ?_
    · rcases isQuote with rfl | rfl <;> decide
    · rcases isQuote with rfl | rfl <;> cases slash
  have quoted : (start ⟨quote :: (body ++ quote :: rest)⟩).tokenHere =
      (start ⟨quote :: (body ++ quote :: rest)⟩).quotedToken quote := by
    have test : (quote = 0x22 || quote = 0x27) = true := by rcases isQuote with rfl | rfl <;> rfl
    unfold tokenHere start
    dsimp only
    rw [if_neg isQuote.plain.1, if_pos test]
  have read := literal_unquoted isQuote h rest [quote] []
  rw [List.append_nil] at read
  have token : (behind [] (quote :: (body ++ quote :: rest))).quotedToken quote = _ := quotedToken_closed isQuote read
  rw [List.reverse_reverse] at token
  rw [next, gap]
  exact quoted.trans token

/-- A text between two quotes is the next token. -/
theorem next_quoted (isQuote : IsQuote quote) (solid : 0 ∉ v) : (start (quoteWith quote v)).next =
    ⟨⟨if isDateForm v then .date else .string, ⟨v⟩, 1, 1⟩, [], behind (quoteWith quote v).bytes []⟩ := by
  have whole : [quote] ++ (countedIn (escapeIn quote v) ++ [quote]) = (quoteWith quote v).bytes := by
    have counted := countedIn_escapeIn isQuote v []
    rw [List.append_nil, countedIn, List.append_nil] at counted
    rw [counted]
    rfl
  rw [← whole]
  exact next_unquoted isQuote (unquoted_escapeIn isQuote solid) []

end Cursor

/-- **A quoted text is read as one token.** Its literal is the text; it is a date or a string, as the text has the form of a
date or not. -/
theorem Token.scan_quoted (isQuote : IsQuote quote) (solid : 0 ∉ v) : ∃ kind,
    Token.scan (quoteWith quote v) = ([⟨kind, ⟨v⟩, 1, 1⟩,
      ⟨.eof, ⟨[]⟩, lineBehind (quoteWith quote v).bytes, columnBehind (quoteWith quote v).bytes⟩], []) ∧
    (HasDateForm v → kind = .date) ∧ (¬HasDateForm v → kind = .string) := by
  have legal : (if Cursor.isDateForm v then Token.Kind.date else .string) ≠ .eof := by
    split <;> decide
  refine ⟨if Cursor.isDateForm v then .date else .string, ?_, fun date => ?_, fun other => ?_⟩
  · have length : (quoteWith quote v).size = (escapeIn quote v).length + 1 + 1 := by simp [quoteWith, Text.size]
    rw [Token.scan, length, Cursor.tokensFrom, Cursor.next_quoted isQuote solid]
    dsimp only
    rw [if_neg legal]
    rfl
  · rw [if_pos (Cursor.isDateForm_iff.mpr date)]
  · rw [if_neg fun date => other (Cursor.isDateForm_iff.mp date)]

/-- A quote, a backslash, a line feed, the letter `n` and a letter of two bytes between quotes. -/
theorem Token.scan_quoted_mixed : IsQuote 0x22 ∧ (0 : UInt8) ∉ [0x22, 0x5C, 10, 0x6E, 0xC3, 0xA9] ∧
    Token.scan ⟨[0x22, 0x5C, 0x22, 0x5C, 0x5C, 10, 0x6E, 0xC3, 0xA9, 0x22]⟩ =
      ([⟨.string, ⟨[0x22, 0x5C, 10, 0x6E, 0xC3, 0xA9]⟩, 1, 1⟩, ⟨.eof, ⟨[]⟩, 2, 5⟩], []) := by
  have isQuote : IsQuote 0x22 := .inl rfl
  have solid : (0 : UInt8) ∉ [0x22, 0x5C, 10, 0x6E, 0xC3, 0xA9] := by decide
  obtain ⟨kind, run, -, other⟩ := Token.scan_quoted isQuote solid
  have noDate : ¬HasDateForm [0x22, 0x5C, 10, 0x6E, 0xC3, 0xA9] := by
    rw [← Cursor.isDateForm_iff]
    decide
  rw [other noDate] at run
  exact ⟨isQuote, solid, run⟩

end Quoting

/-! ## Suited tokens -/

/-- The literal of a token has the form that its kind asks for. -/
structure Token.Suited (t : Token) : Prop where
  whole : t.kind = .int ∨ t.kind = .long → Digits t.literal.bytes
  double : t.kind = .double → ∃ whole frac exp, NumberParts whole frac exp ∧ t.literal.bytes = whole ++ frac ++ exp
  date : t.kind = .date → Cursor.isDateForm t.literal.bytes = true
  string : t.kind = .string → Cursor.isDateForm t.literal.bytes = false

/-- The kinds of literals whose form matters. -/
def Token.Kind.literals : List Token.Kind := [.int, .long, .double, .date, .string]

/-- A token of another kind is suited. -/
theorem Token.suited_of_kind {k : Token.Kind} (other : k ∉ Token.Kind.literals) (literal : Text) (line column : Nat) :
    (⟨k, literal, line, column⟩ : Token).Suited := by
  simp only [Token.Kind.literals, List.mem_cons, List.not_mem_nil, or_false, not_or] at other
  obtain ⟨int, long, double, date, string⟩ := other
  exact ⟨fun h => h.elim int.elim long.elim, fun h => absurd h double, fun h => absurd h date, fun h => absurd h string⟩

namespace Cursor

/-! ## The numbers of a text -/

/-- What is no double has digits only. -/
theorem number_whole {bs : List UInt8} (h : (number bs).2.1 ≠ .double) : (number bs).1 = bs.takeWhile isDigit := by
  unfold number at h ⊢
  dsimp only at h ⊢
  generalize fraction (bs.dropWhile isDigit) = frac at h ⊢
  generalize exponent ((bs.dropWhile isDigit).drop frac.length) = exp at h ⊢
  cases bare : frac.isEmpty && exp.isEmpty with
  | false =>
    -- a fraction or an exponent makes a double, with or without a letter behind it
    rw [bare] at h
    refine absurd ?_ h
    split <;> rfl
  | true =>
    rw [Bool.and_eq_true, List.isEmpty_iff, List.isEmpty_iff] at bare
    obtain ⟨rfl, rfl⟩ := bare
    rw [List.append_nil, List.append_nil]
    repeat' split
    all_goals rfl

/-- The token of a number is suited. -/
theorem suited_number {b : UInt8} {rest : List UInt8} (h : (isDigit b || (b = 0x2E && rest.head?.any isDigit)) = true)
    (line column : Nat) : (⟨(number (b :: rest)).2.1, ⟨(number (b :: rest)).1⟩, line, column⟩ : Token).Suited := by
  have some := number_ne_nil h
  have kinds := kind_number (b :: rest)
  constructor
  · intro whole
    have noDouble : (number (b :: rest)).2.1 ≠ .double := by
      intro double
      rcases whole with int | long
      · exact absurd (int.symm.trans double) (by decide)
      · exact absurd (long.symm.trans double) (by decide)
    have digits := number_whole noDouble
    refine ⟨some, ?_⟩
    show ∀ d ∈ (number (b :: rest)).1, _
    rw [digits]
    exact fun d mem => List.mem_takeWhile_imp mem
  · intro _
    obtain ⟨whole, frac, exp, suffix, after, parts, -, -, literal, -⟩ := number_bytes h
    exact ⟨whole, frac, exp, parts, literal⟩
  · intro date
    rcases kinds with kind | kind | kind <;> exact absurd (kind.symm.trans date) (by decide)
  · intro string
    rcases kinds with kind | kind | kind <;> exact absurd (kind.symm.trans string) (by decide)

/-! ## All tokens of a text -/

/-- What is true of the next token wherever one is read is true of all tokens. -/
theorem forall_tokensFrom {P : Token → Prop} (each : ∀ c : Cursor, P c.next.token) (fuel : Nat) (c : Cursor) :
    ∀ t ∈ (tokensFrom fuel c).1, P t := by
  induction fuel generalizing c with
  | zero => exact nofun
  | succ fuel ih =>
    rw [tokensFrom]
    dsimp only
    split
    · exact List.forall_mem_singleton.mpr (each c)
    · exact List.forall_mem_cons.mpr ⟨each c, ih c.next.after⟩

/-- A token that stands at a cursor is suited. -/
theorem tokenHere_suited (c : Cursor) : c.tokenHere.token.Suited := by
  unfold tokenHere
  split
  · exact Token.suited_of_kind (by decide) _ _ _
  rename_i b rest shape
  split
  · exact Token.suited_of_kind (by decide) _ _ _
  split
  · -- a quoted literal is a date by its form
    unfold quotedToken
    dsimp only
    split
    · split
      · rename_i form
        exact ⟨by simp, by simp, fun _ => form, by simp⟩
      · rename_i form
        exact ⟨by simp, by simp, by simp, fun _ => Bool.not_eq_true _ ▸ form⟩
    · exact Token.suited_of_kind (by decide) _ _ _
  split
  · rename_i begins
    unfold numberToken
    rw [shape]
    exact suited_number begins _ _
  split
  · -- no word has the kind of a literal
    refine Token.suited_of_kind ?_ _ _ _
    have table : ∀ p ∈ Token.keywords, p.2 ∉ Token.Kind.literals := by decide
    rcases Token.Kind.ofWord_cases (Text.lowerAscii ⟨word c.rest⟩) with ⟨k, listed, kind⟩ | ⟨-, kind⟩ | kind
    · rw [kind]
      exact table _ listed
    · rw [kind]
      decide
    · rw [kind]
      decide
  split
  · rename_i found
    have table : ∀ o ∈ operators, o.1 ∉ Token.Kind.literals := by decide
    exact Token.suited_of_kind (table _ (mem_operators found)) _ _ _
  · exact Token.suited_of_kind (by decide) _ _ _

theorem next_suited (c : Cursor) : c.next.token.Suited := by
  unfold next
  split
  · exact Token.suited_of_kind (by decide) _ _ _
  · exact tokenHere_suited _

end Cursor

/-- **The tokens of a text are suited.** -/
theorem Token.scan_suited (source : Text) : ∀ t ∈ (Token.scan source).1, t.Suited :=
  Cursor.forall_tokensFrom Cursor.next_suited _ _

/-! ## Numbers read again -/

namespace Cursor

variable {whole frac exp ds text : List UInt8}

/-- A fraction is read up to what is no digit. -/
theorem fraction_run (digits : Digits ds) (stops : ∀ b, text.head? = some b → isDigit b = false) :
    fraction (0x2E :: (ds ++ text)) = 0x2E :: ds := by
  obtain ⟨some, all⟩ := digits
  obtain ⟨d, rest, rfl⟩ := List.exists_cons_of_ne_nil some
  obtain ⟨digit, more⟩ := List.forall_mem_cons.mp all
  have taken := (takeWhile_run (List.all_eq_true.mpr more) stops).1
  rw [List.cons_append, fraction, if_pos digit, taken]

/-- An exponent is read up to what is no digit. -/
theorem exponent_run {mark : UInt8} {sign : List UInt8} (marked : mark = 0x65 ∨ mark = 0x45)
    (signed : sign = [] ∨ sign = [0x2B] ∨ sign = [0x2D]) (digits : Digits ds)
    (stops : ∀ b, text.head? = some b → isDigit b = false) : exponent (mark :: (sign ++ ds) ++ text) = mark :: (sign ++ ds) := by
  obtain ⟨some, all⟩ := digits
  obtain ⟨d, rest, rfl⟩ := List.exists_cons_of_ne_nil some
  obtain ⟨digit, more⟩ := List.forall_mem_cons.mp all
  have taken := (takeWhile_run (List.all_eq_true.mpr more) stops).1
  have taken' := (takeWhile_run (List.all_eq_true.mpr all) stops).1
  have marks : (mark = 0x65 || mark = 0x45) = true := by rcases marked with rfl | rfl <;> rfl
  have behindSign {c : UInt8} (sort : (c = 0x2D || c = 0x2B) = true) (other : isDigit c = false) :
      exponent (mark :: c :: (d :: rest ++ text)) = mark :: c :: d :: rest := by
    have next : ((c = 0x2D || c = 0x2B) && (d :: rest ++ text).head?.any isDigit) = true := Bool.and_eq_true_iff.mpr ⟨sort, digit⟩
    rw [exponent, if_pos marks, other, if_neg Bool.false_ne_true, if_pos next, taken']
  rcases signed with rfl | rfl | rfl
  · rw [List.nil_append, List.cons_append, List.cons_append, exponent, if_pos marks, if_pos digit, taken]
  · exact behindSign rfl rfl
  · exact behindSign rfl rfl

end Cursor

/-- A number with a fraction or an exponent has a byte that is no digit. -/
theorem NumberParts.mark {whole frac exp : List UInt8} (parts : NumberParts whole frac exp)
    (more : (frac.isEmpty && exp.isEmpty) = false) : ∃ b ∈ whole ++ frac ++ exp, Cursor.isDigit b = false := by
  rcases parts.fraction with rfl | ⟨ds, -, rfl⟩
  · rcases parts.exponent with rfl | ⟨mark, sign, ds, marked, -, -, rfl⟩
    · cases more
    · refine ⟨mark, by simp, ?_⟩
      rcases marked with rfl | rfl <;> rfl
  · exact ⟨0x2E, by simp, rfl⟩

namespace Cursor

variable {whole frac exp : List UInt8}

/-- **A number with a fraction or an exponent is read again as a double**, up to the semicolon behind it. -/
theorem number_parts (parts : NumberParts whole frac exp) (more : (frac.isEmpty && exp.isEmpty) = false) (text : List UInt8) :
    number (whole ++ frac ++ exp ++ 0x3B :: text) = (whole ++ frac ++ exp, .double, 0) := by
  have semicolon : ∀ b, (0x3B :: text).head? = some b → isDigit b = false := fun b hb => Option.some.inj hb ▸ rfl
  have expRead : exponent (exp ++ 0x3B :: text) = exp ∧ ∀ b, (exp ++ 0x3B :: text).head? = some b → isDigit b = false ∧ b ≠ 0x2E := by
    rcases parts.exponent with rfl | ⟨mark, sign, ds, marked, signed, digits, rfl⟩
    · exact ⟨exponent_stop fun b hb => Option.some.inj hb ▸ by decide, fun b hb => Option.some.inj hb ▸ by decide⟩
    · refine ⟨exponent_run marked signed digits semicolon, fun b hb => ?_⟩
      obtain rfl : mark = b := Option.some.inj hb
      rcases marked with rfl | rfl <;> decide
  obtain ⟨expRead, expFirst⟩ := expRead
  have fracRead : fraction (frac ++ (exp ++ 0x3B :: text)) = frac ∧
      ∀ b, (frac ++ (exp ++ 0x3B :: text)).head? = some b → isDigit b = false := by
    rcases parts.fraction with rfl | ⟨ds, digits, rfl⟩
    · exact ⟨fraction_stop fun b hb => (expFirst b hb).2, fun b hb => (expFirst b hb).1⟩
    · exact ⟨fraction_run digits fun b hb => (expFirst b hb).1, fun b hb => Option.some.inj hb ▸ rfl⟩
  obtain ⟨fracRead, fracFirst⟩ := fracRead
  obtain ⟨taken, left⟩ := takeWhile_run (List.all_eq_true.mpr parts.digits) fracFirst
  have suffixless (q : UInt8 → Bool) (hq : q 0x3B = false) : (0x3B :: text).head?.any q = false := hq
  have shape : whole ++ frac ++ exp ++ 0x3B :: text = whole ++ (frac ++ (exp ++ 0x3B :: text)) := by
    rw [List.append_assoc, List.append_assoc]
  unfold number
  simp only [shape, taken, left, fracRead, List.drop_left, expRead, more]
  rw [suffixless _ rfl, suffixless _ rfl]
  rfl

/-- So it is the next token in front of a semicolon. -/
theorem next_double (parts : NumberParts whole frac exp) (more : (frac.isEmpty && exp.isEmpty) = false) :
    ∃ k, (start ⟨whole ++ frac ++ exp ++ [0x3B]⟩).next =
      ⟨⟨.double, ⟨whole ++ frac ++ exp⟩, 1, 1⟩, [], ⟨[0x3B], 1, k⟩⟩ := by
  have run := number_parts parts more []
  obtain ⟨b, rest, shape, begins, first⟩ : ∃ b rest, whole ++ frac ++ exp ++ [0x3B] = b :: rest ∧
      (isDigit b || (b = 0x2E && rest.head?.any isDigit)) = true ∧ (isDigit b = true ∨ b = 0x2E) := by
    rcases whole with - | ⟨d, whole⟩
    · rcases parts.fraction with rfl | ⟨ds, ⟨some, all⟩, rfl⟩
      · exact absurd rfl (parts.some_.resolve_left (· rfl))
      obtain ⟨d, ds, rfl⟩ := List.exists_cons_of_ne_nil some
      exact ⟨0x2E, _, rfl, all d List.mem_cons_self, .inr rfl⟩
    · have digit := parts.digits d List.mem_cons_self
      exact ⟨d, _, rfl, by rw [digit, Bool.true_or], .inl digit⟩
  have plain : b ∉ [10, 0, 32, 9, 13] ∧ b ≠ 47 ∧ b ≠ 0x22 ∧ b ≠ 0x27 := by
    rcases first with digit | rfl
    · exact isDigit_first digit
    · decide
  obtain ⟨solid, noSlash, notDouble, notSingle⟩ := plain
  have gap : (start ⟨whole ++ frac ++ exp ++ [0x3B]⟩).skipBlanks = (start ⟨whole ++ frac ++ exp ++ [0x3B]⟩, none) := by
    unfold skipBlanks start
    rw [shape]
    exact skipGap_stop 1 1 solid fun slash => absurd slash noSlash
  have here : (start ⟨whole ++ frac ++ exp ++ [0x3B]⟩).tokenHere = (start ⟨whole ++ frac ++ exp ++ [0x3B]⟩).numberToken := by
    have notZero : b ≠ 0 := fun zero => solid (by simp [zero])
    have noQuote : (b = 0x22 || b = 0x27) = false := by simp [notDouble, notSingle]
    unfold tokenHere start
    simp only [shape, notZero, noQuote, begins, if_false, if_true, Bool.false_eq_true]
  refine ⟨1 + (whole ++ frac ++ exp).length, ?_⟩
  rw [next, gap]
  dsimp only
  rw [here]
  unfold numberToken skip start
  rw [run]
  simp only [Nat.add_zero, List.drop_left]

end Cursor

/-! ## Tokens in front of a semicolon -/

/-- A text of one token with a semicolon behind it is read as the token, the semicolon and the end mark. -/
theorem Token.scan_before_semicolon {bs : List UInt8} {t : Token} {l k : Nat}
    (first : (Cursor.start ⟨bs ++ [0x3B]⟩).next = ⟨t, [], ⟨[0x3B], l, k⟩⟩) (some : t.kind ≠ .eof) :
    Token.scan ⟨bs ++ [0x3B]⟩ = ([t, ⟨.semicolon, ";", l, k⟩, ⟨.eof, ⟨[]⟩, l, k + 1⟩], []) := by
  have semicolon : (⟨[0x3B], l, k⟩ : Cursor).next = ⟨⟨.semicolon, ";", l, k⟩, [], ⟨[], l, k + 1⟩⟩ := rfl
  have ended : (⟨[], l, k + 1⟩ : Cursor).next = ⟨⟨.eof, ⟨[]⟩, l, k + 1⟩, [], ⟨[], l, k + 1⟩⟩ := rfl
  have enough : Token.scan ⟨bs ++ [0x3B]⟩ = Cursor.tokensFrom ((bs ++ [0x3B]).length + 3) (Cursor.start ⟨bs ++ [0x3B]⟩) :=
    Cursor.tokensFrom_fuel _ (Nat.lt_succ_self _) (Nat.lt_add_of_pos_right (by decide))
  rw [enough, Cursor.tokensFrom, first, Cursor.tokensFrom, semicolon, Cursor.tokensFrom, ended]
  simp only [some, if_false, if_true, reduceCtorEq, List.nil_append]

/-- A text of one lexeme with a semicolon behind it. -/
theorem Token.scan_lexeme {a : Lexeme} (formed : a.Formed) (stops : a.stopsAt 0x3B = true) : ∃ t z e,
    Token.scan ⟨a.bytes ++ [0x3B]⟩ = ([t, z, e], []) ∧ t.face = a.face ∧ z.kind = .semicolon ∧ e.kind = .eof := by
  obtain ⟨l, k, k', first⟩ := Cursor.next_lexeme formed blank_nil (Lexeme.stopsBefore_cons stops []) 1 1
  exact ⟨_, _, _, Token.scan_before_semicolon first (Lexeme.kind_ne_eof formed), rfl, rfl, rfl⟩

end ScriptEngine
