import Mathlib.Data.List.Forall2
import Mathlib.Data.List.Infix
import ScriptEngine.Proofs.TokenStream
/-!
# The bytes of source text

What the tokens, the comments and the quoted literals of a source text are spelled with, and the lines and columns that are
counted by them.
-/

namespace ScriptEngine

/-! ## Places in a text -/

namespace Text

variable {bs : List UInt8}

/-- The line behind some bytes: one more than there are line feeds in them. -/
def lineBehind (before : List UInt8) : Nat := 1 + before.count 10

/-- The column behind some bytes: one more than there are bytes since the last line feed. -/
def columnBehind (before : List UInt8) : Nat := 1 + (before.reverse.takeWhile (· ≠ 10)).length

theorem lineBehind_append (before bs : List UInt8) : lineBehind (before ++ bs) = lineBehind before + bs.count 10 := by
  simp only [lineBehind, List.count_append]
  omega

/-- Bytes without a line feed stay on the line. -/
theorem lineBehind_line (before : List UInt8) (h : 10 ∉ bs) : lineBehind (before ++ bs) = lineBehind before := by
  rw [lineBehind_append, List.count_eq_zero_of_not_mem h, Nat.add_zero]

theorem columnBehind_append (before : List UInt8) (h : 10 ∉ bs) :
    columnBehind (before ++ bs) = columnBehind before + bs.length := by
  have inside : ∀ b ∈ bs.reverse, decide (b ≠ 10) = true := by
    intro b hb
    rw [decide_eq_true_eq]
    rintro rfl
    exact h (List.mem_reverse.mp hb)
  rw [columnBehind, columnBehind, List.reverse_append, List.takeWhile_append_of_pos inside, List.length_append,
    List.length_reverse]
  omega

theorem columnBehind_feed (before : List UInt8) : columnBehind (before ++ [10]) = 1 := by
  simp [columnBehind]

end Text

namespace Cursor

open Text

variable {bs : List UInt8}

/-- The cursor that stands behind some bytes, and before others. -/
def behind (before rest : List UInt8) : Cursor := ⟨rest, lineBehind before, columnBehind before⟩

/-- Bytes of one line move the cursor to the right. -/
theorem behind_line (before rest : List UInt8) (h : 10 ∉ bs) :
    behind (before ++ bs) rest = ⟨rest, lineBehind before, columnBehind before + bs.length⟩ := by
  rw [behind, lineBehind_line before h, columnBehind_append before h]

theorem behind_skip (before rest : List UInt8) (h : 10 ∉ bs) : (behind before (bs ++ rest)).skip bs.length = behind (before ++ bs) rest := by
  rw [behind_line before rest h, skip, behind, List.drop_left]

end Cursor

/-- The end of a text, or a byte of value zero, which is taken for it. -/
def Ended (rest : List UInt8) : Prop := rest = [] ∨ ∃ more, rest = 0 :: more

/-! ## Quoted literals -/

/-- A byte that quoted literals are put between. -/
def IsQuote (b : UInt8) : Prop := b = 0x22 ∨ b = 0x27

theorem IsQuote.plain {b : UInt8} (h : IsQuote b) : b ≠ 0 ∧ b ≠ 10 ∧ b ≠ 0x5C := by
  rcases h with rfl | rfl <;> decide

/-- The body of a literal between two quotes, and the bytes that it stands for. A code has at most four or two digits, and fewer
only where no other follows. -/
inductive Unquoted (quote : UInt8) : List UInt8 → List UInt8 → Prop where
  | nil : Unquoted quote [] []
  | byte {b : UInt8} {body value : List UInt8} (inside : b ≠ quote) (solid : b ≠ 0) (plain : b ≠ 0x5C)
    (more : Unquoted quote body value) : Unquoted quote (b :: body) (b :: value)
  | escape {e : UInt8} {body value : List UInt8} (solid : e ≠ 0) (simple : e ≠ 0x75 ∧ e ≠ 0x78)
    (more : Unquoted quote body value) : Unquoted quote (0x5C :: e :: body) (Cursor.escaped e ++ value)
  | code {e : UInt8} {n : Nat} {digits body value : List UInt8} (sort : e = 0x75 ∧ n = 4 ∨ e = 0x78 ∧ n = 2)
    (most : digits.length ≤ n) (hex : ∀ d ∈ digits, (Text.hexValue? d).isSome = true)
    (fewer : digits.length < n → ∀ b, body.head? = some b → Text.hexValue? b = none) (more : Unquoted quote body value) :
    Unquoted quote (0x5C :: e :: (digits ++ body)) (Cursor.hexChar digits ++ value)

/-- The bytes that lines and columns are counted by in a quoted literal. A line feed behind the backslash of an escape is taken
for a byte of its line. -/
def countedIn : List UInt8 → List UInt8
  | 0x5C :: e :: rest => 0x5C :: (if e = 10 then 0x20 else e) :: countedIn rest
  | b :: rest => b :: countedIn rest
  | [] => []

/-- The number of line feeds that stand behind the backslash of an escape. -/
def escapedFeeds : List UInt8 → Nat
  | 0x5C :: e :: rest => (if e = 10 then 1 else 0) + escapedFeeds rest
  | _ :: rest => escapedFeeds rest
  | [] => 0

section Quoted

variable {quote b : UInt8} {bs body value rest : List UInt8}

theorem countedIn_cons (h : b ≠ 0x5C) (rest : List UInt8) : countedIn (b :: rest) = b :: countedIn rest := by
  rw [countedIn]
  rintro _ _ rfl
  exact absurd rfl h

theorem countedIn_append (h : 0x5C ∉ bs) (rest : List UInt8) : countedIn (bs ++ rest) = bs ++ countedIn rest := by
  induction bs with
  | nil => rfl
  | cons b bs ih =>
    rw [List.mem_cons, not_or] at h
    rw [List.cons_append, countedIn_cons (Ne.symm h.1), ih h.2, List.cons_append]

/-- Without an escaped line feed all bytes count as they are. -/
theorem countedIn_eq_self (h : escapedFeeds bs = 0) : countedIn bs = bs := by
  fun_induction countedIn bs with
  | case1 e rest ih =>
    rw [escapedFeeds, Nat.add_eq_zero_iff] at h
    have other : e ≠ 10 := by
      rintro rfl
      exact absurd h.1 (by decide)
    rw [if_neg other, ih h.2]
  | case2 b rest other ih =>
    rw [escapedFeeds] at h
    · rw [ih h]
    · exact other
  | case3 => rfl

/-- Counting leaves every byte in its place, and makes no line feed of another one. -/
theorem countedIn_aligned (bs : List UInt8) : List.Forall₂ (fun c b => c = 10 → b = 10) (countedIn bs) bs := by
  fun_induction countedIn bs with
  | case1 e rest ih =>
    refine .cons id (.cons ?_ ih)
    split
    · exact fun _ => ‹e = 10›
    · exact id
  | case2 b rest other ih => exact .cons id ih
  | case3 => exact .nil

/-- The line feeds that are counted, and those that are not. -/
theorem count_countedIn (bs : List UInt8) : (countedIn bs).count 10 + escapedFeeds bs = bs.count 10 := by
  fun_induction countedIn bs with
  | case1 e rest ih =>
    rw [escapedFeeds]
    split
    · rename_i feed
      subst feed
      simp
      omega
    · simp [List.count_cons]
      omega
  | case2 b rest other ih =>
    rw [escapedFeeds, List.count_cons, List.count_cons]
    · omega
    · exact other
  | case3 => rfl

/-- Hexadecimal digits are no backslash, no line feed, no quote and no zero. -/
theorem hexDigit_plain (h : (Text.hexValue? b).isSome = true) : b ≠ 0x5C ∧ b ≠ 10 ∧ b ≠ 0 ∧ ¬IsQuote b := by
  have plain : Text.hexValue? 0x5C = none ∧ Text.hexValue? 10 = none ∧ Text.hexValue? 0 = none ∧
    Text.hexValue? 0x22 = none ∧ Text.hexValue? 0x27 = none := by decide
  obtain ⟨backslash, feed, zero, double, single⟩ := plain
  refine ⟨?_, ?_, ?_, ?_⟩
  · rintro rfl
    simp [backslash] at h
  · rintro rfl
    simp [feed] at h
  · rintro rfl
    simp [zero] at h
  · rintro (rfl | rfl)
    · simp [double] at h
    · simp [single] at h

/-- The body of a literal is counted for itself, as it ends with no half of an escape. -/
theorem Unquoted.countedIn_append (h : Unquoted quote body value) (rest : List UInt8) :
    countedIn (body ++ rest) = countedIn body ++ countedIn rest := by
  induction h with
  | nil => rfl
  | byte _ _ plain _ ih => rw [List.cons_append, countedIn_cons plain, countedIn_cons plain, ih, List.cons_append]
  | escape _ _ _ ih =>
    rw [List.cons_append, List.cons_append, countedIn, countedIn, ih]
    rfl
  | @code e n digits body value _ _ hex _ _ ih =>
    have plain : 0x5C ∉ digits := fun bad => (hexDigit_plain (hex _ bad)).1 rfl
    rw [List.cons_append, List.cons_append, countedIn, countedIn, List.append_assoc,
      ScriptEngine.countedIn_append plain, ScriptEngine.countedIn_append plain, ih]
    simp

/-- No byte of a literal is zero. -/
theorem Unquoted.solid (h : Unquoted quote body value) : 0 ∉ body := by
  induction h with
  | nil => exact List.not_mem_nil
  | byte _ solid _ _ ih => simp [ih, Ne.symm solid]
  | escape solid _ _ ih => simp [ih, Ne.symm solid]
  | @code e n digits body value sort _ hex _ _ ih =>
    have digit : 0 ∉ digits := fun bad => (hexDigit_plain (hex _ bad)).2.2.1 rfl
    rcases sort with ⟨rfl, -⟩ | ⟨rfl, -⟩ <;> simp [ih, digit]

namespace Cursor

open Text

/-- The digits of a code, and what follows them. -/
theorem hexRun_digits (n : Nat) (bs : List UInt8) : ∃ rest, bs = hexRun n bs ++ rest ∧ (hexRun n bs).length ≤ n ∧
    (∀ d ∈ hexRun n bs, (Text.hexValue? d).isSome = true) ∧
    ((hexRun n bs).length < n → ∀ b, rest.head? = some b → Text.hexValue? b = none) := by
  fun_induction hexRun n bs with
  | case1 bs => exact ⟨bs, rfl, Nat.le_refl 0, nofun, fun less => absurd less (Nat.lt_irrefl 0)⟩
  | case2 n => exact ⟨[], rfl, Nat.zero_le n, nofun, fun _ => nofun⟩
  | case3 n b bs hex ih =>
    obtain ⟨rest, shape, most, all, fewer⟩ := ih
    refine ⟨rest, by rw [List.cons_append, ← shape], Nat.succ_le_succ most, ?_, fun less => fewer (Nat.lt_of_succ_lt_succ less)⟩
    rw [List.forall_mem_cons]
    exact ⟨hex, all⟩
  | case4 n b bs other =>
    refine ⟨b :: bs, rfl, Nat.zero_le _, nofun, fun _ c hc => ?_⟩
    cases hc
    simpa using other

/-- The bytes of an escape are passed over. -/
theorem literal_skip (quote : UInt8) (digits rest value : List UInt8) (line column : Nat) :
    literal quote (digits ++ rest) digits.length value line column = literal quote rest 0 value line (column + digits.length) := by
  induction digits generalizing column with
  | nil => rfl
  | cons d digits ih =>
    rw [List.cons_append, List.length_cons, literal, ih]
    congr 1
    omega

/-- A literal is read behind some bytes, which include its opening quote. -/
def literalBehind (quote : UInt8) (before bs value : List UInt8) : List UInt8 × Bool × Cursor :=
  literal quote bs 0 value (lineBehind before) (columnBehind before)

section Steps

variable {before : List UInt8} {e : UInt8}

theorem literalBehind_quote (isQuote : IsQuote quote) (before rest value : List UInt8) :
    literalBehind quote before (quote :: rest) value = (value, true, behind (before ++ [quote]) rest) := by
  have line : 10 ∉ [quote] := by simpa using isQuote.plain.2.1.symm
  rw [literalBehind, literal.eq_def]
  dsimp only
  rw [if_pos rfl, behind_line before rest line]
  rfl

/-- A byte that stands for itself is read. -/
theorem literalBehind_byte (inside : b ≠ quote) (solid : b ≠ 0) (plain : b ≠ 0x5C) (before rest value : List UInt8) :
    literalBehind quote before (b :: rest) value = literalBehind quote (before ++ [b]) rest (b :: value) := by
  rw [literalBehind, literalBehind, literal.eq_def]
  dsimp only
  rw [if_neg inside, if_neg solid, lineBehind_append]
  split
  · rename_i feed
    subst feed
    rw [columnBehind_feed]
    rfl
  · rename_i other
    have line : 10 ∉ [b] := by simpa using Ne.symm other
    rw [columnBehind_append before line, List.count_eq_zero_of_not_mem line]
    rfl

/-- A code is read with its digits. -/
theorem literalBehind_code {n : Nat} {digits : List UInt8} (isQuote : IsQuote quote) (sort : e = 0x75 ∧ n = 4 ∨ e = 0x78 ∧ n = 2)
    (read : hexRun n (digits ++ rest) = digits) (hex : ∀ d ∈ digits, (Text.hexValue? d).isSome = true) (before value : List UInt8) :
    literalBehind quote before (0x5C :: e :: (digits ++ rest)) value =
      literalBehind quote (before ++ 0x5C :: e :: digits) rest ((hexChar digits).reverse ++ value) := by
  have line : 10 ∉ 0x5C :: e :: digits := by
    have digit : 10 ∉ digits := fun bad => (hexDigit_plain (hex _ bad)).2.1 rfl
    rcases sort with ⟨rfl, -⟩ | ⟨rfl, -⟩ <;> simp [digit]
  have skipped := literal_skip quote digits rest ((hexChar digits).reverse ++ value) (lineBehind before) (columnBehind before + 2)
  have column : columnBehind before + (0x5C :: e :: digits).length = columnBehind before + 2 + digits.length := by
    rw [List.length_cons, List.length_cons]
    omega
  rw [literalBehind, literalBehind, lineBehind_line before line, columnBehind_append before line,
    column, Nat.add_zero, ← skipped, literal.eq_def]
  dsimp only
  rw [if_neg isQuote.plain.2.2.symm, if_neg (by decide), if_neg (by decide), if_pos rfl]
  rcases sort with ⟨rfl, rfl⟩ | ⟨rfl, rfl⟩
  · rw [if_neg (by decide), if_pos rfl, read]
  · rw [if_neg (by decide), if_neg (by decide), if_pos rfl, read]

/-- Any other escape is read. -/
theorem literalBehind_escape (isQuote : IsQuote quote) (solid : e ≠ 0) (simple : e ≠ 0x75 ∧ e ≠ 0x78) (before rest value : List UInt8) :
    literalBehind quote before (0x5C :: e :: rest) value =
      literalBehind quote (before ++ [0x5C, if e = 10 then 0x20 else e]) rest ((escaped e).reverse ++ value) := by
  have line : 10 ∉ [0x5C, if e = 10 then 0x20 else e] := by
    split
    · decide
    · rename_i other
      simpa using Ne.symm other
  rw [literalBehind, literalBehind, lineBehind_line before line, columnBehind_append before line,
    literal.eq_def]
  dsimp only
  rw [if_neg isQuote.plain.2.2.symm, if_neg (by decide), if_neg (by decide), if_pos rfl, if_neg solid, if_neg simple.1,
    if_neg simple.2]
  rfl

end Steps

/-- What is read of a quoted literal behind some bytes: its body and the quote that ends it, or all bytes up to the end of the
text. The second may end with a backslash that nothing follows. -/
inductive LiteralRead (quote : UInt8) (bs before value : List UInt8) : List UInt8 × Bool × Cursor → Prop where
  | closed {body v rest : List UInt8} (shape : bs = body ++ quote :: rest) (unquoted : Unquoted quote body v) :
    LiteralRead quote bs before value (v.reverse ++ value, true, behind (before ++ (countedIn body ++ [quote])) rest)
  | open {body v tail rest : List UInt8} (shape : bs = body ++ (tail ++ rest)) (unquoted : Unquoted quote body v)
    (half : tail = [] ∨ tail = [0x5C]) (ended : Ended rest) :
    LiteralRead quote bs before value (v.reverse ++ value, false, behind (before ++ (countedIn body ++ tail)) rest)

/-- A first part of the body is read before what follows it. -/
theorem LiteralRead.prepend {first counted v₁ : List UInt8} {bs before value : List UInt8} {r : List UInt8 × Bool × Cursor}
    (count : ∀ more, countedIn (first ++ more) = counted ++ countedIn more)
    (joins : ∀ {body v}, (∀ b, body.head? = some b → bs.head? = some b) → Unquoted quote body v → Unquoted quote (first ++ body) (v₁ ++ v))
    (h : LiteralRead quote bs (before ++ counted) (v₁.reverse ++ value) r) : LiteralRead quote (first ++ bs) before value r := by
  have head (body rest : List UInt8) (b : UInt8) (hb : body.head? = some b) : (body ++ rest).head? = some b := by
    rw [List.head?_append, hb, Option.some_or]
  cases h with
  | @closed body v rest shape unquoted =>
    have whole := joins (fun b hb => by rw [shape, head body _ b hb]) unquoted
    have read : LiteralRead quote (first ++ body ++ quote :: rest) before value _ := .closed rfl whole
    simpa only [count, shape, List.append_assoc, List.reverse_append] using read
  | @«open» body v tail rest shape unquoted half ended =>
    have whole := joins (fun b hb => by rw [shape, head body _ b hb]) unquoted
    have read : LiteralRead quote (first ++ body ++ (tail ++ rest)) before value _ := .open rfl whole half ended
    simpa only [count, shape, List.append_assoc, List.reverse_append] using read

/-- A backslash and what belongs to it are read before what follows them. -/
theorem reads_escape {e : UInt8} {rest before value : List UInt8} (isQuote : IsQuote quote) (solid : e ≠ 0)
    (more : ∀ bs before value, bs.length ≤ rest.length → LiteralRead quote bs before value (literalBehind quote before bs value)) :
    LiteralRead quote (0x5C :: e :: rest) before value (literalBehind quote before (0x5C :: e :: rest) value) := by
  by_cases coded : ∃ n, e = 0x75 ∧ n = 4 ∨ e = 0x78 ∧ n = 2
  · -- a code, with all its digits
    obtain ⟨n, sort⟩ := coded
    have mark : e ≠ 10 := by rcases sort with ⟨rfl, -⟩ | ⟨rfl, -⟩ <;> decide
    obtain ⟨after, shape, most, hex, fewer⟩ := hexRun_digits n rest
    have backslash : 0x5C ∉ hexRun n rest := fun bad => (hexDigit_plain (hex _ bad)).1 rfl
    have step := literalBehind_code isQuote sort (congrArg (hexRun n) shape.symm) hex before value
    rw [← shape] at step
    generalize hexRun n rest = digits at shape most hex fewer backslash step
    subst shape
    have read := more after (before ++ 0x5C :: e :: digits) ((hexChar digits).reverse ++ value) (by simp)
    rw [step]
    change LiteralRead quote (0x5C :: e :: digits ++ after) before value _
    refine read.prepend (fun more => ?_) (fun same unquoted => ?_)
    · rw [List.cons_append, List.cons_append, countedIn, if_neg mark, countedIn_append backslash]
      rfl
    · exact .code sort most hex (fun less b hb => fewer less b (same b hb)) unquoted
  · -- any other escape
    have simple : e ≠ 0x75 ∧ e ≠ 0x78 := ⟨fun u => coded ⟨4, .inl ⟨u, rfl⟩⟩, fun x => coded ⟨2, .inr ⟨x, rfl⟩⟩⟩
    have read := more rest (before ++ [0x5C, if e = 10 then 0x20 else e]) ((escaped e).reverse ++ value) (Nat.le_refl _)
    rw [literalBehind_escape isQuote solid simple]
    change LiteralRead quote ([0x5C, e] ++ rest) before value _
    refine read.prepend (fun more => ?_) (fun _ unquoted => .escape solid simple unquoted)
    rw [List.cons_append, List.cons_append, countedIn]
    rfl

/-- **Quoted literals.** Behind an opening quote stands a body and the quote that ends it, or a body that goes on to the end. -/
theorem literal_reads (isQuote : IsQuote quote) (bs before value : List UInt8) :
    LiteralRead quote bs before value (literalBehind quote before bs value) := by
  induction h : bs.length using Nat.strongRecOn generalizing bs before value with
  | _ len ih =>
    subst h
    have more (bs' before value : List UInt8) (less : bs'.length < bs.length) := ih bs'.length less bs' before value rfl
    cases bs with
    | nil =>
      have read : LiteralRead quote ([] ++ ([] ++ [])) before value _ := .open rfl .nil (.inl rfl) (.inl rfl)
      simpa [literalBehind, literal, behind, countedIn] using read
    | cons b rest =>
      by_cases same : b = quote
      · subst same
        have read : LiteralRead b ([] ++ b :: rest) before value _ := .closed rfl .nil
        rw [literalBehind_quote isQuote]
        exact read
      by_cases zero : b = 0
      · subst zero
        have read : LiteralRead quote ([] ++ ([] ++ 0 :: rest)) before value _ := .open rfl .nil (.inl rfl) (.inr ⟨rest, rfl⟩)
        rw [literalBehind, literal.eq_def]
        dsimp only
        rw [if_neg same, if_pos rfl]
        simpa [behind, countedIn] using read
      by_cases backslash : b ≠ 0x5C
      · -- a byte that stands for itself
        have read := more rest (before ++ [b]) ([b].reverse ++ value) (Nat.lt_succ_self _)
        rw [literalBehind_byte same zero backslash]
        change LiteralRead quote ([b] ++ rest) before value _
        refine read.prepend ?_ ?_
        · exact fun more => countedIn_cons backslash more
        · exact fun _ unquoted => .byte same zero backslash unquoted
      rw [not_not] at backslash
      subst backslash
      by_cases last : Ended rest
      · -- a backslash at the end
        have read : LiteralRead quote ([] ++ ([0x5C] ++ rest)) before value _ := .open rfl .nil (.inr rfl) last
        rw [countedIn, List.nil_append, behind_line before rest (by decide)] at read
        rw [literalBehind, literal.eq_def]
        dsimp only
        rw [if_neg same, if_neg zero, if_neg (by decide), if_pos rfl]
        rcases last with rfl | ⟨after, rfl⟩ <;> exact read
      obtain ⟨e, rest, rfl, solid⟩ : ∃ e more, rest = e :: more ∧ e ≠ 0 := by
        cases rest with
        | nil => exact absurd (.inl rfl) last
        | cons e rest => exact ⟨e, rest, rfl, fun zero => last (.inr ⟨rest, by rw [zero]⟩)⟩
      exact reads_escape isQuote solid fun bs' before value less => more bs' before value (Nat.lt_of_le_of_lt less (Nat.lt_add_of_pos_right Nat.two_pos))

/-- A literal that ends is a string or a date. -/
theorem quotedToken_closed {before : List UInt8} {c : Cursor} (isQuote : IsQuote quote)
    (read : literalBehind quote (before ++ [quote]) rest [] = (value, true, c)) :
    (behind before (quote :: rest)).quotedToken quote =
      ⟨⟨if isDateForm value.reverse then .date else .string, ⟨value.reverse⟩, lineBehind before, columnBehind before⟩, [], c⟩ := by
  have line : 10 ∉ [quote] := by simpa using isQuote.plain.2.1.symm
  rw [literalBehind, lineBehind_line before line, columnBehind_append before line] at read
  change literal quote rest 0 [] (lineBehind before) (columnBehind before + 1) = _ at read
  unfold quotedToken
  simp only [behind, List.drop_succ_cons, List.drop_zero, read, if_true]

/-- A literal that does not end is illegal, and reported. -/
theorem quotedToken_open {before : List UInt8} {c : Cursor} (isQuote : IsQuote quote)
    (read : literalBehind quote (before ++ [quote]) rest [] = (value, false, c)) :
    (behind before (quote :: rest)).quotedToken quote =
      ⟨⟨.illegal, ⟨value.reverse⟩, lineBehind before, columnBehind before⟩,
        [⟨.unterminated, lineBehind before, columnBehind before⟩], c⟩ := by
  have line : 10 ∉ [quote] := by simpa using isQuote.plain.2.1.symm
  rw [literalBehind, lineBehind_line before line, columnBehind_append before line] at read
  change literal quote rest 0 [] (lineBehind before) (columnBehind before + 1) = _ at read
  unfold quotedToken
  simp only [behind, List.drop_succ_cons, List.drop_zero, read, Bool.false_eq_true, if_false]

end Cursor

end Quoted

/-! ## White space and comments -/

/-- The bytes of white space. -/
def whiteSpace : List UInt8 := [10, 32, 9, 13]

/-- What a block comment may hold: no end mark and no zero. -/
structure CommentBody (body : List UInt8) : Prop where
  solid : 0 ∉ body
  unmarked : ¬[42, 47] <:+: body

theorem CommentBody.nil : CommentBody [] := ⟨List.not_mem_nil, by simp⟩

theorem CommentBody.cons {b : UInt8} {body : List UInt8} (solid : b ≠ 0) (unmarked : b = 42 → body.head? ≠ some 47)
    (h : CommentBody body) : CommentBody (b :: body) := by
  refine ⟨by simp [h.solid, Ne.symm solid], fun mark => ?_⟩
  rcases List.infix_cons_iff.mp mark with ⟨rest, first⟩ | inside
  · obtain ⟨rfl, shape⟩ : 42 = b ∧ 47 :: rest = body := by simpa using first
    exact unmarked rfl (by rw [← shape]; rfl)
  · exact h.unmarked inside

namespace Cursor

open Text

/-- A line comment goes on to a line feed or to the end. -/
theorem skipGap_lineComment (bs before : List UInt8) : ∃ body rest, bs = body ++ rest ∧ 10 ∉ body ∧ 0 ∉ body ∧
    skipGap bs .lineComment (lineBehind before) (columnBehind before) =
      skipGap rest .blank (lineBehind (before ++ body)) (columnBehind (before ++ body)) := by
  induction bs generalizing before with
  | nil => exact ⟨[], [], rfl, List.not_mem_nil, List.not_mem_nil, by simp [skipGap]⟩
  | cons b bs ih =>
    by_cases feed : b = 10
    · subst feed
      exact ⟨[], 10 :: bs, rfl, List.not_mem_nil, List.not_mem_nil, by simp [skipGap]⟩
    by_cases zero : b = 0
    · subst zero
      exact ⟨[], 0 :: bs, rfl, List.not_mem_nil, List.not_mem_nil, by simp [skipGap]⟩
    have line : 10 ∉ [b] := by simpa using Ne.symm feed
    obtain ⟨body, rest, shape, oneLine, solid, run⟩ := ih (before ++ [b])
    refine ⟨b :: body, rest, by rw [shape, List.cons_append], by simp [oneLine, Ne.symm feed], by simp [solid, Ne.symm zero], ?_⟩
    rw [lineBehind_line before line, columnBehind_append before line, List.append_assoc] at run
    rw [skipGap]
    · exact run
    · exact feed
    · exact zero

/-- What is read of a block comment behind some bytes: the comment and its end mark, or all bytes up to the end of the text. -/
inductive CommentRead (bs before : List UInt8) (l k : Nat) (r : Cursor × Option (Nat × Nat)) : Prop where
  | closed {body rest : List UInt8} (shape : bs = body ++ 42 :: 47 :: rest) (inside : CommentBody body)
    (run : r = skipGap rest .blank (lineBehind (before ++ (body ++ [42, 47]))) (columnBehind (before ++ (body ++ [42, 47])))) :
    CommentRead bs before l k r
  | open {body rest : List UInt8} (shape : bs = body ++ rest) (inside : CommentBody body) (ended : Ended rest)
    (run : r = (behind (before ++ body) rest, some (l, k))) : CommentRead bs before l k r

/-- A byte of the comment is read before what follows it. -/
theorem CommentRead.cons {bs before : List UInt8} {b : UInt8} {l k : Nat} {r : Cursor × Option (Nat × Nat)} (solid : b ≠ 0)
    (unmarked : b = 42 → bs.head? ≠ some 47) (h : CommentRead bs (before ++ [b]) l k r) : CommentRead (b :: bs) before l k r := by
  have head {body rest : List UInt8} (shape : bs = body ++ rest) (star : b = 42) : body.head? ≠ some 47 := by
    intro mark
    refine unmarked star ?_
    rw [shape, List.head?_append, mark, Option.some_or]
  cases h with
  | closed shape inside run =>
    refine .closed (by rw [shape, List.cons_append]) (inside.cons solid (head shape)) ?_
    rw [run, List.append_assoc]
    rfl
  | «open» shape inside ended run =>
    refine .open (by rw [shape, List.cons_append]) (inside.cons solid (head shape)) ended ?_
    rw [run, List.append_assoc]
    rfl

/-- A block comment goes on to its first end mark or to the end. -/
theorem skipGap_blockComment (bs before : List UInt8) (l k : Nat) :
    CommentRead bs before l k (skipGap bs (.blockComment l k) (lineBehind before) (columnBehind before)) := by
  induction bs generalizing before with
  | nil => exact .open (show [] = [] ++ [] from rfl) .nil (.inl rfl) (by rw [List.append_nil]; rfl)
  | cons b bs ih =>
    have read := ih (before ++ [b])
    by_cases feed : b = 10
    · subst feed
      rw [lineBehind_append, columnBehind_feed] at read
      exact read.cons (by decide) fun star => absurd star (by decide)
    by_cases zero : b = 0
    · subst zero
      exact .open (show 0 :: bs = [] ++ 0 :: bs from rfl) .nil (.inr ⟨bs, rfl⟩) (by rw [List.append_nil]; rfl)
    by_cases mark : b = 42 ∧ bs.head? = some 47
    · obtain ⟨rfl, slash⟩ := mark
      obtain ⟨rest, rfl⟩ : ∃ rest, bs = 47 :: rest := by simpa [List.head?_eq_some_iff] using slash
      refine .closed (show 42 :: 47 :: rest = [] ++ 42 :: 47 :: rest from rfl) .nil ?_
      rw [List.nil_append, lineBehind_append, columnBehind_append before (by decide)]
      rfl
    have line : 10 ∉ [b] := by simpa using Ne.symm feed
    rw [lineBehind_line before line, columnBehind_append before line] at read
    rw [skipGap]
    · exact read.cons zero fun star slash => mark ⟨star, slash⟩
    · exact feed
    · exact zero
    · rintro rest rfl rfl
      exact mark ⟨rfl, rfl⟩

end Cursor

/-! ## The bytes of tokens -/

/-- Some digits. -/
def Digits (ds : List UInt8) : Prop := ds ≠ [] ∧ ∀ d ∈ ds, Cursor.isDigit d = true

/-- The parts of a number: its digits, a fraction and an exponent. It has digits or a fraction. -/
structure NumberParts (whole frac exp : List UInt8) : Prop where
  digits : ∀ d ∈ whole, Cursor.isDigit d = true
  fraction : frac = [] ∨ ∃ ds, Digits ds ∧ frac = 0x2E :: ds
  exponent : exp = [] ∨ ∃ mark sign ds, (mark = 0x65 ∨ mark = 0x45) ∧ (sign = [] ∨ sign = [0x2B] ∨ sign = [0x2D]) ∧ Digits ds ∧
    exp = mark :: (sign ++ ds)
  some_ : whole ≠ [] ∨ frac ≠ []

/-- The bytes that a token is spelled with. -/
inductive TokenBytes : Token.Kind → Text → List UInt8 → Prop where
  | word {b : UInt8} {rest : List UInt8} (letter : Cursor.isLetter b = true)
    (inside : ∀ c ∈ rest, Cursor.isWordByte c = true ∨ c = 0x2E) :
    TokenBytes (Token.Kind.ofWord (Text.lowerAscii ⟨b :: rest⟩)) (Text.lowerAscii ⟨b :: rest⟩) (b :: rest)
  | number {kind : Token.Kind} {whole frac exp suffix : List UInt8} (parts : NumberParts whole frac exp)
    (letter : suffix = [] ∨ ∃ b ∈ [0x64, 0x44, 0x66, 0x46, 0x6C, 0x4C], suffix = [b])
    (sort : kind = .double ∨ kind = .long ∨ kind = .int) : TokenBytes kind ⟨whole ++ frac ++ exp⟩ (whole ++ frac ++ exp ++ suffix)
  | operator {kind : Token.Kind} {spelling : String} {bytes : List UInt8}
    (reads : Cursor.operator? bytes = some (kind, spelling, bytes.length)) : TokenBytes kind spelling bytes
  | quoted {quote : UInt8} {body value : List UInt8} (isQuote : IsQuote quote) (unquoted : Unquoted quote body value) :
    TokenBytes (if Cursor.isDateForm value then .date else .string) ⟨value⟩ (quote :: (body ++ [quote]))

/-- Whether the bytes of some token begin with a byte. -/
def BeginsToken (b : UInt8) : Prop := ∃ kind literal rest, TokenBytes kind literal (b :: rest)

namespace Cursor

open Text

/-- The segments that join a word are a part of the text, and made of word bytes and dots. -/
theorem moreSegments_bytes (fuel : Nat) (bs : List UInt8) :
    moreSegments fuel bs <+: bs ∧ ∀ c ∈ moreSegments fuel bs, isWordByte c = true ∨ c = 0x2E := by
  fun_induction moreSegments fuel bs with
  | case1 | case3 | case4 => exact ⟨List.nil_prefix, fun _ hc => absurd hc List.not_mem_nil⟩
  | case2 fuel b rest letter segment after other ih =>
    obtain ⟨⟨more, shape⟩, inside⟩ := ih
    refine ⟨⟨more, ?_⟩, fun c hc => ?_⟩
    · rw [List.cons_append, List.cons_append, List.append_assoc, shape, List.takeWhile_append_dropWhile]
    · rcases List.mem_append.mp hc with hc | hc
      · rcases List.mem_cons.mp hc with rfl | hc
        · exact .inr rfl
        · exact .inl (List.mem_takeWhile_imp hc)
      · exact inside c hc

/-- A word is taken from the front of the text. -/
theorem word_bytes {b : UInt8} (rest : List UInt8) (letter : isLetter b = true) : ∃ more after, word (b :: rest) = b :: more ∧
    b :: rest = b :: more ++ after ∧ ∀ c ∈ more, isWordByte c = true ∨ c = 0x2E := by
  have wordByte : isWordByte b = true := by rw [isWordByte, letter, Bool.true_or]
  obtain ⟨⟨after, shape⟩, inside⟩ := moreSegments_bytes (rest.dropWhile isWordByte).length (rest.dropWhile isWordByte)
  refine ⟨rest.takeWhile isWordByte ++ moreSegments (rest.dropWhile isWordByte).length (rest.dropWhile isWordByte), after, ?_, ?_, ?_⟩
  · rw [word, List.takeWhile_cons_of_pos wordByte, List.dropWhile_cons_of_pos wordByte, List.cons_append]
  · rw [List.cons_append, List.append_assoc, shape, List.takeWhile_append_dropWhile]
  · intro c hc
    rcases List.mem_append.mp hc with hc | hc
    · exact .inl (List.mem_takeWhile_imp hc)
    · exact inside c hc

theorem digits_takeWhile {d : UInt8} (bs : List UInt8) (h : isDigit d = true) : Digits (d :: bs.takeWhile isDigit) := by
  refine ⟨List.cons_ne_nil _ _, fun c hc => ?_⟩
  rcases List.mem_cons.mp hc with rfl | hc
  · exact h
  · exact List.mem_takeWhile_imp hc

/-- A fraction is taken from the front of the text. -/
theorem fraction_bytes (bs : List UInt8) : fraction bs <+: bs ∧ (fraction bs = [] ∨ ∃ ds, Digits ds ∧ fraction bs = 0x2E :: ds) := by
  unfold fraction
  split
  · rename_i d rest
    split
    · rename_i digit
      refine ⟨?_, .inr ⟨_, digits_takeWhile rest digit, rfl⟩⟩
      exact List.cons_prefix_cons.mpr ⟨rfl, List.cons_prefix_cons.mpr ⟨rfl, List.takeWhile_prefix _⟩⟩
    · exact ⟨List.nil_prefix, .inl rfl⟩
  · exact ⟨List.nil_prefix, .inl rfl⟩

/-- An exponent is taken from the front of the text. -/
theorem exponent_bytes (bs : List UInt8) : exponent bs <+: bs ∧ (exponent bs = [] ∨ ∃ mark sign ds, (mark = 0x65 ∨ mark = 0x45) ∧
    (sign = [] ∨ sign = [0x2B] ∨ sign = [0x2D]) ∧ Digits ds ∧ exponent bs = mark :: (sign ++ ds)) := by
  unfold exponent
  split
  · rename_i e s rest
    split
    · rename_i mark
      rw [Bool.or_eq_true, decide_eq_true_eq, decide_eq_true_eq] at mark
      split
      · rename_i digit
        refine ⟨?_, .inr ⟨e, [], _, mark, .inl rfl, digits_takeWhile rest digit, rfl⟩⟩
        exact List.cons_prefix_cons.mpr ⟨rfl, List.cons_prefix_cons.mpr ⟨rfl, List.takeWhile_prefix _⟩⟩
      split
      · rename_i signed
        rw [Bool.and_eq_true, Bool.or_eq_true, decide_eq_true_eq, decide_eq_true_eq] at signed
        obtain ⟨sign, more⟩ := signed
        refine ⟨List.cons_prefix_cons.mpr ⟨rfl, List.cons_prefix_cons.mpr ⟨rfl, List.takeWhile_prefix _⟩⟩, .inr ?_⟩
        obtain - | ⟨d, rest⟩ := rest
        · cases more
        have digit : isDigit d = true := by simpa using more
        refine ⟨e, [s], (d :: rest).takeWhile isDigit, mark, ?_, ?_, rfl⟩
        · rcases sign with rfl | rfl
          · exact .inr (.inr rfl)
          · exact .inr (.inl rfl)
        · rw [List.takeWhile_cons_of_pos digit]
          exact digits_takeWhile rest digit
      · exact ⟨List.nil_prefix, .inl rfl⟩
    · exact ⟨List.nil_prefix, .inl rfl⟩
  · exact ⟨List.nil_prefix, .inl rfl⟩

/-- A number is taken from the front of the text, with the letter of its suffix. -/
theorem number_bytes {b : UInt8} {rest : List UInt8} (h : (isDigit b || (b = 0x2E && rest.head?.any isDigit)) = true) :
    ∃ whole frac exp suffix after, NumberParts whole frac exp ∧
      (suffix = [] ∨ ∃ c ∈ [0x64, 0x44, 0x66, 0x46, 0x6C, 0x4C], suffix = [c]) ∧ b :: rest = whole ++ frac ++ exp ++ suffix ++ after ∧
      (number (b :: rest)).1 = whole ++ frac ++ exp ∧ (number (b :: rest)).2.2 = suffix.length := by
  have some_ := number_begins h
  generalize b :: rest = bs at some_ ⊢
  have digits : ∀ d ∈ bs.takeWhile isDigit, isDigit d = true := fun d hd => List.mem_takeWhile_imp hd
  have whole_shape := (List.takeWhile_append_dropWhile (p := isDigit) (l := bs)).symm
  unfold number
  dsimp only
  generalize bs.takeWhile isDigit = whole at some_ digits whole_shape ⊢
  generalize bs.dropWhile isDigit = bs₁ at some_ whole_shape ⊢
  obtain ⟨fracPrefix, hfrac⟩ := fraction_bytes bs₁
  have frac_shape := (List.prefix_iff_eq_append.mp fracPrefix).symm
  generalize fraction bs₁ = frac at some_ hfrac frac_shape ⊢
  generalize bs₁.drop frac.length = bs₂ at frac_shape ⊢
  obtain ⟨expPrefix, hexp⟩ := exponent_bytes bs₂
  have exp_shape := (List.prefix_iff_eq_append.mp expPrefix).symm
  generalize exponent bs₂ = exp at hexp exp_shape ⊢
  generalize bs₂.drop exp.length = bs₃ at exp_shape ⊢
  have shape : bs = whole ++ frac ++ exp ++ bs₃ := by
    rw [whole_shape, frac_shape, exp_shape, List.append_assoc, List.append_assoc]
  have parts : NumberParts whole frac exp := ⟨digits, hfrac, hexp, some_⟩
  have letter {p : UInt8 → Bool} (h : bs₃.head?.any p = true) : ∃ c after, p c = true ∧ bs = whole ++ frac ++ exp ++ [c] ++ after := by
    obtain - | ⟨c, after⟩ := bs₃
    · cases h
    · exact ⟨c, after, by simpa using h, by rw [shape, List.append_assoc _ [c]]; rfl⟩
  split
  · rename_i double
    obtain ⟨c, after, sort, shape⟩ := letter double
    refine ⟨whole, frac, exp, [c], after, parts, .inr ⟨c, ?_, rfl⟩, shape, rfl, rfl⟩
    simp only [Bool.or_eq_true, decide_eq_true_eq, or_assoc] at sort
    rcases sort with rfl | rfl | rfl | rfl <;> decide
  split
  · rename_i long
    obtain ⟨c, after, sort, shape⟩ := letter (Bool.and_eq_true_iff.mp long).2
    refine ⟨whole, frac, exp, [c], after, parts, .inr ⟨c, ?_, rfl⟩, shape, rfl, rfl⟩
    simp only [Bool.or_eq_true, decide_eq_true_eq] at sort
    rcases sort with rfl | rfl <;> decide
  -- without a letter there is no suffix, whatever the kind
  have bare := shape
  rw [← List.append_nil (whole ++ frac ++ exp)] at bare
  repeat' split
  all_goals exact ⟨whole, frac, exp, [], bs₃, parts, .inl rfl, bare, rfl, rfl⟩


/-- The bytes that operators are spelled with. -/
def operatorBytes : List UInt8 := [0x3D, 0x2B, 0x2D, 0x2A, 0x2F, 0x21, 0x3C, 0x3E, 0x26, 0x7C, 0x25, 0x5E, 0x2C, 0x3A, 0x3B, 0x28,
  0x29, 0x2E, 0x7B, 0x7D, 0x5B, 0x5D, 0x23]

/-- An operator is taken from the front of the text. Its bytes alone are the same operator. -/
theorem operator_bytes {bs : List UInt8} {k : Token.Kind} {spelling : String} {n : Nat} (h : operator? bs = some (k, spelling, n)) :
    ∃ bytes after, bs = bytes ++ after ∧ bytes.length = n ∧ operator? bytes = some (k, spelling, n) ∧ ∀ b ∈ bytes, b ∈ operatorBytes := by
  have table : ∀ p ∈ operatorFronts.zip operators, p.1.length = p.2.2.2 ∧ operator? p.1 = some p.2 ∧ ∀ b ∈ p.1, b ∈ operatorBytes := by
    decide +kernel
  rw [operator?_eq, Option.map_eq_some_iff] at h
  obtain ⟨⟨bytes, o⟩, found, rfl⟩ := h
  have starts : bytes.isPrefixOf bs = true := by simpa using List.find?_some found
  obtain ⟨after, rfl⟩ := List.isPrefixOf_iff_prefix.mp starts
  exact ⟨bytes, after, rfl, table _ (List.mem_of_find?_eq_some found)⟩

/-- The bytes of an operator are among those that operators are spelled with. -/
theorem mem_operatorBytes {bytes : List UInt8} {k : Token.Kind} {spelling : String}
    (h : operator? bytes = some (k, spelling, bytes.length)) : ∀ b ∈ bytes, b ∈ operatorBytes := by
  obtain ⟨front, after, shape, length, -, inside⟩ := operator_bytes h
  obtain rfl : after = [] := by
    have sum := congrArg List.length shape
    rw [List.length_append] at sum
    exact List.length_eq_zero_iff.mp (by omega)
  rwa [shape, List.append_nil]

end Cursor

namespace NumberParts

variable {whole frac exp : List UInt8} {b : UInt8}

/-- What the parts of a number are made of. -/
theorem bytes (h : NumberParts whole frac exp) (hb : b ∈ whole ++ frac ++ exp) :
    Cursor.isDigit b = true ∨ b ∈ [0x2E, 0x65, 0x45, 0x2B, 0x2D] := by
  rcases List.mem_append.mp hb with hb | hb
  · rcases List.mem_append.mp hb with hb | hb
    · exact .inl (h.digits b hb)
    · rcases h.fraction with rfl | ⟨ds, digits, rfl⟩
      · cases hb
      rcases List.mem_cons.mp hb with rfl | hb
      · exact .inr (by decide)
      · exact .inl (digits.2 b hb)
  · rcases h.exponent with rfl | ⟨mark, sign, ds, marked, signed, digits, rfl⟩
    · cases hb
    rcases List.mem_cons.mp hb with rfl | hb
    · rcases marked with rfl | rfl
      · exact .inr (by decide)
      · exact .inr (by decide)
    rcases List.mem_append.mp hb with hb | hb
    · rcases signed with rfl | rfl | rfl
      · cases hb
      · exact .inr (by simp [List.mem_singleton.mp hb])
      · exact .inr (by simp [List.mem_singleton.mp hb])
    · exact .inl (digits.2 b hb)

end NumberParts

/-! ## What tokens begin with -/

/-- A byte that tokens other than quoted literals are spelled with. -/
def isTokenByte (b : UInt8) : Bool := Cursor.isLetter b || Cursor.isDigit b || b ∈ Cursor.operatorBytes

section TokenByte

variable {b c : UInt8} {bytes rest whole frac exp suffix : List UInt8}

theorem isTokenByte_iff : isTokenByte b = true ↔ (Cursor.isLetter b = true ∨ Cursor.isDigit b = true) ∨ b ∈ Cursor.operatorBytes := by
  rw [isTokenByte, Bool.or_eq_true, Bool.or_eq_true, decide_eq_true_eq]

/-- Such a byte means itself: it is no zero, no line feed, no backslash and no quote. -/
theorem isTokenByte_plain (h : isTokenByte b = true) : b ≠ 0 ∧ b ≠ 10 ∧ b ≠ 0x5C ∧ ¬IsQuote b := by
  refine ⟨?_, ?_, ?_, ?_⟩
  · rintro rfl
    exact absurd h (by decide)
  · rintro rfl
    exact absurd h (by decide)
  · rintro rfl
    exact absurd h (by decide)
  · rintro (rfl | rfl) <;> exact absurd h (by decide)

theorem isTokenByte_operator {kind : Token.Kind} {spelling : String}
    (reads : Cursor.operator? bytes = some (kind, spelling, bytes.length)) (hb : b ∈ bytes) : isTokenByte b = true :=
  isTokenByte_iff.mpr (.inr (Cursor.mem_operatorBytes reads b hb))

theorem isTokenByte_word (letter : Cursor.isLetter b = true) (inside : ∀ c ∈ rest, Cursor.isWordByte c = true ∨ c = 0x2E)
    (hc : c ∈ b :: rest) : isTokenByte c = true := by
  rcases List.mem_cons.mp hc with rfl | hc
  · exact isTokenByte_iff.mpr (.inl (.inl letter))
  rcases inside c hc with wordByte | rfl
  · exact isTokenByte_iff.mpr (.inl (Bool.or_eq_true_iff.mp wordByte))
  · decide

theorem isTokenByte_number (parts : NumberParts whole frac exp)
    (letter : suffix = [] ∨ ∃ b ∈ [0x64, 0x44, 0x66, 0x46, 0x6C, 0x4C], suffix = [b]) (hc : c ∈ whole ++ frac ++ exp ++ suffix) :
    isTokenByte c = true := by
  rcases List.mem_append.mp hc with hc | hc
  · rcases parts.bytes hc with isDigit | other
    · exact isTokenByte_iff.mpr (.inl (.inr isDigit))
    · have marks : ∀ c ∈ [0x2E, 0x65, 0x45, 0x2B, 0x2D], isTokenByte c = true := by decide +kernel
      exact marks c other
  · rcases letter with rfl | ⟨d, hd, rfl⟩
    · cases hc
    · have letters : ∀ d ∈ [0x64, 0x44, 0x66, 0x46, 0x6C, 0x4C], isTokenByte d = true := by decide +kernel
      exact List.mem_singleton.mp hc ▸ letters d hd

/-- Each of these bytes begins a token. -/
theorem beginsToken_of_isTokenByte (h : isTokenByte b = true) : BeginsToken b := by
  rcases isTokenByte_iff.mp h with (letter | digit) | operator
  · exact ⟨_, _, [], .word letter fun _ hc => absurd hc List.not_mem_nil⟩
  · have parts : NumberParts [b] [] [] := ⟨by simpa using digit, .inl rfl, .inl rfl, .inl (List.cons_ne_nil _ _)⟩
    exact ⟨.int, _, [], .number parts (.inl rfl) (.inr (.inr rfl))⟩
  · -- two of them begin operators of two bytes only
    have begun : ∀ b ∈ Cursor.operatorBytes, (Cursor.operator? [b]).map (·.2.2) = some 1 ∨ b = 0x26 ∨ b = 0x7C := by decide +kernel
    rcases begun b operator with single | rfl | rfl
    · obtain ⟨⟨kind, spelling, n⟩, reads, rfl⟩ := Option.map_eq_some_iff.mp single
      exact ⟨kind, spelling, [], .operator reads⟩
    · exact ⟨.and, _, [0x26], .operator rfl⟩
    · exact ⟨.or, _, [0x7C], .operator rfl⟩

/-- A byte begins a token just when it is a quote or one that tokens are spelled with. -/
theorem beginsToken_iff : BeginsToken b ↔ isTokenByte b = true ∨ IsQuote b := by
  constructor
  · rintro ⟨kind, literal, rest, spelled⟩
    generalize shape : b :: rest = bytes at spelled
    have first : b ∈ bytes := shape ▸ List.mem_cons_self
    cases spelled with
    | word letter inside => exact .inl (isTokenByte_word letter inside first)
    | number parts letter => exact .inl (isTokenByte_number parts letter first)
    | operator reads => exact .inl (isTokenByte_operator reads first)
    | quoted isQuote => exact .inr ((List.cons.inj shape).1 ▸ isQuote)
  · rintro (h | isQuote)
    · exact beginsToken_of_isTokenByte h
    · exact ⟨_, _, [b], .quoted isQuote .nil⟩

end TokenByte

namespace TokenBytes

variable {kind : Token.Kind} {literal : Text} {bytes : List UInt8}

/-- A token is neither the end mark nor illegal. -/
theorem kind_ne (h : TokenBytes kind literal bytes) : kind ≠ .eof ∧ kind ≠ .illegal := by
  cases h with
  | word => exact ⟨Token.Kind.ofWord_ne_eof _, Token.Kind.ofWord_ne_illegal _⟩
  | number _ _ sort => rcases sort with rfl | rfl | rfl <;> decide
  | operator reads =>
    obtain ⟨-, eof, -, -, illegal⟩ := Cursor.operator_kind reads
    exact ⟨eof, illegal⟩
  | @quoted quote body value =>
    cases Cursor.isDateForm value with
    | true => decide
    | false => decide

/-- A token is a quoted literal, or its bytes are such that each begins a token itself. -/
theorem quoted_or_bare (h : TokenBytes kind literal bytes) :
    (∃ quote body value, IsQuote quote ∧ Unquoted quote body value ∧ bytes = quote :: (body ++ [quote])) ∨
      ∀ b ∈ bytes, isTokenByte b = true := by
  cases h with
  | quoted isQuote unquoted => exact .inl ⟨_, _, _, isQuote, unquoted, rfl⟩
  | operator reads => exact .inr fun b => isTokenByte_operator reads
  | word letter inside => exact .inr fun c => isTokenByte_word letter inside
  | number parts letter => exact .inr fun c => isTokenByte_number parts letter

end TokenBytes

end ScriptEngine
