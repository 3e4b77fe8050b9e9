import ScriptEngine.Proofs.ParserPromises
import ScriptEngine.Proofs.SpelledChars
import ScriptEngine.Proofs.SpelledProgram
/-!
# Literals as they are shown

The text of a literal with a semicolon behind it is always read as one literal, without faults. It is the same literal unless the
text leaves out what made it one: a double that was a whole number with a letter behind it is shown without the letter, and a
string is quoted with escapes that the reader does not undo.

The reader takes `\a`, `\v` and codes of eight digits for the bytes that they are spelled with, and it reads the code of a stray
byte as a character. Every other glyph is read back from its quotes as it is.
-/

namespace ScriptEngine

namespace Text

variable {b : UInt8} {bs ds body v : List UInt8} {c : Char} {n width : Nat}

/-! ## Hexadecimal digits -/

/-- Bytes that are the hexadecimal digits of a number. -/
structure SpellsHex (ds : List UInt8) (n : Nat) : Prop where
  digits : ∀ d ∈ ds, (hexValue? d).isSome = true
  value : ds.foldl (fun n b => n * 16 + (hexValue? b).getD 0) 0 = n

theorem digitChar_value : ∀ d < 16, encodeChar d.digitChar = [d.digitChar.toNat.toUInt8] ∧
    hexValue? d.digitChar.toNat.toUInt8 = some d := by decide

theorem SpellsHex.nil : SpellsHex [] 0 := ⟨nofun, rfl⟩

/-- One more digit behind the others. -/
theorem SpellsHex.push (h : SpellsHex ds n) {d : Nat} (small : d < 16) : SpellsHex (ds ++ encodeChar d.digitChar) (n * 16 + d) := by
  obtain ⟨byte, value⟩ := digitChar_value d small
  rw [byte]
  constructor
  · intro e mem
    rcases List.mem_append.mp mem with front | last
    · exact h.digits e front
    · rw [List.mem_singleton.mp last, value]
      rfl
  · rw [List.foldl_append, h.value, List.foldl_cons, List.foldl_nil, value, Option.getD_some]

theorem spellsHex_toDigits (n : Nat) : SpellsHex ((Nat.toDigits 16 n).flatMap encodeChar) n := by
  induction n using Nat.strongRecOn with
  | _ n ih =>
    by_cases small : n < 16
    · have one := SpellsHex.nil.push small
      rw [Nat.zero_mul, Nat.zero_add, List.nil_append] at one
      rwa [Nat.toDigits_of_lt_base small, List.flatMap_singleton]
    · have large : 16 ≤ n := Nat.not_lt.mp small
      have more := (ih (n / 16) (by omega)).push (Nat.mod_lt n (by decide : 0 < 16))
      rw [Nat.div_add_mod'] at more
      rwa [Nat.toDigits_of_base_le (by decide) large, List.flatMap_append, List.flatMap_singleton]

/-- Zeros in front change nothing. -/
theorem SpellsHex.zeros (h : SpellsHex ds n) (k : Nat) : SpellsHex ((List.replicate k '0').flatMap encodeChar ++ ds) n := by
  induction k with
  | zero => exact h
  | succ k ih =>
    have zero : (List.replicate (k + 1) '0').flatMap encodeChar ++ ds = 0x30 :: ((List.replicate k '0').flatMap encodeChar ++ ds) := rfl
    rw [zero]
    constructor
    · exact List.forall_mem_cons.mpr ⟨rfl, ih.digits⟩
    · exact ih.value

theorem toList_hex (width n : Nat) :
    (hex width n).toList = List.replicate (width - (Nat.toDigits 16 n).length) '0' ++ Nat.toDigits 16 n := String.toList_ofList

theorem spellsHex_hex (width n : Nat) : SpellsHex ((hex width n).toList.flatMap encodeChar) n := by
  rw [toList_hex, List.flatMap_append]
  exact (spellsHex_toDigits n).zeros _

theorem length_toDigits_bytes (n : Nat) : ((Nat.toDigits 16 n).flatMap encodeChar).length = (Nat.toDigits 16 n).length := by
  induction n using Nat.strongRecOn with
  | _ n ih =>
    have one {d : Nat} (small : d < 16) : (encodeChar d.digitChar).length = 1 := by
      rw [(digitChar_value d small).1]
      rfl
    by_cases small : n < 16
    · rw [Nat.toDigits_of_lt_base small, List.flatMap_singleton, one small]
      rfl
    · rw [Nat.toDigits_of_base_le (by decide) (Nat.not_lt.mp small), List.flatMap_append, List.length_append, List.length_append,
        ih (n / 16) (by omega), List.flatMap_singleton, one (Nat.mod_lt n (by decide))]
      rfl

/-- A number that is small enough takes just the width that it is written with. -/
theorem length_hex (some : 0 < width) (small : n < 16 ^ width) : ((hex width n).toList.flatMap encodeChar).length = width := by
  have fits : (Nat.toDigits 16 n).length ≤ width := (Nat.length_toDigits_le_iff (by decide) some).mpr small
  have zeros (k : Nat) : ((List.replicate k '0').flatMap encodeChar).length = k := by
    induction k with
    | zero => rfl
    | succ k ih => exact congrArg Nat.succ ih
  rw [toList_hex, List.flatMap_append, List.length_append, zeros, length_toDigits_bytes]
  omega

theorem SpellsHex.hexChar (h : SpellsHex ds n) (valid : n.isValidChar) : Cursor.hexChar ds = encodeChar (Char.ofNat n) := by
  rw [Cursor.hexChar, h.value, Cursor.charOfCode, if_pos valid]

end Text

/-! ## Bodies of literals -/

section Bodies

open Text

variable {b e : UInt8} {bs ds body v : List UInt8} {c : Char} {n width : Nat}

/-- Bytes that mean themselves. -/
theorem Unquoted.plain (plain : ∀ b ∈ bs, b ≠ 0x22 ∧ b ≠ 0 ∧ b ≠ 0x5C) (more : Unquoted 0x22 body v) :
    Unquoted 0x22 (bs ++ body) (bs ++ v) := by
  induction bs with
  | nil => exact more
  | cons b bs ih =>
    obtain ⟨⟨inside, solid, slash⟩, rest⟩ := List.forall_mem_cons.mp plain
    exact .byte inside solid slash (ih rest)

/-- A code with all of its digits. -/
theorem Unquoted.number (sort : e = 0x75 ∧ width = 4 ∨ e = 0x78 ∧ width = 2) (small : n < 16 ^ width) (valid : n.isValidChar)
    (more : Unquoted 0x22 body v) :
    Unquoted 0x22 (0x5C :: e :: ((hex width n).toList.flatMap encodeChar ++ body)) (encodeChar (Char.ofNat n) ++ v) := by
  have some : 0 < width := by rcases sort with ⟨-, rfl⟩ | ⟨-, rfl⟩ <;> decide
  have length := length_hex some small
  have spelled := spellsHex_hex width n
  rw [← spelled.hexChar valid]
  refine .code sort (Nat.le_of_eq length) spelled.digits ?_ more
  intro fewer
  exact absurd length (Nat.ne_of_lt fewer)

end Bodies

/-! ## Glyphs between quotes -/

namespace Text

variable {b : UInt8} {body v : List UInt8} {c : Char} {g : Glyph} {gs : List Glyph} {t : Text}

namespace Glyph

/-- The bytes of a glyph between double quotes. -/
def shown (g : Glyph) : List UInt8 := (quoteGlyph '"' g).flatMap encodeChar

/-- A glyph that is read back from its quotes: a character, but not one of the two control characters whose letters the
reader does not know, and none that has a code of eight digits. -/
def Kept : Glyph → Prop
  | char c => c.toNat ≠ 7 ∧ c.toNat ≠ 11 ∧ (c.toNat < 0x10000 ∨ isPrintable c = true)
  | stray _ => False

instance : DecidablePred Kept := fun g =>
  match g with
  | char c => inferInstanceAs (Decidable (c.toNat ≠ 7 ∧ c.toNat ≠ 11 ∧ (c.toNat < 0x10000 ∨ isPrintable c = true)))
  | stray _ => inferInstanceAs (Decidable False)

/-- What is read of a glyph between quotes. -/
def readBack : Glyph → List UInt8
  | char c => if (char c).Kept then encodeChar c else (char c).shown
  | stray b => encodeChar (Char.ofNat b.toNat)

theorem readBack_kept (kept : (char c).Kept) : (char c).readBack = encodeChar c := if_pos kept

theorem readBack_lost (lost : ¬(char c).Kept) : (char c).readBack = (char c).shown := if_neg lost

/-- What is escaped begins with a backslash and a letter. -/
theorem flatMap_escape {l : Char} {e : UInt8} (letter : encodeChar l = [e]) (body : List UInt8) {cs : List Char} :
    ('\\' :: l :: cs).flatMap encodeChar ++ body = 0x5C :: e :: (cs.flatMap encodeChar ++ body) := by
  have slash : encodeChar '\\' = [0x5C] := rfl
  rw [List.flatMap_cons, List.flatMap_cons, letter, slash]
  rfl

/-- The two characters that are escaped for what they mean between quotes. -/
theorem unquoted_mark (mark : c = '"' ∨ c = '\\') (more : Unquoted 0x22 body v) :
    Unquoted 0x22 ((char c).shown ++ body) ((char c).readBack ++ v) := by
  rcases mark with rfl | rfl
  · exact .escape (e := 0x22) (by decide) (by decide) more
  · exact .escape (e := 0x5C) (by decide) (by decide) more

/-- A printable character stands for itself. -/
theorem unquoted_printable (other : c ≠ '"' ∧ c ≠ '\\') (printable : isPrintable c = true) (more : Unquoted 0x22 body v) :
    Unquoted 0x22 ((char c).shown ++ body) ((char c).readBack ++ v) := by
  have high : 0x20 ≤ c.toNat := by
    unfold isPrintable at printable
    dsimp only at printable
    split at printable
    · exact of_decide_eq_true printable
    · omega
  have shown : (char c).shown = encodeChar c := by
    unfold shown quoteGlyph quoteChar
    dsimp only
    rw [if_neg (by simp [other]), if_pos printable, List.flatMap_singleton]
  have kept : (char c).Kept := ⟨by omega, by omega, .inr printable⟩
  rw [shown, readBack_kept kept]
  refine Unquoted.plain (fun b mem => ?_) more
  have mark {m : Char} (ne : c ≠ m) : c.toNat ≠ m.toNat := fun same => ne (Char.toNat_inj.mp same)
  obtain ⟨quote, slash, control⟩ := Json.plain_encodeChar (mark other.1) (mark other.2) (Nat.not_lt.mpr high) b mem
  refine ⟨quote, ?_, slash⟩
  rintro rfl
  exact control (by decide)

/-- A control character that has a letter. The reader does not know two of the letters. -/
theorem unquoted_control {l : Char} (letter : controlLetter? c = some l) (more : Unquoted 0x22 body v) :
    Unquoted 0x22 ((char c).shown ++ body) ((char c).readBack ++ v) := by
  have few : c.toNat ∈ [7, 8, 9, 10, 11, 12, 13] := by
    unfold controlLetter? at letter
    split at letter <;> simp_all
  rw [← Char.ofNat_toNat c]
  generalize c.toNat = n at few
  simp only [List.mem_cons, List.not_mem_nil, or_false] at few
  rcases few with rfl | rfl | rfl | rfl | rfl | rfl | rfl
  · exact .escape (e := 0x61) (by decide) (by decide) more
  · exact .escape (e := 0x62) (by decide) (by decide) more
  · exact .escape (e := 0x74) (by decide) (by decide) more
  · exact .escape (e := 0x6E) (by decide) (by decide) more
  · exact .escape (e := 0x76) (by decide) (by decide) more
  · exact .escape (e := 0x66) (by decide) (by decide) more
  · exact .escape (e := 0x72) (by decide) (by decide) more

/-- The codes that characters are shown by. -/
theorem quoteGlyph_code (other : c ≠ '"' ∧ c ≠ '\\') (hidden : isPrintable c = false) (letter : controlLetter? c = none) :
    quoteGlyph '"' (char c) = if c.toNat < 0x20 || c.toNat = 0x7F then '\\' :: 'x' :: (hex 2 c.toNat).toList
      else if c.toNat < 0x10000 then '\\' :: 'u' :: (hex 4 c.toNat).toList else '\\' :: 'U' :: (hex 8 c.toNat).toList := by
  unfold quoteGlyph quoteChar
  dsimp only
  rw [if_neg (by simp [other]), if_neg (by simp [hidden]), letter]

/-- A code of eight digits. -/
theorem shown_long (hidden : isPrintable c = false) (large : ¬c.toNat < 0x10000) (body : List UInt8) :
    (char c).shown ++ body = 0x5C :: 0x55 :: ((hex 8 c.toNat).toList.flatMap encodeChar ++ body) := by
  have other : c ≠ '"' ∧ c ≠ '\\' := by
    constructor
    · rintro rfl
      exact large (by decide)
    · rintro rfl
      exact large (by decide)
  have letter : controlLetter? c = none := by
    unfold controlLetter?
    split <;> first | omega | rfl
  have long : ¬(c.toNat < 0x20 || c.toNat = 0x7F) = true := by
    simp only [Bool.or_eq_true, decide_eq_true_eq]
    omega
  rw [shown, quoteGlyph_code other hidden letter, if_neg long, if_neg large, flatMap_escape (e := 0x55) rfl body]

/-- A character that is shown by its code. The reader does not know codes of eight digits. -/
theorem unquoted_code (other : c ≠ '"' ∧ c ≠ '\\') (hidden : isPrintable c = false) (letter : controlLetter? c = none)
    (more : Unquoted 0x22 body v) : Unquoted 0x22 ((char c).shown ++ body) ((char c).readBack ++ v) := by
  have bare := quoteGlyph_code other hidden letter
  have valid : c.toNat.isValidChar := c.valid
  have seven : c.toNat ≠ 7 := fun same => by simp [controlLetter?, same] at letter
  have eleven : c.toNat ≠ 11 := fun same => by simp [controlLetter?, same] at letter
  by_cases short : (c.toNat < 0x20 || c.toNat = 0x7F) = true
  · have small : c.toNat < 0x80 := by
      simp only [Bool.or_eq_true, decide_eq_true_eq] at short
      omega
    have code := Unquoted.number (.inr ⟨rfl, rfl⟩) (by omega : c.toNat < 16 ^ 2) valid more
    rw [Char.ofNat_toNat] at code
    rw [readBack_kept ⟨seven, eleven, .inl (by omega)⟩, shown, bare, if_pos short, flatMap_escape (e := 0x78) rfl body]
    exact code
  rw [if_neg short] at bare
  by_cases medium : c.toNat < 0x10000
  · have code := Unquoted.number (.inl ⟨rfl, rfl⟩) medium valid more
    rw [Char.ofNat_toNat] at code
    rw [readBack_kept ⟨seven, eleven, .inl medium⟩, shown, bare, if_pos medium, flatMap_escape (e := 0x75) rfl body]
    exact code
  · have lost : ¬(char c).Kept := by
      rintro ⟨-, -, small | printable⟩
      · exact medium small
      · rw [hidden] at printable
        cases printable
    rw [readBack_lost lost, shown_long hidden medium, shown_long hidden medium]
    -- the backslash and its letter are read as they are, and so are the digits behind them
    have digits : ∀ d ∈ (hex 8 c.toNat).toList.flatMap encodeChar, d ≠ 0x22 ∧ d ≠ 0 ∧ d ≠ 0x5C := by
      intro d mem
      obtain ⟨slash, -, solid, unquoted⟩ := hexDigit_plain ((spellsHex_hex 8 c.toNat).digits d mem)
      exact ⟨fun quote => unquoted (.inl quote), solid, slash⟩
    have unknown : Cursor.escaped 0x55 = [0x5C, 0x55] := rfl
    have escape := Unquoted.escape (e := 0x55) (by decide) (by decide) (more.plain digits)
    rwa [unknown, List.cons_append, List.cons_append, List.nil_append] at escape

/-- **A glyph between quotes stands for what is read of it**, in front of any body. -/
theorem unquoted_shown (g : Glyph) (more : Unquoted 0x22 body v) : Unquoted 0x22 (g.shown ++ body) (g.readBack ++ v) := by
  cases g with
  | stray b =>
    have small : b.toNat < 16 ^ 2 := b.toNat_lt
    have valid : b.toNat.isValidChar := .inl (by omega)
    have shown : (stray b).shown ++ body = 0x5C :: 0x78 :: ((hex 2 b.toNat).toList.flatMap encodeChar ++ body) := by
      rw [Glyph.shown, quoteGlyph, flatMap_escape (e := 0x78) rfl body]
    rw [shown, readBack]
    exact .number (.inr ⟨rfl, rfl⟩) small valid more
  | char c =>
    by_cases mark : c = '"' ∨ c = '\\'
    · exact unquoted_mark mark more
    rw [not_or] at mark
    by_cases printable : isPrintable c = true
    · exact unquoted_printable mark printable more
    rw [Bool.not_eq_true] at printable
    cases letter : controlLetter? c with
    | some l => exact unquoted_control letter more
    | none => exact unquoted_code mark printable letter more

/-- A glyph that is not kept is read back longer. A stray byte is none of those that are characters themselves. -/
theorem length_readBack (high : ∀ b, g = stray b → 0x80 ≤ b) (lost : ¬g.Kept) : g.bytes.length < g.readBack.length := by
  cases g with
  | stray b =>
    have large : 0x80 ≤ b.toNat := high b rfl
    have small : b.toNat < 256 := b.toNat_lt
    have value : (Char.ofNat b.toNat).toNat = b.toNat := toNat_ofNat (.inl (by omega))
    rw [readBack, encodeChar, value, if_neg (by omega), if_pos (by omega)]
    exact Nat.lt_succ_self 1
  | char c =>
    have short : (encodeChar c).length ≤ 4 := by
      rw [encodeChar]
      split_ifs <;> simp
    rw [readBack_lost lost]
    by_cases large : c.toNat < 0x10000
    · -- one of the two control characters whose letters are not known
      have few : c.toNat = 7 ∨ c.toNat = 11 := by
        by_contra other
        rw [not_or] at other
        exact lost ⟨other.1, other.2, .inl large⟩
      rw [← Char.ofNat_toNat c]
      rcases few with same | same
      · rw [same]
        decide
      · rw [same]
        decide
    · have hidden : isPrintable c = false := by
        by_contra printable
        rw [Bool.not_eq_false] at printable
        exact lost ⟨by omega, by omega, .inr printable⟩
      have digits : ((hex 8 c.toNat).toList.flatMap encodeChar).length = 8 :=
        length_hex (by decide) (Nat.lt_trans (toNat_lt_of_char c) (by decide))
      rw [← List.append_nil (char c).shown, shown_long hidden large, List.length_cons, List.length_cons, List.append_nil, digits]
      exact Nat.lt_of_le_of_lt short (by decide)

end Glyph

/-- A byte that belongs to no character is no ASCII character itself. -/
theorem high_of_stray (mem : Glyph.stray b ∈ t.glyphs) : 0x80 ≤ b := by
  have each (bs : List UInt8) (k : Nat) : ∀ g ∈ glyphsFrom bs k, ∀ b, g = .stray b → 0x80 ≤ b := by
    induction bs generalizing k with
    | nil => exact nofun
    | cons first rest ih =>
      cases k with
      | succ k => exact ih k
      | zero =>
        rw [glyphsFrom]
        refine List.forall_mem_cons.mpr ⟨?_, ih _⟩
        rintro b same
        rw [readGlyph] at same
        split at same
        · cases same
        · rename_i unread
          obtain rfl := Glyph.stray.inj same
          by_contra small
          unfold readChar? at unread
          rw [if_pos (UInt8.not_le.mp small)] at unread
          cases unread
  exact each t.bytes 0 _ mem b rfl

/-! ## Texts between quotes -/

/-- What is read of a quoted text. -/
def readBack (t : Text) : Text := ⟨t.glyphs.flatMap Glyph.readBack⟩

/-- A text that is read back from its quotes. -/
def Kept (t : Text) : Prop := ∀ g ∈ t.glyphs, g.Kept

instance : DecidablePred Kept := fun t => inferInstanceAs (Decidable (∀ g ∈ t.glyphs, g.Kept))

/-- **A quoted text stands for what is read of it.** -/
theorem unquoted_quoted (t : Text) : ∃ body, t.quoted = ⟨0x22 :: (body ++ [0x22])⟩ ∧ Unquoted 0x22 body t.readBack.bytes := by
  refine ⟨t.glyphs.flatMap Glyph.shown, ?_, ?_⟩
  · have quote : encodeChar '"' = [0x22] := rfl
    rw [quoted, ofChars, List.flatMap_cons, List.flatMap_append, List.flatMap_singleton, quote, List.flatMap_assoc]
    rfl
  · rw [readBack]
    induction t.glyphs with
    | nil => exact .nil
    | cons g gs ih =>
      rw [List.flatMap_cons, List.flatMap_cons]
      exact g.unquoted_shown ih

/-- Some glyphs come back when each of them does. -/
theorem flatMap_readBack_iff (gs : List Glyph) (high : ∀ b, Glyph.stray b ∈ gs → 0x80 ≤ b) :
    (gs.flatMap Glyph.bytes).length ≤ (gs.flatMap Glyph.readBack).length ∧
      (gs.flatMap Glyph.readBack = gs.flatMap Glyph.bytes ↔ ∀ g ∈ gs, g.Kept) := by
  induction gs with
  | nil => exact ⟨Nat.le_refl _, fun _ => nofun, fun _ => rfl⟩
  | cons g gs ih =>
    obtain ⟨longer, same⟩ := ih fun b mem => high b (List.mem_cons_of_mem g mem)
    rw [List.flatMap_cons, List.flatMap_cons, List.length_append, List.length_append, List.forall_mem_cons, ← same]
    by_cases kept : g.Kept
    · have own : g.readBack = g.bytes := by
        cases g with
        | char c => exact Glyph.readBack_kept kept
        | stray b => exact kept.elim
      rw [own, List.append_cancel_left_eq]
      exact ⟨Nat.add_le_add_left longer _, fun rest => ⟨kept, rest⟩, And.right⟩
    · -- what is lost makes the whole longer
      have lost := Glyph.length_readBack (fun b stray => high b (stray ▸ List.mem_cons_self)) kept
      refine ⟨by omega, fun all => ?_, fun both => absurd both.1 kept⟩
      have lengths := congrArg List.length all
      rw [List.length_append, List.length_append] at lengths
      omega

/-- **A text comes back from its quotes when each of its glyphs does.** -/
theorem readBack_eq_iff (t : Text) : t.readBack = t ↔ t.Kept := by
  have same := (flatMap_readBack_iff t.glyphs fun b => high_of_stray).2
  rw [flatMap_bytes_glyphs] at same
  rw [Kept, ← same]
  exact ⟨congrArg Text.bytes, congrArg Text.mk⟩

/-- A letter of two bytes comes back; the bell, and a byte that belongs to no character, do not. -/
example : Kept "é" ∧ ¬Kept ⟨[7]⟩ ∧ ¬Kept ⟨[0xE9]⟩ := by decide

/-- A text of printable ASCII characters comes back. -/
theorem kept_of_ascii (h : ∀ b ∈ t.bytes, 0x20 ≤ b ∧ b < 0x7F) : t.Kept := by
  have spelled : ofChars (t.bytes.map fun b => Char.ofNat b.toNat) = t := by
    have each : ∀ b ∈ t.bytes, encodeChar (Char.ofNat b.toNat) = [b] := by
      intro b mem
      have small : b.toNat < 0x7F := (h b mem).2
      rw [encodeChar, toNat_ofNat (.inl (by omega)), if_pos (by omega), toUInt8_eq rfl]
    have bytes : (ofChars (t.bytes.map fun b => Char.ofNat b.toNat)).bytes = t.bytes := by
      rw [ofChars, List.flatMap_map]
      exact (List.flatMap_congr each).trans (List.flatMap_singleton' _)
    exact congrArg Text.mk bytes
  intro g mem
  rw [← spelled, glyphs_ofChars] at mem
  obtain ⟨c, there, rfl⟩ := List.mem_map.mp mem
  obtain ⟨b, inside, rfl⟩ := List.mem_map.mp there
  have low : 0x20 ≤ b.toNat := (h b inside).1
  have small : b.toNat < 0x7F := (h b inside).2
  have value : (Char.ofNat b.toNat).toNat = b.toNat := toNat_ofNat (.inl (by omega))
  show (Char.ofNat b.toNat).toNat ≠ 7 ∧ (Char.ofNat b.toNat).toNat ≠ 11 ∧ _
  rw [value]
  exact ⟨by omega, by omega, .inl (by omega)⟩

end Text

/-! ## Literals -/

/-- The kind and the value of a literal. -/
inductive Literal where
  | int (n : Int32)
  | long (n : Int64)
  | double (x : Float)
  | string (v : Text)
  | date (d : Date)
  | bool (b : Bool)
  | null

namespace Expr

/-- The literal that an expression is. -/
def literal? : Expr → Option Literal
  | .int _ n => some (.int n)
  | .long _ n => some (.long n)
  | .double _ x => some (.double x)
  | .string _ v => some (.string v)
  | .date _ d => some (.date d)
  | .bool _ b => some (.bool b)
  | .null _ => some .null
  | _ => none

/-- A literal that comes back from its text. A double has to be shown with a point or an exponent, or to be too large for a long;
each glyph of a string has to come back from its quotes. -/
def Kept : Expr → Prop
  | .double m _ => (∃ b ∈ m.literal.bytes, Cursor.isDigit b = false) ∨ 2 ^ 63 ≤ Cursor.decimalValue m.literal.bytes
  | .string _ v => v.Kept
  | _ => True

instance : DecidablePred Kept := fun e =>
  match e with
  | .double m _ => inferInstanceAs (Decidable ((∃ b ∈ m.literal.bytes, Cursor.isDigit b = false) ∨
      2 ^ 63 ≤ Cursor.decimalValue m.literal.bytes))
  | .string _ v => inferInstanceAs (Decidable v.Kept)
  | .name .. | .int .. | .long .. | .date .. | .bool .. | .null .. | .array .. | .object .. | .unary .. | .binary .. | .assign ..
  | .step .. | .index .. | .length .. | .member .. | .call .. | .typeOf .. => isTrue trivial

end Expr

namespace Parser

variable {c : Catalog} {rec : Reader} {s : ParseState} {t u z e : Token} {ts : List Token} {x : Expr}

/-! ## Literal tokens -/

theorem operand_double {v : Float} (hk : t.kind = .double) (value : (Decimal.ofLiteral t.literal.chars).toFloat? = some v) :
    Goes (operand c rec) (s.on (t :: ts)) (pure (.double (markOf t) v)) (s.on (t :: ts)) := by
  unfold operand
  refine goes_current.andThen ?_
  simp only [hk, value]
  exact Goes.refl _ _

theorem operand_string (hk : t.kind = .string) :
    Goes (operand c rec) (s.on (t :: ts)) (pure (.string (markOf t) t.literal)) (s.on (t :: ts)) := by
  unfold operand
  refine goes_current.andThen ?_
  simp only [hk]
  exact Goes.refl _ _

theorem operand_date {d : Date} (hk : t.kind = .date) (value : Date.ofText? t.literal = some d) :
    Goes (operand c rec) (s.on (t :: ts)) (pure (.date (markOf t) d)) (s.on (t :: ts)) := by
  unfold operand
  refine goes_current.andThen ?_
  simp only [hk, value]
  exact Goes.refl _ _

/-- What has the form of a date and is none is a string. -/
theorem operand_noDate (hk : t.kind = .date) (none : Date.ofText? t.literal = none) :
    Goes (operand c rec) (s.on (t :: ts)) (pure (.string (markOf t) t.literal)) (s.on (t :: ts)) := by
  unfold operand
  refine goes_current.andThen ?_
  simp only [hk, none]
  exact Goes.refl _ _

/-- The kinds of the tokens that are literals. -/
def literalKinds : List Token.Kind := [.int, .long, .double, .string, .date, .kwTrue, .kwFalse, .kwNull]

/-- A statement that begins with a literal is an expression. -/
theorem goes_literalStatement (ht : t.kind ∈ literalKinds) : Goes (statement c rec) (s.on (t :: ts))
    (rec (.expr lowest) >>= fun e : Expr => pure (.expr (markOf t) e)) (s.on (t :: ts)) := by
  have expr : Goes (exprStatement rec) (s.on (t :: ts))
      (rec (.expr lowest) >>= fun e : Expr => pure (.expr (markOf t) e)) (s.on (t :: ts)) := goes_mark.bind _
  unfold statement
  refine goes_mark.andThen ?_
  refine goes_current.andThen ?_
  simp only [literalKinds, List.mem_cons, List.not_mem_nil, or_false] at ht
  rcases ht with ht | ht | ht | ht | ht | ht | ht | ht <;> (simp only [ht]; exact expr)

/-- A token reads as an expression when this is its operand wherever it stands. -/
def ReadsAs (c : Catalog) (t : Token) (x : Expr) : Prop :=
  ∀ (rec : Reader) (s : ParseState) (ts : List Token), Goes (operand c rec) (s.on (t :: ts)) (pure x) (s.on (t :: ts))

/-- A literal in front of a semicolon is read as a statement. -/
theorem goes_literal (ht : t.kind ∈ literalKinds) (reads : ReadsAs c t x) (hz : z.kind = .semicolon) (depth : Nat) :
    Goes (α := Stmt) (read c (depth + 2) .stmt) (s.on (t :: z :: ts)) (pure (.expr (markOf t) x)) (s.on (t :: z :: ts)) := by
  have level : level z.kind ≤ lowest := by rw [hz]; decide
  have expr : Goes (α := Expr) (read c (depth + 1) (.expr lowest)) (s.on (t :: z :: ts)) (pure x) (s.on (t :: z :: ts)) :=
    (expression_of_operand lowest (reads _ _ _)).trans (continuations_stop level)
  exact (goes_literalStatement ht).trans (expr.bind _)

end Parser

open ScriptEngine.Parser

namespace Program

variable {c : Catalog} {source v w : Text} {t z e : Token} {x : Expr} {l : Literal} {a : Lexeme}

/-- A source text is read as one literal, without faults. -/
def IsLiteral (c : Catalog) (source : Text) (l : Literal) : Prop :=
  ∃ m e, Program.parse c source = (⟨[.expr m e]⟩, []) ∧ e.literal? = some l

/-- **A literal token with a semicolon behind it** is a program. -/
theorem parse_token (scanned : Token.scan source = ([t, z, e], [])) (hz : z.kind = .semicolon) (he : e.kind = .eof)
    (ht : t.kind ∈ literalKinds) (reads : ReadsAs c t x) : Program.parse c source = (⟨[.expr (markOf t) x]⟩, []) := by
  let s := initialState [t, z, e]
  have statement : Goes (α := Stmt) (read c (4 * 3 + 8) .stmt) (s.on [t, z, e]) (pure (.expr (markOf t) x)) (s.on [t, z, e]) :=
    goes_literal ht reads hz (4 * 3 + 6)
  have listed := goes_listedStatement statement hz
  have noEnd : t.kind ≠ .eof := by
    intro ended
    rw [ended] at ht
    exact absurd ht (by decide)
  have run : (programBody (read c (4 * 3 + 8)) 4 []).run.run s = (some [.expr (markOf t) x], s.on [e]) :=
    goes_programBody (n := 2) noEnd he listed
  unfold Program.parse
  rw [scanned]
  dsimp only [List.length_cons, List.length_nil]
  rw [run]
  rfl

theorem isLiteral_of_token (scanned : Token.scan source = ([t, z, e], [])) (hz : z.kind = .semicolon) (he : e.kind = .eof)
    (ht : t.kind ∈ literalKinds) (reads : ReadsAs c t x) (value : x.literal? = some l) : IsLiteral c source l :=
  ⟨_, x, parse_token scanned hz he ht reads, value⟩

/-- So is one lexeme. -/
theorem isLiteral_of_lexeme (formed : a.Formed) (stops : a.stopsAt 0x3B = true) (kind : a.kind ∈ literalKinds)
    (reads : ∀ t : Token, t.kind = a.kind → t.literal = a.literal → ∃ x, ReadsAs c t x ∧ x.literal? = some l) :
    IsLiteral c ⟨a.bytes ++ [0x3B]⟩ l := by
  obtain ⟨t, z, e, scanned, face, hz, he⟩ := Token.scan_lexeme formed stops
  obtain ⟨x, same, value⟩ := reads t (Token.kind_of_face face) (Token.literal_of_face face)
  exact isLiteral_of_token scanned hz he (Token.kind_of_face face ▸ kind) same value

theorem append_semicolon (w : Text) : w ++ ";" = ⟨w.bytes ++ [0x3B]⟩ := rfl

/-! ## Numbers -/

section Digits

variable (digits : Digits w.bytes)

include digits

theorem isLiteral_digits {l : Literal} (literal : (Lexeme.digits w.bytes).kind ∈ literalKinds)
    (reads : ∀ t : Token, t.kind = (Lexeme.digits w.bytes).kind → w = t.literal → ∃ x, ReadsAs c t x ∧ x.literal? = some l) :
    IsLiteral c (w ++ ";") l := by
  rw [append_semicolon]
  exact isLiteral_of_lexeme (a := .digits w.bytes) ⟨digits.1, List.all_eq_true.mpr digits.2⟩ rfl literal fun t hk same =>
    reads t hk same.symm

theorem isLiteral_int (small : Cursor.decimalValue w.bytes < 2 ^ 31) :
    IsLiteral c (w ++ ";") (.int (Int32.ofNat (Cursor.decimalValue w.bytes))) := by
  have kind : (Lexeme.digits w.bytes).kind = .int := by
    rw [Lexeme.kind, if_neg (by omega), if_neg (by omega)]
  refine isLiteral_digits digits (by rw [kind]; decide) fun t hk same => ?_
  rw [same] at small ⊢
  exact ⟨_, fun _ _ _ => operand_int (hk.trans kind) small, rfl⟩

/-- Digits too large for an int are read as a long. -/
theorem isLiteral_largeInt (large : 2 ^ 31 ≤ Cursor.decimalValue w.bytes) (small : Cursor.decimalValue w.bytes < 2 ^ 63) :
    IsLiteral c (w ++ ";") (.long (Int64.ofNat (Cursor.decimalValue w.bytes))) := by
  have kind : (Lexeme.digits w.bytes).kind = .long := by
    rw [Lexeme.kind, if_neg (by omega), if_pos large]
  refine isLiteral_digits digits (by rw [kind]; decide) fun t hk same => ?_
  rw [same] at small ⊢
  exact ⟨_, fun _ _ _ => operand_long (hk.trans kind) small, rfl⟩

/-- Digits with the letter of a long behind them. -/
theorem isLiteral_long (small : Cursor.decimalValue w.bytes < 2 ^ 63) :
    IsLiteral c (w ++ "L" ++ ";") (.long (Int64.ofNat (Cursor.decimalValue w.bytes))) := by
  have formed : (Lexeme.long w.bytes 0x4C).Formed := ⟨digits.1, List.all_eq_true.mpr digits.2, .inr rfl⟩
  have kind : (Lexeme.long w.bytes 0x4C).kind ∈ literalKinds := by rw [Lexeme.kind]; decide
  rw [append_semicolon]
  refine isLiteral_of_lexeme (a := .long w.bytes 0x4C) formed rfl kind fun t hk same => ?_
  rw [show w = t.literal from same.symm] at small ⊢
  exact ⟨_, fun _ _ _ => operand_long hk small, rfl⟩

/-- Digits too large for a long are read as a double. -/
theorem isLiteral_hugeInt (huge : 2 ^ 63 ≤ Cursor.decimalValue w.bytes) {f : Float}
    (value : (Decimal.ofLiteral w.chars).toFloat? = some f) : IsLiteral c (w ++ ";") (.double f) := by
  have kind : (Lexeme.digits w.bytes).kind = .double := by rw [Lexeme.kind, if_pos huge]
  refine isLiteral_digits digits (by rw [kind]; decide) fun t hk same => ?_
  rw [same] at value
  exact ⟨_, fun _ _ _ => operand_double (hk.trans kind) value, rfl⟩

end Digits

/-- A number with a fraction or an exponent is read as a double. -/
theorem isLiteral_double {whole frac exp : List UInt8} (parts : NumberParts whole frac exp)
    (more : (frac.isEmpty && exp.isEmpty) = false) (spelled : w.bytes = whole ++ frac ++ exp) {f : Float}
    (value : (Decimal.ofLiteral w.chars).toFloat? = some f) : IsLiteral c (w ++ ";") (.double f) := by
  obtain ⟨k, first⟩ := Cursor.next_double parts more
  rw [← spelled] at first
  have scanned := Token.scan_before_semicolon first (show Token.Kind.double ≠ .eof by decide)
  have kind : Token.Kind.double ∈ literalKinds := by decide
  exact isLiteral_of_token scanned rfl rfl kind (fun _ _ _ => operand_double rfl value) rfl

/-! ## Quoted literals and words -/

/-- A quoted text is read as one token, of what comes back from the quotes. -/
theorem scan_shown (v : Text) : ∃ z e, Token.scan (v.quoted ++ ";") =
    ([⟨if Cursor.isDateForm v.readBack.bytes then .date else .string, v.readBack, 1, 1⟩, z, e], []) ∧
      z.kind = .semicolon ∧ e.kind = .eof := by
  obtain ⟨body, quotes, unquoted⟩ := v.unquoted_quoted
  have first := Cursor.next_unquoted (.inl rfl) unquoted [0x3B]
  rw [show 0x22 :: (body ++ 0x22 :: [0x3B]) = 0x22 :: (body ++ [0x22]) ++ [0x3B] by simp] at first
  have legal : (if Cursor.isDateForm v.readBack.bytes then Token.Kind.date else .string) ≠ .eof := by
    split <;> decide
  rw [append_semicolon, quotes]
  exact ⟨_, _, Token.scan_before_semicolon first legal, rfl, rfl⟩

/-- A quoted text that comes back as a date is read as the date. -/
theorem isLiteral_date {d : Date} (form : Cursor.isDateForm v.readBack.bytes = true) (value : Date.ofText? v.readBack = some d) :
    IsLiteral c (v.quoted ++ ";") (.date d) := by
  obtain ⟨z, e, scanned, hz, he⟩ := scan_shown v
  rw [if_pos form] at scanned
  have kind : Token.Kind.date ∈ literalKinds := by decide
  exact isLiteral_of_token scanned hz he kind (fun _ _ _ => operand_date rfl value) rfl

/-- A quoted text that comes back as no date is read as a string. -/
theorem isLiteral_string (noDate : Cursor.isDateForm v.readBack.bytes = true → Date.ofText? v.readBack = none) :
    IsLiteral c (v.quoted ++ ";") (.string v.readBack) := by
  obtain ⟨z, e, scanned, hz, he⟩ := scan_shown v
  by_cases form : Cursor.isDateForm v.readBack.bytes = true
  · rw [if_pos form] at scanned
    have kind : Token.Kind.date ∈ literalKinds := by decide
    exact isLiteral_of_token scanned hz he kind (fun _ _ _ => operand_noDate rfl (noDate form)) rfl
  · rw [if_neg form] at scanned
    have kind : Token.Kind.string ∈ literalKinds := by decide
    exact isLiteral_of_token scanned hz he kind (fun _ _ _ => operand_string rfl) rfl

/-- A word for a value. -/
theorem isLiteral_word {w : String} (formed : (Lexeme.word (w : Text).bytes).Formed)
    (kind : (Lexeme.word (w : Text).bytes).kind ∈ literalKinds)
    (reads : ∀ t : Token, t.kind = (Lexeme.word (w : Text).bytes).kind → ∃ x, ReadsAs c t x ∧ x.literal? = some l) :
    IsLiteral c (w ++ ";") l := by
  rw [append_semicolon]
  exact isLiteral_of_lexeme (a := .word (w : Text).bytes) formed rfl kind fun t hk _ => reads t hk

theorem isLiteral_true : IsLiteral c (("true" : Text) ++ ";") (.bool true) :=
  isLiteral_word ⟨_, _, rfl, rfl, rfl⟩ (by decide) fun _ hk => ⟨_, fun _ _ _ => operand_bool (b := true) hk, rfl⟩

theorem isLiteral_false : IsLiteral c (("false" : Text) ++ ";") (.bool false) :=
  isLiteral_word ⟨_, _, rfl, rfl, rfl⟩ (by decide) fun _ hk => ⟨_, fun _ _ _ => operand_bool (b := false) hk, rfl⟩

theorem isLiteral_null : IsLiteral c (("null" : Text) ++ ";") .null :=
  isLiteral_word ⟨_, _, rfl, rfl, rfl⟩ (by decide) fun _ hk => ⟨_, fun _ _ _ => operand_null hk, rfl⟩

end Program

/-! ## The texts of literals -/

namespace Expr

open Program

variable {c : Catalog} {m : Mark} {l : Literal}

/-- What is read of the text of a double. Without a point and an exponent, digits are all that is shown of it. -/
theorem shown_double {x : Float} (grounded : Grounded (.double m x)) :
    ∃ l, IsLiteral c ((Expr.double m x).render ++ ";") l ∧ (l = .double x ↔ Kept (.double m x)) := by
  obtain ⟨⟨whole, frac, exp, parts, spelled⟩, value⟩ := grounded
  rw [render]
  cases bare : frac.isEmpty && exp.isEmpty with
  | false =>
    refine ⟨.double x, isLiteral_double parts bare spelled value, iff_of_true rfl (.inl ?_)⟩
    rw [spelled]
    exact parts.mark bare
  | true =>
    rw [Bool.and_eq_true, List.isEmpty_iff, List.isEmpty_iff] at bare
    obtain ⟨rfl, rfl⟩ := bare
    rw [List.append_nil, List.append_nil] at spelled
    have digits : Digits m.literal.bytes := spelled ▸ ⟨parts.some_.resolve_right (· rfl), parts.digits⟩
    have unmarked : ¬∃ b ∈ m.literal.bytes, Cursor.isDigit b = false := by
      rintro ⟨b, mem, other⟩
      exact absurd ((digits.2 b mem).symm.trans other) (by decide)
    by_cases huge : 2 ^ 63 ≤ Cursor.decimalValue m.literal.bytes
    · exact ⟨.double x, isLiteral_hugeInt digits huge value, iff_of_true rfl (.inr huge)⟩
    have lost : ¬Kept (.double m x) := fun kept => kept.elim unmarked huge
    by_cases large : 2 ^ 31 ≤ Cursor.decimalValue m.literal.bytes
    · exact ⟨_, isLiteral_largeInt digits large (Nat.lt_of_not_le huge), iff_of_false nofun lost⟩
    · exact ⟨_, isLiteral_int digits (Nat.lt_of_not_le large), iff_of_false nofun lost⟩

/-- What is read of the text of a string. -/
theorem shown_string {v : Text} (grounded : Grounded (.string m v)) :
    ∃ l, IsLiteral c ((Expr.string m v).render ++ ";") l ∧ (l = .string v ↔ Kept (.string m v)) := by
  rw [render]
  by_cases noDate : Cursor.isDateForm v.readBack.bytes = true → Date.ofText? v.readBack = none
  · refine ⟨_, isLiteral_string noDate, ?_⟩
    rw [Literal.string.injEq]
    exact v.readBack_eq_iff
  · obtain ⟨form, date⟩ := Classical.not_imp.mp noDate
    obtain ⟨d, value⟩ := Option.ne_none_iff_exists'.mp date
    refine ⟨_, isLiteral_date form value, iff_of_false nofun fun kept => noDate ?_⟩
    rw [v.readBack_eq_iff.mpr kept]
    exact grounded

/-- What is read of the text of a grounded literal. -/
theorem shown_literal {e : Expr} (grounded : e.Grounded) (literal : e.literal? = some l) :
    ∃ l', IsLiteral c (e.render ++ ";") l' ∧ (l' = l ↔ e.Kept) := by
  cases e with
  | int m n =>
    obtain ⟨digits, small, rfl⟩ := grounded
    cases literal
    rw [render]
    exact ⟨_, isLiteral_int digits small, iff_of_true rfl trivial⟩
  | long m n =>
    obtain ⟨digits, small, rfl⟩ := grounded
    cases literal
    rw [render]
    exact ⟨_, isLiteral_long digits small, iff_of_true rfl trivial⟩
  | double m x =>
    cases literal
    exact shown_double grounded
  | string m v =>
    cases literal
    exact shown_string grounded
  | date m d =>
    obtain ⟨form, value⟩ := grounded
    cases literal
    have back : m.literal.readBack = m.literal := m.literal.readBack_eq_iff.mpr (Text.kept_of_ascii (Cursor.isDateForm_ascii form))
    rw [render]
    exact ⟨_, isLiteral_date (by rw [back]; exact form) (by rw [back]; exact value), iff_of_true rfl trivial⟩
  | bool m b =>
    cases literal
    rw [render]
    cases b with
    | true => exact ⟨_, isLiteral_true, iff_of_true rfl trivial⟩
    | false => exact ⟨_, isLiteral_false, iff_of_true rfl trivial⟩
  | null m =>
    cases literal
    rw [render]
    exact ⟨_, isLiteral_null, iff_of_true rfl trivial⟩
  | _ => cases literal

end Expr

/-! ## The literals of a source text -/

/-- **Literals as they are shown.** The text of a literal, wherever it stands in a source text, with a semicolon behind it is read
as one literal, without faults. It has the same kind and the same value exactly when the literal is one of those that are kept. -/
theorem Program.parse_shown_literal (c c' : Catalog) (source : Text) (path : List Nat) (e : Expr) (l : Literal)
    (occurs : (Part.program (Program.parse c source).1).at? path = some (.expr e)) (literal : e.literal? = some l) :
    ∃ m e' l', Program.parse c' (e.render ++ ";") = (⟨[.expr m e']⟩, []) ∧ e'.literal? = some l' ∧ (l' = l ↔ e.Kept) := by
  have grounded : e.Grounded := Program.parse_grounded c source path e occurs
  obtain ⟨l', ⟨m, e', read, literal'⟩, same⟩ := Expr.shown_literal (c := c') grounded literal
  exact ⟨m, e', l', read, literal', same⟩

/-- A string in single quotes, with a double quote, a tab and a letter of two bytes in it, is shown in double quotes. -/
theorem Program.parse_shown_mixed :
    let source : Text := "'a\"b\\té';"
    let e : Expr := .string ⟨"a\"b\té", 1⟩ "a\"b\té"
    (Part.program (Program.parse default source).1).at? [0, 0] = some (.expr e) ∧ e.literal? = some (.string "a\"b\té") ∧
    ∃ m e' l', Program.parse default (e.render ++ ";") = (⟨[.expr m e']⟩, []) ∧ e'.literal? = some l' ∧
      (l' = .string "a\"b\té" ↔ e.Kept) := by
  intro source e
  have scanned : Token.scan source =
      ([⟨.string, "a\"b\té", 1, 1⟩, ⟨.semicolon, ";", 1, 10⟩, ⟨.eof, ⟨[]⟩, 1, 11⟩], []) := by decide +kernel
  have kind : Token.Kind.string ∈ literalKinds := by decide
  have read : Program.parse default source = (⟨[.expr ⟨"a\"b\té", 1⟩ e]⟩, []) :=
    Program.parse_token scanned rfl rfl kind fun _ _ _ => operand_string rfl
  have occurs : (Part.program (Program.parse default source).1).at? [0, 0] = some (.expr e) := by
    rw [read]
    rfl
  exact ⟨occurs, rfl, Program.parse_shown_literal default default source [0, 0] e _ occurs rfl⟩

/-- The letter that makes a double of a whole number is not shown: `1d` is read, shown as `1` and read again as an int. -/
theorem Program.shown_double_lost : ¬∀ (c c' : Catalog) (source : Text) (path : List Nat) (e : Expr) (l : Literal),
    (Part.program (Program.parse c source).1).at? path = some (.expr e) → e.literal? = some l →
    ∃ m e', Program.parse c' (e.render ++ ";") = (⟨[.expr m e']⟩, []) ∧ e'.literal? = some l := by
  intro kept
  have scanned : Token.scan "1d;" = ([⟨.double, "1", 1, 1⟩, ⟨.semicolon, ";", 1, 3⟩, ⟨.eof, ⟨[]⟩, 1, 4⟩], []) := by decide +kernel
  have one : ((Decimal.ofLiteral ("1" : Text).chars).toFloat?).isSome = true := by decide +kernel
  obtain ⟨x, value⟩ := Option.isSome_iff_exists.mp one
  have kind : Token.Kind.double ∈ literalKinds := by decide
  have read : Program.parse default "1d;" = (⟨[.expr ⟨"1", 1⟩ (.double ⟨"1", 1⟩ x)]⟩, []) :=
    Program.parse_token scanned rfl rfl kind fun _ _ _ => operand_double rfl value
  have occurs : (Part.program (Program.parse default "1d;").1).at? [0, 0] = some (.expr (.double ⟨"1", 1⟩ x)) := by
    rw [read]
    rfl
  obtain ⟨m, e', again, double⟩ := kept default default _ _ _ _ occurs rfl
  rw [Expr.render] at again
  -- the text that is shown is that of an int
  have digits : Digits ("1" : Text).bytes := ⟨by decide, List.forall_mem_singleton.mpr (by decide)⟩
  obtain ⟨m', e'', read', int⟩ := Program.isLiteral_int (c := default) (w := "1") digits (by decide)
  have same : e' = e'' := by
    have both := again.symm.trans read'
    cases both
    rfl
  rw [same, int] at double
  cases double

end ScriptEngine
