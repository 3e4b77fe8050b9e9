import Mathlib.Data.List.DropRight
import ScriptEngine.Proofs.JsonTexts
/-!
# Trimmed texts

The glyphs of a stretch of a text are read again from the bytes of that stretch: no character begins or ends elsewhere
because what stood around it is gone. So a text that was trimmed has no white space left at its ends.
-/

namespace ScriptEngine.Text

variable {b : UInt8} {rest more bs : List UInt8} {c : Char} {g : Glyph} {gs hs : List Glyph} {n : Nat}

/-! ## Characters at the front of a text -/

/-- A character that is read is read as well when more bytes follow. -/
theorem readChar?_append (h : readChar? b rest = some (c, n)) : readChar? b (rest ++ more) = some (c, n) := by
  unfold readChar? at h ⊢
  match rest with
  | [] | [_] | [_, _] | _ :: _ :: _ :: _ => grind

/-- A character is read from its own bytes alone. -/
theorem readChar?_take (h : readChar? b rest = some (c, n)) : readChar? b (rest.take n) = some (c, n) := by
  unfold readChar? at h ⊢
  match rest with
  | [] | [_] | [_, _] | _ :: _ :: _ :: _ => grind

/-! ## Stretches of a text -/

theorem glyphsFrom_drop (bs : List UInt8) (k : Nat) : glyphsFrom bs k = glyphsFrom (bs.drop k) 0 := by
  induction bs generalizing k with
  | nil => rw [List.drop_nil, glyphsFrom, glyphsFrom]
  | cons b bs ih =>
    cases k with
    | zero => rfl
    | succ k => rw [glyphsFrom, ih, List.drop_succ_cons]

/-- The bytes of glyphs are read as those glyphs. -/
def Reads (gs : List Glyph) : Prop := glyphsFrom (gs.flatMap Glyph.bytes) 0 = gs

theorem reads_glyphs (t : Text) : Reads t.glyphs := by
  rw [Reads, flatMap_bytes_glyphs]
  rfl

theorem Reads.nil : Reads [] := rfl

theorem Glyph.bytes_ne_nil (g : Glyph) : g.bytes ≠ [] := by
  cases g with
  | stray b => exact List.cons_ne_nil _ _
  | char c =>
    rw [Glyph.bytes, encodeChar]
    split_ifs <;> exact List.cons_ne_nil _ _

/-- A glyph takes the bytes behind its first that are its own. -/
theorem readGlyph_taken {own : List UInt8} (first : (readGlyph b rest).1 = g) (bytes : g.bytes = b :: own) :
    (readGlyph b rest).2 = own.length := by
  unfold readGlyph at first ⊢
  split at first
  · rename_i c n read
    subst first
    obtain ⟨all, enough⟩ := encodeChar_of_readChar? read
    obtain rfl := (List.cons.inj (bytes.symm.trans all)).2
    exact (List.length_take_of_le enough).symm
  · subst first
    rw [(List.cons.inj bytes).2.symm]
    rfl

/-- A list of glyphs is read when its first one is read in front of the bytes of the others, and takes its own bytes only. -/
theorem reads_cons_iff : Reads (g :: gs) ↔
    ∃ b own, g.bytes = b :: own ∧ readGlyph b (own ++ gs.flatMap Glyph.bytes) = (g, own.length) ∧ Reads gs := by
  constructor
  · intro h
    obtain ⟨b, own, bytes⟩ := List.exists_cons_of_ne_nil g.bytes_ne_nil
    rw [Reads, List.flatMap_cons, bytes, List.cons_append, glyphsFrom, List.cons.injEq] at h
    obtain ⟨first, others⟩ := h
    have taken := readGlyph_taken first bytes
    rw [taken, glyphsFrom_drop, List.drop_left] at others
    exact ⟨b, own, bytes, Prod.ext first taken, others⟩
  · rintro ⟨b, own, bytes, read, others⟩
    rw [Reads, List.flatMap_cons, bytes, List.cons_append, glyphsFrom, read]
    dsimp only
    rw [glyphsFrom_drop, List.drop_left, others]

theorem Reads.tail (h : Reads (g :: gs)) : Reads gs := by
  obtain ⟨_, _, _, _, h⟩ := reads_cons_iff.mp h
  exact h

/-- A glyph is read alike when the text ends earlier, but not before the glyph does. -/
theorem readGlyph_front {own : List UInt8} (h : readGlyph b (own ++ (rest ++ more)) = (g, own.length)) :
    readGlyph b (own ++ rest) = (g, own.length) := by
  unfold readGlyph at h ⊢
  split at h
  · rename_i c n read
    obtain ⟨rfl, rfl⟩ := Prod.mk.inj h
    have alone := readChar?_take read
    rw [List.take_left] at alone
    rw [readChar?_append alone]
  · -- a stray byte could only become the start of a character if bytes were added
    rename_i read
    obtain ⟨rfl, none⟩ := Prod.mk.inj h
    obtain rfl := List.eq_nil_of_length_eq_zero none.symm
    rw [List.nil_append] at read ⊢
    split
    · rename_i shorter
      rw [readChar?_append shorter] at read
      cases read
    · rfl

theorem Reads.front (h : Reads (gs ++ hs)) : Reads gs := by
  induction gs with
  | nil => exact .nil
  | cons g gs ih =>
    obtain ⟨b, own, bytes, read, later⟩ := reads_cons_iff.mp (List.cons_append ▸ h)
    rw [List.flatMap_append] at read
    exact reads_cons_iff.mpr ⟨b, own, bytes, readGlyph_front read, ih later⟩

theorem Reads.back (h : Reads (gs ++ hs)) : Reads hs := by
  induction gs with
  | nil => exact h
  | cons g gs ih => exact ih h.tail

/-- What lies between two places of a text reads as before. -/
theorem Reads.stretch {ks : List Glyph} (h : Reads ks) (part : gs <:+: ks) : Reads gs := by
  obtain ⟨before, after, rfl⟩ := part
  exact h.front.back

/-! ## Trimming -/

theorem trimList_stretch (p : Glyph → Bool) (gs : List Glyph) : trimList p gs <:+: gs := by
  have shorter : trimList p gs <+: gs.dropWhile p := List.rdropWhile_prefix p _
  exact shorter.isInfix.trans (List.dropWhile_suffix p).isInfix

theorem trimList_trimList (p : Glyph → Bool) (gs : List Glyph) : trimList p (trimList p gs) = trimList p gs := by
  have front : (trimList p gs).dropWhile p = trimList p gs := by
    refine List.dropWhile_eq_self_iff.mpr fun some => ?_
    have shorter : trimList p gs <+: gs.dropWhile p := List.rdropWhile_prefix p _
    have same := shorter.getElem some
    rw [show (trimList p gs)[0] = _ from same]
    exact List.dropWhile_get_zero_not p gs _
  rw [trimList, front]
  exact List.rdropWhile_idempotent p (gs.dropWhile p)

theorem glyphs_trim (t : Text) : t.trim.glyphs = trimList Glyph.isSpace t.glyphs :=
  (reads_glyphs t).stretch (trimList_stretch _ _)

/-- Trimming a text a second time does nothing. -/
@[simp] theorem trim_trim (t : Text) : t.trim.trim = t.trim := by
  rw [trim, glyphs_trim, trimList_trimList]
  rfl

end ScriptEngine.Text
