import Mathlib.Data.List.Induction
import Mathlib.Data.List.TakeWhile
import ScriptEngine.Proofs.JsonTexts
import ScriptEngine.Store.Path
/-!
# Paths as texts

The steps of a path have a text again, and the text is read as the steps. So a place above one that a path leads to has a path
of its own.
-/

namespace ScriptEngine

/-! ## Pieces between dots -/

namespace Text

variable {b : UInt8} {xs ys piece : List UInt8}

theorem splitBytes_dot (xs piece : List UInt8) : splitBytes [0x2E] (0x2E :: xs) 0 piece = ⟨piece.reverse⟩ :: splitBytes [0x2E] xs 0 [] := by
  rw [splitBytes]
  rfl

theorem splitBytes_cons (other : b ≠ 0x2E) : splitBytes [0x2E] (b :: xs) 0 piece = splitBytes [0x2E] xs 0 (b :: piece) := by
  rw [splitBytes, if_neg (by simp [List.isPrefixOf, other.symm])]

/-- What has no dot is one piece. -/
theorem splitBytes_of_notMem (none : 0x2E ∉ xs) (piece : List UInt8) : splitBytes [0x2E] xs 0 piece = [⟨piece.reverse ++ xs⟩] := by
  induction xs generalizing piece with
  | nil => rw [splitBytes, List.append_nil]
  | cons b xs ih =>
    rw [List.mem_cons, not_or] at none
    rw [splitBytes_cons (Ne.symm none.1), ih none.2, List.reverse_cons, List.append_assoc]
    rfl

/-- What has no dot makes the last piece longer. -/
theorem splitBytes_append (xs : List UInt8) (none : 0x2E ∉ ys) (piece : List UInt8) :
    ∃ before last, splitBytes [0x2E] xs 0 piece = before ++ [last] ∧
      splitBytes [0x2E] (xs ++ ys) 0 piece = before ++ [⟨last.bytes ++ ys⟩] := by
  induction xs generalizing piece with
  | nil => exact ⟨[], _, rfl, splitBytes_of_notMem none piece⟩
  | cons b xs ih =>
    rw [List.cons_append]
    by_cases dot : b = 0x2E
    · subst dot
      obtain ⟨before, last, whole, longer⟩ := ih []
      exact ⟨_ :: before, last, by rw [splitBytes_dot, whole]; rfl, by rw [splitBytes_dot, longer]; rfl⟩
    · rw [splitBytes_cons dot, splitBytes_cons dot]
      exact ih (b :: piece)

/-- A dot ends the last piece, and what follows it without a dot is another. -/
theorem splitBytes_append_dot (xs : List UInt8) (none : 0x2E ∉ ys) (piece : List UInt8) :
    splitBytes [0x2E] (xs ++ 0x2E :: ys) 0 piece = splitBytes [0x2E] xs 0 piece ++ [⟨ys⟩] := by
  induction xs generalizing piece with
  | nil =>
    rw [List.nil_append, splitBytes_dot, splitBytes_of_notMem none]
    rfl
  | cons b xs ih =>
    rw [List.cons_append]
    by_cases dot : b = 0x2E
    · subst dot
      rw [splitBytes_dot, splitBytes_dot, ih]
      rfl
    · rw [splitBytes_cons dot, splitBytes_cons dot, ih]

/-- No piece has a dot. -/
theorem notMem_splitBytes {t : Text} (none : 0x2E ∉ piece) (ht : t ∈ splitBytes [0x2E] xs 0 piece) : 0x2E ∉ t.bytes := by
  induction xs generalizing piece with
  | nil =>
    rw [splitBytes, List.mem_singleton] at ht
    rw [ht, List.mem_reverse]
    exact none
  | cons b xs ih =>
    by_cases dot : b = 0x2E
    · subst dot
      rw [splitBytes_dot] at ht
      obtain rfl | ht := List.mem_cons.mp ht
      · rw [List.mem_reverse]
        exact none
      · exact ih List.not_mem_nil ht
    · rw [splitBytes_cons dot] at ht
      refine ih (fun inside => ?_) ht
      obtain same | inside := List.mem_cons.mp inside
      · exact dot same.symm
      · exact none inside

end Text

namespace Path

/-! ## Numbers in brackets -/

/-- Digits are read as their number. -/
theorem wholeNumber?_digits (m : Nat) : wholeNumber? (Json.digitBytes m) = if m < 2 ^ 63 then some (m : Int) else none := by
  have digits := Json.isDigits_digitBytes m
  have filled : ¬((Json.digitBytes m).isEmpty || !(Json.digitBytes m).all Text.isDigitByte) = true := by
    simp [digits.1, digits.2]
  obtain ⟨b, behind, first, digit⟩ := digits.head_eq
  unfold wholeNumber?
  split
  rename_i same
  split at same
  · rename_i sign
    cases first.symm.trans sign
    cases digit
  · rename_i sign
    cases first.symm.trans sign
    cases digit
  cases same
  rw [if_neg filled, Json.foldl_digitBytes]
  simp only [Bool.false_eq_true, if_false, Bool.and_eq_true, decide_eq_true_eq]
  exact ite_congr (propext ⟨fun h => by omega, fun h => by omega⟩) (fun _ => rfl) fun _ => rfl

/-- Digits behind a sign are read as the number below zero. -/
theorem wholeNumber?_negative (m : Nat) :
    wholeNumber? (0x2D :: Json.digitBytes m) = if m ≤ 2 ^ 63 then some (-m : Int) else none := by
  have digits := Json.isDigits_digitBytes m
  have filled : ¬((Json.digitBytes m).isEmpty || !(Json.digitBytes m).all Text.isDigitByte) = true := by
    simp [digits.1, digits.2]
  unfold wholeNumber?
  split
  rename_i same
  cases same
  rw [if_neg filled, Json.foldl_digitBytes]
  simp only [if_true, Bool.and_eq_true, decide_eq_true_eq]
  exact ite_congr (propext ⟨fun h => by omega, fun h => by omega⟩) (fun _ => rfl) fun _ => rfl

/-- A whole number in a text is its digits, with a sign before them when it is negative. -/
theorem bytes_toString (i : Int) : (Text.ofString (toString i)).bytes =
    if 0 ≤ i then Json.digitBytes i.toNat else 0x2D :: Json.digitBytes (-i).toNat := by
  have text : toString i = if 0 ≤ i then i.toNat.repr else "-" ++ (-i).toNat.repr := Int.repr_eq_if
  rw [text]
  split
  · exact Json.bytes_repr _
  · rw [← Json.bytes_repr, Text.ofString, Text.ofChars, String.toList_append, List.flatMap_append]
    rfl

/-- A number of 64 bits is read from its text. -/
theorem wholeNumber?_toString {i : Int} (low : -(2 ^ 63) ≤ i) (high : i < 2 ^ 63) :
    wholeNumber? (Text.ofString (toString i)).bytes = some i := by
  rw [bytes_toString]
  split
  · rw [wholeNumber?_digits, if_pos (by omega), Int.toNat_of_nonneg ‹_›]
  · rw [wholeNumber?_negative, if_pos (by omega), Int.toNat_of_nonneg (by omega), Int.neg_neg]

theorem mem_bytes_toString {i : Int} {b : UInt8} (mem : b ∈ (Text.ofString (toString i)).bytes) :
    b = 0x2D ∨ Text.isDigitByte b = true := by
  have digit {m : Nat} (mem : b ∈ Json.digitBytes m) : Text.isDigitByte b = true :=
    List.all_eq_true.mp (Json.isDigits_digitBytes m).2 b mem
  rw [bytes_toString] at mem
  split at mem
  · exact .inr (digit mem)
  · exact (List.mem_cons.mp mem).imp_right digit

/-- A number that is read has 64 bits. -/
theorem bounds_of_wholeNumber? {bs : List UInt8} {i : Int} (read : wholeNumber? bs = some i) : -(2 ^ 63) ≤ i ∧ i < 2 ^ 63 := by
  unfold wholeNumber? at read
  split at read
  split at read
  · cases read
  obtain ⟨inside, same⟩ := Option.ite_none_right_eq_some.mp read
  rw [Bool.and_eq_true, decide_eq_true_eq, decide_eq_true_eq] at inside
  cases same
  exact inside

/-! ## Parts of paths -/

/-- A step as a path can have it: a key that is not empty and in which no other step can begin, or a number of 64 bits. -/
def Step.Spelled : Step → Prop
  | key k => k.bytes ≠ [] ∧ 0x2E ∉ k.bytes ∧ 0x5B ∉ k.bytes
  | index i => -(2 ^ 63) ≤ i ∧ i < 2 ^ 63

/-- The number of a place in brackets. -/
def bracketed (i : Int) : List UInt8 := 0x5B :: (Text.ofString (toString i)).bytes ++ [0x5D]

section Parts

variable {xs ys : List UInt8} {b : UInt8} {i : Int} {steps : List Step} {part : Text} {fuel more : Nat} {step : Step}

/-- What follows the end of a run of bytes is not in it. -/
theorem span_append (p : UInt8 → Bool) (xs ys : List UInt8) (ends : xs.dropWhile p ≠ [] ∨ ∀ b ∈ ys.head?, p b = false) :
    (xs ++ ys).takeWhile p = xs.takeWhile p ∧ (xs ++ ys).dropWhile p = xs.dropWhile p ++ ys := by
  induction xs with
  | nil =>
    have first := ends.resolve_left fun h => h rfl
    obtain - | ⟨b, ys⟩ := ys
    · exact ⟨rfl, rfl⟩
    · have stops := first b rfl
      rw [List.nil_append, List.takeWhile_cons, List.dropWhile_cons, stops]
      exact ⟨rfl, rfl⟩
  | cons b xs ih =>
    rw [List.dropWhile_cons] at ends ⊢
    rw [List.cons_append, List.takeWhile_cons, List.takeWhile_cons, List.dropWhile_cons]
    split
    · rename_i goes
      rw [if_pos goes] at ends
      obtain ⟨taken, left⟩ := ih ends
      exact ⟨by rw [taken], left⟩
    · exact ⟨rfl, rfl⟩

theorem notMem_toString (sign : b ≠ 0x2D) (digit : ¬Text.isDigitByte b = true) : b ∉ (Text.ofString (toString i)).bytes :=
  fun mem => (mem_bytes_toString mem).elim sign digit

theorem notMem_bracketed : 0x2E ∉ bracketed i := by
  intro mem
  simp only [bracketed, List.cons_append, List.mem_cons, List.mem_append, List.not_mem_nil, or_false] at mem
  obtain mem | mem | mem := mem
  · cases mem
  · exact notMem_toString (by decide) (by decide) mem
  · cases mem

theorem indices_nil : indices fuel [] = .ok [] := by
  cases fuel <;> rfl

/-- A number in brackets alone. -/
theorem indices_bracketed (spelled : (Step.index i).Spelled) : indices (fuel + 1) (bracketed i) = .ok [.index i] := by
  have inside : ∀ b ∈ (Text.ofString (toString i)).bytes, decide (b ≠ 0x5D) = true := fun b mem =>
    decide_eq_true fun same => notMem_toString (by decide) (by decide) (same ▸ mem)
  obtain ⟨taken, left⟩ := span_append (· ≠ 0x5D) (Text.ofString (toString i)).bytes [0x5D]
    (.inr fun b hb => by cases hb; rfl)
  rw [List.takeWhile_eq_self_iff.mpr inside] at taken
  rw [List.dropWhile_eq_nil_iff.mpr inside, List.nil_append] at left
  rw [bracketed, List.cons_append, indices]
  rw [taken, left, wholeNumber?_toString spelled.1 spelled.2, List.drop_succ_cons, List.drop_nil, indices_nil]
  rfl

/-- It may stand behind others. -/
theorem indices_append (spelled : (Step.index i).Spelled) (read : indices fuel xs = .ok steps) (room : fuel < more) :
    indices more (xs ++ bracketed i) = .ok (steps ++ [.index i]) := by
  induction fuel generalizing xs steps more with
  | zero =>
    obtain - | ⟨b, xs⟩ := xs
    · cases read
      obtain ⟨more, rfl⟩ := Nat.exists_eq_succ_of_ne_zero (Nat.ne_of_gt room)
      exact indices_bracketed spelled
    · cases read
  | succ fuel ih =>
    obtain ⟨more, rfl⟩ := Nat.exists_eq_succ_of_ne_zero (Nat.ne_of_gt (Nat.zero_lt_of_lt room))
    obtain - | ⟨b, xs⟩ := xs
    · cases read
      exact indices_bracketed spelled
    rw [indices] at read
    split at read
    · cases read
    rename_i closed
    split at read
    · cases read
    rename_i j number
    have ends : xs.dropWhile (· ≠ 0x5D) ≠ [] := fun none => closed (by rw [none, List.isEmpty_nil, Bool.or_true])
    obtain ⟨taken, left⟩ := span_append (· ≠ 0x5D) xs (bracketed i) (.inl ends)
    obtain ⟨rest, inner, same⟩ := Json.read_bind_ok read
    cases same
    rw [List.cons_append, indices, taken, left, number, if_neg, List.drop_append_of_le_length (List.length_pos_iff.mpr ends),
      ih inner (Nat.lt_of_succ_lt_succ room)]
    · rfl
    · rw [List.isEmpty_eq_false_iff.mpr ends] at closed
      rw [List.isEmpty_eq_false_iff.mpr (List.append_ne_nil_of_left_ne_nil ends _)]
      exact closed

/-- A number in brackets adds a step to a part. -/
theorem partSteps_bracketed (spelled : (Step.index i).Spelled) (read : partSteps part = .ok steps) :
    partSteps ⟨part.bytes ++ bracketed i⟩ = .ok (steps ++ [.index i]) := by
  obtain ⟨taken, left⟩ := span_append (· ≠ 0x5B) part.bytes (bracketed i) (.inr fun b hb => by cases hb; rfl)
  unfold partSteps at read ⊢
  dsimp only at read ⊢
  rw [taken, left]
  obtain ⟨more, inner, same⟩ := Json.read_bind_ok read
  cases same
  rw [indices_append spelled inner (by simp [bracketed])]
  refine congrArg Except.ok ?_
  split
  · rfl
  · rfl

/-- What is between dots and has no brackets is a key. -/
theorem partSteps_key {k : Text} (spelled : (Step.key k).Spelled) : partSteps k = .ok [.key k] := by
  have inside : ∀ b ∈ k.bytes, decide (b ≠ 0x5B) = true := fun b mem => decide_eq_true fun same => spelled.2.2 (same ▸ mem)
  unfold partSteps
  rw [List.takeWhile_eq_self_iff.mpr inside, List.dropWhile_eq_nil_iff.mpr inside]
  exact congrArg Except.ok (if_neg (by rw [List.isEmpty_eq_false_iff.mpr spelled.1]; exact Bool.false_ne_true))

/-- All numbers in brackets have 64 bits. -/
theorem spelled_of_indices (read : indices fuel xs = .ok steps) (mem : step ∈ steps) : step.Spelled := by
  induction fuel generalizing xs steps with
  | zero =>
    obtain - | ⟨b, xs⟩ := xs
    · cases read
      cases mem
    · cases read
  | succ fuel ih =>
    obtain - | ⟨b, xs⟩ := xs
    · cases read
      cases mem
    rw [indices] at read
    split at read
    · cases read
    split at read
    · cases read
    rename_i i number
    obtain ⟨rest, inner, same⟩ := Json.read_bind_ok read
    cases same
    obtain rfl | mem := List.mem_cons.mp mem
    · exact bounds_of_wholeNumber? number
    · exact ih inner mem

theorem spelled_of_partSteps (dot : 0x2E ∉ part.bytes) (read : partSteps part = .ok steps) (mem : step ∈ steps) : step.Spelled := by
  obtain ⟨more, inner, same⟩ := Json.read_bind_ok read
  cases same
  split at mem
  · exact spelled_of_indices inner mem
  rename_i filled
  obtain rfl | mem := List.mem_cons.mp mem
  · refine ⟨fun none => filled (List.isEmpty_iff.mpr none), fun inside => dot (List.takeWhile_subset _ inside), fun inside => ?_⟩
    cases List.mem_takeWhile_imp inside
  · exact spelled_of_indices inner mem

end Parts

/-! ## Paths -/

section Paths

variable {path k : Text} {texts : List Text} {parts : List (List Step)} {steps more : List Step} {i : Int}

theorem splitOn_dot (path : Text) : path.splitOn "." = Text.splitBytes [0x2E] path.bytes 0 [] := rfl

theorem parts_of_parse (parsed : parse path = .ok steps) :
    ∃ parts, (path.splitOn ".").mapM partSteps = .ok parts ∧ parts.flatten = steps := by
  unfold parse at parsed
  split at parsed
  · rename_i parts read
    cases parsed
    exact ⟨parts, read, rfl⟩
  · cases parsed
  · cases parsed

theorem spelled_of_mapM (dots : ∀ t ∈ texts, 0x2E ∉ t.bytes) (read : texts.mapM partSteps = .ok parts) :
    ∀ step ∈ parts.flatten, step.Spelled := by
  induction texts generalizing parts with
  | nil =>
    cases read
    nofun
  | cons t texts ih =>
    rw [List.mapM_cons] at read
    obtain ⟨first, read₁, read⟩ := Json.read_bind_ok read
    obtain ⟨more, read₂, same⟩ := Json.read_bind_ok read
    cases same
    intro step mem
    rw [List.flatten_cons] at mem
    obtain mem | mem := List.mem_append.mp mem
    · exact spelled_of_partSteps (dots t List.mem_cons_self) read₁ mem
    · exact ih (fun u hu => dots u (List.mem_cons_of_mem _ hu)) read₂ step mem

/-- Every step of a path can be spelled. -/
theorem spelled_of_parse (parsed : parse path = .ok steps) : ∀ step ∈ steps, step.Spelled := by
  obtain ⟨parts, read, rfl⟩ := parts_of_parse parsed
  exact spelled_of_mapM (fun t ht => Text.notMem_splitBytes List.not_mem_nil ht) read

theorem mapM_concat (before : List Text) (t : Text) : (before ++ [t]).mapM partSteps = (do
    let parts ← before.mapM partSteps
    let steps ← partSteps t
    pure (parts ++ [steps])) := by
  rw [List.mapM_append]
  refine bind_congr fun parts => ?_
  rw [List.mapM_cons, List.mapM_nil, bind_assoc]
  refine bind_congr fun steps => ?_
  rfl

/-- A key behind steps is a part of its own. -/
theorem parts_key (spelled : (Step.key k).Spelled) (begun : path.bytes ≠ []) (read : (path.splitOn ".").mapM partSteps = .ok parts) :
    ((renderStep path (.key k)).splitOn ".").mapM partSteps = .ok (parts ++ [[.key k]]) := by
  have text : (renderStep path (.key k)).bytes = path.bytes ++ 0x2E :: k.bytes := by
    have more : ¬path.isEmpty = true := fun none => begun (List.isEmpty_iff.mp none)
    rw [renderStep, if_neg more, Text.bytes_append, Text.bytes_append, List.append_assoc]
    rfl
  rw [splitOn_dot, text, Text.splitBytes_append_dot _ spelled.2.1, mapM_concat, ← splitOn_dot, read, partSteps_key spelled]
  rfl

theorem bytes_renderStep_index (path : Text) (i : Int) : (renderStep path (.index i)).bytes = path.bytes ++ bracketed i := by
  rw [renderStep, Text.bytes_append, Text.bytes_append, Text.bytes_append, List.append_assoc, List.append_assoc]
  rfl

/-- A number behind steps belongs to the last part. -/
theorem parts_index (spelled : (Step.index i).Spelled) (read : (path.splitOn ".").mapM partSteps = .ok parts) :
    ∃ parts', ((renderStep path (.index i)).splitOn ".").mapM partSteps = .ok parts' ∧ parts'.flatten = parts.flatten ++ [.index i] := by
  obtain ⟨before, last, whole, longer⟩ := Text.splitBytes_append path.bytes (notMem_bracketed (i := i)) []
  rw [splitOn_dot, whole, mapM_concat] at read
  obtain ⟨parts₁, first, read⟩ := Json.read_bind_ok read
  obtain ⟨steps, read₁, same⟩ := Json.read_bind_ok read
  cases same
  refine ⟨parts₁ ++ [steps ++ [.index i]], ?_, ?_⟩
  · rw [splitOn_dot, bytes_renderStep_index, longer, mapM_concat, first, partSteps_bracketed spelled read₁]
    rfl
  · simp

/-- **The text of steps is a path with these steps.** -/
theorem parse_render (spelled : ∀ step ∈ steps, step.Spelled) : parse (render steps) = .ok steps := by
  have whole : ∃ parts, ((render steps).splitOn ".").mapM partSteps = .ok parts ∧ parts.flatten = steps ∧
      ((render steps).bytes = [] → steps = []) := by
    induction steps using List.reverseRecOn with
    | nil => exact ⟨[[]], rfl, rfl, fun _ => rfl⟩
    | append_singleton steps step ih =>
      obtain ⟨parts, read, flat, filled⟩ := ih fun step mem => spelled step (List.mem_append_left _ mem)
      have last := spelled step (List.mem_append_right _ (List.mem_singleton_self step))
      rw [render, List.foldl_concat, ← render]
      cases step with
      | index i =>
        obtain ⟨parts', read', flat'⟩ := parts_index last read
        refine ⟨parts', read', by rw [flat', flat], fun none => ?_⟩
        rw [bytes_renderStep_index] at none
        cases (List.append_eq_nil_iff.mp none).2
      | key k =>
        by_cases begun : (render steps).bytes = []
        · obtain rfl := filled begun
          have single : (k.splitOn ".").mapM partSteps = .ok [[.key k]] := by
            rw [splitOn_dot, Text.splitBytes_of_notMem last.2.1, List.mapM_cons]
            exact congrArg (· >>= _) (partSteps_key last)
          exact ⟨[[.key k]], single, rfl, fun none => absurd none last.1⟩
        · refine ⟨_, parts_key last begun read, by simp [flat], fun none => ?_⟩
          rw [renderStep, Text.bytes_append] at none
          exact absurd (List.append_eq_nil_iff.mp none).2 last.1
  obtain ⟨parts, read, flat, -⟩ := whole
  rw [parse, read, ← flat]

/-- A path has a path above it. -/
theorem parse_render_prefix (parsed : parse path = .ok steps) (above : more <+: steps) : parse (render more) = .ok more :=
  parse_render fun step mem => spelled_of_parse parsed step (above.subset mem)

end Paths

end Path

end ScriptEngine
