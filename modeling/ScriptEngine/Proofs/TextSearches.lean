import Mathlib.Algebra.Order.Ring.Int
import Mathlib.Data.Nat.Cast.Order.Basic
import Mathlib.Order.Bounds.Image
import ScriptEngine.Proofs.PlaceWrites
import ScriptEngine.Proofs.ReadingExpressions
import ScriptEngine.Proofs.SortedArrays
import ScriptEngine.Proofs.SpelledChars
/-!
# Searching, cutting and splitting texts

A text is searched byte by byte, and what is found is told in characters. It is cut by characters. The two agree: where a text is
found, it is what is cut out there.

The pieces of a text are what stands between the places of a separator, or its single glyphs when the separator is empty. Joined
again with the separator they are the text, and the separator stands in none of them.
-/

namespace ScriptEngine

open Text

namespace StrOp

variable {s f : Text} {n : Nat} {start stop : Int} {m : Machine}

/-! ## Places -/

theorem length_take_offset (cs : List Char) {i : Nat} (inside : i ≤ cs.length) : ((ofChars cs).take (offset cs i)).length = i := by
  have spelled : (ofChars cs).take (offset cs i) = ofChars (cs.take i) := congrArg Text.mk (take_offset cs i)
  rw [spelled, length_ofChars, List.length_take_of_le inside]

/-- The places behind some characters. -/
theorem add_mem_places {cs fs : List Char} {start i : Nat} (inside : start ≤ cs.length) :
    start + i ∈ places fs cs ↔ i ∈ places fs (cs.drop start) := by
  show _ ∧ _ ↔ _ ∧ _
  rw [List.drop_drop, List.length_drop]
  constructor
  · rintro ⟨within, front⟩
    exact ⟨by omega, front⟩
  · rintro ⟨within, front⟩
    exact ⟨by omega, front⟩

/-- The first place behind some characters is found. -/
theorem isLeast_indexFrom? (hf : f.isValid = true) {start : Nat} (inside : start ≤ s.length) :
    (∀ n, indexFrom? s f start = some n → IsLeast {i | start ≤ i ∧ i ∈ places f.chars s.chars} n) ∧
    (indexFrom? s f start = none → {i | start ≤ i ∧ i ∈ places f.chars s.chars} = ∅) := by
  rw [← length_chars] at inside
  let rest := s.chars.drop start
  have begins : (decide ((0 : Int) ≤ start) && decide ((start : Int) ≤ s.chars.length)) = true := by
    simp [inside]
  have steps : indexFrom? s f start = (findBytes f.bytes (rest.flatMap encodeChar)).map fun o => start + ((ofChars rest).take o).length := by
    have goes : (guard ((decide ((0 : Int) ≤ start) && decide ((start : Int) ≤ s.chars.length)) = true) : Option Unit) = some () :=
      if_pos begins
    unfold indexFrom?
    dsimp only
    rw [goes]
    show Option.bind (findBytes f.bytes (rest.flatMap encodeChar)) _ = _
    cases findBytes f.bytes (rest.flatMap encodeChar) with
    | none => rfl
    | some o => rfl
  rw [steps, bytes_of_isValid hf]
  constructor
  · intro n found
    obtain ⟨k, first, rfl⟩ := Option.map_eq_some_iff.mp found
    obtain ⟨i, rfl, there, least⟩ := isLeast_of_offset (isLeast_findBytes first)
    rw [length_take_offset rest there.1]
    refine ⟨⟨Nat.le_add_right _ _, (add_mem_places inside).mpr there⟩, ?_⟩
    rintro j ⟨behind, place⟩
    obtain ⟨d, rfl⟩ := Nat.exists_eq_add_of_le behind
    exact Nat.add_le_add_left (least ((add_mem_places inside).mp place)) start
  · intro missing
    have nowhere := places_eq_empty_iff.mp (places_of_findBytes (Option.map_eq_none_iff.mp missing))
    refine Set.eq_empty_of_forall_notMem ?_
    rintro j ⟨behind, place⟩
    obtain ⟨d, rfl⟩ := Nat.exists_eq_add_of_le behind
    have there := (add_mem_places inside).mp place
    rw [nowhere] at there
    exact Set.notMem_empty d there

/-- The last place is found. -/
theorem isGreatest_lastIndex? (hs : s.isValid = true) (hf : f.isValid = true) :
    (∀ n, lastIndex? s f = some n → IsGreatest (places f.chars s.chars) n) ∧
    (lastIndex? s f = none → places f.chars s.chars = ∅) := by
  have steps : lastIndex? s f =
      (findLastBytes (f.chars.flatMap encodeChar) (s.chars.flatMap encodeChar)).map fun o => ((ofChars s.chars).take o).length := by
    rw [← bytes_of_isValid hf, ← bytes_of_isValid hs, ofChars_chars hs]
    rfl
  rw [steps]
  constructor
  · intro n found
    obtain ⟨k, last, rfl⟩ := Option.map_eq_some_iff.mp found
    obtain ⟨i, rfl, greatest⟩ := isGreatest_of_offset (isGreatest_findLastBytes last)
    rw [length_take_offset s.chars greatest.1.1]
    exact greatest
  · intro missing
    exact places_eq_empty_iff.mp (places_of_findLastBytes (Option.map_eq_none_iff.mp missing))

/-- A text contains another one when that stands somewhere in it. -/
theorem contains_iff (hs : s.isValid = true) (hf : f.isValid = true) : s.contains f = true ↔ (places f.chars s.chars).Nonempty := by
  rw [Text.contains, Text.find?, bytes_of_isValid hs, bytes_of_isValid hf]
  cases found : findBytes (f.chars.flatMap encodeChar) (s.chars.flatMap encodeChar) with
  | none =>
    rw [places_eq_empty_iff.mp (places_of_findBytes found)]
    simp
  | some k =>
    obtain ⟨i, -, first⟩ := isLeast_of_offset (isLeast_findBytes found)
    exact iff_of_true rfl ⟨i, first.1⟩

/-! ## Pieces -/

/-- A range inside a text is cut out. -/
theorem piece_done (low : 0 ≤ start) (le : start ≤ stop) (high : stop ≤ s.length) :
    piece s start stop m = .done (ofChars ((s.chars.take stop.toNat).drop start.toNat)) m := by
  rw [← length_chars] at high
  have inside : (decide (start < 0) || decide (stop > s.chars.length) || decide (start > stop)) = false := by
    simp only [Bool.or_eq_false_iff, decide_eq_false_iff_not]
    omega
  unfold piece
  simp only [inside, Bool.false_eq_true, if_false]
  rfl

/-- A range that is not inside a text is refused. -/
theorem piece_failed (outside : ¬(0 ≤ start ∧ start ≤ stop ∧ stop ≤ s.length)) :
    ∃ e, piece s start stop m = .failed e m ∧ e.kind = .index := by
  rw [← length_chars] at outside
  have refused : (decide (start < 0) || decide (stop > s.chars.length) || decide (start > stop)) = true := by
    simp only [Bool.or_eq_true, decide_eq_true_eq]
    omega
  unfold piece
  simp only [refused, if_true]
  exact ⟨_, rfl, rfl⟩

/-- What is before a place and what is between it and a later one make up what is before that. -/
theorem take_pieces {cs : List Char} {i j : Nat} (le : i ≤ j) : cs.take i ++ (cs.take j).drop i = cs.take j := by
  have before : cs.take i = (cs.take j).take i := by
    rw [List.take_take, Nat.min_eq_left le]
  rw [before]
  exact List.take_append_drop i _

/-! ## Calls -/

/-- A builtin on texts is run on its arguments when they need no change. -/
theorem call_of_prepared (sleep : Nat → Exec Unit) (op : StrOp) {args given : List Value} {m : Machine}
    (prepared : (op.signature.prepare given).run.run m.store = (.ok args, m.store)) :
    Builtin.call sleep op.signature.name given m = op.run ⟨args⟩ m := Builtin.call_of_prepared sleep (.str op) prepared

end StrOp

namespace StrOp

variable {s f : Text} {start stop : Int32} {m : Machine} (sleep : Nat → Exec Unit)

theorem call_substring (s : Text) (start stop : Int32) (m : Machine) :
    Builtin.call sleep "str.substring" [.string s, .int start, .int stop] m =
      (piece s start.toInt stop.toInt >>= fun t => pure (.string t) : Exec Value) m := by
  refine (call_of_prepared sleep .substring rfl).trans ?_
  show (piece s start.toInt64.toInt stop.toInt64.toInt >>= fun t => pure (.string t) : Exec Value) m = _
  rw [Int32.toInt_toInt64, Int32.toInt_toInt64]

/-- Without an end, a piece goes on to the end of the text. -/
theorem call_substring_open (s : Text) (start : Int32) (m : Machine) :
    Builtin.call sleep "str.substring" [.string s, .int start] m =
      (piece s start.toInt s.length >>= fun t => pure (.string t) : Exec Value) m := by
  refine (call_of_prepared sleep .substring rfl).trans ?_
  show (piece s start.toInt64.toInt s.length >>= fun t => pure (.string t) : Exec Value) m = _
  rw [Int32.toInt_toInt64]

theorem call_indexOf (s f : Text) (start : Int32) (m : Machine) :
    Builtin.call sleep "str.indexof" [.string s, .string f, .int start] m = .done (placeValue (indexFrom? s f start.toInt)) m := by
  refine (call_of_prepared sleep .indexOf rfl).trans ?_
  show Outcome.done (placeValue (indexFrom? s f start.toInt64.toInt)) m = _
  rw [Int32.toInt_toInt64]

theorem call_indexOf_open (s f : Text) (m : Machine) :
    Builtin.call sleep "str.indexof" [.string s, .string f] m = .done (placeValue (indexFrom? s f 0)) m := by
  refine (call_of_prepared sleep .indexOf rfl).trans ?_
  rfl

theorem call_lastIndexOf (s f : Text) (m : Machine) :
    Builtin.call sleep "str.lastindexof" [.string s, .string f] m = .done (placeValue (lastIndex? s f)) m := by
  refine (call_of_prepared sleep .lastIndexOf rfl).trans ?_
  rfl

theorem call_contains (s f : Text) (m : Machine) :
    Builtin.call sleep "str.contains" [.string s, .string f] m = .done (.bool (s.contains f)) m := by
  refine (call_of_prepared sleep .contains rfl).trans ?_
  rfl

/-! ## Places as numbers of a script -/

/-- A text stands at a place of another: the piece that begins there and has as many characters is that text. -/
def Stands (m : Machine) (s f : Text) (i : Int) : Prop :=
  ∃ start stop : Int32, start.toInt = i ∧ stop.toInt = i + f.length ∧
    Builtin.call sleep "str.substring" [.string s, .int start, .int stop] m = .done (.string f) m

/-- What a search tells: the place that it is for, or -1 when there is none. -/
def Tells (sought : Set Int → Int → Prop) (places : Set Int) (r : Int) : Prop := places = ∅ ∧ r = -1 ∨ sought places r

theorem toInt_ofNat {n : Nat} (h : n < 2 ^ 31) : (Int32.ofNat n).toInt = n := Int32.toInt_ofNat_of_lt h

/-- A text stands at the places of its characters. -/
theorem stands_iff (hf : f.isValid = true) (short : s.length < 2 ^ 31) (m : Machine) (i : Int) :
    Stands sleep m s f i ↔ ∃ n : Nat, i = n ∧ n ∈ places f.chars s.chars := by
  constructor
  · rintro ⟨start, stop, rfl, ends, cut⟩
    rw [call_substring] at cut
    by_cases inside : 0 ≤ start.toInt ∧ start.toInt ≤ stop.toInt ∧ stop.toInt ≤ s.length
    · rw [Exec.bind_of_done (piece_done inside.1 inside.2.1 inside.2.2)] at cut
      obtain ⟨n, begins⟩ := Int.eq_ofNat_of_zero_le inside.1
      have size : stop.toInt.toNat = n + f.chars.length := by
        rw [length_chars]
        omega
      have same : ofChars ((s.chars.take stop.toInt.toNat).drop start.toInt.toNat) = f := by
        injection cut with value
        injection value
      have read := congrArg chars same
      rw [chars_ofChars, List.drop_take, begins, size, Int.toNat_natCast, Nat.add_sub_cancel_left] at read
      refine ⟨n, begins, mem_places_iff_take.mpr ⟨?_, read⟩⟩
      rw [length_chars]
      omega
    · obtain ⟨e, refused, -⟩ := piece_failed (m := m) inside
      change Exec.andThen _ _ m = _ at cut
      rw [Exec.andThen, refused] at cut
      cases cut
  · rintro ⟨n, rfl, there⟩
    obtain ⟨inside, taken⟩ := mem_places_iff_take.mp there
    have enough : n + f.length ≤ s.length := by
      have size := congrArg List.length taken
      rw [List.length_take, List.length_drop, length_chars, length_chars] at size
      rw [length_chars] at inside
      omega
    have begins : (Int32.ofNat n).toInt = n := toInt_ofNat (by omega)
    have ends : (Int32.ofNat (n + f.length)).toInt = n + f.length := toInt_ofNat (by omega)
    refine ⟨Int32.ofNat n, Int32.ofNat (n + f.length), begins, ends, ?_⟩
    rw [call_substring, begins, ends, Exec.bind_of_done (piece_done (by omega) (by omega) (by omega)), List.drop_take]
    rw [length_chars] at taken
    have size : ((n : Int) + f.length).toNat - (n : Int).toNat = f.length := by omega
    rw [size, Int.toNat_natCast, taken, ofChars_chars hf]
    rfl

/-- The place that was found, or that there is none, as a number. -/
theorem exists_tells {sought : Set Int → Int → Prop} {P : Set Nat} {o : Option Nat} (small : ∀ n, o = some n → n < 2 ^ 31)
    (found : ∀ n, o = some n → sought (Nat.cast '' P) n) (none : o = none → P = ∅) :
    ∃ r : Int32, placeValue o = .int r ∧ Tells sought (Nat.cast '' P) r.toInt := by
  cases o with
  | none =>
    refine ⟨-1, rfl, .inl ⟨?_, by decide⟩⟩
    rw [none rfl, Set.image_empty]
  | some n =>
    refine ⟨Int32.ofNat n, rfl, .inr ?_⟩
    rw [toInt_ofNat (small n rfl)]
    exact found n rfl

/-- The first place behind a number of characters is told. -/
theorem tells_indexFrom? (hf : f.isValid = true) (short : s.length < 2 ^ 31) (m : Machine) {start : Int} (low : 0 ≤ start)
    (high : start ≤ s.length) :
    ∃ r : Int32, placeValue (indexFrom? s f start) = .int r ∧ Tells IsLeast {i | start ≤ i ∧ Stands sleep m s f i} r.toInt := by
  obtain ⟨n, rfl⟩ := Int.eq_ofNat_of_zero_le low
  obtain ⟨least, none⟩ := isLeast_indexFrom? (s := s) hf (Int.ofNat_le.mp high)
  have same : {i : Int | (n : Int) ≤ i ∧ Stands sleep m s f i} = Nat.cast '' {i | n ≤ i ∧ i ∈ places f.chars s.chars} := by
    ext i
    simp only [Set.mem_ofPred_eq, stands_iff sleep hf short, Set.mem_image]
    constructor
    · rintro ⟨behind, k, rfl, there⟩
      exact ⟨k, ⟨Int.ofNat_le.mp behind, there⟩, rfl⟩
    · rintro ⟨k, ⟨behind, there⟩, rfl⟩
      exact ⟨Int.ofNat_le.mpr behind, k, rfl, there⟩
  rw [same]
  refine exists_tells ?_ (fun k found => Nat.mono_cast.map_isLeast (least k found)) none
  intro k found
  have inside := (least k found).1.2.1
  rw [length_chars] at inside
  omega

/-- The last place is told. -/
theorem tells_lastIndex? (hs : s.isValid = true) (hf : f.isValid = true) (short : s.length < 2 ^ 31) (m : Machine) :
    ∃ r : Int32, placeValue (lastIndex? s f) = .int r ∧ Tells IsGreatest {i | Stands sleep m s f i} r.toInt := by
  obtain ⟨greatest, none⟩ := isGreatest_lastIndex? hs hf
  have same : {i : Int | Stands sleep m s f i} = Nat.cast '' places f.chars s.chars := by
    ext i
    simp only [Set.mem_ofPred_eq, stands_iff sleep hf short, Set.mem_image]
    constructor
    · rintro ⟨k, rfl, there⟩
      exact ⟨k, there, rfl⟩
    · rintro ⟨k, there, rfl⟩
      exact ⟨k, rfl, there⟩
  rw [same]
  refine exists_tells ?_ (fun k found => Nat.mono_cast.map_isGreatest (greatest k found)) none
  intro k found
  have inside := (greatest k found).1.1
  rw [length_chars] at inside
  omega

/-- A search tells -1 just when there is no place. -/
theorem Tells.ne_iff {sought : Set Int → Int → Prop} {P : Set Int} {r : Int32} (tells : Tells sought P r.toInt)
    (mem : sought P r.toInt → r.toInt ∈ P) (low : ∀ i ∈ P, 0 ≤ i) : r ≠ -1 ↔ P.Nonempty := by
  constructor
  · intro other
    rcases tells with ⟨-, missing⟩ | found
    · exact absurd (Int32.toInt_inj.mp missing) other
    · exact ⟨_, mem found⟩
  · rintro ⟨i, there⟩ rfl
    rcases tells with ⟨nowhere, -⟩ | found
    · rw [nowhere] at there
      exact Set.notMem_empty i there
    · exact absurd (low _ (mem found)) (by decide)

/-- A text contains another one when a search for it tells of a place. -/
theorem contains_iff_found (hs : s.isValid = true) (hf : f.isValid = true) (short : s.length < 2 ^ 31)
    (m : Machine) {sought : Set Int → Int → Prop} {P : Set Int} {r : Int32} (all : ∀ i, i ∈ P ↔ Stands sleep m s f i)
    (tells : Tells sought P r.toInt) (mem : sought P r.toInt → r.toInt ∈ P) : s.contains f = true ↔ r ≠ -1 := by
  have low (i : Int) (there : i ∈ P) : 0 ≤ i := by
    obtain ⟨n, rfl, -⟩ := (stands_iff sleep hf short m i).mp ((all i).mp there)
    exact Int.natCast_nonneg n
  rw [contains_iff hs hf, tells.ne_iff mem low]
  constructor
  · rintro ⟨k, there⟩
    exact ⟨k, (all k).mpr ((stands_iff sleep hf short m k).mpr ⟨k, rfl, there⟩)⟩
  · rintro ⟨i, there⟩
    obtain ⟨k, -, there⟩ := (stands_iff sleep hf short m i).mp ((all i).mp there)
    exact ⟨k, there⟩

/-- A text that is cut in three and joined again is the text. -/
theorem cut_in_three (hs : s.isValid = true) (low : 0 ≤ start.toInt) (le : start.toInt ≤ stop.toInt) (high : stop.toInt ≤ s.length)
    (m : Machine) :
    ∃ x y z, Builtin.call sleep "str.substring" [.string s, .int 0, .int start] m = .done x m ∧
      Builtin.call sleep "str.substring" [.string s, .int start, .int stop] m = .done y m ∧
      Builtin.call sleep "str.substring" [.string s, .int stop] m = .done z m ∧
      (do Eval.binary .add (← Eval.binary .add x y) z : StoreM Value).run.run m.store = (.ok (.string s), m.store) := by
  let part (i j : Int) : Text := ofChars ((s.chars.take j.toNat).drop i.toNat)
  have cut {i j : Int} (low : 0 ≤ i) (le : i ≤ j) (high : j ≤ s.length) :
      (piece s i j >>= fun t => pure (.string t) : Exec Value) m = .done (.string (part i j)) m :=
    Exec.bind_of_done (piece_done low le high)
  refine ⟨.string (part 0 start.toInt), .string (part start.toInt stop.toInt), .string (part stop.toInt s.length), ?_, ?_, ?_, ?_⟩
  · rw [call_substring]
    exact cut (Int.le_refl 0) low (by omega)
  · rw [call_substring]
    exact cut low le high
  · rw [call_substring_open]
    exact cut (by omega) high (Int.le_refl _)
  · have whole : ofChars (s.chars.take start.toInt.toNat) ++ part start.toInt stop.toInt ++ part stop.toInt s.length = s := by
      rw [← ofChars_append, ← ofChars_append, take_pieces (by omega : start.toInt.toNat ≤ stop.toInt.toNat), Int.toNat_natCast,
        ← length_chars, List.take_length]
      exact (congrArg ofChars (List.take_append_drop _ _)).trans (ofChars_chars hs)
    exact congrArg (fun t => (Except.ok (Value.string t), m.store)) whole

/-- The builtins that search and those that cut agree. What is found in a text is the first place behind a number of characters, or the
last place at all, where the text that is sought for is cut out; a text contains another one when there is such a place. A text that
is cut in three and joined again is the text, and no range is cut out that is not inside the text. -/
theorem searches_agree (hs : s.isValid = true) (hf : f.isValid = true) (short : s.length < 2 ^ 31) (m : Machine) :
    (∃ n : Int32, Builtin.call sleep "str.length" [.string s] m = .done (.int n) m ∧ n.toInt = s.length) ∧
    (∀ start : Int32, 0 ≤ start.toInt → start.toInt ≤ s.length →
      ∃ r : Int32, Builtin.call sleep "str.indexof" [.string s, .string f, .int start] m = .done (.int r) m ∧
        Tells IsLeast {i | start.toInt ≤ i ∧ Stands sleep m s f i} r.toInt) ∧
    (∃ r : Int32, Builtin.call sleep "str.lastindexof" [.string s, .string f] m = .done (.int r) m ∧
      Tells IsGreatest {i | Stands sleep m s f i} r.toInt) ∧
    (∃ (b : Bool) (first last : Int32), Builtin.call sleep "str.contains" [.string s, .string f] m = .done (.bool b) m ∧
      Builtin.call sleep "str.indexof" [.string s, .string f] m = .done (.int first) m ∧
      Builtin.call sleep "str.lastindexof" [.string s, .string f] m = .done (.int last) m ∧
      (b = true ↔ first ≠ -1) ∧ (b = true ↔ last ≠ -1)) ∧
    (∀ a b : Int32, 0 ≤ a.toInt → a.toInt ≤ b.toInt → b.toInt ≤ s.length →
      ∃ x y z, Builtin.call sleep "str.substring" [.string s, .int 0, .int a] m = .done x m ∧
        Builtin.call sleep "str.substring" [.string s, .int a, .int b] m = .done y m ∧
        Builtin.call sleep "str.substring" [.string s, .int b] m = .done z m ∧
        (do Eval.binary .add (← Eval.binary .add x y) z : StoreM Value).run.run m.store = (.ok (.string s), m.store)) ∧
    (∀ a b : Int32, ¬(0 ≤ a.toInt ∧ a.toInt ≤ b.toInt ∧ b.toInt ≤ s.length) →
      ∃ e, Builtin.call sleep "str.substring" [.string s, .int a, .int b] m = .failed e m ∧ e.kind = .index) ∧
    (∀ a : Int32, ¬(0 ≤ a.toInt ∧ a.toInt ≤ s.length) →
      ∃ e, Builtin.call sleep "str.substring" [.string s, .int a] m = .failed e m ∧ e.kind = .index) := by
  have inside (i : Int) (there : Stands sleep m s f i) : 0 ≤ i := by
    obtain ⟨n, rfl, -⟩ := (stands_iff sleep hf short m i).mp there
    exact Int.natCast_nonneg n
  have refused {start stop : Int} (outside : ¬(0 ≤ start ∧ start ≤ stop ∧ stop ≤ s.length)) :
      ∃ e, (piece s start stop >>= fun t => pure (.string t) : Exec Value) m = .failed e m ∧ e.kind = .index := by
    obtain ⟨e, failed, kind⟩ := piece_failed (m := m) outside
    refine ⟨e, ?_, kind⟩
    show Exec.andThen _ _ m = _
    rw [Exec.andThen, failed]
  obtain ⟨last, found, greatest⟩ := tells_lastIndex? sleep hs hf short m
  refine ⟨⟨Int32.ofNat s.length, ?_, toInt_ofNat short⟩, ?_, ⟨last, ?_, greatest⟩, ?_, ?_, ?_, ?_⟩
  · refine (call_of_prepared sleep .length rfl).trans ?_
    rfl
  · intro start low high
    obtain ⟨r, found, least⟩ := tells_indexFrom? sleep hf short m low high
    exact ⟨r, by rw [call_indexOf, found], least⟩
  · rw [call_lastIndexOf, found]
  · obtain ⟨first, found', least⟩ := tells_indexFrom? (s := s) sleep hf short m (Int.le_refl 0) (Int.natCast_nonneg _)
    refine ⟨s.contains f, first, last, call_contains sleep s f m, ?_, ?_, ?_, ?_⟩
    · rw [call_indexOf_open, found']
    · rw [call_lastIndexOf, found]
    · refine contains_iff_found sleep hs hf short m (fun i => ?_) least (fun found => found.1)
      exact and_iff_right_of_imp (inside i)
    · exact contains_iff_found sleep hs hf short m (fun i => Iff.rfl) greatest (fun found => found.1)
  · intro a b low le high
    exact cut_in_three sleep hs low le high m
  · intro a b outside
    rw [call_substring]
    exact refused outside
  · intro a outside
    rw [call_substring_open]
    exact refused (by omega)

/-- What stands twice in a text, in characters of more than a byte, is found where it stands last. -/
theorem searches_agree_umlaut :
    let sleep : Nat → Exec Unit := fun _ => pure ()
    let m := Machine.initial (Host.initial default default) 10 ""
    let s : Text := "äbäb"
    let f : Text := "äb"
    s.isValid = true ∧ f.isValid = true ∧ s.length < 2 ^ 31 ∧
      Builtin.call sleep "str.lastindexof" [.string s, .string f] m = .done (.int 2) m ∧ IsGreatest {i | Stands sleep m s f i} 2 := by
  intro sleep m s f
  have ⟨hs, hf, short, found⟩ : s.isValid = true ∧ f.isValid = true ∧ s.length < 2 ^ 31 ∧ lastIndex? s f = some 2 := by
    decide +kernel
  obtain ⟨-, -, ⟨r, told, tells⟩, -⟩ := searches_agree sleep hs hf short m
  have called : Builtin.call sleep "str.lastindexof" [.string s, .string f] m = .done (.int 2) m := by
    rw [call_lastIndexOf, found]
    rfl
  obtain rfl : 2 = r := by
    injection called.symm.trans told with value
    injection value
  refine ⟨hs, hf, short, called, ?_⟩
  rcases tells with ⟨-, missing⟩ | greatest
  · exact absurd missing (by decide)
  · exact greatest

end StrOp

/-! ## Splitting and joining texts -/

namespace Text

variable {sep bs piece : List UInt8} {k : Nat} {s t u : Text} {ts : List Text}

/-! ## Joining what was split -/

theorem join_cons (some : ts ≠ []) : (join u (t :: ts)).bytes = t.bytes ++ u.bytes ++ (join u ts).bytes := by
  cases ts with
  | nil => exact absurd rfl some
  | cons t' ts =>
    show t.bytes ++ ((u.bytes ++ t'.bytes) ++ ts.flatMap fun v => u.bytes ++ v.bytes) = _
    rw [List.append_assoc, List.append_assoc]
    rfl

theorem join_empty (ts : List Text) : (join ⟨[]⟩ ts).bytes = ts.flatMap Text.bytes := by
  cases ts with
  | nil => rfl
  | cons t ts => rfl

/-- What begins with a separator is the separator and what is behind it. -/
theorem append_drop_separator {b : UInt8} {rest : List UInt8} (some : sep ≠ []) (front : sep.isPrefixOf (b :: rest) = true) :
    sep ++ rest.drop (sep.length - 1) = b :: rest := by
  obtain ⟨behind, whole⟩ := List.isPrefixOf_iff_prefix.mp front
  have one : 0 < sep.length := List.length_pos_iff.mpr some
  have tail : rest.drop (sep.length - 1) = (b :: rest).drop sep.length := by
    rw [List.drop_cons one]
  rw [tail, ← whole, List.drop_left]

/-- The pieces that are still to come, joined, are the rest of the current piece and what is still to be read. -/
theorem join_splitBytes (some : sep ≠ []) (bs : List UInt8) (k : Nat) (piece : List UInt8) :
    (join ⟨sep⟩ (splitBytes sep bs k piece)).bytes = piece.reverse ++ bs.drop k := by
  fun_induction splitBytes sep bs k piece with
  | case1 k piece =>
    rw [List.drop_nil]
    rfl
  | case2 b rest k piece ih =>
    rw [ih, List.drop_succ_cons]
  | case3 b rest piece front ih =>
    rw [join_cons (Parser.splitBytes_ne_nil _ _ _ _), ih, List.reverse_nil, List.nil_append, List.append_assoc, List.drop_zero,
      append_drop_separator some front]
  | case4 b rest piece other ih =>
    rw [ih, List.reverse_cons, List.append_assoc]
    rfl

/-- The pieces of a text, joined again, are the text. -/
theorem join_splitOn (s u : Text) : join u (s.splitOn u) = s := by
  have bytes : (join u (s.splitOn u)).bytes = s.bytes := by
    unfold splitOn
    split
    · rename_i empty
      rw [show u = ⟨[]⟩ from congrArg Text.mk (List.isEmpty_iff.mp empty), join_empty, List.flatMap_map]
      exact flatMap_bytes_glyphs s
    · rename_i some
      exact join_splitBytes (mt List.isEmpty_iff.mpr some) s.bytes 0 []
  exact congrArg Text.mk bytes

/-! ## Pieces without the separator -/

/-- A separator that stands nowhere in the current piece, however this goes on, stands in none of the pieces. -/
theorem places_splitBytes (some : sep ≠ []) (clear : ∀ i ∈ places sep (piece.reverse ++ bs.drop k), piece.length ≤ i)
    (mem : t ∈ splitBytes sep bs k piece) : places sep t.bytes = ∅ := by
  -- a place in the piece by itself is one in whatever begins with the piece
  have closed {piece rest : List UInt8} (clear : ∀ i ∈ places sep (piece.reverse ++ rest), piece.length ≤ i) :
      places sep piece.reverse = ∅ := by
    refine Set.eq_empty_of_forall_notMem ?_
    rintro i ⟨inside, front⟩
    have behind := clear i ⟨by rw [List.length_append]; omega, by
      rw [List.drop_append_of_le_length inside]
      exact front.trans (List.prefix_append _ _)⟩
    rw [List.drop_eq_nil_of_le (by rwa [List.length_reverse])] at front
    exact some (List.prefix_nil.mp front)
  fun_induction splitBytes sep bs k piece with
  | case1 k piece =>
    obtain rfl := List.mem_singleton.mp mem
    exact closed clear
  | case2 b rest k piece ih =>
    rw [List.drop_succ_cons] at clear
    exact ih clear mem
  | case3 b rest piece front ih =>
    rcases List.mem_cons.mp mem with rfl | mem
    · exact closed clear
    · exact ih (fun _ _ => Nat.zero_le _) mem
  | case4 b rest piece other ih =>
    refine ih ?_ mem
    intro i there
    rw [List.drop_zero, List.reverse_cons, List.append_assoc] at there
    have behind := clear i there
    -- the one place that is left is where the separator was looked for
    rcases Nat.eq_or_lt_of_le behind with rfl | later
    · have front := there.2
      rw [← List.length_reverse, List.drop_left] at front
      exact absurd (List.isPrefixOf_iff_prefix.mpr front) other
    · exact later

/-- A separator that is not empty is in no piece. -/
theorem notIn_splitOn (some : u.bytes ≠ []) (mem : t ∈ s.splitOn u) : t.contains u = false := by
  have empty : u.isEmpty = false := by
    rw [Bool.eq_false_iff]
    exact mt List.isEmpty_iff.mp some
  unfold splitOn at mem
  rw [if_neg (by rw [empty]; exact Bool.false_ne_true)] at mem
  have nowhere := places_splitBytes some (fun _ _ => Nat.zero_le _) mem
  rw [contains, find?]
  cases found : findBytes u.bytes t.bytes with
  | none => rfl
  | some n =>
    have there := (isLeast_findBytes found).1
    rw [nowhere] at there
    exact absurd there (Set.notMem_empty n)

end Text

/-! ## Calls -/

/-- No more arguments than there are parameters are prepared one by one. -/
theorem Signature.prepare_few {s : Signature} {args : List Value} (few : args.length ≤ s.params.length) :
    s.prepare args = Signature.prepareAll s.name s.params args := if_neg (Nat.not_lt_of_le few)

namespace StrOp

variable {u : Text} {rest rest' : List Value} {v : Value} {m : Machine}

/-- The arguments by which a separator is given: a comma unless it is said otherwise. -/
def Separates (rest : List Value) (u : Text) : Prop := u = "," ∧ (rest = [] ∨ rest = [.null]) ∨ rest = [.string u]

theorem Separates.few (hands : Separates rest u) : (v :: rest).length ≤ 2 := by
  rcases hands with ⟨rfl, rfl | rfl⟩ | rfl
  all_goals simp

/-- The separator among prepared arguments. -/
theorem prepare_separated {name : Text} {p : Signature.Param} {s : Store} (hands : Separates rest u)
    (first : (Signature.prepareOne name p v).run.run s = (.ok v, s)) :
    ∃ last, (Signature.prepareAll name [p, Signature.optional "separator" .string] (v :: rest)).run.run s = (.ok [v, last], s) ∧
      (⟨[v, last]⟩ : Args).textOr 1 "," = pure u := by
  have blank : (Signature.prepareOne name (Signature.optional "separator" .string) .null).run.run s = (.ok .null, s) :=
    Signature.prepareOne_left_out rfl
  rcases hands with ⟨rfl, rfl | rfl⟩ | rfl
  · exact ⟨.null, Signature.prepareAll_pair first blank, rfl⟩
  · exact ⟨.null, Signature.prepareAll_pair first blank, rfl⟩
  · have given : (Signature.prepareOne name (Signature.optional "separator" .string) (.string u)).run.run s = (.ok (.string u), s) :=
      Signature.prepareOne_of_holds rfl rfl (.inr (.inl (.inr (.inl rfl))))
    exact ⟨.string u, Signature.prepareAll_pair first given, rfl⟩

/-- A call splits the text that it is given. -/
theorem call_split (sleep : Nat → Exec Unit) (hands : Separates rest u) (s : Text) (m : Machine) :
    Builtin.call sleep "str.split" (.string s :: rest) m =
      Exec.onStore (StoreM.newTexts (if s.isEmpty then [] else s.splitOn u)) m := by
  have whole : (Signature.prepareOne "str.split" (Signature.required "value" .string) (.string s)).run.run m.store =
      (.ok (.string s), m.store) := Signature.prepareOne_of_holds rfl rfl (.inr (.inl (.inr (.inl rfl))))
  obtain ⟨last, prepared, separator⟩ := prepare_separated hands whole
  have prepared : (split.signature.prepare (.string s :: rest)).run.run m.store = (.ok [.string s, last], m.store) := by
    rw [Signature.prepare_few hands.few]
    exact prepared
  refine (call_of_prepared sleep _ prepared).trans ?_
  show ((⟨[.string s, last]⟩ : Args).textOr 1 "," >>= fun u => _ : Exec Value) m = _
  rw [separator, pure_bind]

/-- A text is shown as it is. -/
theorem mapM_inspect_string (ts : List Text) (m : Machine) : (ts.map Value.string).mapM Exec.inspect m = .done ts m := by
  induction ts with
  | nil => rfl
  | cons t ts ih =>
    rw [List.map_cons, List.mapM_cons]
    have shown : Exec.inspect (.string t) m = .done t m := rfl
    exact (Exec.bind_of_done shown).trans (Exec.bind_of_done ih)

/-- A call joins the texts in the array that it is given. -/
theorem call_join (sleep : Nat → Exec Unit) (hands : Separates rest u) {a : Nat} {ts : List Text}
    (holds : (m.store.array a).cells.toList = ts.map .string) :
    Builtin.call sleep "str.join" (.array a :: rest) m = .done (.string (Text.join u ts)) m := by
  have whole : (Signature.prepareOne "str.join" (Signature.required "items" .array) (.array a)).run.run m.store =
      (.ok (.array a), m.store) := Signature.prepareOne_of_holds rfl rfl (.inr (.inl (.inr (.inr ⟨rfl, Cells.isArray_kind _⟩))))
  obtain ⟨last, prepared, separator⟩ := prepare_separated hands whole
  have prepared : (join.signature.prepare (.array a :: rest)).run.run m.store = (.ok [.array a, last], m.store) := by
    rw [Signature.prepare_few hands.few]
    exact prepared
  refine (call_of_prepared sleep _ prepared).trans ?_
  show ((⟨[.array a, last]⟩ : Args).textOr 1 "," >>= fun u => _ : Exec Value) m = _
  rw [separator, pure_bind, holds]
  exact Exec.bind_of_done (mapM_inspect_string ts m)

/-- **Splitting and joining.** A text is split into the elements of a fresh array. Joined again with the same separator they are the
text, whatever is done to give the separator, and none of them contains a separator that is not empty. -/
theorem split_joins (hands : Separates rest u) (hands' : Separates rest' u) (sleep : Nat → Exec Unit) (s : Text) (m : Machine) :
    ∃ (a : Nat) (ts : List Text) (m' : Machine), Builtin.call sleep "str.split" (.string s :: rest) m = .done (.array a) m' ∧
      m'.store.array a = ⟨.string, false, .boxed (ts.map Value.string).toArray⟩ ∧
      Builtin.call sleep "str.join" (.array a :: rest') m' = .done (.string s) m' ∧
      (u ≠ "" → ∀ t ∈ ts, Builtin.call sleep "str.contains" [.string t, .string u] m' = .done (.bool false) m') := by
  let ts := if s.isEmpty then [] else s.splitOn u
  have joined : Text.join u ts = s := by
    unfold ts
    split
    · rename_i empty
      exact congrArg Text.mk (List.isEmpty_iff.mp empty).symm
    · exact Text.join_splitOn s u
  let fresh : ArrayData := ⟨.string, false, .boxed (ts.map Value.string).toArray⟩
  let m' : Machine := { m with store := { m.store with arrays := m.store.arrays.push fresh } }
  have there : m'.store.array m.store.arrays.size = fresh := by
    show ((m.store.arrays.push fresh)[m.store.arrays.size]?).getD default = fresh
    rw [Array.getElem?_push_size]
    rfl
  refine ⟨m.store.arrays.size, ts, m', ?_, there, ?_, ?_⟩
  · rw [call_split sleep hands]
    rfl
  · rw [call_join sleep hands' (by rw [there]; rfl), joined]
  · intro some t mem
    have pieces : t ∈ s.splitOn u := by
      unfold ts at mem
      split at mem
      · cases mem
      · exact mem
    rw [call_contains, Text.notIn_splitOn ?_ pieces]
    intro empty
    exact some (congrArg Text.mk empty)

/-- Two commas with nothing between them and one at the end, split by default and joined by a comma that is given. -/
theorem split_joins_commas :
    let sleep : Nat → Exec Unit := fun _ => pure ()
    let m := Machine.initial (Host.initial default default) 10 ""
    let s : Text := "ä,,b,"
    Separates [] "," ∧ Separates [.string ","] "," ∧
      ∃ (a : Nat) (ts : List Text) (m' : Machine), Builtin.call sleep "str.split" [.string s] m = .done (.array a) m' ∧
        (m'.store.array a).cells.toList = ts.map Value.string ∧
        Builtin.call sleep "str.join" [.array a, .string ","] m' = .done (.string s) m' ∧
        ∀ t ∈ ts, Builtin.call sleep "str.contains" [.string t, .string ","] m' = .done (.bool false) m' := by
  intro sleep m s
  have byDefault : Separates [] "," := .inl ⟨rfl, .inl rfl⟩
  have given : Separates [.string ","] "," := .inr rfl
  obtain ⟨a, ts, m', split, holds, joined, none⟩ := split_joins byDefault given sleep s m
  refine ⟨byDefault, given, a, ts, m', split, ?_, joined, none (by decide)⟩
  rw [holds]
  rfl

end StrOp

end ScriptEngine
