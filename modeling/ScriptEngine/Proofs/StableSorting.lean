import ScriptEngine.Proofs.SortedRuns
/-!
# Sorting is stable and overlooks no pair

Every step of a sorting improves the runs that there are: insertion puts a value into its place, and merging cuts two runs so that the
parts in the middle can be exchanged. Insertion compares a value with the last one that is there, and merging looks for its cut by
halving, which compares at least one value of the one run with one of the other. So all values are of one class when no comparison
has failed.
-/

namespace ScriptEngine

namespace Sorting

variable {s : Store} {asc : Bool} {cls : OrderClass} {P Q : Prop} {a b c d : List Value} {v : Value}

/-! ### Insertion -/

/-- A value is put in front of the values that it comes before, as far as those go. The values are given latest first. -/
theorem gives_insert (s : Store) (asc : Bool) (v : Value) (ws : List Value) :
    ∃ after before P, ws = after ++ before ∧ Gives (Sorting.insert (Sorting.before s asc) v ws) (after ++ v :: before) P ∧
      (∀ w ∈ after, s.comesBefore asc v w = true) ∧ (∀ w ∈ before.head?, s.comesBefore asc v w = false) ∧
      (P → ∀ w ∈ ws.head?, v.SameClass w) ∧ ((∀ w ∈ ws, v.SameClass w) → P) := by
  induction ws with
  | nil => exact ⟨[], [], True, rfl, gives_pure _, by simp, by simp, by simp, by simp⟩
  | cons w ws ih =>
    rw [Sorting.insert]
    cases less : s.comesBefore asc v w with
    | false =>
      refine ⟨[], w :: ws, _, rfl, (gives_before s asc v w).bind (b := v :: w :: ws) (Q := True) ?_, by simp, ?_, ?_, ?_⟩
      · rw [less]
        exact gives_pure _
      · simpa using less
      · simp
      · simp +contextual
    | true =>
      rcases ih with ⟨after, before, P, rfl, gives, first, next, one, each⟩
      refine ⟨w :: after, before, v.SameClass w ∧ P, rfl, ?_, ?_, next, ?_, ?_⟩
      · refine (gives_before s asc v w).bind ?_
        rw [less]
        exact gives.map _
      · simpa [less] using first
      · simp +contextual
      · intro same
        exact ⟨same w (by simp), each fun x mem => same x (List.mem_cons_of_mem _ mem)⟩

/-- What is given latest first is in order when it is read backwards. -/
theorem inOrder_reverse_append {before : List Value} (ranks : ∀ w ∈ v :: before, s.Ranks cls w) (ordered : s.InOrder asc before.reverse)
    (next : ∀ w ∈ before.head?, s.comesBefore asc v w = false) : ∀ w ∈ before, s.NotAfter asc w v := by
  cases before with
  | nil => simp
  | cons w ws =>
    have first : s.NotAfter asc w v := next w rfl
    have rest : ∀ x ∈ ws, s.NotAfter asc x w := by
      have behind := (List.pairwise_append.mp (List.reverse_cons ▸ ordered)).2.2
      intro x hx
      exact behind x (List.mem_reverse.mpr hx) w (List.mem_singleton_self w)
    intro x hx
    rcases List.mem_cons.mp hx with rfl | hx
    · exact first
    · exact Store.notAfter_trans (ranks x (by simp [hx])) (ranks w (by simp)) (ranks v (by simp)) (rest x hx) first

theorem sorts_insert (s : Store) (asc : Bool) (v : Value) (ws : List Value) :
    Sorts s asc (Sorting.insert (before s asc) v ws) [ws.reverse, [v]] fun sorted => [sorted.reverse] := by
  rcases gives_insert s asc v ws with ⟨after, front, P, rfl, gives, first, next, one, each⟩
  refine ⟨_, P, gives, ?_⟩
  have cut : Cut s asc front.reverse after.reverse [v] [] P := by
    constructor
    · intro clean alike single
      rw [← List.reverse_append] at alike ⊢
      cases whole : after ++ front with
      | nil => exact single
      | cons w ws =>
        have same : v.SameClass w := one clean w (by rw [whole]; rfl)
        rw [whole] at alike
        exact alike_append alike single (List.mem_reverse.mpr (List.mem_cons_self ..)) (List.mem_singleton_self v) same.symm
    · intro cls ranks ordered _
      refine ⟨each ?_, ?_, by simp⟩
      · intro w mem
        exact (ranks v (by simp)).sameClass (ranks w (by simp at mem ⊢; tauto))
      · simpa using first
  have improves := cut.improves (l := front.reverse ++ [v]) (r := after.reverse) (Q := True) (.refl _) (by simp) ?_
  · have same : (after ++ v :: front).reverse = front.reverse ++ [v] ++ after.reverse := by simp
    show Improves s asc [(after ++ front).reverse, [v]] [(after ++ v :: front).reverse] P
    rw [same, List.reverse_append]
    simpa using improves
  · intro cls ranks ordered _
    have ordered := List.pairwise_append.mp ordered
    refine ⟨trivial, ?_, ordered.2.1, by simp⟩
    refine List.pairwise_append.mpr ⟨ordered.1, List.pairwise_singleton .., ?_⟩
    have behind := inOrder_reverse_append (v := v) (fun w mem => ranks w (by simp at mem ⊢; tauto)) ordered.1 next
    simpa using behind

/-- A run that is sorted by insertion: its values are put one by one to those that are in order already. -/
theorem sorts_insertAll (s : Store) (asc : Bool) (sorted vs : List Value) :
    Sorts s asc (insertAll (before s asc) sorted vs) (sorted.reverse :: vs.map ([·])) fun run => [run] := by
  induction vs generalizing sorted with
  | nil => exact sorts_pure rfl
  | cons v vs ih =>
    rw [insertAll]
    refine Sorts.bind ((sorts_insert s asc v sorted).within [] (vs.map ([·]))) ?_
    intro sorted
    exact ih sorted

/-! ### Halving -/

/-- What is found by halving the numbers from `lo` to `hi`, when those that a test accepts come last. -/
structure Finds (accepts : Nat → Bool) (fit : Nat → Prop) (lo hi k : Nat) (clean : Prop) : Prop where
  low : lo ≤ k
  high : k ≤ hi
  /-- Some number is tested. -/
  tested : lo < hi → clean → ∃ i, lo ≤ i ∧ i < hi ∧ fit i
  all : (∀ i, lo ≤ i → i < hi → fit i) → clean
  cut : (∀ i j, lo ≤ i → i ≤ j → j < hi → accepts i = true → accepts j = true) →
    ∀ i, lo ≤ i → i < hi → (accepts i = true ↔ k ≤ i)

theorem finds_searchFirst {test : Nat → Sorting Bool} {accepts : Nat → Bool} {fit : Nat → Prop}
    (gives : ∀ i, Gives (test i) (accepts i) (fit i)) (fuel lo hi : Nat) (enough : hi ≤ lo + fuel) (le : lo ≤ hi) :
    ∃ k P, Gives (searchFirst test fuel lo hi) k P ∧ Finds accepts fit lo hi k P := by
  induction fuel generalizing lo hi with
  | zero =>
    obtain rfl : lo = hi := by omega
    exact ⟨lo, True, gives_pure lo, ⟨le, le, by simp, by simp, fun _ i low high => by omega⟩⟩
  | succ fuel ih =>
    rw [searchFirst]
    by_cases more : lo < hi
    · rw [if_pos more]
      dsimp only
      have low : lo ≤ (lo + hi) / 2 := by omega
      have high : (lo + hi) / 2 < hi := by omega
      cases taken : accepts ((lo + hi) / 2) with
      | true =>
        -- the first that is accepted is the middle one or comes before it
        rcases ih lo ((lo + hi) / 2) (by omega) low with ⟨k, P, found, finds⟩
        refine ⟨k, _, (gives _).bind (by rw [taken]; exact found), finds.low, by have := finds.high; omega, ?_, ?_, ?_⟩
        · intro _ clean
          exact ⟨_, low, high, clean.1⟩
        · intro fits
          exact ⟨fits _ low high, finds.all fun i hi _ => fits i hi (by omega)⟩
        · intro mono i hlo hhi
          by_cases here : i < (lo + hi) / 2
          · exact finds.cut (fun i j hi hij hj => mono i j hi hij (by omega)) i hlo here
          · have := finds.high
            exact iff_of_true (mono _ i low (by omega) hhi taken) (by omega)
      | false =>
        rcases ih ((lo + hi) / 2 + 1) hi (by omega) (by omega) with ⟨k, P, found, finds⟩
        refine ⟨k, _, (gives _).bind (by rw [taken]; exact found), by have := finds.low; omega, finds.high, ?_, ?_, ?_⟩
        · intro _ clean
          exact ⟨_, low, high, clean.1⟩
        · intro fits
          exact ⟨fits _ low high, finds.all fun i hlo hi => fits i (by omega) hi⟩
        · intro mono i hlo hhi
          by_cases here : (lo + hi) / 2 < i
          · exact finds.cut (fun i j hi hij hj => mono i j (by omega) hij hj) i here hhi
          · have := finds.low
            refine iff_of_false ?_ (by omega)
            intro accepted
            rw [mono i _ hlo (by omega) high accepted] at taken
            cases taken
    · rw [if_neg more]
      obtain rfl : lo = hi := by omega
      exact ⟨lo, True, gives_pure lo, ⟨le, le, by simp, by simp, fun _ i low high => by omega⟩⟩

/-! ### Merging -/

section Merging

variable {all xs ys : Array Value} {p q u : List Value} {i j k n : Nat}

/-- The value at a place. -/
def item (all : Array Value) (i : Nat) : Value := (all[i]?).getD .null

/-- The part of a table that lies between two other parts. -/
theorem extract_part (whole : all.toList = p ++ q ++ u) (first : p.length = i) (last : i + q.length = j) :
    (all.extract i j).toList = q := by
  subst first last
  rw [Array.toList_extract, whole, List.extract_eq_take_drop, List.append_assoc, List.drop_left, Nat.add_sub_cancel_left, List.take_left]

section Part

variable (whole : all.toList = p ++ q ++ u) (first : p.length = k)

include whole first

theorem item_part (low : k ≤ i) (high : i < k + q.length) : q[i - k]? = some (item all i) := by
  subst first
  have inside : i - p.length < q.length := by omega
  rw [item, ← Array.getElem?_toList, whole, List.append_assoc, List.getElem?_append_right low, List.getElem?_append_left inside,
    List.getElem?_eq_getElem inside, Option.getD_some]

theorem item_mem (low : k ≤ i) (high : i < k + q.length) : item all i ∈ q := List.mem_of_getElem? (item_part whole first low high)

theorem mem_part (mem : v ∈ q) : ∃ i, k ≤ i ∧ i < k + q.length ∧ item all i = v := by
  rcases List.mem_iff_getElem?.mp mem with ⟨j, here⟩
  have inside : j < q.length := (List.getElem?_eq_some_iff.mp here).1
  have there := item_part (i := k + j) whole first (by omega) (by omega)
  rw [Nat.add_sub_cancel_left, here] at there
  exact ⟨k + j, by omega, by omega, (Option.some_inj.mp there).symm⟩

/-- In a part that is in order, what comes later may stand behind. -/
theorem notAfter_item (ranks : ∀ v ∈ q, s.Ranks cls v) (ordered : s.InOrder asc q) (low : k ≤ i) (le : i ≤ j)
    (high : j < k + q.length) : s.NotAfter asc (item all i) (item all j) := by
  by_cases same : i = j
  · subst same
    exact Store.notAfter_refl (ranks _ (item_mem whole first low high))
  · rcases List.getElem?_eq_some_iff.mp (item_part whole first low (by omega)) with ⟨hi, itemI⟩
    rcases List.getElem?_eq_some_iff.mp (item_part whole first (by omega) high) with ⟨hj, itemJ⟩
    rw [← itemI, ← itemJ]
    exact List.pairwise_iff_getElem.mp ordered _ _ hi hj (by omega)

end Part

/-- Nothing has to be done for runs of which one is empty. -/
theorem improves_empty (empty : p = [] ∨ q = []) : Improves s asc [p, q] [p ++ q] True := by
  have whole : p ++ q = p ∨ p ++ q = q := by
    rcases empty with rfl | rfl
    · exact .inr rfl
    · exact .inl (List.append_nil p)
  refine ⟨by simp, ?_, ?_⟩
  · intro _ alike r mem
    rw [List.mem_singleton.mp mem]
    rcases whole with same | same
    · rw [same]
      exact alike p (by simp)
    · rw [same]
      exact alike q (by simp)
  · intro cls _ ordered
    refine ⟨trivial, ?_, by simp⟩
    intro r mem
    rw [List.mem_singleton.mp mem]
    rcases whole with same | same
    · rw [same]
      exact ordered p (by simp)
    · rw [same]
      exact ordered q (by simp)

/-- A single value is put into its place among those behind it. -/
theorem sorts_first {x : Value} {l : List Value} (whole : all.toList = x :: l) (size : n = l.length + 1) (more : l ≠ []) :
    Sorts s asc (do
      let i ← searchFirst (fun h => do pure (!(← before s asc (item all h) (item all 0)))) n 1 n
      pure ((all.extract 1 i).push (item all 0) ++ all.extract i n) : Sorting (Array Value)) [[x], l] fun zs => [zs.toList] := by
  have first : item all 0 = x := by
    rw [item, ← Array.getElem?_toList, whole]
    rfl
  have one : [x].length = 1 := rfl
  have behind : all.toList = [x] ++ l ++ [] := by rw [whole, List.append_nil, List.singleton_append]
  rw [first]
  have some := List.length_pos_iff.mpr more
  rcases finds_searchFirst (fun h => (gives_before s asc (item all h) x).map not) n 1 n (by omega)
    (by omega) with ⟨k, P, gives, finds⟩
  refine ⟨_, P, gives.map _, ?_⟩
  have low := finds.low
  have high := finds.high
  have halves : l = l.take (k - 1) ++ l.drop (k - 1) := (List.take_append_drop ..).symm
  have lengthC : 1 + (l.take (k - 1)).length = k := by rw [List.length_take]; omega
  have wholeC : all.toList = [x] ++ l.take (k - 1) ++ l.drop (k - 1) := by rw [List.append_assoc, ← halves, whole]; rfl
  have wholeD : all.toList = ([x] ++ l.take (k - 1)) ++ l.drop (k - 1) ++ [] := by rw [wholeC, List.append_nil]
  generalize l.take (k - 1) = c at *
  generalize l.drop (k - 1) = d at *
  subst halves
  have lengthD : ([x] ++ c).length = k := by rw [← lengthC, List.length_append]; rfl
  have sizeD : k + d.length = n := by rw [size, ← lengthC, List.length_append]; omega
  have size : 1 + (c ++ d).length = n := by omega
  -- what is found depends on the place alone, when the values behind are in order
  have found {cls : OrderClass} (ranks : ∀ v ∈ [] ++ [x] ++ (c ++ d), s.Ranks cls v) (ordered : s.InOrder asc (c ++ d)) {h : Nat} (lo : 1 ≤ h)
      (hi : h < n) : s.comesBefore asc (item all h) x = false ↔ k ≤ h := by
    rw [← finds.cut ?_ h lo hi, Bool.not_eq_true']
    intro i j lo le hi after
    rw [Bool.not_eq_true'] at after ⊢
    have member {g : Nat} (lo : 1 ≤ g) (hi : g < n) : s.Ranks cls (item all g) :=
      ranks _ (List.mem_append_right _ (item_mem behind one lo (by omega)))
    have later := notAfter_item behind one (fun v mem => ranks v (List.mem_append_right _ mem)) ordered lo le (by omega)
    exact Store.notAfter_trans (ranks x (by simp)) (member lo (by omega)) (member (by omega) hi) after later
  have cut : Cut s asc [] [x] c d P := by
    constructor
    · intro clean alike alike'
      rcases finds.tested (by omega) clean with ⟨h, lo, hi, same⟩
      exact alike_append alike alike' (List.mem_singleton_self x) (item_mem behind one lo (by omega)) same.symm
    · intro cls ranks _ ordered
      refine ⟨finds.all ?_, ?_, by simp⟩
      · intro h lo hi
        exact (ranks _ (List.mem_append_right _ (item_mem behind one lo (by omega)))).sameClass (ranks x (by simp))
      · intro y hy z hz
        rcases mem_part wholeC one hz with ⟨h, lo, hi, rfl⟩
        rw [List.mem_singleton.mp hy, ← Bool.not_eq_false, found ranks ordered lo (by omega)]
        omega
  have improves := cut.improves (l := c) (r := x :: d) (Q := True) (by simp) (by simp) ?_
  · have result : ((all.extract 1 k).push x ++ all.extract k n).toList = c ++ x :: d := by
      rw [Array.toList_append, Array.toList_push, extract_part wholeC one lengthC, extract_part wholeD lengthD sizeD, List.append_assoc,
        List.singleton_append]
    show Improves s asc [[x], c ++ d] [((all.extract 1 k).push x ++ all.extract k n).toList] P
    rw [result]
    simpa using improves
  · intro cls ranks _ ordered
    have parts := List.pairwise_append.mp ordered
    refine ⟨trivial, parts.1, List.pairwise_cons.mpr ⟨?_, parts.2.1⟩, by simp⟩
    intro z hz
    rcases mem_part wholeD lengthD hz with ⟨h, lo, hi, rfl⟩
    exact (found ranks ordered (by omega) (by omega)).mpr lo

/-- A search that compares values `a` of one run with values of the other that stand the further in front the later `a` stands. It
finds where the values of the other run come before those of the first, and some value is compared with one of the other run. -/
theorem finds_across (s : Store) (asc : Bool) {l l' : List Value} (partner : Nat → Nat) (lo hi : Nat) (whole : all.toList = l ++ l') (size : n = l.length + l'.length)
    (within : hi ≤ l.length) (less : lo < hi) (across : ∀ h, lo ≤ h → h < hi → l.length ≤ partner h ∧ partner h < n)
    (antitone : ∀ h h', lo ≤ h → h ≤ h' → h' < hi → partner h' ≤ partner h) :
    ∃ k P, Gives (searchFirst (fun h => before s asc (item all (partner h)) (item all h)) n lo hi) k P ∧ lo ≤ k ∧ k ≤ hi ∧
      (P → Alike l → Alike l' → Alike (l ++ l')) ∧
      ∀ cls, (∀ v ∈ l ++ l', s.Ranks cls v) → s.InOrder asc l → s.InOrder asc l' →
        P ∧ ∀ h, lo ≤ h → h < hi → (s.comesBefore asc (item all (partner h)) (item all h) = true ↔ k ≤ h) := by
  have front : all.toList = [] ++ l ++ l' := whole
  have behind : all.toList = l ++ l' ++ [] := by rw [whole, List.append_nil]
  have here {h : Nat} (low : lo ≤ h) (high : h < hi) : item all h ∈ l := item_mem front List.length_nil (Nat.zero_le _) (by omega)
  have there {h : Nat} (low : lo ≤ h) (high : h < hi) : item all (partner h) ∈ l' := by
    have := across h low high
    exact item_mem behind rfl this.1 (by omega)
  rcases finds_searchFirst (fun h => gives_before s asc (item all (partner h)) (item all h)) n lo hi
    (by omega) (by omega) with ⟨k, P, gives, finds⟩
  refine ⟨k, P, gives, finds.low, finds.high, ?_, ?_⟩
  · intro clean alike alike'
    rcases finds.tested less clean with ⟨h, low, high, same⟩
    exact alike_append alike alike' (here low high) (there low high) same.symm
  · intro cls ranks ordered ordered'
    have ranksHere {h : Nat} (low : lo ≤ h) (high : h < hi) := ranks _ (List.mem_append_left _ (here low high))
    have ranksThere {h : Nat} (low : lo ≤ h) (high : h < hi) := ranks _ (List.mem_append_right _ (there low high))
    refine ⟨finds.all fun h low high => (ranksThere low high).sameClass (ranksHere low high), finds.cut ?_⟩
    intro i j low le high before
    by_contra after
    rw [Bool.not_eq_true] at after
    -- the four values stand in a circle: those of the first run, those of the other, and back
    have := across i low (by omega)
    have := across j (by omega) high
    have first := notAfter_item front List.length_nil (fun v mem => ranks v (List.mem_append_left _ mem)) ordered (Nat.zero_le _) le (by omega)
    have second := notAfter_item behind rfl (fun v mem => ranks v (List.mem_append_right _ mem)) ordered' (i := partner j) (j := partner i)
      (by omega) (antitone i j low le high) (by omega)
    have third := Store.notAfter_trans (ranksHere low (by omega)) (ranksHere (by omega) high) (ranksThere (by omega) high) first after
    have fourth := Store.notAfter_trans (ranksHere low (by omega)) (ranksThere (by omega) high) (ranksThere low (by omega)) third second
    rw [Store.NotAfter, before] at fourth
    cases fourth

/-- A single value is put into its place among those in front of it. -/
theorem sorts_last {y : Value} {l : List Value} {m : Nat} (whole : all.toList = l ++ [y]) (width : m = l.length) (size : n = l.length + 1)
    (more : l ≠ []) :
    Sorts s asc (do
      let i ← searchFirst (fun h => before s asc (item all m) (item all h)) n 0 m
      pure ((all.extract 0 i).push (item all m) ++ all.extract i m) : Sorting (Array Value)) [l, [y]] fun zs => [zs.toList] := by
  have some := List.length_pos_iff.mpr more
  have last : item all m = y := by
    rw [item, ← Array.getElem?_toList, whole, width, List.getElem?_concat_length]
    rfl
  rcases finds_across s asc (fun _ => m) 0 m whole size (by omega) (by omega)
    (fun _ _ _ => by omega) (fun _ _ _ _ _ => Nat.le_refl _) with ⟨k, P, gives, -, high, alike, sound⟩
  refine ⟨_, P, gives.map _, ?_⟩
  rw [last] at sound ⊢
  have halves : l = l.take k ++ l.drop k := (List.take_append_drop ..).symm
  have lengthA : (l.take k).length = k := by rw [List.length_take]; omega
  have lengthB : k + (l.drop k).length = m := by rw [List.length_drop]; omega
  have wholeA : all.toList = [] ++ l.take k ++ (l.drop k ++ [y]) := by rw [whole, List.nil_append, ← List.append_assoc, ← halves]
  have wholeB : all.toList = l.take k ++ l.drop k ++ [y] := by rw [whole, ← halves]
  generalize l.take k = a at *
  generalize l.drop k = b at *
  subst halves
  have cut : Cut s asc a b [y] [] P := by
    constructor
    · intro clean alike' single
      exact alike clean alike' (List.pairwise_singleton ..)
    · intro cls ranks ordered _
      rcases sound cls ranks ordered (List.pairwise_singleton ..) with ⟨clean, found⟩
      refine ⟨clean, ?_, by simp⟩
      intro x hx z hz
      rcases mem_part wholeB lengthA hx with ⟨h, lo, hi, rfl⟩
      rw [List.mem_singleton.mp hz]
      exact (found h (Nat.zero_le _) (by omega)).mpr lo
  have improves := cut.improves (l := a ++ [y]) (r := b) (Q := True) (by simp) (by simp) ?_
  · have result : ((all.extract 0 k).push y ++ all.extract k m).toList = a ++ [y] ++ b := by
      rw [Array.toList_append, Array.toList_push, extract_part wholeA List.length_nil (by omega), extract_part wholeB lengthA lengthB]
    show Improves s asc [a ++ b, [y]] [((all.extract 0 k).push y ++ all.extract k m).toList] P
    rw [result]
    simpa using improves
  · intro cls ranks ordered _
    have found := (sound cls ranks ordered (List.pairwise_singleton ..)).2
    have parts := List.pairwise_append.mp ordered
    refine ⟨trivial, List.pairwise_append.mpr ⟨parts.1, List.pairwise_singleton .., ?_⟩, parts.2.1, by simp⟩
    intro x hx z hz
    rcases mem_part wholeA List.length_nil hx with ⟨h, lo, hi, rfl⟩
    rw [List.mem_singleton.mp hz, Store.NotAfter, ← Bool.not_eq_true, found h (Nat.zero_le _) (by omega)]
    omega

/-- Merging goes on with the parts that lie between three places, unless there is nothing to merge. -/
def mergeParts (less : Value → Value → Sorting Bool) (fuel : Nat) (all : Array Value) (i j k : Nat) : Sorting (Array Value) :=
  if i < j && j < k then merge less fuel (all.extract i j) (all.extract j k) else pure (all.extract i k)

/-- The parts between three places are exchanged. -/
def exchanged (all : Array Value) (start m stop n : Nat) : Array Value :=
  if start < m && m < stop then all.extract 0 start ++ all.extract m stop ++ all.extract start m ++ all.extract stop n else all

/-- How longer runs are merged. -/
theorem merge_halves {less : Value → Value → Sorting Bool} {fuel m : Nat} (hm : xs.size = m) (hn : m + ys.size = n) (one : 1 < m)
    (one' : 1 < ys.size) : merge less (fuel + 1) xs ys = (do
      let start ← searchFirst (fun c => less (item (xs ++ ys) (n / 2 + m - 1 - c)) (item (xs ++ ys) c)) n
        (if m > n / 2 then n / 2 + m - n else 0) (if m > n / 2 then n / 2 else m)
      let all := exchanged (xs ++ ys) start m (n / 2 + m - start) n
      let left ← mergeParts less fuel all 0 start (n / 2)
      let right ← mergeParts less fuel all (n / 2) (n / 2 + m - start) n
      pure (left ++ right)) := by
  have bounds : (if m > n / 2 then (n / 2 + m - n, n / 2) else (0, m)) =
      (if m > n / 2 then n / 2 + m - n else 0, if m > n / 2 then n / 2 else m) := by split <;> rfl
  rw [merge]
  dsimp only
  rw [hm, hn, if_neg (by rw [Bool.or_eq_true, decide_eq_true_eq, decide_eq_true_eq]; omega), if_neg (by omega), if_neg (by omega), bounds]
  refine bind_congr fun start => ?_
  generalize whole : exchanged (xs ++ ys) start m (n / 2 + m - start) n = all
  rw [exchanged] at whole
  rw [whole]
  unfold mergeParts
  split
  · refine bind_congr fun left => ?_
    split <;> rfl
  · refine bind_congr fun left => ?_
    split <;> rfl

theorem toList_exchanged {m stop : Nat} (whole : all.toList = a ++ b ++ (c ++ d)) (ha : a.length = i) (hb : i + b.length = m)
    (hc : m + c.length = stop) (hd : stop + d.length = n) : (exchanged all i m stop n).toList = a ++ c ++ (b ++ d) := by
  unfold exchanged
  by_cases both : i < m ∧ m < stop
  · have wholeA : all.toList = [] ++ a ++ (b ++ (c ++ d)) := by simp [whole]
    have wholeC : all.toList = (a ++ b) ++ c ++ d := by simp [whole]
    have wholeD : all.toList = (a ++ b ++ c) ++ d ++ [] := by simp [whole]
    rw [if_pos (by simpa using both)]
    simp only [Array.toList_append]
    rw [extract_part wholeA List.length_nil (by omega), extract_part whole ha hb, extract_part wholeC (by rw [List.length_append]; omega) hc,
      extract_part wholeD (by simp only [List.length_append]; omega) hd]
    simp only [List.append_assoc]
  · rw [if_neg (by simpa using both), whole]
    by_cases empty : i < m
    · obtain rfl : c = [] := List.length_eq_zero_iff.mp (by omega)
      simp only [List.append_assoc, List.nil_append]
    · obtain rfl : b = [] := List.length_eq_zero_iff.mp (by omega)
      simp only [List.append_assoc, List.nil_append]

/-- Merging improves the two runs, if that is known for less fuel. -/
theorem sorts_mergeParts {fuel : Nat} (ih : ∀ xs ys : Array Value, xs.size + ys.size ≤ fuel →
      Sorts s asc (merge (before s asc) fuel xs ys) [xs.toList, ys.toList] fun zs => [zs.toList])
    (whole : all.toList = p ++ (a ++ c) ++ u) (first : p.length = i) (middle : i + a.length = j) (last : j + c.length = k)
    (enough : k ≤ i + fuel) : Sorts s asc (mergeParts (before s asc) fuel all i j k) [a, c] fun zs => [zs.toList] := by
  have partA : (all.extract i j).toList = a := extract_part (u := c ++ u) (by simp [whole]) first middle
  have partC : (all.extract j k).toList = c := extract_part (p := p ++ a) (u := u) (by simp [whole]) (by simp; omega) last
  unfold mergeParts
  by_cases both : i < j ∧ j < k
  · rw [if_pos (by simpa using both)]
    have merged := ih (all.extract i j) (all.extract j k) (by rw [← Array.length_toList, ← Array.length_toList, partA, partC]; omega)
    rwa [partA, partC] at merged
  · rw [if_neg (by simpa using both)]
    have empty : a = [] ∨ c = [] := by
      rw [← List.length_eq_zero_iff, ← List.length_eq_zero_iff]
      omega
    refine ⟨_, True, gives_pure _, ?_⟩
    show Improves s asc [a, c] [(all.extract i k).toList] True
    rw [extract_part whole first (by rw [List.length_append]; omega)]
    exact improves_empty empty

/-- Two runs of `m` and `n - m` values are cut where the search from `lo` to `hi` ends. It compares values that stand at the same
distance from either side of a place that `half + m` counts twice. -/
theorem cut_found {half lo hi m n start stop : Nat} {P : Prop} (whole : all.toList = a ++ b ++ (c ++ d)) (lengthA : a.length = start)
    (lengthB : start + b.length = m) (lengthC : m + c.length = stop) (lengthD : stop + d.length = n) (mirrored : start + stop = half + m)
    (low : lo ≤ start) (first : 0 < lo → lo + n = half + m) (last : hi = half ∨ hi = m)
    (alike : P → Alike (a ++ b) → Alike (c ++ d) → Alike (a ++ b ++ (c ++ d)))
    (sound : ∀ cls, (∀ v ∈ a ++ b ++ (c ++ d), s.Ranks cls v) → s.InOrder asc (a ++ b) → s.InOrder asc (c ++ d) → P ∧
      ∀ h, lo ≤ h → h < hi → (s.comesBefore asc (item all (half + m - 1 - h)) (item all h) = true ↔ start ≤ h)) : Cut s asc a b c d P := by
  have lengthAB : (a ++ b).length = m := by rw [List.length_append, lengthA, lengthB]
  have lengthABC : (a ++ b ++ c).length = stop := by rw [List.length_append, lengthAB, lengthC]
  have lengthCD : m + (c ++ d).length = n := by rw [List.length_append, ← Nat.add_assoc, lengthC, lengthD]
  have front : all.toList = [] ++ (a ++ b) ++ (c ++ d) := whole
  have behind : all.toList = (a ++ b) ++ (c ++ d) ++ [] := by rw [whole, List.append_nil]
  have wholeA : all.toList = [] ++ a ++ (b ++ (c ++ d)) := by simp [whole]
  have wholeC : all.toList = (a ++ b) ++ c ++ d := by simp [whole]
  have wholeD : all.toList = (a ++ b ++ c) ++ d ++ [] := by simp [whole]
  refine ⟨alike, fun cls ranks ordered ordered' => ?_⟩
  obtain ⟨clean, found⟩ := sound cls ranks ordered ordered'
  have ranksX {h : Nat} (less : h < m) : s.Ranks cls (item all h) :=
    ranks _ (List.mem_append_left _ (item_mem front List.length_nil (Nat.zero_le _) (by rwa [lengthAB, Nat.zero_add])))
  have ranksY {h : Nat} (from' : m ≤ h) (less : h < n) : s.Ranks cls (item all h) :=
    ranks _ (List.mem_append_right _ (item_mem behind lengthAB from' (by rwa [lengthCD])))
  have inX {i j : Nat} (le : i ≤ j) (less : j < m) : s.NotAfter asc (item all i) (item all j) :=
    notAfter_item front List.length_nil (fun v mem => ranks v (List.mem_append_left _ mem)) ordered (Nat.zero_le _) le
      (by rwa [lengthAB, Nat.zero_add])
  have inY {i j : Nat} (from' : m ≤ i) (le : i ≤ j) (less : j < n) : s.NotAfter asc (item all i) (item all j) :=
    notAfter_item behind lengthAB (fun v mem => ranks v (List.mem_append_right _ mem)) ordered' from' le (by rwa [lengthCD])
  refine ⟨clean, fun x hx y hy => ?_, fun x hx z hz => ?_⟩
  · -- the first of `b` comes after the last of `c`
    obtain ⟨h, hlo, hhi, rfl⟩ := mem_part whole lengthA hx
    obtain ⟨g, glo, ghi, rfl⟩ := mem_part wholeC lengthAB hy
    rw [lengthB] at hhi
    rw [lengthC] at ghi
    clear * - mirrored low last lengthD found inX inY ranksX ranksY hlo hhi glo ghi
    have place : half + m - 1 - start = stop - 1 := by omega
    have moved := (found start low (by omega)).mpr (Nat.le_refl _)
    rw [place] at moved
    by_contra after
    rw [Bool.not_eq_true] at after
    have inside : g < n := by omega
    have end' : stop - 1 < n := by omega
    have far : m ≤ stop - 1 := by omega
    have begin' : start < m := by omega
    have first := Store.notAfter_trans (ranksX begin') (ranksX hhi) (ranksY glo inside) (inX hlo hhi) after
    have second := Store.notAfter_trans (ranksX begin') (ranksY glo inside) (ranksY far end') first (inY glo (by omega) end')
    rw [Store.NotAfter, moved] at second
    cases second
  · -- the last of `a` does not come after the first of `d`
    obtain ⟨h, -, hhi, rfl⟩ := mem_part wholeA List.length_nil hx
    obtain ⟨g, glo, ghi, rfl⟩ := mem_part wholeD lengthABC hz
    rw [lengthA, Nat.zero_add] at hhi
    rw [lengthD] at ghi
    have behindB : start ≤ m := by omega
    have behindC : m ≤ stop := by omega
    clear * - mirrored low first last found inX inY ranksX ranksY hhi glo ghi behindB behindC
    have place : half + m - 1 - (start - 1) = stop := by omega
    have stays : s.NotAfter asc (item all (start - 1)) (item all stop) := by
      rw [Store.NotAfter, ← Bool.not_eq_true, ← place, found (start - 1) (by omega) (by omega)]
      omega
    have begin' : start - 1 < m := by omega
    have inside : stop < n := by omega
    have far : m ≤ g := by omega
    have first := Store.notAfter_trans (ranksX (by omega)) (ranksX begin') (ranksY behindC inside) (inX (i := h) (by omega) begin') stays
    exact Store.notAfter_trans (ranksX (by omega)) (ranksY behindC inside) (ranksY far ghi) first (inY behindC glo ghi)

/-- Two runs of several values are cut, the parts in the middle are exchanged, and what is on either side is merged. -/
theorem sorts_halves {fuel : Nat} (ih : ∀ xs ys : Array Value, xs.size + ys.size ≤ fuel →
      Sorts s asc (merge (before s asc) fuel xs ys) [xs.toList, ys.toList] fun zs => [zs.toList])
    (one : 1 < xs.size) (one' : 1 < ys.size) (enough : xs.size + ys.size ≤ fuel + 1) :
    Sorts s asc (merge (before s asc) (fuel + 1) xs ys) [xs.toList, ys.toList] fun zs => [zs.toList] := by
  rw [merge_halves rfl rfl one one']
  have whole : (xs ++ ys).toList = xs.toList ++ ys.toList := Array.toList_append
  have lengthX : xs.toList.length = xs.size := Array.length_toList
  have lengthY : ys.toList.length = ys.size := Array.length_toList
  generalize xs ++ ys = all at *
  generalize xs.toList = l at *
  generalize ys.toList = l' at *
  generalize xs.size = m at *
  generalize size : m + ys.size = n at *
  have halved : 2 * (n / 2) ≤ n ∧ n < 2 * (n / 2) + 2 := by omega
  generalize n / 2 = half at *
  generalize lower : (if m > half then half + m - n else 0) = lo
  generalize upper : (if m > half then half else m) = hi
  have bounds : lo < hi ∧ hi ≤ m ∧ hi ≤ half ∧ half + m ≤ lo + n ∧ (0 < lo → lo + n = half + m) ∧ (hi = half ∨ hi = m) := by
    by_cases above : m > half
    · rw [if_pos above] at lower upper
      omega
    · rw [if_neg above] at lower upper
      omega
  obtain ⟨less, inside, inHalf, outside, first, last⟩ := bounds
  clear lower upper
  have sum : n = l.length + l'.length := by rw [lengthX, lengthY, size]
  obtain ⟨start, P, gives, low, high, alike, sound⟩ := finds_across s asc (fun c => half + m - 1 - c) lo hi whole sum
    (by rwa [lengthX]) less (fun _ _ _ => by omega) (fun _ _ _ _ _ => by omega)
  have lengthA : (l.take start).length = start := by rw [List.length_take]; omega
  have lengthB : start + (l.drop start).length = m := by rw [List.length_drop]; omega
  have lengthC : m + (l'.take (half - start)).length = half + m - start := by rw [List.length_take]; omega
  have lengthD : half + m - start + (l'.drop (half - start)).length = n := by rw [List.length_drop]; omega
  have cutX : l = l.take start ++ l.drop start := (List.take_append_drop ..).symm
  have cutY : l' = l'.take (half - start) ++ l'.drop (half - start) := (List.take_append_drop ..).symm
  generalize l.take start = a at *
  generalize l.drop start = b at *
  generalize l'.take (half - start) = c at *
  generalize l'.drop (half - start) = d at *
  subst cutX cutY
  have mirrored : start + (half + m - start) = half + m := by omega
  have cut : Cut s asc a b c d P := cut_found whole lengthA lengthB lengthC lengthD mirrored low first last alike sound
  have turned := toList_exchanged whole lengthA lengthB lengthC lengthD
  have halfway : start + c.length = half := by omega
  obtain ⟨left, Q, givesL, improvesL⟩ := sorts_mergeParts ih (u := b ++ d) (p := []) turned List.length_nil (Nat.zero_add _ |>.trans lengthA)
    halfway (by omega)
  obtain ⟨right, Q', givesR, improvesR⟩ := sorts_mergeParts ih (u := []) (turned.trans (List.append_nil _).symm)
    (by rw [List.length_append, lengthA, halfway]) (by omega) lengthD (by omega)
  refine ⟨left ++ right, _, gives.bind (givesL.bind (givesR.map _)), ?_⟩
  show Improves s asc [a ++ b, c ++ d] [(left ++ right).toList] _
  rw [Array.toList_append]
  exact cut.joins improvesL improvesR

/-- **Merging improves the two runs.** -/
theorem sorts_merge (s : Store) (asc : Bool) (fuel : Nat) (xs ys : Array Value) (enough : xs.size + ys.size ≤ fuel) :
    Sorts s asc (merge (before s asc) fuel xs ys) [xs.toList, ys.toList] fun zs => [zs.toList] := by
  have done {xs ys : Array Value} (empty : xs.toList = [] ∨ ys.toList = []) : Sorts s asc (pure (xs ++ ys)) [xs.toList, ys.toList] fun zs => [zs.toList] := by
    refine ⟨_, True, gives_pure _, ?_⟩
    show Improves s asc [xs.toList, ys.toList] [(xs ++ ys).toList] True
    rw [Array.toList_append]
    exact improves_empty empty
  induction fuel generalizing xs ys with
  | zero => exact done (.inl (List.length_eq_zero_iff.mp (by rw [Array.length_toList]; omega)))
  | succ fuel ih =>
    have whole : (xs ++ ys).toList = xs.toList ++ ys.toList := Array.toList_append
    by_cases empty : xs.size = 0 ∨ ys.size = 0
    · rw [merge, if_pos (by simpa using empty)]
      exact done (empty.imp List.length_eq_zero_iff.mp List.length_eq_zero_iff.mp)
    · have present : ¬(decide (xs.size = 0) || decide (ys.size = 0)) = true := by rwa [Bool.or_eq_true, decide_eq_true_eq, decide_eq_true_eq]
      by_cases one : xs.size = 1
      · rcases List.length_eq_one_iff.mp one with ⟨x, single⟩
        rw [single, List.singleton_append] at whole
        rw [merge, if_neg present]
        dsimp only
        rw [if_pos one, single, one]
        exact sorts_first whole (by rw [Array.length_toList]; omega) (List.length_pos_iff.mp (by rw [Array.length_toList]; omega))
      · by_cases one' : ys.size = 1
        · rcases List.length_eq_one_iff.mp one' with ⟨y, single⟩
          rw [single] at whole
          rw [merge, if_neg present]
          dsimp only
          rw [if_neg one, if_pos one', single]
          exact sorts_last whole rfl (by rw [one']; rfl) (List.length_pos_iff.mp (by rw [Array.length_toList]; omega))
        · exact sorts_halves ih (by omega) (by omega) enough

end Merging

/-! ### Whole sortings -/

/-- Neighbouring runs are merged in pairs, and half as many are left. -/
theorem gives_mergePairs (s : Store) (asc : Bool) (rs : List (Array Value)) :
    ∃ rs' P, Gives (mergePairs (before s asc) rs) rs' P ∧ Improves s asc (rs.map Array.toList) (rs'.map Array.toList) P ∧
      2 * rs'.length ≤ rs.length + 1 := by
  induction rs using mergePairs.induct with
  | case1 xs ys rest ih =>
    rcases ih with ⟨rest', Q, gives', improves', fewer⟩
    rcases sorts_merge s asc _ xs ys (Nat.le_refl _) with ⟨zs, P, gives, improves⟩
    refine ⟨zs :: rest', _, ?_, (improves.within [] (rest.map Array.toList)).trans (Q := Q) ?_, ?_⟩
    · rw [mergePairs]
      exact gives.bind (gives'.map (zs :: ·))
    · simpa using improves'.within [zs.toList] []
    · simp only [List.length_cons]
      omega
  | case2 rest short =>
    have few : rest.length ≤ 1 := by
      match rest, short with
      | [], _ => exact Nat.zero_le _
      | [_], _ => exact Nat.le_refl _
      | xs :: ys :: rest, short => exact absurd rfl (short xs ys rest)
    have same : mergePairs (before s asc) rest = pure rest := by
      rw [mergePairs]
      exact short
    exact ⟨rest, True, same ▸ gives_pure rest, .refl _, by omega⟩

theorem improves_blank : Improves s asc [] [[]] True := ⟨.refl _, by simp [Alike], by simp [Store.InOrder]⟩

/-- Merging goes on until one run is left. -/
theorem sorts_mergeAll (s : Store) (asc : Bool) (fuel : Nat) (rs : List (Array Value)) (enough : rs.length ≤ fuel) :
    Sorts s asc (mergeAll (before s asc) fuel rs) (rs.map Array.toList) fun zs => [zs.toList] := by
  induction fuel generalizing rs with
  | zero =>
    obtain rfl : rs = [] := List.length_eq_zero_iff.mp (by omega)
    exact ⟨#[], True, gives_pure _, improves_blank⟩
  | succ fuel ih =>
    match rs, enough with
    | [], _ => exact ⟨#[], True, gives_pure _, improves_blank⟩
    | [r], _ => exact ⟨r, True, gives_pure r, .refl _⟩
    | xs :: ys :: rest, enough =>
      rcases gives_mergePairs s asc (xs :: ys :: rest) with ⟨rs', P, gives, improves, fewer⟩
      simp only [List.length_cons] at enough fewer
      rcases ih rs' (by omega) with ⟨zs, Q, gives', improves'⟩
      exact ⟨zs, P ∧ Q, gives.bind gives', improves.trans improves'⟩

/-- The runs that a list is cut into make it up. -/
theorem flatten_runs (size fuel : Nat) (vs : List Value) : (runs size fuel vs).flatten = vs := by
  induction fuel generalizing vs with
  | zero => simp [runs]
  | succ fuel ih =>
    rw [runs]
    split
    · simp
    · rw [List.flatten_cons, ih, List.take_append_drop]

/-- Each run is sorted by itself. -/
theorem sorts_runs (s : Store) (asc : Bool) (rs : List (List Value)) :
    Sorts s asc (rs.mapM fun r => do pure (← insertAll (before s asc) [] r).toArray) (rs.flatten.map ([·])) fun rs' => rs'.map Array.toList := by
  induction rs with
  | nil => exact sorts_pure rfl
  | cons r rs ih =>
    rcases ih with ⟨rs', Q, gives', improves'⟩
    rcases sorts_insertAll s asc [] r with ⟨run, P, gives, improves⟩
    -- an empty run is there before the first value is put to it
    have begun : Improves s asc (r.map ([·])) ([] :: r.map ([·])) True := improves_blank.within [] (r.map ([·]))
    have sorted := begun.trans improves
    refine ⟨run.toArray :: rs', (True ∧ P) ∧ Q, ?_, ?_⟩
    · rw [List.mapM_cons]
      exact ((gives.map _).bind (gives'.map _)).congr (by rw [true_and])
    · have first := sorted.within [] (rs.flatten.map ([·]))
      have second := improves'.within [run] []
      simp only [List.append_nil, List.nil_append] at first second
      simpa using first.trans second

theorem flatten_singles (vs : List Value) : (vs.map ([·])).flatten = vs := by rw [← List.flatMap_def, List.flatMap_singleton']

/-- **Sorting improves the values, each of which is a run of its own at first.** -/
theorem sort_improves (s : Store) (asc : Bool) (vs : List Value) : ∃ sorted fault P, sort s asc vs = (sorted, fault) ∧ (fault = none ↔ P) ∧
    (∀ f, fault = some f → f.kind = .type) ∧ Improves s asc (vs.map ([·])) [sorted] P := by
  rcases sorts_runs s asc (runs 20 vs.length vs) with ⟨rs, P, gives, improves⟩
  rcases sorts_mergeAll s asc rs.length rs (Nat.le_refl _) with ⟨zs, Q, gives', improves'⟩
  rw [flatten_runs] at improves
  rcases gives.bind (g := fun rs => mergeAll (before s asc) rs.length rs) gives' with ⟨fault, run, clean, type⟩
  refine ⟨zs.toList, fault, P ∧ Q, ?_, clean, type, improves.trans improves'⟩
  have ended := run none
  rw [Option.none_or] at ended
  exact congrArg (fun r : Array Value × Option Fault => (r.1.toList, r.2)) ended

end Sorting

namespace Store

variable {s : Store} {asc : Bool} {vs sorted : List Value}

/-- Values that are arranged stably, without one that comes after one behind it. -/
structure Sorted (s : Store) (ascending : Bool) (vs sorted : List Value) : Prop where
  perm : sorted.Perm vs
  ordered : sorted.Pairwise fun v w => ∃ o, s.order v w = .ok o ∧ o ≠ if ascending then .gt else .lt
  /-- Values that tie are in the sequence in which they were. -/
  stable : ∀ v ∈ vs, sorted.filter (s.ties v) = vs.filter (s.ties v)

/-- Of several values that can all be compared, each is of the class of the first. -/
theorem ranks_of_alike {v w : Value} {rest : List Value} (alike : Sorting.Alike (v :: w :: rest))
    (narrow : ∀ u ∈ v :: w :: rest, s.kindOf u ≠ .double) : ∃ cls, ∀ u ∈ v :: w :: rest, s.Ranks cls u := by
  have first := (List.pairwise_cons.mp alike).1
  rcases first w (by simp) with ⟨cls, classV, -⟩
  refine ⟨cls, ?_⟩
  intro u mem
  refine ⟨?_, narrow u mem⟩
  rcases List.mem_cons.mp mem with rfl | mem
  · exact classV
  · rcases first u mem with ⟨cls', classV', classU⟩
    rw [classV] at classV'
    cases classV'
    exact classU

theorem sorted_of_improves {P : Prop} {cls : OrderClass} (improves : Sorting.Improves s asc (vs.map ([·])) [sorted] P)
    (ranks : ∀ v ∈ vs, s.Ranks cls v) : P ∧ s.Sorted asc vs sorted := by
  have flat := Sorting.flatten_singles vs
  have perm : sorted.Perm vs := by simpa [flat] using improves.perm
  rcases improves.ordered cls (by rwa [flat]) (by simp [InOrder]) with ⟨clean, ordered, stable⟩
  refine ⟨clean, perm, ?_, ?_⟩
  · refine (ordered sorted (by simp)).imp_of_mem ?_
    intro v w memV memW notAfter
    have ranksV := ranks v (perm.mem_iff.mp memV)
    have ranksW := ranks w (perm.mem_iff.mp memW)
    refine ⟨_, ranksV.order ranksW, ?_⟩
    rw [notAfter_iff ranksV ranksW] at notAfter
    cases asc with
    | true => exact notAfter
    | false => exact fun less => notAfter (Std.OrientedCmp.gt_iff_lt.mpr less)
  · intro v mem
    simpa [flat] using stable v (ranks v mem)

end Store

/-- **Sorting is stable and overlooks no pair.** Of values without doubles, a comparison fails if and only if two of them cannot be
compared, whatever their places, and that is a fault of type. If all can be compared, they are sorted. -/
theorem Sorting.sort_sorted {s : Store} {vs : List Value} (narrow : ∀ v ∈ vs, s.kindOf v ≠ .double) (asc : Bool) :
    (vs.Pairwise s.Comparable → ∃ sorted, sort s asc vs = (sorted, none) ∧ s.Sorted asc vs sorted) ∧
    (¬vs.Pairwise s.Comparable → ∃ sorted f, sort s asc vs = (sorted, some f) ∧ f.kind = .type) := by
  have same : vs.Pairwise s.Comparable ↔ Alike vs := List.Pairwise.iff fun _ _ => Store.comparable_iff
  rw [same]
  rcases sort_improves s asc vs with ⟨sorted, fault, P, run, clean, type, improves⟩
  constructor
  · intro alike
    match vs, narrow, alike, run, improves with
    | [], _, _, _, _ => exact ⟨[], rfl, .refl _, .nil, by simp⟩
    | [v], _, _, _, _ =>
      -- a single value is compared with none, so it may be of no class
      exact ⟨[v], rfl, .refl _, List.pairwise_singleton .., by simp⟩
    | v :: w :: rest, narrow, alike, run, improves =>
      rcases Store.ranks_of_alike alike narrow with ⟨cls, ranks⟩
      rcases Store.sorted_of_improves improves ranks with ⟨p, ordered⟩
      obtain rfl := clean.mpr p
      exact ⟨sorted, run, ordered⟩
  · intro apart
    cases fault with
    | some f => exact ⟨sorted, f, run, type f rfl⟩
    | none =>
      have alike : Alike sorted := improves.alike (clean.mp rfl) (by simp [Alike]) sorted (by simp)
      have perm : sorted.Perm vs := by simpa [flatten_singles] using improves.perm
      exact absurd ((perm.pairwise_iff fun h => h.symm).mp alike) apart

end ScriptEngine
