import ScriptEngine.Proofs.ArrayLists
/-!
# Arrays that change their length

An array that is made shorter and longer again holds blanks in its new places, whatever lay there before. Only bits are
different: the bytes that they lie in are kept, and a bit that was cut off is seen again when the array is long enough.
-/

namespace ScriptEngine

/-! ## Places behind the end -/

namespace Cells

variable {c c' : Cells} {k kind : Kind} {v : Value} {i j n : Nat}

/-- What a place holds, also one behind the end: a bit is as it was left, and every other place is blank. -/
def under (c : Cells) (k : Kind) (i : Nat) : Value :=
  match c with
  | bits octets _ => .bool (Bits.get octets i)
  | c => (c.get? i).getD k.blank

/-- Elements that lie as those of an array of a kind do. Bits that are not in use may be on. -/
def FitsFor : Cells → Kind → Prop
  | boxed _, k => k.isPacked = false
  | bytes _, k => k = .byte
  | bits octets n, k => k = .bitmap ∧ n ≤ 8 * octets.size
  | ints _, k => k = .intMap

theorem LaidFor.fits (laid : c.LaidFor k) : c.FitsFor k := by
  cases c with
  | bits octets n => exact ⟨laid.1, laid.2.1⟩
  | _ => exact laid

/-- Only bits can be left on behind the end. -/
theorem FitsFor.laid (fits : c.FitsFor k) (other : k ≠ .bitmap) : c.LaidFor k := by
  cases c with
  | bits octets n => exact absurd fits.1 other
  | _ => exact fits

theorem FitsFor.bits (fits : c.FitsFor .bitmap) : ∃ octets n, c = .bits octets n ∧ n ≤ 8 * octets.size := by
  cases c with
  | bits octets n => exact ⟨octets, n, rfl, fits.2⟩
  | _ => cases fits

/-- A place inside is read as what it holds. -/
theorem get?_eq_under (k : Kind) (inside : i < c.length) : c.get? i = some (c.under k i) := by
  have there : i < c.toList.length := c.length_toList ▸ inside
  cases c with
  | bits octets n => exact if_pos inside
  | _ =>
    rw [under, get?_eq, List.getElem?_eq_getElem there, Option.getD_some]
    rintro _ _ ⟨⟩

/-- Where elements are no bits, a place behind the end is blank. -/
theorem under_eq (fits : c.FitsFor k) (other : k ≠ .bitmap) (i : Nat) : c.under k i = (c.toList[i]?).getD k.blank := by
  cases c with
  | bits octets n => exact absurd fits.1 other
  | _ =>
    rw [under, get?_eq]
    rintro _ _ ⟨⟩

/-- A list that goes on with blanks holds the same at every place. -/
theorem getD_append_replicate (vs : List Value) (v : Value) (n i : Nat) :
    ((vs ++ List.replicate n v)[i]?).getD v = (vs[i]?).getD v := by
  rw [List.getElem?_append]
  split
  · rfl
  · rename_i out
    rw [List.getElem?_eq_none (Nat.not_lt.mp out), List.getElem?_replicate]
    split <;> rfl

theorem under_fresh (k : Kind) (n i : Nat) : (fresh k n).under k i = k.blank := by
  by_cases bitmap : k = .bitmap
  · subst bitmap
    exact congrArg Value.bool (Bits.get_reserve.trans Bits.get_empty)
  · rw [under_eq (laidFor_fresh k n).fits bitmap, toList_fresh, ← List.nil_append (List.replicate n _), getD_append_replicate]
    rfl

/-! ### Growing, shrinking and storing -/

theorem length_grow (k : Kind) (c : Cells) (n : Nat) : (c.grow k n).length = c.length + n := by
  cases c <;> simp [grow, length]

theorem fitsFor_grow (fits : c.FitsFor k) (n : Nat) : (c.grow k n).FitsFor k := by
  cases c with
  | bits octets len => exact ⟨fits.1, Bits.le_reserve⟩
  | _ => exact fits

/-- An array that grows changes no place: what is new was blank, or holds the bit that was left there. -/
theorem under_grow (fits : c.FitsFor k) (n i : Nat) : (c.grow k n).under k i = c.under k i := by
  by_cases bitmap : k = .bitmap
  · subst bitmap
    obtain ⟨octets, len, rfl, -⟩ := fits.bits
    exact congrArg Value.bool Bits.get_reserve
  · rw [under_eq (fitsFor_grow fits n) bitmap, under_eq fits bitmap, toList_grow (fits.laid bitmap), getD_append_replicate]

theorem length_shrink (less : n ≤ c.length) : (c.shrink n).length = n := by
  cases c with
  | bits octets len => rfl
  | _ =>
    change Array.size (Array.extract _ 0 n) = n
    rw [Array.size_extract]
    exact Nat.min_eq_left less

theorem fitsFor_shrink (fits : c.FitsFor k) (less : n ≤ c.length) : (c.shrink n).FitsFor k := by
  cases c with
  | bits octets len => exact ⟨fits.1, Nat.le_trans less fits.2⟩
  | _ => exact fits

theorem toList_shrink (less : n ≤ c.length) : (c.shrink n).toList = c.toList.take n := by
  cases c with
  | boxed items | bytes items | ints items => simp [shrink, toList]
  | bits octets len =>
    change n ≤ len at less
    simp [shrink, toList, ← List.map_take, List.take_range, Nat.min_eq_left less]

/-- What is cut off is blank then, except for bits, which stay. -/
theorem under_shrink (fits : c.FitsFor k) (less : n ≤ c.length) (i : Nat) :
    (c.shrink n).under k i = if k = .bitmap ∨ i < n then c.under k i else k.blank := by
  by_cases bitmap : k = .bitmap
  · subst bitmap
    obtain ⟨octets, len, rfl, -⟩ := fits.bits
    exact (if_pos (.inl rfl)).symm
  rw [under_eq (fitsFor_shrink fits less) bitmap, toList_shrink less, List.getElem?_take]
  by_cases kept : i < n
  · rw [if_pos kept, if_pos (.inr kept), under_eq fits bitmap]
  · rw [if_neg kept, if_neg (not_or.mpr ⟨bitmap, kept⟩), Option.getD_none]

/-- The elements of an array that gets another length. -/
def resize (k : Kind) (c : Cells) (n : Nat) : Cells := if c.length < n then c.grow k (n - c.length) else c.shrink n

theorem length_resize (k : Kind) (c : Cells) (n : Nat) : (c.resize k n).length = n := by
  rw [resize]
  split
  · rw [length_grow]
    omega
  · exact length_shrink (Nat.not_lt.mp ‹_›)

theorem fitsFor_resize (fits : c.FitsFor k) (n : Nat) : (c.resize k n).FitsFor k := by
  rw [resize]
  split
  · exact fitsFor_grow fits _
  · exact fitsFor_shrink fits (Nat.not_lt.mp ‹_›)

/-- All places of the new length hold what they held, and so do all bits. -/
theorem under_resize (fits : c.FitsFor k) (n i : Nat) :
    (c.resize k n).under k i = if k = .bitmap ∨ i < n then c.under k i else k.blank := by
  rw [resize]
  split
  · rw [under_grow fits]
    split
    · rfl
    · rename_i gone
      rw [not_or] at gone
      rw [under_eq fits gone.1, List.getElem?_eq_none (by rw [length_toList]; omega), Option.getD_none]
  · exact under_shrink fits (Nat.not_lt.mp ‹_›) i

/-- What is stored to a place lies there as its kind packs it, and changes no other. -/
theorem under_put (fits : c.FitsFor k) (inside : i < c.length) (put : c.put i kind v = .ok c') :
    c'.FitsFor k ∧ k.Packs v (c'.under k i) ∧ ∀ j, j ≠ i → c'.under k j = c.under k j := by
  by_cases bitmap : k = .bitmap
  · subst bitmap
    obtain ⟨octets, len, rfl, room⟩ := fits.bits
    obtain ⟨b, packs, rfl⟩ := put_bits_packs put
    have byte : i / 8 < octets.size := by
      change i < len at inside
      omega
    have now (j : Nat) : (bits (Bits.set octets i b) len).under .bitmap j = if j = i then .bool b else (bits octets len).under .bitmap j := by
      rw [under, under, Bits.get_set byte]
      split <;> rfl
    refine ⟨⟨rfl, (Bits.size_set b).symm ▸ room⟩, ?_, fun j other => (now j).trans (if_neg other)⟩
    rwa [now, if_pos rfl]
  · obtain ⟨w, packs, laid, elements⟩ := put_packs (fits.laid bitmap) inside put
    refine ⟨laid.fits, ?_, fun j other => ?_⟩
    · rwa [under_eq laid.fits bitmap, elements, List.getElem?_set_self (c.length_toList.symm ▸ inside), Option.getD_some]
    · rw [under_eq laid.fits bitmap, under_eq fits bitmap, elements, List.getElem?_set_ne other.symm]

end Cells

/-! ## Operations -/

section Operations

variable {s t u : Store} {a i n : Nat} {ps qs : List Nat} {d d' d'' : ArrayData} {v : Value} {r : Except Fault Unit}

/-- What a place of an array holds, also one behind the end. -/
def ArrayData.under (d : ArrayData) (i : Nat) : Value := d.cells.under d.element i

/-- What becomes of an array while values are stored to some of its places. Every other place holds what it held; or it was cut
off and is blank, unless it is a bit. -/
structure ArrayData.Stored (ps : List Nat) (d d' : ArrayData) : Prop where
  element : d'.element = d.element
  fits : d'.cells.FitsFor d'.element
  others : ∀ i ∉ ps, d'.under i = d.under i ∨ d.element ≠ .bitmap ∧ d'.under i = d.element.blank

theorem ArrayData.Stored.refl (fits : d.cells.FitsFor d.element) (ps : List Nat) : d.Stored ps d := ⟨rfl, fits, fun _ _ => .inl rfl⟩

theorem ArrayData.Stored.trans (h : d.Stored ps d') (k : d'.Stored qs d'') : d.Stored (qs ++ ps) d'' where
  element := k.element.trans h.element
  fits := k.fits
  others := fun i other => by
    rw [List.mem_append, not_or] at other
    obtain same | ⟨notBit, blank⟩ := k.others i other.1
    · exact (h.others i other.2).imp same.trans fun ⟨notBit, blank⟩ => ⟨notBit, same.trans blank⟩
    · exact .inr ⟨h.element ▸ notBit, blank.trans (by rw [h.element])⟩

/-- A memory in which an array lies, its elements laid as those of its kind, leads to another, and on the way values are stored
to some places of the array. -/
def Store.Stores (a : Nat) (ps : List Nat) (s t : Store) : Prop :=
  ∀ d, s.arrays[a]? = some d → d.cells.FitsFor d.element → ∃ d', t.arrays[a]? = some d' ∧ d.Stored ps d'

theorem Store.Stores.of_kept (kept : t.arrays[a]? = s.arrays[a]?) (ps : List Nat) : s.Stores a ps t :=
  fun d lies fits => ⟨d, kept.trans lies, .refl fits ps⟩

theorem Store.Stores.trans (h : s.Stores a ps t) (k : t.Stores a qs u) : s.Stores a (qs ++ ps) u := by
  intro d lies fits
  obtain ⟨d', lies', first⟩ := h d lies fits
  obtain ⟨d'', lies'', second⟩ := k d' lies' first.fits
  exact ⟨d'', lies'', first.trans second⟩

/-- The elements of an array are changed in memory. -/
theorem Store.Stores.modify {f : Cells → Cells} (h : ∀ d, s.arrays[a]? = some d → d.cells.FitsFor d.element →
    d.Stored ps { d with cells := f d.cells }) :
    s.Stores a ps { s with arrays := s.arrays.modify a fun d => { d with cells := f d.cells } } := by
  intro d lies fits
  refine ⟨_, ?_, h d lies fits⟩
  change (s.arrays.modify a _)[a]? = _
  rw [Array.getElem?_modify, if_pos rfl, lies]
  rfl

/-- An array that is made longer. -/
theorem Store.Stores.grow (s : Store) (a n : Nat) :
    s.Stores a [] { s with arrays := s.arrays.modify a fun d => { d with cells := d.cells.grow (s.array a).element n } } := by
  refine .modify (f := fun c => c.grow (s.array a).element n) fun d lies fits => ?_
  rw [show (s.array a).element = d.element by rw [Store.array, lies]; rfl]
  exact ⟨rfl, Cells.fitsFor_grow fits n, fun i _ => .inl (Cells.under_grow fits n i)⟩

namespace StoreM

/-- The conversion of a value for an array changes no array. -/
theorem forElement_keeps {element : Kind} {cells : Cells} {r : Except Fault Value} (lies : s.arrays[a]? = some d)
    (run : (forElement element cells v).run.run s = (r, t)) : t.arrays[a]? = some d := by
  have later : s.Later (fun _ => False) ((forElement element cells v).run.run s).2 := (makes_forElement v element cells).1
  rw [run] at later
  obtain ⟨d', lies', -, same⟩ := later.arrays a d lies
  rwa [same id] at lies'

/-- A change of the cells of an array that stores to its places. -/
theorem stores_modifyCells {f : Cells → Cells} (run : (modifyCells a f).run.run s = (r, t))
    (h : ∀ d, s.arrays[a]? = some d → d.cells.FitsFor d.element → d.Stored ps { d with cells := f d.cells }) : s.Stores a ps t := by
  cases run
  exact .modify h

/-- A value that is put into its place is stored there and nowhere else. -/
theorem stores_arrayPut {place : Nat} (inside : ∀ d, s.arrays[a]? = some d → place < d.length)
    (run : (arrayPut a place v).run.run s = (r, t)) : s.Stores a (if r.isOk then [place] else []) t := by
  rw [arrayPut, run_kindOf, run_get_bind] at run
  split at run
  · cases run
    exact .of_kept rfl _
  rename_i none
  obtain rfl : r = .ok () := by
    cases run
    rfl
  refine stores_modifyCells run fun d lies fits => ?_
  rw [Store.array, lies, Option.getD_some] at none
  obtain ⟨c', put⟩ := put_of_putFault? (i := place) none
  obtain ⟨fits', -, same⟩ := Cells.under_put fits (inside d lies) put
  rw [put]
  exact ⟨rfl, fits', fun i other => .inl (same i (fun same => other (List.mem_singleton.mpr same)))⟩

/-- A write stores to its place, and to none when it fails. -/
theorem stores_arraySet {place : Int} (run : (arraySet a place v).run.run s = (r, t)) :
    s.Stores a (if r.isOk then [place.toNat] else []) t := by
  have readied : s.Stores a [] (s.readied a place) := by
    rw [Store.readied]
    split
    · exact .grow s a 1
    · exact .of_kept rfl _
  rw [← List.append_nil (if r.isOk then _ else _)]
  refine readied.trans ?_
  rw [arraySet_readied, run_get_bind] at run
  dsimp only at run
  split at run
  · cases run
    exact .of_kept rfl _
  rename_i inside
  rw [Bool.or_eq_true, decide_eq_true_eq, decide_eq_true_eq, not_or] at inside
  rw [ExceptT.run_bind, StateT.run_bind] at run
  generalize conversion : (forElement (s.array a).element (s.array a).cells v).run.run (s.readied a place) = converted at run
  obtain ⟨f | w, t'⟩ := converted
  · cases run
    exact fun d lies fits => ⟨d, forElement_keeps lies conversion, .refl fits _⟩
  · refine fun d lies fits => stores_arrayPut (fun d' lies' => ?_) run d (forElement_keeps lies conversion) fits
    cases lies'.symm.trans (forElement_keeps lies conversion)
    rw [Store.array, lies, Option.getD_some] at inside
    omega

/-- An array takes any length. -/
theorem run_arrayResize (lies : s.arrays[a]? = some d) (n : Nat) :
    ∃ t, (arrayResize a n).run.run s = (.ok (), t) ∧ t.arrays[a]? = some { d with cells := d.cells.resize d.element n } := by
  have here : s.array a = d := by rw [Store.array, lies, Option.getD_some]
  have changed (f : Cells → Cells) : (s.arrays.modify a fun d => { d with cells := f d.cells })[a]? = some { d with cells := f d.cells } := by
    rw [Array.getElem?_modify, if_pos rfl, lies]
    rfl
  rw [arrayResize, run_get_bind, here, Cells.resize]
  dsimp only [ArrayData.length]
  by_cases longer : d.cells.length < n
  · rw [if_pos longer, if_pos longer]
    exact ⟨_, rfl, changed fun c => c.grow d.element (n - d.length)⟩
  · rw [if_neg longer, if_neg longer]
    exact ⟨_, rfl, changed fun c => c.shrink n⟩

end StoreM

/-! ### Histories -/

/-- What is done to an array. -/
inductive ArrayAction
  | set (place : Int) (value : Value)
  | append (value : Value)
  | resize (length : Nat)

namespace ArrayAction

/-- An operation on an array. -/
def run (a : Nat) : ArrayAction → StoreM Unit
  | set place value => StoreM.arraySet a place value
  | append value => StoreM.arrayAppend a value
  | resize length => StoreM.arrayResize a length

/-- The places of an array of some length that an operation stores to when it ends in a certain way: none when it fails. -/
def places (length : Nat) (r : Except Fault Unit) : ArrayAction → List Nat
  | set place _ => if r.isOk then [place.toNat] else []
  | append _ => if r.isOk then [length] else []
  | resize _ => []

/-- An operation stores to its places only. -/
theorem stores {op : ArrayAction} (run : (op.run a).run.run s = (r, t)) : s.Stores a (op.places (s.array a).length r) t := by
  cases op with
  | set place v => exact StoreM.stores_arraySet run
  | append v =>
    rw [ArrayAction.run, StoreM.arrayAppend, StoreM.run_get_bind] at run
    dsimp only at run
    split at run
    · cases run
      exact .of_kept rfl _
    · exact StoreM.stores_arraySet run
  | resize n =>
    intro d lies fits
    obtain ⟨t', run', lies'⟩ := StoreM.run_arrayResize lies n
    cases run.symm.trans run'
    refine ⟨_, lies', rfl, Cells.fitsFor_resize fits n, fun i _ => ?_⟩
    have place := Cells.under_resize fits n i
    split at place
    · exact .inl place
    · rename_i gone
      exact .inr ⟨fun bitmap => gone (.inl bitmap), place⟩

end ArrayAction

/-- A memory leads to another by operations on an array, which succeed or fail and store to some places of it. Between them anything
may happen that leaves the array as it is. -/
inductive Store.Worked (a : Nat) (s : Store) : List Nat → Store → Prop
  | refl : Worked a s [] s
  | aside {ps : List Nat} {t u : Store} (before : Worked a s ps t) (kept : u.arrays[a]? = t.arrays[a]?) : Worked a s ps u
  | op {ps : List Nat} {t u : Store} {r : Except Fault Unit} (before : Worked a s ps t) (op : ArrayAction)
    (run : (op.run a).run.run t = (r, u)) : Worked a s (op.places (t.array a).length r ++ ps) u

theorem Store.Worked.stores (h : s.Worked a ps t) : s.Stores a ps t := by
  induction h with
  | refl => exact .of_kept rfl _
  | aside _ kept ih => exact ih.trans (.of_kept kept [])
  | op _ op run ih => exact ih.trans (ArrayAction.stores run)

/-- An array whose length is changed, and what its places are read as after that. `s` is a memory before `t`, and on the way values
were stored to some places. -/
structure Store.Resizes (s t : Store) (a : Nat) (ps : List Nat) : Prop where
  /-- An array takes any length, and keeps the elements that it has room for. -/
  resize : ∀ n, ∃ u, (StoreM.arrayResize a n).run.run t = (.ok (), u) ∧ (u.array a).length = n ∧
    ∀ i < min n (t.array a).length, ((StoreM.arrayGet a i).run.run u).1 = ((StoreM.arrayGet a i).run.run t).1
  /-- A place that the array did not have before is blank until it is stored to, unless it is a bit. -/
  blank : ∀ i < (t.array a).length, i ∉ ps → (s.array a).length ≤ i → (t.array a).element ≠ .bitmap →
    (StoreM.arrayGet a i).run.run t = (.ok (t.array a).element.blank, t)
  /-- A bit that the array had before is as it was until it is stored to, even when it was cut off on the way. -/
  bit : ∀ i < (t.array a).length, i ∉ ps → i < (s.array a).length → (t.array a).element = .bitmap →
    ((StoreM.arrayGet a i).run.run t).1 = ((StoreM.arrayGet a i).run.run s).1
  /-- A place that was not stored to since the array was made is blank, bits included. -/
  untouched : ∀ {u : Store} {element : Kind} {n : Nat} {fixed : Bool},
    (StoreM.newZeros element n fixed).run.run u = (.ok (.array a), s) → ∀ i < (t.array a).length, i ∉ ps →
      (StoreM.arrayGet a i).run.run t = (.ok (t.array a).element.blank, t)

/-- A place inside an array is read as what it holds. -/
theorem StoreM.run_arrayGet (inside : i < (s.array a).length) : (arrayGet a i).run.run s = (.ok ((s.array a).under i), s) := by
  rw [arrayGet, run_get_bind]
  dsimp only
  rw [if_neg (by omega), Int.toNat_natCast, Cells.get?_eq_under (s.array a).element inside]
  rfl

/-- **Arrays change their length.** An array of any kind of elements, after any operations on it, takes any length, and keeps
the elements that it has room for. Its new places are blank until they are stored to, whatever lay there before the array was made
shorter. Only of bits those that were cut off come back. -/
theorem Store.Worked.resizes (h : s.Worked a ps t) (lies : s.arrays[a]? = some d) (fits : d.cells.FitsFor d.element) :
    s.Resizes t a ps := by
  obtain ⟨d', lies', stored⟩ := h.stores d lies fits
  have before : s.array a = d := by rw [Store.array, lies, Option.getD_some]
  have now : t.array a = d' := by rw [Store.array, lies', Option.getD_some]
  have blank {i : Nat} (other : i ∉ ps) (was : d.under i = d.element.blank) : d'.under i = d'.element.blank := by
    rw [stored.element]
    obtain same | ⟨-, gone⟩ := stored.others i other
    · exact same.trans was
    · exact gone
  refine ⟨fun n => ?_, fun i inside other out notBit => ?_, fun i inside other old bit => ?_, fun new i inside other => ?_⟩
  · obtain ⟨u, run, lies''⟩ := StoreM.run_arrayResize lies' n
    have then' : u.array a = { d' with cells := d'.cells.resize d'.element n } := by rw [Store.array, lies'', Option.getD_some]
    have length : (u.array a).length = n := by
      rw [then']
      exact Cells.length_resize ..
    refine ⟨u, run, length, fun i inside => ?_⟩
    obtain ⟨room, there⟩ := Nat.lt_min.mp inside
    rw [StoreM.run_arrayGet there, StoreM.run_arrayGet (by omega), then', now]
    exact congrArg Except.ok ((Cells.under_resize stored.fits n i).trans (if_pos (.inr room)))
  · rw [now, stored.element] at notBit
    rw [StoreM.run_arrayGet inside, now, blank other]
    rw [before] at out
    exact (Cells.under_eq fits notBit i).trans (by rw [List.getElem?_eq_none (by rwa [Cells.length_toList]), Option.getD_none])
  · rw [now, stored.element] at bit
    rw [StoreM.run_arrayGet inside, StoreM.run_arrayGet old, now, before]
    exact congrArg Except.ok ((stored.others i other).resolve_right fun cut => cut.1 bit)
  · cases new
    rw [StoreM.run_arrayGet inside, now, blank other]
    cases Array.getElem?_push_size.symm.trans lies
    exact Cells.under_fresh _ _ i

/-- A number that is cut off is gone: the array is long enough for it again, and its place is blank. -/
theorem Store.ints_forget : ∃ r s t : Store, r.Worked 0 [1] s ∧ s.Worked 0 [] t ∧ s.Resizes t 0 [] ∧ (s.array 0).length = 1 ∧
    (StoreM.arrayGet 0 (1 : Nat)).run.run t = (.ok (.int 0), t) := by
  let numbers (items : Array Int32) : Store := { Store.initial with arrays := #[⟨.intMap, false, .ints items⟩] }
  have written : (numbers #[1, 0]).Worked 0 [1] (numbers #[1, 7]) := .op .refl (.set 1 (.int 7)) rfl
  have cut : (numbers #[1, 0]).Worked 0 [1] (numbers #[1]) := .op written (.resize 1) rfl
  have grown : (numbers #[1]).Worked 0 [] (numbers #[1, 0]) := .op .refl (.resize 2) rfl
  have places := Store.Worked.resizes grown (d := ⟨.intMap, false, .ints #[1]⟩) rfl rfl
  exact ⟨_, _, _, cut, grown, places, rfl, places.blank 1 (by decide) (by decide) (by decide) (by decide)⟩

/-- A bit that is cut off comes back: the array has no place for it, nothing is stored to the place since then, and when the array
is long enough again the place is not blank. -/
theorem Store.bitmap_remembers : ∃ r s t : Store, r.Worked 0 [1] s ∧ s.Worked 0 [] t ∧ (s.array 0).length = 0 ∧
    (t.array 0).length = 3 ∧ (t.array 0).element = .bitmap ∧ ((StoreM.arrayGet 0 (1 : Nat)).run.run t).1 = .ok (.bool true) ∧
    Kind.bitmap.blank = .bool false := by
  let bitmap (octets : Array UInt8) (n : Nat) : Store := { Store.initial with arrays := #[⟨.bitmap, false, .bits octets n⟩] }
  have written : (bitmap #[0] 3).Worked 0 [1] (bitmap #[2] 3) := .op .refl (.set 1 (.bool true)) rfl
  have cut : (bitmap #[0] 3).Worked 0 [1] (bitmap #[2] 0) := .op written (.resize 0) rfl
  have grown : (bitmap #[2] 0).Worked 0 [] (bitmap (Bits.reserve #[2] 3) 3) := .op .refl (.resize 3) rfl
  have bit : Bits.get (Bits.reserve #[2] 3) 1 = true := Bits.get_reserve.trans rfl
  have read := StoreM.run_arrayGet (s := bitmap (Bits.reserve #[2] 3) 3) (a := 0) (i := 1) (by decide)
  have shown : ((StoreM.arrayGet 0 (1 : Nat)).run.run (bitmap (Bits.reserve #[2] 3) 3)).1 = .ok (.bool true) := by
    rw [read]
    exact congrArg (fun b => Except.ok (Value.bool b)) bit
  exact ⟨_, _, _, cut, grown, rfl, rfl, rfl, shown, rfl⟩

end Operations
end ScriptEngine
