import ScriptEngine.Builtin.Sequence
import ScriptEngine.Proofs.AssignedShapes
import ScriptEngine.Proofs.ElementWrites
import ScriptEngine.Proofs.FitAgain
import ScriptEngine.Proofs.JsonReading
/-!
# Writes to arrays that fail

A write that fails stores nothing: every element that an array had is as it was, and so are all other arrays. But an array is made
longer before the value is looked at. So one that may grow keeps the place behind its end that it was given for a value that it then
refused, and an array that was to be filled has its new length.
-/

namespace ScriptEngine

/-! ## Conversions -/

namespace StoreM

variable {α β : Type}

/-- A computation that fails in every memory. -/
def Fails (x : StoreM α) : Prop := ∀ s, ∃ f t, x.run.run s = (.error f, t)

/-- A computation of which it is known beforehand whether it succeeds, and that leaves arrays alone. -/
structure Foregone (x : StoreM α) : Prop where
  known : Succeeds x ∨ Fails x
  arrays : Leaves Store.arrays x

theorem foregone_pure (a : α) : Foregone (pure a : StoreM α) := ⟨.inl (succeeds_pure a), leaves_pure a⟩

theorem foregone_throw (f : Fault) : Foregone (throw f : StoreM α) := ⟨.inr fun s => ⟨f, s, rfl⟩, leaves_throw f⟩

/-- What succeeds in one memory succeeds in every other. -/
theorem Foregone.again {x : StoreM α} {s u : Store} {a : α} (h : Foregone x) (run : x.run.run s = (.ok a, u)) (t : Store) :
    ∃ b u', x.run.run t = (.ok b, u') := by
  obtain succeeds | fails := h.known
  · exact succeeds t
  · obtain ⟨f, u', run'⟩ := fails s
    cases run.symm.trans run'

theorem succeeds_newBox (n : Node) : Succeeds (newBox n) := fun _ => ⟨_, _, rfl⟩

theorem succeeds_ofTree (j : Json) : Succeeds (ofTree j) := fun s =>
  have ⟨n, t, run, _⟩ := ofTree_roots j s
  ⟨n, t, run⟩

/-- Whether a text can be read as json data depends on the text alone. -/
theorem foregone_jsonOfText (t : Text) : Foregone (jsonOfText t) := by
  refine ⟨?_, leaves_jsonOfText blind_arrays t⟩
  rw [jsonOfText]
  split
  · rw [parseJson]
    split
    · exact .inl (succeeds_bind (succeeds_ofTree _) succeeds_newBox)
    · exact .inr fun s => ⟨_, s, rfl⟩
  · exact .inl (succeeds_newBox _)

/-- What was read is a date if the month has the day. -/
theorem isSome_date? (r : Layout.Reading) (here : Zone) :
    (r.date? here).isSome = r.monthDay?.any fun day => 1 ≤ day.2 && day.2 ≤ Civil.daysIn r.year day.1 := by
  unfold Layout.Reading.date?
  cases r.monthDay? with
  | none => rfl
  | some day =>
    by_cases is : 1 ≤ day.2 ∧ day.2 ≤ Civil.daysIn r.year day.1
    · simp only [is, guard, Option.bind_eq_bind, Option.bind_some, decide_true, Bool.and_self, if_true, Option.pure_def, Option.any_some]
      repeat' split
      all_goals rfl
    · simp [guard, is]
      omega

/-- Whether a text can be read as a date does not depend on the zone of the host. -/
theorem isSome_readIn? (t : Text) (here there : Zone) : (Date.readIn? here t).isSome = (Date.readIn? there t).isSome := by
  have parsed (l : Layout) : (l.parse? t here).isSome = (l.parse? t there).isSome := by
    rw [Layout.parse?, Layout.parse?]
    cases Layout.readPieces l.pieces false {} t.bytes with
    | none => rfl
    | some r => exact (isSome_date? r here).trans (isSome_date? r there).symm
  rw [Date.readIn?, Date.readIn?, List.isSome_findSome?, List.isSome_findSome?]
  simp only [parsed]

theorem foregone_dateOfText (k : Kind) (t : Text) :
    Foregone (do
      match Date.readIn? (← get).platform.zone t with
      | some d => pure (.date d)
      | none => cannotConvert k .date : StoreM Value) := by
  refine ⟨?_, fun s => ?_⟩
  · cases found : (Date.readIn? .utc t).isSome with
    | true =>
      refine .inl fun s => ?_
      obtain ⟨d, reads⟩ := Option.isSome_iff_exists.mp ((isSome_readIn? t s.platform.zone .utc).trans found)
      exact ⟨.date d, s, by rw [run_get_bind, reads]; rfl⟩
    | false =>
      refine .inr fun s => ?_
      have unread := Option.not_isSome_iff_eq_none.mp (by rw [isSome_readIn? t s.platform.zone .utc, found]; exact Bool.false_ne_true)
      exact ⟨_, s, by rw [run_get_bind, unread]; rfl⟩
  · rw [run_get_bind]
    split <;> rfl

/-- Whether a value is converted depends on its kind, unless lists are made arrays or arrays are packed anew. -/
theorem foregone_coerce {target : Kind} (list : target ≠ .array) (bits : target ≠ .bitmap) (ints : target ≠ .intMap) (v : Value) :
    ∃ f : Kind → StoreM Value, coerce v target = kindOf v >>= f ∧ ∀ k, Foregone (f k) := by
  refine ⟨_, rfl, fun k => ?_⟩
  have data (w : Value) : Foregone (do newBox (← normalize (← toNode w)) : StoreM Value) := by
    refine ⟨.inl (succeeds_bind (succeeds_toNode w) fun n => succeeds_bind (succeeds_normalize n) succeeds_newBox), ?_⟩
    exact leaves_bind (leaves_toNode blind_arrays w) fun n => leaves_bind (leaves_normalize blind_arrays n) fun n =>
      leaves_newBox blind_arrays n
  split
  · exact foregone_pure v
  split
  · exact foregone_pure _
  split
  -- numbers are made wider
  iterate 6 exact foregone_pure _
  · exact foregone_throw _
  · exact ⟨.inl fun s => ⟨_, s, rfl⟩, leaves_bind (leaves_inspect _) fun _ => leaves_pure _⟩
  · exact foregone_dateOfText k _
  · exact foregone_jsonOfText _
  iterate 6 exact data _
  iterate 2 exact absurd rfl list
  · exact absurd rfl bits
  · exact absurd rfl ints
  · exact foregone_throw _

/-- Whether a value is converted for an array depends on its kind and on how elements lie in the array. -/
theorem foregone_forElement {element : Kind} {c : Cells} (fits : c.FitsFor element) (v : Value) :
    ∃ f : Kind → StoreM Value, (∀ s c', c'.kind = c.kind → (forElement element c' v).run.run s = (f (s.kindOf v)).run.run s) ∧
      ∀ k, Foregone (f k) := by
  cases c with
  | boxed items =>
    by_cases plain : element = .any ∨ element = .array
    · refine ⟨fun _ => pure v, fun s c' same => ?_, fun _ => foregone_pure v⟩
      cases c' with
      | boxed items' => rw [forElement, if_pos (by simpa using plain)]
      | _ => cases same
    · obtain ⟨-, list⟩ := not_or.mp plain
      have packed : element.isPacked = false := fits
      have bits : element ≠ .bitmap := by
        rintro rfl
        cases packed
      have ints : element ≠ .intMap := by
        rintro rfl
        cases packed
      obtain ⟨f, converts, foregone⟩ := foregone_coerce list bits ints v
      refine ⟨f, fun s c' same => ?_, foregone⟩
      cases c' with
      | boxed items' =>
        rw [forElement, if_neg (by simpa using plain), converts]
        rfl
      | _ => cases same
  | _ =>
    refine ⟨fun _ => pure v, fun s c' same => ?_, fun _ => foregone_pure v⟩
    cases c' <;> first | rfl | cases same

/-- Whether a value counts as a number between two bounds does not depend on the kind that a fault would name. -/
theorem packed_again {k k' : Kind} {v : Value} {lo hi m : Int} (fits : Cells.packed k v lo hi = .ok m) :
    Cells.packed k' v lo hi = .ok m := by
  unfold Cells.packed at fits ⊢
  split
  · exact fits
  · split at fits
    · exact absurd rfl ‹_›
    · split at fits
      · cases fits
      · exact fits

/-- Whether a value can be put into cells depends on how they lie. -/
theorem putFault?_again {c c' : Cells} {k k' : Kind} {v : Value} (same : c'.kind = c.kind) (fits : putFault? c k v = none) :
    putFault? c' k' v = none := by
  cases c with
  | boxed items => cases c' <;> first | rfl | cases same
  | bytes items | ints items =>
    cases c' <;> cases same
    simp only [putFault?] at fits ⊢
    split at fits
    · rw [packed_again ‹_›]
    · cases fits
  | bits octets len =>
    cases c' <;> cases same
    cases v with
    | bool b => rfl
    | _ =>
      simp only [putFault?] at fits ⊢
      split at fits
      · rw [packed_again ‹_›]
      · cases fits

end StoreM

/-! ## Arrays that were made longer -/

section Arrays

variable {s t u : Store} {a i n : Nat} {d : ArrayData} {v : Value} {f : Fault}

namespace ArrayData

/-- An array that was made as long as a number says, if it was not so long. -/
def lengthened (d : ArrayData) (n : Nat) : ArrayData := { d with cells := d.cells.grow d.element (n - d.length) }

/-- The length that an array has when a value is about to be stored to a place. One that may grow has the place just behind its end
by then. -/
def reach (d : ArrayData) (place : Int) : Nat := if place = d.length && !d.fixed then d.length + 1 else d.length

theorem le_reach (d : ArrayData) (place : Int) : d.length ≤ d.reach place := by
  rw [reach]
  split
  · exact Nat.le_succ _
  · exact Nat.le_refl _

theorem reach_inside (inside : i < d.length) : d.reach i = d.length := by
  rw [reach, if_neg]
  rw [Bool.and_eq_true, decide_eq_true_eq]
  omega

theorem length_lengthened (d : ArrayData) (more : d.length ≤ n) : (d.lengthened n).length = n := by
  change (d.cells.grow d.element (n - d.length)).length = n
  rw [Cells.length_grow]
  exact Nat.add_sub_cancel' more

theorem fits_lengthened (fits : d.cells.FitsFor d.element) (n : Nat) : (d.lengthened n).cells.FitsFor (d.lengthened n).element :=
  Cells.fitsFor_grow fits _

/-- An array that is made longer holds at every place what it held there. -/
theorem under_lengthened (fits : d.cells.FitsFor d.element) (n i : Nat) : (d.lengthened n).under i = d.under i :=
  Cells.under_grow fits _ i

/-- An array that has its length already is left as it is. -/
theorem lengthened_of_le (fits : d.cells.FitsFor d.element) (enough : n ≤ d.length) : d.lengthened n = d := by
  obtain ⟨element, fixed, cells⟩ := d
  rw [lengthened, Nat.sub_eq_zero_of_le enough]
  cases cells with
  | bits octets len =>
    have room : len ≤ 8 * octets.size := fits.2
    have none : (len + 7) / 8 - octets.size = 0 := by omega
    simp only [Cells.grow, Bits.reserve, Nat.add_zero, none, Array.replicate_zero, Array.append_empty]
  | _ => simp only [Cells.grow, Array.replicate_zero, Array.append_empty]

end ArrayData

/-- An array that lies in memory is what is found at its address. -/
theorem Store.array_of_lies (lies : s.arrays[a]? = some d) : s.array a = d := by rw [array, lies, Option.getD_some]

/-- An array was made as long as `n`, and all others are as they were. -/
structure Store.Lengthened (s : Store) (a : Nat) (d : ArrayData) (n : Nat) (t : Store) : Prop where
  array : t.arrays[a]? = some (d.lengthened n)
  others : ∀ b ≠ a, t.arrays[b]? = s.arrays[b]?

namespace Store.Lengthened

theorem refl (lies : s.arrays[a]? = some d) (fits : d.cells.FitsFor d.element) : s.Lengthened a d d.length s :=
  ⟨lies.trans (congrArg some (d.lengthened_of_le fits (Nat.le_refl _)).symm), fun _ _ => rfl⟩

theorem kept (h : s.Lengthened a d n t) (same : u.arrays = t.arrays) : s.Lengthened a d n u :=
  ⟨same ▸ h.array, fun b other => same ▸ h.others b other⟩

/-- No array has changed when the array had its length already. -/
theorem unchanged (h : s.Lengthened a d n t) (lies : s.arrays[a]? = some d) (fits : d.cells.FitsFor d.element) (enough : n ≤ d.length) :
    t.arrays = s.arrays := by
  refine Array.ext_getElem? fun b => ?_
  by_cases here : b = a
  · rw [here, h.array, lies, d.lengthened_of_le fits enough]
  · exact h.others b here

/-- The cells of an array are made longer. -/
theorem grow (lies : s.arrays[a]? = some d) (n : Nat) :
    s.Lengthened a d n { s with arrays := s.arrays.modify a fun d' => { d' with cells := d'.cells.grow d.element (n - d.length) } } where
  array := by
    change (s.arrays.modify a _)[a]? = _
    rw [Array.getElem?_modify, if_pos rfl, lies]
    rfl
  others := fun b other => by
    change (s.arrays.modify a _)[b]? = _
    rw [Array.getElem?_modify, if_neg other.symm]

theorem readied (lies : s.arrays[a]? = some d) (fits : d.cells.FitsFor d.element) (place : Int) :
    s.Lengthened a d (d.reach place) (s.readied a place) := by
  have here := Store.array_of_lies lies
  rw [Store.readied, ArrayData.reach, here]
  split
  · have more := grow lies (d.length + 1)
    rwa [Nat.add_sub_cancel_left] at more
  · exact refl lies fits

end Store.Lengthened

namespace StoreM

/-- The conversion of a value for an array changes no array. -/
theorem forElement_arrays {r : Except Fault Value} (fits : d.cells.FitsFor d.element)
    (run : (forElement d.element d.cells v).run.run s = (r, t)) : t.arrays = s.arrays := by
  obtain ⟨f, converts, foregone⟩ := foregone_forElement fits v
  rw [converts s d.cells rfl] at run
  have left := (foregone (s.kindOf v)).arrays s
  rwa [run] at left

theorem refused_arrayPut (run : (arrayPut a i v).run.run s = (.error f, t)) : t = s := by
  rw [arrayPut, run_kindOf, run_get_bind] at run
  split at run
  · cases run
    rfl
  · cases run

/-- A write that fails leaves the array as long as it was made for the value. -/
theorem refused_arraySet {place : Int} (lies : s.arrays[a]? = some d) (fits : d.cells.FitsFor d.element)
    (run : (arraySet a place v).run.run s = (.error f, t)) : s.Lengthened a d (d.reach place) t := by
  have here := Store.array_of_lies lies
  have ready := Store.Lengthened.readied lies fits place
  rw [arraySet_readied, run_get_bind, here] at run
  dsimp only at run
  split at run
  · cases run
    exact ready
  obtain converting | ⟨w, u, converted, putting⟩ := Signature.run_bind_error run
  · exact ready.kept (forElement_arrays fits converting)
  · rw [refused_arrayPut putting]
    exact ready.kept (forElement_arrays fits converted)

theorem refused_arrayAppend (lies : s.arrays[a]? = some d) (fits : d.cells.FitsFor d.element)
    (run : (arrayAppend a v).run.run s = (.error f, t)) : s.Lengthened a d (d.reach d.length) t := by
  have here := Store.array_of_lies lies
  rw [arrayAppend, run_get_bind, here] at run
  dsimp only at run
  split at run
  · rename_i fixed
    cases run
    rw [ArrayData.reach, if_neg (by simp [fixed])]
    exact .refl lies fits
  · exact refused_arraySet lies fits run

end StoreM

/-! ## Filling -/

/-- An array of a length lies in memory and takes a value. -/
def Store.Admits (s : Store) (a n : Nat) (v : Value) : Prop :=
  ∃ d w u, s.arrays[a]? = some d ∧ d.length = n ∧ d.cells.FitsFor d.element ∧
    (StoreM.forElement d.element d.cells v).run.run s = (.ok w, u) ∧ ∀ k, StoreM.putFault? d.cells k w = none

namespace StoreM

/-- What an array takes it takes again, whatever elements it has by then. -/
theorem takes_again {c : Cells} {k : Kind} {w : Value} (fits : d.cells.FitsFor d.element) (laid : c.kind = d.cells.kind)
    (same : t.kindOf v = s.kindOf v) (converted : (forElement d.element d.cells v).run.run s = (.ok w, u))
    (put : putFault? d.cells k w = none) :
    ∃ w' u', (forElement d.element c v).run.run t = (.ok w', u') ∧ ∀ k', putFault? c k' w' = none := by
  by_cases boxed : d.cells.kind = .array
  · obtain ⟨f, converts, foregone⟩ := foregone_forElement fits v
    rw [converts s d.cells rfl] at converted
    obtain ⟨w', u', again⟩ := (foregone (s.kindOf v)).again converted t
    refine ⟨w', u', ?_, fun k' => ?_⟩
    · rw [converts t c laid, same]
      exact again
    · cases c <;> first | rfl | cases laid.trans boxed
  · -- a packed array takes the value as it is
    have packed {element : Kind} {c : Cells} (packed : c.kind ≠ .array) : forElement element c v = pure v := by
      cases c <;> first | rfl | exact absurd rfl packed
    rw [packed boxed] at converted
    cases converted
    exact ⟨v, t, by rw [packed (laid ▸ boxed)]; rfl, fun k' => putFault?_again laid put⟩

/-- A place inside an array is ready for what is written to it. -/
theorem arraySet_inside (lies : s.arrays[a]? = some d) (inside : i < d.length) (v : Value) :
    (arraySet a i v).run.run s = (do arrayPut a i (← forElement d.element d.cells v) : StoreM Unit).run.run s := by
  have here := Store.array_of_lies lies
  have still : s.readied a i = s := by
    rw [Store.readied, here, if_neg]
    rw [Bool.and_eq_true, decide_eq_true_eq]
    omega
  rw [arraySet_readied, still, run_get_bind, here]
  dsimp only
  rw [if_neg (by rw [Bool.or_eq_true, decide_eq_true_eq, decide_eq_true_eq]; omega)]
  rfl

theorem arrayPut_others {r : Except Fault Unit} {b : Nat} (other : b ≠ a) (run : (arrayPut a i v).run.run s = (r, t)) :
    t.arrays[b]? = s.arrays[b]? := by
  rw [arrayPut, run_kindOf, run_get_bind] at run
  split at run
  · cases run
    rfl
  · cases run
    change (s.arrays.modify a _)[b]? = _
    rw [Array.getElem?_modify, if_neg other.symm]

/-- A value that was stored is taken again. -/
theorem admits_of_arraySet (lies : s.arrays[a]? = some d) (fits : d.cells.FitsFor d.element) (inside : i < d.length)
    (run : (arraySet a i v).run.run s = (.ok (), t)) : t.Admits a d.length v := by
  rw [arraySet_inside lies inside] at run
  obtain ⟨w, u, converted, putting⟩ := Signature.run_bind_ok run
  have arrays := forElement_arrays fits converted
  obtain ⟨c, put, lies'⟩ := done_arrayPut (arrays ▸ lies) putting
  have laid := Cells.kind_put put
  have same : t.kindOf v = s.kindOf v := by
    cases v with
    | array b =>
      change (t.array b).cells.kind = (s.array b).cells.kind
      by_cases other : b = a
      · rw [other, Store.array_of_lies lies, Store.array_of_lies lies']
        exact laid
      · rw [Store.array, Store.array, arrayPut_others other putting, arrays]
    | _ => rfl
  obtain ⟨w', u', again, none⟩ := takes_again fits laid same converted (putFault?_of_put put)
  exact ⟨_, w', u', lies', Cells.length_put put, (Cells.under_put fits inside put).1, again, none⟩

/-- A value that an array takes can be stored to each of its places. -/
theorem arraySet_of_admits (admits : s.Admits a n v) (inside : i < n) : ∃ t, (arraySet a i v).run.run s = (.ok (), t) := by
  obtain ⟨d, w, u, lies, rfl, fits, converted, none⟩ := admits
  have here : u.array a = d := Store.array_of_lies (forElement_arrays fits converted ▸ lies)
  rw [arraySet_inside lies inside, ExceptT.run_bind, StateT.run_bind, converted]
  change ∃ t, (arrayPut a i w).run.run u = _
  rw [arrayPut, run_kindOf, run_get_bind, here, none]
  exact ⟨_, rfl⟩

end StoreM

namespace Exec

variable {α β : Type} {m m' : Machine}

theorem failed_bind {x : Exec α} {g : α → Exec β} (run : (x >>= g) m = .failed f m') :
    x m = .failed f m' ∨ ∃ b k, x m = .done b k ∧ g b k = .failed f m' := by
  change andThen x g m = _ at run
  unfold andThen at run
  split at run
  · exact .inr ⟨_, _, ‹_›, run⟩
  · cases run
    exact .inl ‹_›
  all_goals cases run

theorem failed_lift {x : StoreM α} (run : (liftM x : Exec α) m = .failed f m') :
    ∃ t, x.run.run m.store = (.error f, t) ∧ m' = { m with store := t } := by
  change onStore x m = _ at run
  unfold onStore at run
  dsimp only at run
  split at run
  · cases run
  · cases run
    exact ⟨_, ‹_›, rfl⟩

/-- A loop comes to its end when each step does and keeps what the steps need. -/
theorem done_forM {P : Machine → Prop} {step : α → Exec Unit} {l : List α}
    (steps : ∀ x ∈ l, ∀ m, P m → ∃ m', step x m = .done () m' ∧ P m') (start : P m) : ∃ m', l.forM step m = .done () m' := by
  induction l generalizing m with
  | nil => exact ⟨m, rfl⟩
  | cons x l ih =>
    obtain ⟨k, first, go⟩ := steps x (List.mem_cons_self ..) m start
    obtain ⟨m', rest⟩ := ih (fun y later => steps y (List.mem_cons_of_mem _ later)) go
    exact ⟨m', (bind_of_done first).trans rest⟩

end Exec

namespace ArrayOp

open StoreM

variable {m m' : Machine}

/-- A value that an array takes can be stored to a place, and the array still takes it. -/
theorem stores_admitted (admits : m.store.Admits a n v) (inside : i < n) :
    ∃ m', Exec.onStore (arraySet a i v) m = .done () m' ∧ m'.store.Admits a n v := by
  obtain ⟨t, run⟩ := arraySet_of_admits admits inside
  obtain ⟨d, -, -, lies, rfl, fits, -⟩ := admits
  exact ⟨_, Exec.lift_ok run, admits_of_arraySet lies fits inside run⟩

/-- An array takes a value at all of its places or at none, so a loop over places that fails has stored nothing. -/
theorem refused_places (lies : m.store.arrays[a]? = some d) (fits : d.cells.FitsFor d.element) {places : List Nat}
    (inside : ∀ i ∈ places, i < d.length)
    (run : (places.forM fun i => Exec.onStore (arraySet a i v)) m = .failed f m') : m'.store.arrays = m.store.arrays := by
  cases places with
  | nil => cases run
  | cons i places =>
    have within := inside i (List.mem_cons_self ..)
    obtain first | ⟨⟨⟩, k, first, rest⟩ := Exec.failed_bind run
    · obtain ⟨t, refused, rfl⟩ := Exec.failed_lift first
      exact (refused_arraySet lies fits refused).unchanged lies fits (Nat.le_of_eq (d.reach_inside within))
    · -- what was stored to the first place is stored to the others too, so the loop comes to its end
      obtain ⟨t, stored, rfl⟩ := Exec.done_lift (y := arraySet a i v) first
      obtain ⟨m'', ended⟩ := Exec.done_forM (P := fun k => k.store.Admits a d.length v) (l := places)
        (fun j later k admits => stores_admitted admits (inside j (List.mem_cons_of_mem _ later)))
        (m := { m with store := t }) (admits_of_arraySet lies fits within stored)
      cases ended.symm.trans rest

theorem arrayResize_longer (lies : s.arrays[a]? = some d) (longer : d.length < n) :
    ∃ t, (arrayResize a n).run.run s = (.ok (), t) ∧ s.Lengthened a d n t := by
  have here := Store.array_of_lies lies
  refine ⟨_, ?_, .grow lies n⟩
  rw [arrayResize, run_get_bind, here]
  dsimp only
  rw [if_pos longer]
  rfl

/-- A filling that fails leaves the array as long as it was to be. -/
theorem refused_fillWith (lies : m.store.arrays[a]? = some d) (fits : d.cells.FitsFor d.element)
    (run : fillWith a n v m = .failed f m') : m.store.Lengthened a d (max d.length n) m'.store := by
  have here := Store.array_of_lies lies
  obtain ⟨k, sized, filling⟩ : ∃ k, m.store.Lengthened a d (max d.length n) k.store ∧
      ((List.range n).forM fun i => Exec.onStore (arraySet a i
        (if v.isNull then .zero (Kind.declared d.element.name false) else v))) k = .failed f m' := by
    obtain absent | ⟨_, _, found, run⟩ := Exec.failed_bind run
    · cases absent
    cases found
    rw [here] at run
    by_cases longer : d.length < n
    · rw [if_pos longer] at run
      obtain ⟨t, resized, more⟩ := arrayResize_longer lies longer
      rw [Exec.bind_of_done (Exec.lift_ok resized)] at run
      exact ⟨_, (Nat.max_eq_right (Nat.le_of_lt longer)).symm ▸ more, run⟩
    · rw [if_neg longer] at run
      exact ⟨m, (Nat.max_eq_left (Nat.not_lt.mp longer)).symm ▸ .refl lies fits, run⟩
  have room := d.length_lengthened (Nat.le_max_left d.length n)
  refine sized.kept (refused_places sized.array (d.fits_lengthened fits _) (fun i less => ?_) filling)
  rw [room]
  exact Nat.lt_of_lt_of_le (List.mem_range.mp less) (Nat.le_max_right ..)

theorem run_target {args : Args} (target : args.value 0 = .array a) : args.array 0 m = .done a m := by
  rw [Args.array, target]
  rfl

theorem refused_push {args : Args} (target : args.value 0 = .array a) (lies : m.store.arrays[a]? = some d)
    (fits : d.cells.FitsFor d.element) (run : ArrayOp.push.run args m = .failed f m') :
    m.store.Lengthened a d (d.reach d.length) m'.store := by
  rw [ArrayOp.run, Exec.bind_of_done (run_target target)] at run
  obtain appending | ⟨_, _, _, run⟩ := Exec.failed_bind run
  · obtain ⟨t, refused, rfl⟩ := Exec.failed_lift appending
    exact refused_arrayAppend lies fits refused
  · cases run

/-- A filling with a length below zero does nothing. -/
theorem refused_fill {args : Args} (target : args.value 0 = .array a) (lies : m.store.arrays[a]? = some d)
    (fits : d.cells.FitsFor d.element) (run : ArrayOp.fill.run args m = .failed f m') :
    m.store.Lengthened a d (max d.length (args.int 1).toNat) m'.store := by
  rw [ArrayOp.run, Exec.bind_of_done (run_target target)] at run
  dsimp only at run
  by_cases negative : args.int 1 < 0
  · rw [if_pos negative] at run
    cases run
    rw [Int.toNat_of_nonpos (Int.le_of_lt negative), Nat.max_zero]
    exact .refl lies fits
  · rw [if_neg negative] at run
    obtain refused | ⟨_, _, _, ended⟩ := Exec.failed_bind run
    · exact refused_fillWith lies fits refused
    · cases ended

end ArrayOp

/-! ## All changes -/

/-- What a change that failed has left of an array: it is `n` elements long, and nothing was stored to it. -/
structure Store.LeftLonger (s : Store) (a : Nat) (d : ArrayData) (n : Nat) (t : Store) : Prop where
  longer : d.length ≤ n
  length : (t.array a).length = n
  elements : ∀ i < d.length, ((StoreM.arrayGet a i).run.run t).1 = ((StoreM.arrayGet a i).run.run s).1
  /-- The places that are new are blank, but a bit is as it was left. -/
  beyond : ∀ i, d.length ≤ i → i < n → (StoreM.arrayGet a i).run.run t = (.ok (d.under i), t)
  others : ∀ b ≠ a, t.arrays[b]? = s.arrays[b]?
  unchanged : n = d.length → t.arrays = s.arrays

theorem Store.Lengthened.leftLonger (h : s.Lengthened a d n t) (more : d.length ≤ n) (lies : s.arrays[a]? = some d)
    (fits : d.cells.FitsFor d.element) : s.LeftLonger a d n t := by
  have before := Store.array_of_lies lies
  have now := Store.array_of_lies h.array
  have length : (t.array a).length = n := now ▸ d.length_lengthened more
  have reads {i : Nat} (inside : i < n) : (StoreM.arrayGet a i).run.run t = (.ok (d.under i), t) := by
    rw [StoreM.run_arrayGet (length.symm ▸ inside), now, ArrayData.under_lengthened fits]
  refine ⟨more, length, fun i inside => ?_, fun i _ => reads, h.others, fun same => h.unchanged lies fits (Nat.le_of_eq same)⟩
  rw [reads (Nat.lt_of_lt_of_le inside more), StoreM.run_arrayGet (before.symm ▸ inside), before]

namespace Eval

open StoreM

variable {rec : Runner} {m m' : Machine}

/-- A change of an array fails. It begins in a machine `m`, when the operands of an assignment have been evaluated, and leaves a
machine `m'`. For the change the array was to be `n` elements long. -/
inductive Refused (rec : Runner) (a : Nat) (d : ArrayData) (m m' : Machine) : Nat → Prop
  | set {place : Int} {v : Value} {f : Fault} (run : (liftM (arraySet a place v) : Exec Unit) m = .failed f m') :
    Refused rec a d m m' (d.reach place)
  | append {v : Value} {f : Fault} (run : (liftM (arrayAppend a v) : Exec Unit) m = .failed f m') :
    Refused rec a d m m' (d.reach d.length)
  | push {args : Args} {f : Fault} (target : args.value 0 = .array a) (run : ArrayOp.push.run args m = .failed f m') :
    Refused rec a d m m' (d.reach d.length)
  | fill {args : Args} {f : Fault} (target : args.value 0 = .array a) (run : ArrayOp.fill.run args m = .failed f m') :
    Refused rec a d m m' (max d.length (args.int 1).toNat)
  | assign {mark mark' : Mark} {op : AssignOp} {container key value : Expr} {m₀ : Machine} {k v : Value} {f : Fault}
    (given : operands rec (.assign mark op (.index mark' container key) value) m₀ = .done (.index (.array a) k, v) m)
    (run : expression rec (.assign mark op (.index mark' container key) value) m₀ = .failed f m') :
    Refused rec a d m m' (k.toInt64?.elim d.length fun place => d.reach place.toInt)

/-- An assignment to an element of which the operands are known goes on with the write. -/
theorem failed_assign {mark mark' : Mark} {op : AssignOp} {container key value : Expr} {m₀ : Machine} {c k v : Value}
    (given : operands rec (.assign mark op (.index mark' container key) value) m₀ = .done (.index c k, v) m)
    (run : expression rec (.assign mark op (.index mark' container key) value) m₀ = .failed f m') :
    ∃ t, (writeIndex c k v).run.run m.store = (.error f, t) ∧ m' = { m with store := t } := by
  obtain ⟨p, m₂, found, rest⟩ := Exec.done_bind given
  obtain ⟨c', m₁, container, found⟩ := Exec.done_bind found
  obtain ⟨k', _, key, found⟩ := Exec.done_bind found
  cases found
  obtain ⟨v', _, new, made⟩ := Exec.done_bind rest
  cases made
  have write : expression rec (.assign mark op (.index mark' _ _) _) m₀ = (do writeIndex c k v; pure v : Exec Value) m :=
    (Exec.bind_of_done container).trans ((Exec.bind_of_done key).trans (Exec.bind_of_done new))
  rw [write] at run
  obtain refused | ⟨_, _, _, ended⟩ := Exec.failed_bind run
  · exact Exec.failed_lift refused
  · cases ended

theorem refused_writeIndex {k : Value} (lies : s.arrays[a]? = some d) (fits : d.cells.FitsFor d.element)
    (run : (writeIndex (.array a) k v).run.run s = (.error f, t)) :
    s.Lengthened a d (k.toInt64?.elim d.length fun place => d.reach place.toInt) t := by
  rw [writeIndex] at run
  cases number : k.toInt64? with
  | none =>
    rw [placeOf, number] at run
    cases run
    exact .refl lies fits
  | some place =>
    rw [run_placeOf_bind number] at run
    exact refused_arraySet lies fits run

/-- **What a change of an array leaves when it fails.** No element is stored. The array is as long as it was to be for the change:
one that may grow has one more place when the value was to go just behind its end, and one that was to be filled has the
length to fill. In all other cases no array has changed. -/
theorem Refused.leaves (h : Refused rec a d m m' n) (lies : m.store.arrays[a]? = some d) (fits : d.cells.FitsFor d.element) :
    m.store.LeftLonger a d n m'.store := by
  cases h with
  | set run =>
    obtain ⟨t, refused, rfl⟩ := Exec.failed_lift run
    exact (refused_arraySet lies fits refused).leftLonger (d.le_reach _) lies fits
  | append run =>
    obtain ⟨t, refused, rfl⟩ := Exec.failed_lift run
    exact (refused_arrayAppend lies fits refused).leftLonger (d.le_reach _) lies fits
  | push target run => exact (ArrayOp.refused_push target lies fits run).leftLonger (d.le_reach _) lies fits
  | fill target run => exact (ArrayOp.refused_fill target lies fits run).leftLonger (Nat.le_max_left ..) lies fits
  | assign given run =>
    obtain ⟨t, refused, rfl⟩ := failed_assign given run
    refine (refused_writeIndex lies fits refused).leftLonger ?_ lies fits
    cases Value.toInt64? _ with
    | none => exact Nat.le_refl _
    | some place => exact d.le_reach _

/-- A machine that holds one array of bytes. -/
def bytesMachine (items : Array UInt8) : Machine :=
  { Machine.initial (Host.initial default default) 10 "" with
    store := { Store.initial with arrays := #[⟨.byte, false, .bytes items⟩] } }

/-- Three bytes were to be filled with a number that is no byte. -/
theorem refused_fill_bytes : ∃ f m', ArrayOp.fill.run ⟨[.array 0, .int 3, .int 300]⟩ (bytesMachine #[7]) = .failed f m' ∧
    (bytesMachine #[7]).store.LeftLonger 0 ⟨.byte, false, .bytes #[7]⟩ 3 m'.store := by
  have ran : ArrayOp.fill.run ⟨[.array 0, .int 3, .int 300]⟩ (bytesMachine #[7]) = .failed _ (bytesMachine #[7, 0, 0]) := rfl
  have refused : Refused (run 1) 0 ⟨.byte, false, .bytes #[7]⟩ (bytesMachine #[7]) (bytesMachine #[7, 0, 0]) 3 := .fill rfl ran
  exact ⟨_, _, ran, Refused.leaves refused rfl rfl⟩

/-- An array has one more element after a value was refused. -/
theorem refused_push_longer : ∃ f, ArrayOp.push.run ⟨[.array 0, .int 300]⟩ (bytesMachine #[7]) = .failed f (bytesMachine #[7, 0]) ∧
    ((bytesMachine #[7]).store.array 0).length = 1 ∧ ((bytesMachine #[7, 0]).store.array 0).length = 2 :=
  ⟨_, rfl, rfl, rfl⟩

end Eval

end Arrays

end ScriptEngine
