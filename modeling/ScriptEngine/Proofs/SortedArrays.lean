import ScriptEngine.Proofs.PlaceWrites
import ScriptEngine.Proofs.ReadValues
import ScriptEngine.Proofs.RefusedWrites
import ScriptEngine.Proofs.StableSorting
/-!
# Arrays that are sorted

An array is sorted by writing its sorted elements to their places one by one. Every layout takes its own elements as they are, so
none of the writes fails and no array is left half written. Whether two elements cannot be compared is known before the first write.
-/

namespace ScriptEngine

/-- What lies in a place is known, so a change of it is known beforehand. -/
theorem modify_eq_setIfInBounds {α : Type} {as : Array α} {i : Nat} {x : α} (lies : as[i]? = some x) (f : α → α) :
    as.modify i f = as.setIfInBounds i (f x) := by
  refine Array.ext_getElem? fun k => ?_
  rw [Array.getElem?_modify, Array.getElem?_setIfInBounds]
  by_cases here : i = k
  · subst here
    have inside := (Array.getElem?_eq_some_iff.mp lies).1
    rw [if_pos rfl, if_pos rfl, if_pos inside, lies, Option.map_some]
  · rw [if_neg here, if_neg here]

/-- Memory in which an array has other elements. -/
def Store.withCells (s : Store) (a : Nat) (d : ArrayData) (c : Cells) : Store :=
  { s with arrays := s.arrays.setIfInBounds a { d with cells := c } }

/-! ## Own elements -/

/-- The values that elements of a layout are: packed ones are bytes, truth values or ints. -/
def Kind.Forms : Kind → Value → Prop
  | .byteArray, v => ∃ n, v = .byte n
  | .bitmap, v => ∃ b, v = .bool b
  | .intMap, v => ∃ n, v = .int n
  | _, _ => True

namespace Cells

variable {c : Cells} {k kind : Kind} {v : Value} {i : Nat}

theorem forms_of_mem (mem : v ∈ c.toList) : c.kind.Forms v := by
  cases c with
  | boxed items => trivial
  | bytes items =>
    rcases List.mem_map.mp mem with ⟨n, -, rfl⟩
    exact ⟨n, rfl⟩
  | bits octets len =>
    rcases List.mem_map.mp mem with ⟨j, -, rfl⟩
    exact ⟨_, rfl⟩
  | ints items =>
    rcases List.mem_map.mp mem with ⟨n, -, rfl⟩
    exact ⟨n, rfl⟩

/-- A value of the form of the elements lies in its place as it is. -/
theorem put_forms (fits : c.FitsFor k) (inside : i < c.length) (forms : c.kind.Forms v) (kind : Kind) :
    ∃ c', c.put i kind v = .ok c' ∧ c'.FitsFor k ∧ c'.kind = c.kind ∧ c'.toList = c.toList.set i v := by
  have put : ∃ c', c.put i kind v = .ok c' ∧ c'.toList = c.toList.set i v := by
    cases c with
    | boxed items => exact ⟨_, rfl, Array.toList_setIfInBounds ..⟩
    | bytes items =>
      rcases forms with ⟨n, rfl⟩
      have range := n.toNat_lt
      have counts : (Value.byte n).CountsAs n.toNat := .inr ⟨_, rfl, by simp [Int64.toInt_ofNat_of_lt (show n.toNat < 2 ^ 63 by omega)]⟩
      refine ⟨_, map_eq_ok.mpr ⟨_, (packed_eq_ok (by decide)).mpr ⟨counts, by omega, by omega⟩, rfl⟩, ?_⟩
      simp [toList, List.map_set]
    | ints items =>
      rcases forms with ⟨n, rfl⟩
      have counts : (Value.int n).CountsAs n.toInt := .inr ⟨_, rfl, by simp⟩
      refine ⟨_, map_eq_ok.mpr ⟨_, (packed_eq_ok (by decide)).mpr ⟨counts, n.le_toInt, Int.le_of_lt_add_one n.toInt_lt⟩, rfl⟩, ?_⟩
      simp [toList, List.map_set]
    | bits octets len =>
      rcases forms with ⟨b, rfl⟩
      have room : len ≤ 8 * octets.size := fits.2
      have inside : i < len := inside
      exact ⟨_, rfl, toList_set_bits (by omega) len⟩
  rcases put with ⟨c', put, elements⟩
  exact ⟨c', put, (under_put fits inside put).1, kind_put put, elements⟩

end Cells

namespace StoreM

variable {s : Store} {a i : Nat} {d : ArrayData} {v : Value}

/-- An array takes a value as it is when its kind holds the value and its elements are of that form. -/
theorem arraySet_own (lies : s.arrays[a]? = some d) (fits : d.cells.FitsFor d.element) (inside : i < d.length)
    (held : d.element = .any ∨ d.element = .array ∨ s.Holds d.element v) (forms : d.cells.kind.Forms v) :
    ∃ c, (arraySet a i v).run.run s = (.ok (), s.withCells a d c) ∧ c.FitsFor d.element ∧ c.kind = d.cells.kind ∧
      c.toList = d.cells.toList.set i v := by
  have converted : (forElement d.element d.cells v).run.run s = (.ok v, s) := by
    unfold forElement
    split
    · split
      · rfl
      · rename_i other
        simp only [Bool.or_eq_true, decide_eq_true_eq, not_or] at other
        exact coerce_of_holds ((held.resolve_left other.1).resolve_left other.2)
    · rfl
  rcases Cells.put_forms fits inside forms (s.kindOf v) with ⟨c, put, fits', laid, elements⟩
  refine ⟨c, ?_, fits', laid, elements⟩
  have here := Store.array_of_lies lies
  rw [arraySet_inside lies inside, ExceptT.run_bind, StateT.run_bind, converted]
  change (arrayPut a i v).run.run s = _
  rw [arrayPut, run_kindOf, run_get_bind, here, putFault?_of_put put]
  show (Except.ok (), { s with arrays := s.arrays.modify a _ }) = (Except.ok (), s.withCells a d c)
  rw [modify_eq_setIfInBounds lies]
  dsimp only
  rw [put]
  rfl

end StoreM

namespace Store

variable {s : Store} {a : Nat} {d : ArrayData} {c c' : Cells}

theorem withCells_self (lies : s.arrays[a]? = some d) : s.withCells a d d.cells = s := by
  show { s with arrays := s.arrays.setIfInBounds a d } = s
  rw [setIfInBounds_of_lies lies]

theorem withCells_lies (lies : s.arrays[a]? = some d) (c : Cells) : (s.withCells a d c).arrays[a]? = some { d with cells := c } := by
  show (s.arrays.setIfInBounds a _)[a]? = _
  rw [Array.getElem?_setIfInBounds, if_pos rfl, if_pos (Array.getElem?_eq_some_iff.mp lies).1]

theorem withCells_again : (s.withCells a d c).withCells a { d with cells := c } c' = s.withCells a d c' := by
  show { s with arrays := (s.arrays.setIfInBounds a _).setIfInBounds a _ } = _
  rw [Array.setIfInBounds_setIfInBounds]
  rfl

/-- Values are of the kinds that they were of when an array has got other elements in the same layout. -/
theorem kindOf_withCells (lies : s.arrays[a]? = some d) (laid : c.kind = d.cells.kind) (v : Value) :
    (s.withCells a d c).kindOf v = s.kindOf v := by
  cases v with
  | array b =>
    show ((s.withCells a d c).array b).cells.kind = (s.array b).cells.kind
    by_cases here : b = a
    · rw [here, array_of_lies lies, array_of_lies (withCells_lies lies c)]
      exact laid
    · have same : (s.withCells a d c).arrays[b]? = s.arrays[b]? := by
        show (s.arrays.setIfInBounds a _)[b]? = _
        rw [Array.getElem?_setIfInBounds, if_neg (Ne.symm here)]
      rw [array, array, same]
  | _ => rfl

end Store

/-! ## Arguments that are as they must be -/

namespace Signature

variable {s : Store} {v : Value} {p : Param} {name : Text}

/-- A value that the kind of its parameter holds is prepared as it is. -/
theorem prepareOne_of_holds (keep : p.keep = false) (present : v.isNull = false) (held : s.Holds p.kind v) :
    (prepareOne name p v).run.run s = (.ok v, s) := by
  rw [prepareOne, if_neg (by rw [present]; exact Bool.false_ne_true), StoreM.run_kindOf, keep]
  show (tryCatch (StoreM.coerce v p.kind) _ : StoreM Value).run.run s = (.ok v, s)
  rw [ExceptT.run_tryCatch, StateT.run_bind, StoreM.coerce_of_holds held]
  rfl

/-- A parameter that may be left out is null then. -/
theorem prepareOne_left_out (optional : p.mandatory = false) : (prepareOne name p .null).run.run s = (.ok .null, s) := by
  rw [prepareOne, if_pos (show Value.null.isNull = true from rfl), optional]
  rfl

theorem prepareAll_pair {q : Param} {w : Value} {args : List Value} (first : (prepareOne name p (args.headD .null)).run.run s = (.ok v, s))
    (second : (prepareOne name q ((args.drop 1).headD .null)).run.run s = (.ok w, s)) :
    (prepareAll name [p, q] args).run.run s = (.ok [v, w], s) := by
  rw [prepareAll, ExceptT.run_bind, StateT.run_bind, first]
  show (prepareAll name [q] (args.drop 1) >>= _ : StoreM (List Value)).run.run s = _
  rw [ExceptT.run_bind, StateT.run_bind, prepareAll, ExceptT.run_bind, StateT.run_bind, second]
  rfl

end Signature

/-! ## Sorting an array -/

namespace ArrayOp

variable {m : Machine} {a : Nat} {d : ArrayData} {vs : List Value}

/-- Elements that an array takes as they are are written to its places one by one, from some place on. -/
theorem stores_all (n : Nat) (lies : m.store.arrays[a]? = some d) (fits : d.cells.FitsFor d.element) (room : n + vs.length ≤ d.length)
    (each : ∀ v ∈ vs, (d.element = .any ∨ d.element = .array ∨ m.store.Holds d.element v) ∧ d.cells.kind.Forms v) :
    ∃ c, ((vs.zipIdx n).forM fun (v, i) => Exec.onStore (StoreM.arraySet a i v)) m =
        .done () { m with store := m.store.withCells a d c } ∧ c.kind = d.cells.kind ∧
      c.toList = d.cells.toList.take n ++ vs ++ d.cells.toList.drop (n + vs.length) := by
  induction vs generalizing m d n with
  | nil =>
    refine ⟨d.cells, ?_, rfl, by simp⟩
    rw [Store.withCells_self lies]
    rfl
  | cons v vs ih =>
    rw [List.length_cons] at room
    have within : n < d.cells.toList.length := by
      rw [Cells.length_toList]
      exact Nat.lt_of_lt_of_le (by omega) room
    rcases each v (List.mem_cons_self ..) with ⟨held, forms⟩
    rcases StoreM.arraySet_own lies fits (i := n) (by omega) held forms with ⟨c, run, fits', laid, elements⟩
    have lies' := Store.withCells_lies lies c
    have length : c.length = d.length := by
      rw [← Cells.length_toList, elements, List.length_set, Cells.length_toList]
      rfl
    -- the elements that are left are held as before, for no value has changed its kind
    have rest : ∀ w ∈ vs, (d.element = .any ∨ d.element = .array ∨ (m.store.withCells a d c).Holds d.element w) ∧ c.kind.Forms w := by
      intro w mem
      rcases each w (List.mem_cons_of_mem _ mem) with ⟨held, forms⟩
      refine ⟨?_, laid ▸ forms⟩
      unfold Store.Holds at held ⊢
      rwa [Store.kindOf_withCells lies laid]
    rcases ih (m := { m with store := m.store.withCells a d c }) (n + 1) lies' fits'
      (by show n + 1 + vs.length ≤ c.length; omega) rest with ⟨c', runs, laid', elements'⟩
    refine ⟨c', ?_, laid'.trans laid, ?_⟩
    · rw [Store.withCells_again] at runs
      exact (Exec.bind_of_done (Exec.lift_ok run)).trans runs
    · rw [elements']
      show c.toList.take (n + 1) ++ vs ++ c.toList.drop (n + 1 + vs.length) = _
      have front : (d.cells.toList.set n v).take (n + 1) = d.cells.toList.take n ++ [v] := by
        rw [List.take_set, List.take_succ_eq_append_getElem within, List.set_append_right _ _ (by rw [List.length_take]; omega),
          List.length_take, Nat.min_eq_left (Nat.le_of_lt within), Nat.sub_self]
        rfl
      rw [elements, front, List.drop_set_of_lt (by omega), List.length_cons, Nat.add_right_comm, Nat.add_assoc]
      simp only [List.append_assoc, List.singleton_append]

/-- The arguments by which an array is to be sorted: in rising order unless it is said otherwise. -/
def Asks (rest : List Value) (ascending : Bool) : Prop := ascending = true ∧ (rest = [] ∨ rest = [.null]) ∨ rest = [.bool ascending]

theorem prepare_sort {rest : List Value} {asc : Bool} (asks : Asks rest asc) (s : Store) :
    ∃ last, (sort.signature.prepare (.array a :: rest)).run.run s = (.ok [.array a, last], s) ∧
      (⟨[.array a, last]⟩ : Args).boolOr 1 true = asc := by
  have whole : (Signature.prepareOne "array.sort" (Signature.required "array" .array) (.array a)).run.run s = (.ok (.array a), s) :=
    Signature.prepareOne_of_holds rfl rfl (.inr (.inl (.inr (.inr ⟨rfl, Cells.isArray_kind _⟩))))
  have blank : (Signature.prepareOne "array.sort" (Signature.optional "ascending" .bool) .null).run.run s = (.ok .null, s) :=
    Signature.prepareOne_left_out rfl
  rcases asks with ⟨rfl, rfl | rfl⟩ | rfl
  · exact ⟨.null, Signature.prepareAll_pair whole blank, rfl⟩
  · exact ⟨.null, Signature.prepareAll_pair whole blank, rfl⟩
  · have given : (Signature.prepareOne "array.sort" (Signature.optional "ascending" .bool) (.bool asc)).run.run s = (.ok (.bool asc), s) :=
      Signature.prepareOne_of_holds rfl rfl (.inr (.inl (.inr (.inl rfl))))
    exact ⟨.bool asc, Signature.prepareAll_pair whole given, rfl⟩

/-- A call sorts the array that it is given. -/
theorem call_sort {rest : List Value} {asc : Bool} (asks : Asks rest asc) (sleep : Nat → Exec Unit) (m : Machine) :
    Builtin.call sleep "array.sort" (.array a :: rest) m = (do sortIn a asc; pure .null : Exec Value) m := by
  rcases prepare_sort (a := a) asks m.store with ⟨last, prepared, ascending⟩
  refine (Builtin.call_of_prepared sleep (.array .sort) prepared).trans ?_
  show ArrayOp.sort.run ⟨[.array a, last]⟩ m = _
  rw [ArrayOp.run, Exec.bind_of_done (run_target rfl), ascending]

/-- An array is sorted by sorting its elements and putting them back one after the other. -/
theorem sortIn_of_lies (lies : m.store.arrays[a]? = some d) (asc : Bool) :
    sortIn a asc m = (match Sorting.sort m.store asc d.cells.toList with
      | (_, some f) => throw f
      | (sorted, none) => sorted.zipIdx.forM fun (v, i) => Exec.onStore (StoreM.arraySet a i v) : Exec Unit) m := by
  rw [← Store.array_of_lies lies]
  rfl

/-- **Sorting an array.** An array without doubles is sorted if any two of its elements can be compared, wherever they stand. It holds
its elements in rising or in falling order then, those that tie in the sequence that they had, and nothing else has changed. If
two elements cannot be compared, the call fails with a fault of type, and nothing at all has changed. -/
theorem sort_stable {rest : List Value} {asc : Bool} (asks : Asks rest asc) (lies : m.store.arrays[a]? = some d)
    (fits : d.cells.FitsFor d.element) (held : m.store.HoldsElements d) (narrow : ∀ v ∈ d.cells.toList, m.store.kindOf v ≠ .double)
    (sleep : Nat → Exec Unit) :
    (d.cells.toList.Pairwise m.store.Comparable →
      ∃ c, Builtin.call sleep "array.sort" (.array a :: rest) m = .done .null { m with store := m.store.withCells a d c } ∧
        m.store.Sorted asc d.cells.toList c.toList ∧ c.length = d.length) ∧
    (¬d.cells.toList.Pairwise m.store.Comparable →
      ∃ f, Builtin.call sleep "array.sort" (.array a :: rest) m = .failed f m ∧ f.kind = .type) := by
  have sorts := sortIn_of_lies lies asc
  rw [call_sort asks]
  rcases Sorting.sort_sorted narrow asc with ⟨all, some⟩
  constructor
  · intro comparable
    rcases all comparable with ⟨sorted, run, ordered⟩
    have length : sorted.length = d.length := ordered.perm.length_eq.trans (Cells.length_toList _)
    have each : ∀ v ∈ sorted, (d.element = .any ∨ d.element = .array ∨ m.store.Holds d.element v) ∧ d.cells.kind.Forms v := by
      intro v mem
      have mem := ordered.perm.mem_iff.mp mem
      refine ⟨?_, Cells.forms_of_mem mem⟩
      rcases held with any | array | held
      · exact .inl any
      · exact .inr (.inl array)
      · exact .inr (.inr (held v mem))
    rcases stores_all 0 lies fits (by omega) each with ⟨c, runs, -, elements⟩
    have elements : c.toList = sorted := by
      rw [elements, List.take_zero, List.nil_append, Nat.zero_add, List.drop_eq_nil_of_le, List.append_nil]
      rw [Cells.length_toList]
      exact Nat.le_of_eq length.symm
    have done : sortIn a asc m = .done () { m with store := m.store.withCells a d c } := by
      rw [sorts, run]
      exact runs
    exact ⟨c, Exec.bind_of_done done, elements ▸ ordered, by rw [← Cells.length_toList, elements, length]⟩
  · intro apart
    rcases some apart with ⟨sorted, f, run, type⟩
    refine ⟨f, ?_, type⟩
    have failed : sortIn a asc m = .failed f m := by
      rw [sorts, run]
      rfl
    show Exec.andThen (sortIn a asc) _ m = _
    rw [Exec.andThen, failed]

/-- A machine that holds one array. -/
def oneArray (d : ArrayData) : Machine :=
  { Machine.initial (Host.initial default default) 10 "" with store := { Store.initial with arrays := #[d] } }

/-- Two ones of different kinds tie, bytes that lie packed are sorted where they lie, and a text among numbers cannot be compared. -/
theorem sort_stable_ties :
    (∃ c, Builtin.call (fun _ => pure ()) "array.sort" [.array 0] (oneArray ⟨.any, false, .boxed #[.long 2, .int 1, .long 1]⟩) =
          .done .null { oneArray ⟨.any, false, .boxed #[.long 2, .int 1, .long 1]⟩ with
            store := (oneArray ⟨.any, false, .boxed #[.long 2, .int 1, .long 1]⟩).store.withCells 0
              ⟨.any, false, .boxed #[.long 2, .int 1, .long 1]⟩ c } ∧
        (oneArray ⟨.any, false, .boxed #[.long 2, .int 1, .long 1]⟩).store.Sorted true [.long 2, .int 1, .long 1] c.toList ∧
        c.length = 3) ∧
      (∃ c, Builtin.call (fun _ => pure ()) "array.sort" [.array 0, .bool false] (oneArray ⟨.byte, true, .bytes #[1, 200, 1]⟩) =
          .done .null { oneArray ⟨.byte, true, .bytes #[1, 200, 1]⟩ with
            store := (oneArray ⟨.byte, true, .bytes #[1, 200, 1]⟩).store.withCells 0 ⟨.byte, true, .bytes #[1, 200, 1]⟩ c } ∧
        (oneArray ⟨.byte, true, .bytes #[1, 200, 1]⟩).store.Sorted false [.byte 1, .byte 200, .byte 1] c.toList ∧ c.length = 3) ∧
      ∃ f, Builtin.call (fun _ => pure ()) "array.sort" [.array 0, .bool false]
            (oneArray ⟨.any, false, .boxed #[.long 2, .string "b", .long 1]⟩) =
          .failed f (oneArray ⟨.any, false, .boxed #[.long 2, .string "b", .long 1]⟩) ∧ f.kind = .type := by
  refine ⟨?_, ?_, ?_⟩
  · refine (sort_stable (d := ⟨.any, false, .boxed #[.long 2, .int 1, .long 1]⟩) (.inl ⟨rfl, .inl rfl⟩) rfl rfl (.inl rfl) ?_ _).1 ?_
    · decide
    · exact .cons (by rintro v (_ | ⟨_, _ | ⟨_, ⟨⟩⟩⟩) <;> exact ⟨_, rfl⟩) (.cons (by rintro v (_ | ⟨_, ⟨⟩⟩); exact ⟨_, rfl⟩) (.cons nofun .nil))
  · refine (sort_stable (d := ⟨.byte, true, .bytes #[1, 200, 1]⟩) (.inr rfl) rfl rfl (.inr (.inr ?_)) ?_ _).1 ?_
    · rintro v (_ | ⟨_, _ | ⟨_, _ | ⟨_, ⟨⟩⟩⟩⟩) <;> exact .inr (.inl (.inr (.inl rfl)))
    · decide
    · exact .cons (by rintro v (_ | ⟨_, _ | ⟨_, ⟨⟩⟩⟩) <;> exact ⟨_, rfl⟩) (.cons (by rintro v (_ | ⟨_, ⟨⟩⟩); exact ⟨_, rfl⟩) (.cons nofun .nil))
  · refine (sort_stable (d := ⟨.any, false, .boxed #[.long 2, .string "b", .long 1]⟩) (.inr rfl) rfl rfl (.inl rfl) ?_ _).2 ?_
    · decide
    · intro all
      rcases (List.pairwise_cons.mp all).1 (.string "b") (by simp) with ⟨o, compared⟩
      cases compared

end ArrayOp

end ScriptEngine
