import ScriptEngine.Proofs.PathTexts
import ScriptEngine.Proofs.PathWrites
/-!
# Removals at paths

A removal at a path takes an entry out of an object, or an item out of a list. An item is taken out in the buffer that the list
lies in, by moving the items behind it; and then the list, which has become shorter, is written to the place where it lies. A
removal looks for the container on its own, and not as a path is read: it takes a step that does not fit a container for the
empty key or the first place. Where there is no such key and no such place, it removes what the path reads.
-/

namespace ScriptEngine

/-- A key that is taken out finds nothing, and other keys find what they did. -/
theorem Json.lookup_erase {α : Type} (k key : Text) (es : List (Text × α)) :
    lookup k (erase key es) = if k = key then none else lookup k es := by
  induction es with
  | nil => simp [erase, lookup]
  | cons e es ih =>
    have ih : lookup k (es.filter fun e => e.1 ≠ key) = _ := ih
    rw [erase, List.filter_cons]
    by_cases gone : e.1 = key
    · rw [if_neg (by simp [gone]), ih]
      by_cases same : k = key
      · rw [if_pos same, if_pos same]
      · rw [if_neg same, if_neg same, lookup, if_neg fun h => same (h.symm.trans gone)]
    · rw [if_pos (by simp [gone]), lookup, ih]
      by_cases same : k = key
      · rw [if_pos same, if_pos same, if_neg fun h => gone (h.trans same)]
      · rw [if_neg same, if_neg same, lookup]

/-! ## Ways into data that does not contain itself -/

namespace Store

variable {s t : Store} {n m x : Node} {p place : Place} {step : Path.Step} {q rest steps : List Path.Step} {b len i : Nat}

/-- What lies at a place that a step names lies in the data. -/
theorem inner_of_place? (named : n.place? step = some p) (lies : s.at? p = some x) : s.Inner x n := by
  cases step with
  | key k =>
    cases n with
    | object a =>
      cases named
      exact inner_of_lookup lies
    | _ => cases named
  | index i =>
    cases n with
    | list b len =>
      obtain ⟨j, less, -, rfl⟩ := Node.place?_list_iff.mp named
      refine List.mem_of_getElem? (i := j) ?_
      rw [children, items, List.getElem?_take, if_pos less, Array.getElem?_toList]
      exact lies
    | _ => cases named

/-- A place on a way into data is a place of data within. -/
theorem mem_route (mem : p ∈ s.route n q) : ∃ y step, s.Within y n ∧ y.place? step = some p := by
  induction q generalizing n with
  | nil => cases mem
  | cons step rest ih =>
    cases named : n.place? step with
    | none =>
      rw [route_none rest named] at mem
      cases mem
    | some p' =>
      rw [route_some rest named] at mem
      obtain rfl | mem := List.mem_cons.mp mem
      · exact ⟨n, step, .refl, named⟩
      cases lies : s.at? p' with
      | none =>
        rw [lies, Option.getD_none, route_null] at mem
        cases mem
      | some x =>
        rw [lies, Option.getD_some] at mem
        obtain ⟨y, step', within, named'⟩ := ih mem
        exact ⟨y, step', within.tail (inner_of_place? named lies), named'⟩

/-- No way into data that does not contain itself passes a place twice. -/
theorem route_nodup (ends : Acc s.Inner n) (q : List Path.Step) : (s.route n q).Nodup := by
  induction q generalizing n with
  | nil => exact List.nodup_nil
  | cons step rest ih =>
    cases named : n.place? step with
    | none =>
      rw [route_none rest named]
      exact List.nodup_nil
    | some p =>
      rw [route_some rest named]
      cases lies : s.at? p with
      | none =>
        rw [Option.getD_none, route_null]
        exact List.nodup_singleton p
      | some x =>
        rw [Option.getD_some]
        have deeper : Acc s.Inner x := ends.inv (inner_of_place? named lies)
        refine List.nodup_cons.mpr ⟨fun again => ?_, ih deeper⟩
        obtain ⟨y, step', within, named'⟩ := mem_route again
        exact apart_of_acc deeper (.head' (inner_of_place? named' lies) within)

theorem follow?_cons_some (found : s.follow? n (step :: q) = some m) :
    ∃ x p, n.place? step = some p ∧ s.at? p = some x ∧ s.follow? x q = some m := by
  obtain ⟨x, into, found⟩ := Option.bind_eq_some_iff.mp found
  rw [stepInto?_eq] at into
  obtain ⟨p, named, lies⟩ := Option.bind_eq_some_iff.mp into
  exact ⟨x, p, named, lies, found⟩

theorem route_append (found : s.follow? n q = some m) : s.route n (q ++ rest) = s.route n q ++ s.route m rest := by
  induction q generalizing n with
  | nil =>
    cases found
    rfl
  | cons step q ih =>
    obtain ⟨x, p, named, lies, found⟩ := follow?_cons_some found
    rw [List.cons_append, route_some _ named, route_some _ named, lies, Option.getD_some, ih found]
    rfl

/-- A list is not reached through its own items when it does not contain itself. -/
theorem item_notMem_route (ends : Acc s.Inner n) (found : s.follow? n q = some (.list b len)) (less : i < len) :
    .item b i ∉ s.route n q := by
  have once := route_nodup ends (q ++ [.index i])
  rw [route_append found, route_some _ (Node.place?_item less)] at once
  exact fun mem => List.disjoint_of_nodup_append once mem List.mem_cons_self

/-- Nor an object through its own entries. -/
theorem entry_notMem_route {a : Nat} (ends : Acc s.Inner n) (found : s.follow? n q = some (.object a)) (k : Text) :
    .entry a k ∉ s.route n q := by
  have once := route_nodup ends (q ++ [.key k])
  rw [route_append found, route_some _ (show (Node.object a).place? (.key k) = some (.entry a k) from rfl)] at once
  exact fun mem => List.disjoint_of_nodup_append once mem List.mem_cons_self

/-- Steps lead from data in whole memory to data in memory. -/
theorem Whole.follow? (whole : s.Whole) (there : n.In s) (found : s.follow? n q = some m) : m.In s := by
  induction q generalizing n with
  | nil =>
    cases found
    exact there
  | cons step q ih =>
    obtain ⟨x, p, named, lies, found⟩ := follow?_cons_some found
    exact ih (whole.inner (inner_of_place? named lies)) found

/-- Steps that lead to something lead through places, when there are any. -/
theorem route_ne_nil (found : s.follow? n q = some m) (goes : q ≠ []) : s.route n q ≠ [] := by
  obtain - | ⟨step, q⟩ := q
  · exact absurd rfl goes
  obtain ⟨x, p, named, -⟩ := follow?_cons_some found
  rw [route_some q named]
  exact List.cons_ne_nil _ _

/-- Steps that lead to something lead to no place behind a list. -/
theorem spare?_of_follow? (found : s.follow? n q = some m) : s.spare? n q = none := by
  induction q generalizing n with
  | nil => rfl
  | cons step q ih =>
    obtain ⟨x, p, named, lies, found⟩ := follow?_cons_some found
    rw [spare?_some _ named, lies]
    exact ih found

end Store

/-! ## Writes to places that are there -/

namespace StoreM

variable {s t : Store} {n m v x : Node} {p place : Place} {step : Path.Step} {rest steps : List Path.Step}

/-- A step that leads to a place puts what comes of the write behind it there. -/
theorem run_setAlong_place {t₁ : Store} {child : Node} (there : n.In s) (named : n.place? step = some place)
    (below : (setAlong ((s.at? place).getD .null) rest v).run.run s = (.ok child, t₁)) (grew : s.Grew t₁) :
    ∃ t, (setAlong n (step :: rest) v).run.run s = (.ok n, t) ∧ t = { t₁ with objects := t.objects, buffers := t.buffers } ∧
      ∀ p, t.at? p = if p = place then some child else t₁.at? p := by
  have there' := there.grew grew
  cases step with
  | key k =>
    cases n with
    | object a =>
      cases named
      refine ⟨{ t₁ with objects := t₁.objects.setIfInBounds a (Json.insert k child (t₁.object a)) }, ?_, rfl, Store.at?_insert there'⟩
      change (setAlong ((Json.lookup k (s.object a)).getD .null) rest v).run.run s = _ at below
      rw [run_setAlong_object, ExceptT.run_bind, StateT.run_bind, below]
      rfl
    | _ => cases named
  | index i =>
    cases n with
    | list b len =>
      obtain ⟨j, less, same, rfl⟩ := Node.place?_list_iff.mp named
      cases same
      refine ⟨_, ?_, rfl, Store.at?_setPlace (Nat.lt_of_lt_of_le less there'.2)⟩
      rw [run_setAlong_list, if_neg (by simp; omega), if_neg (by omega), Int.toNat_natCast, setItem, run_get_bind]
      change (setAlong (((s.buffer b)[j]?).getD .null) rest v).run.run s = _ at below
      dsimp only
      rw [ExceptT.run_bind, StateT.run_bind, below]
      rfl
    | _ => cases named

/-- A write to a place that is there changes no other, and that one unless the steps lead through it before. -/
theorem run_setAlong_route (whole : s.Whole) (there : n.In s) (valid : v.In s) (found : s.follow? n steps = some m)
    (goes : steps ≠ []) : ∃ t, (setAlong n steps v).run.run s = (.ok n, t) ∧ t = { s with objects := t.objects, buffers := t.buffers } ∧
      ∀ p, t.at? p = if (s.route n steps).getLast? = some p ∧ p ∉ (s.route n steps).dropLast then some v else s.at? p := by
  induction steps generalizing n with
  | nil => exact absurd rfl goes
  | cons step rest ih =>
    obtain ⟨x, place, named, lies, found⟩ := Store.follow?_cons_some found
    rw [Store.route_some rest named, lies, Option.getD_some]
    by_cases last : rest = []
    · subst last
      have below : (setAlong ((s.at? place).getD .null) [] v).run.run s = (.ok v, s) := rfl
      obtain ⟨t, run, only, holds⟩ := run_setAlong_place there named below (.refl s)
      refine ⟨t, run, only, fun p => (holds p).trans (if_congr ?_ rfl rfl)⟩
      simp [Store.route, eq_comm]
    · have deeper : x.In s := by simpa only [lies, Option.getD_some] using whole.at? place
      obtain ⟨t₁, below, only₁, holds₁⟩ := ih deeper found last
      obtain ⟨course, -, -⟩ := safe_setAlong rest deeper valid whole
      rw [below] at course
      obtain ⟨t, run, only, holds⟩ := run_setAlong_place there named (by rw [lies]; exact below) course.grew
      have onward := Store.route_ne_nil found last
      obtain ⟨seat, final⟩ := Option.ne_none_iff_exists'.mp (mt List.getLast?_eq_none_iff.mp onward)
      refine ⟨t, run, by rw [only, only₁], fun p => ?_⟩
      rw [holds, holds₁, List.dropLast_cons_of_ne_nil onward, final, List.getLast?_cons, final, Option.getD_some]
      by_cases here : p = place
      · -- on the way back the place gets what lay there before, also when what follows led through it and wrote to it
        rw [if_pos here, if_neg fun h => h.2 (here ▸ List.mem_cons_self), here, lies]
      · rw [if_neg here]
        exact if_congr (and_congr_right fun _ => by rw [List.mem_cons, or_iff_right here]) rfl rfl

/-- So does a write at a path to it, which leaves the json value with the data that it had. -/
theorem run_pathSet_route {box : Nat} {path : Text} (whole : s.Whole) (inside : box < s.boxes.size) (valid : v.In s)
    (parsed : Path.parse path = .ok steps) (goes : steps ≠ []) (found : s.follow? (s.box box) steps = some m) :
    ∃ t, (setAlong (s.box box) steps v).run.run s = (.ok (s.box box), t) ∧ (pathSet box path v).run.run s = (.ok (), t) ∧
      t = { s with objects := t.objects, buffers := t.buffers } ∧
      ∀ p, t.at? p =
        if (s.route (s.box box) steps).getLast? = some p ∧ p ∉ (s.route (s.box box) steps).dropLast then some v else s.at? p := by
  obtain ⟨t, along, only, holds⟩ := run_setAlong_route whole (whole.box box) valid found goes
  have same : t.boxes.setIfInBounds box (s.box box) = t.boxes := by
    refine Array.ext_getElem? fun a => ?_
    rw [Array.getElem?_setIfInBounds]
    split
    · rename_i here
      subst here
      rw [only, if_pos inside, Store.box, Array.getElem?_eq_getElem inside, Option.getD_some]
    · rfl
  refine ⟨t, along, ?_, only, holds⟩
  unfold pathSet
  rw [parsed]
  obtain - | ⟨step, rest⟩ := steps
  · exact absurd rfl goes
  dsimp only
  rw [run_get_bind, ExceptT.run_bind, StateT.run_bind, along]
  change (Except.ok (), { t with boxes := t.boxes.setIfInBounds box (s.box box) }) = _
  rw [same]

/-- What was written at a path that passes no place twice is read there, and it is all that was changed. -/
theorem run_pathSet_found {box : Nat} {path : Text} (whole : s.Whole) (inside : box < s.boxes.size) (valid : v.In s)
    (parsed : Path.parse path = .ok steps) (goes : steps ≠ []) (once : (s.route (s.box box) steps).Nodup)
    (found : s.follow? (s.box box) steps = some m) :
    ∃ t, (pathSet box path v).run.run s = (.ok (), t) ∧ t = { s with objects := t.objects, buffers := t.buffers } ∧
      t.follow? (s.box box) steps = some v ∧
      ∀ p, t.at? p = if (s.route (s.box box) steps).getLast? = some p then some v else s.at? p := by
  obtain ⟨t, along, run, only, holds⟩ := run_pathSet_route whole inside valid parsed goes found
  have passed : (s.passed (s.box box) steps).Nodup := by
    rw [Store.passed, Store.spare?_of_follow? found]
    simpa using once
  have first {p : Place} (last : (s.route (s.box box) steps).getLast? = some p) : p ∉ (s.route (s.box box) steps).dropLast := by
    intro before
    rw [← List.dropLast_append_getLast? p last] at once
    exact List.disjoint_of_nodup_append once before (List.mem_singleton_self p)
  refine ⟨t, run, only, ((wrote_setAlong whole (whole.box box) valid along).reads passed).1, fun p => (holds p).trans ?_⟩
  exact if_congr (and_iff_left_of_imp first) rfl rfl

end StoreM

/-! ## Items that are taken out -/

/-- Where what lies at a place lay before an item was taken out of a list. -/
def Place.origin (b len i : Nat) : Place → Place
  | .item b' j => if b' = b ∧ i ≤ j ∧ j < len - 1 then .item b' (j + 1) else .item b' j
  | p => p

/-- The step that led before an item was taken out of a list to what this one leads to. -/
def Path.Step.origin (i : Nat) : Path.Step → Path.Step
  | .index j => if j < i then .index j else .index (j + 1)
  | step => step

namespace Store

variable {s t : Store} {n : Node} {p : Place} {a b len i : Nat} {k : Text} {es : List (Text × Node)}

/-- Memory in which an item was taken out of the buffer of a list, by moving the items behind it. -/
def without (s : Store) (b len i : Nat) : Store := { s with buffers := s.buffers.modify b (StoreM.shifted · i (len - 1)) }

theorem at?_without (list : (Node.list b len).In s) (p : Place) : (s.without b len i).at? p = s.at? (p.origin b len i) := by
  cases p with
  | entry a k => rfl
  | item b' j =>
    rw [at?, without, buffer_modify, Place.origin]
    by_cases here : b = b'
    · subst here
      rw [if_pos ⟨rfl, list.1⟩, StoreM.getElem?_shifted]
      have fits := list.2
      by_cases moved : i ≤ j ∧ j < len - 1
      · rw [if_pos ⟨moved.1, moved.2, by omega⟩, if_pos ⟨rfl, moved⟩, at?, Array.getElem?_eq_getElem (by omega), Option.getD_some]
      · rw [if_neg fun h => moved ⟨h.1, h.2.1⟩, if_neg fun h => moved h.2, at?]
    · rw [if_neg fun h => here h.1, if_neg fun h => here h.1.symm, at?]

theorem origin_of_notMem {l : List Place} (none : ∀ j < len, .item b j ∉ l) (mem : p ∈ l) : p.origin b len i = p := by
  cases p with
  | entry a k => rfl
  | item b' j =>
    rw [Place.origin, if_neg]
    rintro ⟨rfl, -, less⟩
    exact none j (by omega) mem

/-- A list from which an item was taken out has the others. -/
theorem items_of_origin (moved : ∀ j < len - 1, t.at? (.item b j) = s.at? (Place.origin b len i (.item b j)))
    (inside : i < len) : t.items b (len - 1) = (s.items b len).eraseIdx i := by
  refine List.ext_getElem? fun j => ?_
  rw [List.getElem?_eraseIdx]
  simp only [items, List.getElem?_take, Array.getElem?_toList]
  by_cases less : j < len - 1
  · have here : (t.buffer b)[j]? = s.at? (Place.origin b len i (.item b j)) := moved j less
    rw [if_pos less, here, Place.origin]
    by_cases before : j < i
    · rw [if_neg fun h => absurd h.2.1 (Nat.not_le.mpr before), if_pos before, if_pos (by omega)]
      rfl
    · rw [if_pos ⟨rfl, Nat.not_lt.mp before, less⟩, if_neg before, if_pos (by omega)]
      rfl
  · rw [if_neg less, if_neg (show ¬j < i by omega), if_neg (by omega)]

theorem run_removePlace (list : (Node.list b len).In s) (inside : i < len) :
    (StoreM.removePlace b len i).run.run s = (.ok (.list b (len - 1)), s.without b len i) := by
  have moves : s.buffers.modify b (fun old => old.extract 0 i ++ old.extract (i + 1) len ++ old.extract (len - 1) old.size) =
      s.buffers.modify b (StoreM.shifted · i (len - 1)) :=
    StoreM.modify_congr fun old lies => StoreM.extract_eq_shifted inside (by have fits := list.2; rwa [buffer, lies] at fits)
  rw [without, ← moves]
  rfl

/-- An entry that was taken out of an object is not there, and all other places hold what they held. -/
theorem at?_erase (inside : a < s.objects.size) (p : Place) :
    Store.at? { s with objects := s.objects.setIfInBounds a (Json.erase k (s.object a)) } p = if p = .entry a k then none else s.at? p := by
  cases p with
  | item b i => rfl
  | entry a' k' =>
    rw [at?, at?, object_setIfInBounds inside]
    by_cases same : a' = a
    · subst same
      rw [if_pos rfl, Json.lookup_erase]
      exact if_congr (by simp) rfl rfl
    · rw [if_neg same, if_neg fun h => same (Place.entry.inj h).1]

end Store

/-! ## Removals -/

namespace Store

/-- A removal takes the step for one of the other kind and finds something: a key stands for the first place of a list, and a
number for the empty key of an object. -/
def Mistakes (s : Store) : Node → Path.Step → Prop
  | .object a, .index _ => (Json.lookup "" (s.object a)).isSome
  | .list _ len, .key _ => 0 < len
  | _, _ => False

/-- No step is mistaken on the way. -/
def Takes (s : Store) : Node → List Path.Step → Prop
  | _, [] => True
  | n, step :: rest => ¬s.Mistakes n step ∧ ∀ m, s.stepInto? n step = some m → Takes s m rest

/-- No step of a path is mistaken. The last one may be a key that meets a list, as a removal looks at its kind. -/
structure Suits (s : Store) (n : Node) (before : List Path.Step) (last : Path.Step) : Prop where
  way : s.Takes n before
  last : ∀ i a, last = .index i → s.follow? n before = some (.object a) → Json.lookup "" (s.object a) = none

/-- What taking an entry out of an object leaves: the path to the entry and all paths that go on from it read nothing, and paths
that do not lead through it read what they did. -/
structure EntryRemoved (s : Store) (box : Nat) (before : List Path.Step) (a : Nat) (k : Text) (t : Store) : Prop where
  found : s.follow? (s.box box) before = some (.object a)
  only : t = { s with objects := s.objects.setIfInBounds a (Json.erase k (s.object a)) }
  gone : ∀ rest, t.follow? (t.box box) (before ++ .key k :: rest) = none
  others : ∀ q, .entry a k ∉ s.route (s.box box) q → t.follow? (t.box box) q = s.follow? (s.box box) q

/-- A place that the removal of an item leaves alone: no item moved into it, and the list does not lie in it. -/
def Unmoved (s : Store) (box : Nat) (before : List Path.Step) (b len i : Nat) (p : Place) : Prop :=
  p.origin b len i = p ∧ (s.route (s.box box) before).getLast? ≠ some p

/-- What taking an item out of a list leaves: where the list lay lies the list of the other items. Paths that do not lead to the
list read what they did, and those into it read what now lies one place further down, unless they come through a place of the
buffer in another way. -/
structure ItemRemoved (s : Store) (box : Nat) (before : List Path.Step) (b len i : Nat) (t : Store) : Prop where
  found : s.follow? (s.box box) before = some (.list b len)
  inside : i < len
  shorter : t.follow? (t.box box) before = some (.list b (len - 1))
  items : t.items b (len - 1) = (s.items b len).eraseIdx i
  only : t = { s with boxes := t.boxes, objects := t.objects, buffers := t.buffers }
  boxes : ∀ a, a ≠ box ∨ before ≠ [] → t.box a = s.box a
  kept : ∀ p, s.Unmoved box before b len i p → t.at? p = s.at? p
  others : ∀ q, ¬before <+: q → (∀ p ∈ s.route (s.box box) q, s.Unmoved box before b len i p) →
    t.follow? (t.box box) q = s.follow? (s.box box) q
  below : ∀ step rest, (∀ m, s.follow? (s.box box) (before ++ [step.origin i]) = some m → ∀ p ∈ s.route m rest,
    s.Unmoved box before b len i p) →
    t.follow? (t.box box) (before ++ step :: rest) = s.follow? (s.box box) (before ++ step.origin i :: rest)

/-- What a removal at a path of a json value leaves: it tells whether the path read something, and takes just that out. -/
structure PathRemoved (s : Store) (box : Nat) (path : Text) (r : Except Fault Bool) (t : Store) : Prop where
  answers : r = .ok (s.pathGet? (s.box box) path).isSome
  missing : s.pathGet? (s.box box) path = none → t = s
  removed : ∀ n, s.pathGet? (s.box box) path = some n →
    (∃ before a k, Path.parse path = .ok (before ++ [.key k]) ∧ s.EntryRemoved box before a k t) ∨
    ∃ (before : List Path.Step) (b len i : Nat), Path.parse path = .ok (before ++ [.index i]) ∧ s.ItemRemoved box before b len i t

section Removals

variable {s t : Store} {n m : Node} {box a b len i : Nat} {k path : Text} {before steps : List Path.Step} {last : Path.Step}

/-- From nothing a removal finds no container. -/
theorem parentOf?_null : (s.parentOf? .null steps).getD .null = .null := by
  cases steps <;> rfl

/-- A removal finds the container that the steps before the last lead to, where they fit. -/
theorem parentOf?_of_fits (fits : s.Takes n steps) : (s.parentOf? n steps).getD .null = (s.follow? n steps).getD .null := by
  induction steps generalizing n with
  | nil => rfl
  | cons step rest ih =>
    obtain ⟨fit, onward⟩ := fits
    -- where the step leads to something the removal goes on with it, and where it leads to nothing with null or not at all
    have goes {x : Option Node} (into : s.stepInto? n step = x) :
        (s.parentOf? (x.getD .null) rest).getD .null = (s.follow? n (step :: rest)).getD .null := by
      rw [follow?_cons, into]
      cases x with
      | none => exact parentOf?_null
      | some x => exact ih (onward x into)
    cases n with
    | object a =>
      cases step with
      | index i =>
        -- there is no empty key, so the removal goes on with null
        change (s.parentOf? ((Json.lookup "" (s.object a)).getD .null) rest).getD .null = _
        rw [Option.not_isSome_iff_eq_none.mp fit]
        exact parentOf?_null
      | key k => exact goes rfl
    | list b len =>
      cases step with
      | key k =>
        change (if (0 : Int) < 0 || (len : Int) ≤ 0 then none else _ : Option Node).getD .null = _
        rw [if_pos (by simpa [Mistakes] using fit)]
        rfl
      | index i =>
        change (if i < 0 || (len : Int) ≤ i then none
          else s.parentOf? (((s.items b len)[i.toNat]?).getD .null) rest).getD .null = _
        by_cases inside : 0 ≤ i ∧ i < len
        · rw [if_neg (by simp [inside])]
          exact goes (if_neg (Int.not_lt.mpr inside.1))
        · have nothing : s.stepInto? (.list b len) (.index i) = none := by
            rw [stepInto?_eq, Node.place?, if_neg inside]
            rfl
          rw [if_pos (by simp; omega), follow?_cons, nothing]
          rfl
    | _ => cases step <;> rfl

/-- Taking an entry out of an object that the steps before the last lead to. -/
theorem entryRemoved (whole : s.Whole) (ends : Acc s.Inner (s.box box)) (found : s.follow? (s.box box) before = some (.object a)) :
    s.EntryRemoved box before a k { s with objects := s.objects.setIfInBounds a (Json.erase k (s.object a)) } := by
  have inside : a < s.objects.size := whole.follow? (whole.box box) found
  have same {q : List Path.Step} (out : .entry a k ∉ s.route (s.box box) q) :
      Store.follow? { s with objects := s.objects.setIfInBounds a (Json.erase k (s.object a)) } (s.box box) q =
        s.follow? (s.box box) q := by
    refine (follow?_congr fun p hp => ?_).1
    rw [at?_erase inside, if_neg]
    rintro rfl
    exact out hp
  refine ⟨found, rfl, fun rest => ?_, fun q out => same out⟩
  change Store.follow? _ (s.box box) _ = none
  rw [follow?_append, same (entry_notMem_route ends found k), found, Option.bind_some, follow?_cons, stepInto?_eq]
  change (Store.at? _ (.entry a k)).bind _ = none
  rw [at?_erase inside, if_pos rfl]
  rfl

/-- Memory in which an item was taken out of its buffer, and the list of the others was written where the list lies. -/
theorem itemRemoved (ends : Acc s.Inner (s.box box)) (found : s.follow? (s.box box) before = some (.list b len))
    (inside : i < len) (only : t = { s with boxes := t.boxes, objects := t.objects, buffers := t.buffers })
    (boxes : ∀ a, a ≠ box ∨ before ≠ [] → t.box a = s.box a)
    (shorter : t.follow? (t.box box) before = some (.list b (len - 1)))
    (holds : ∀ p, (s.route (s.box box) before).getLast? ≠ some p → t.at? p = s.at? (p.origin b len i)) :
    s.ItemRemoved box before b len i t := by
  have aside {j : Nat} (less : j < len) : .item b j ∉ s.route (s.box box) before := item_notMem_route ends found less
  have items : t.items b (len - 1) = (s.items b len).eraseIdx i :=
    items_of_origin (fun j less => holds _ fun last => aside (by omega) (List.mem_of_getLast? last)) inside
  have kept (p : Place) (unmoved : s.Unmoved box before b len i p) : t.at? p = s.at? p := by
    rw [holds p unmoved.2, unmoved.1]
  refine ⟨found, inside, shorter, items, only, boxes, kept, fun q apart out => ?_, fun step rest out => ?_⟩
  · have goes : before ≠ [] := fun nil => apart (nil ▸ List.nil_prefix)
    rw [boxes box (.inr goes)]
    exact (follow?_congr fun p hp => kept p (out p hp)).1
  · have into : t.stepInto? (.list b (len - 1)) step = s.stepInto? (.list b len) (step.origin i) := by
      cases step with
      | key k => rfl
      | index j =>
        by_cases low : j < 0
        · rw [Path.Step.origin, if_pos (by omega), stepInto?, stepInto?, if_pos low, if_pos low]
        obtain ⟨j, rfl⟩ := Int.eq_ofNat_of_zero_le (Int.not_lt.mp low)
        have shifts : Path.Step.origin i (.index j) = .index (if j < i then j else j + 1 : Nat) := by
          rw [Path.Step.origin]
          split <;> split <;> first | rfl | omega
        rw [shifts, stepInto?, stepInto?, if_neg low, if_neg (by omega), Int.toNat_natCast, Int.toNat_natCast, items,
          List.getElem?_eraseIdx]
        split <;> rfl
    rw [follow?_append, follow?_append, shorter, found, Option.bind_some, Option.bind_some, follow?_cons, follow?_cons, into]
    cases onward : s.stepInto? (.list b len) (step.origin i) with
    | none => rfl
    | some m =>
      refine (follow?_congr fun p hp => kept p (out m ?_ p hp)).1
      rw [follow?_append, found, Option.bind_some, follow?_cons, onward]
      rfl

end Removals

end Store

namespace StoreM

variable {s t : Store} {box a b len i : Nat} {path : Text} {before steps : List Path.Step} {last : Path.Step} {k : Text}

/-- What a removal does with the container that it finds. -/
def removeFrom (box : Nat) (before : List Path.Step) (last : Path.Step) : Node → StoreM Bool
  | .object a => do
    let s ← get
    if (Json.lookup last.keyOf (s.object a)).isSome then
      setObject a (Json.erase last.keyOf (s.object a))
      pure true
    else pure false
  | .list b len =>
    match last with
    | .key _ => pure false
    | .index i =>
      if i < 0 || (len : Int) ≤ i then pure false
      else do
        let shorter ← removePlace b len i.toNat
        if before.isEmpty then
          setBox box shorter
          pure true
        else
          tryCatch (do
            pathSet box (Path.render before) shorter
            pure true) fun _ => pure false
  | _ => pure false

/-- A removal goes on with the container that it finds. -/
theorem run_pathRemove (parsed : Path.parse path = .ok (before ++ [last])) : (pathRemove box path).run.run s =
    (removeFrom box before last ((s.parentOf? (s.box box) before).getD .null)).run.run s := by
  rw [pathRemove, parsed]
  dsimp only
  rw [List.getLast?_concat]
  dsimp only
  rw [List.dropLast_concat, run_get_bind]
  cases s.parentOf? (s.box box) before with
  | none => rfl
  | some m => cases m <;> rfl

/-- A list that lies in a place is replaced there by a shorter one. -/
theorem run_removeFrom_item (whole : s.Whole) (inside : box < s.boxes.size) (ends : Acc s.Inner (s.box box))
    (parsed : Path.parse path = .ok (before ++ [.index i]))
    (found : s.follow? (s.box box) before = some (.list b len)) (less : i < len) :
    ∃ t, (removeFrom box before (.index i) (.list b len)).run.run s = (.ok true, t) ∧ s.ItemRemoved box before b len i t := by
  have list : (Node.list b len).In s := whole.follow? (whole.box box) found
  have moves := Store.run_removePlace list less
  have lies := Store.at?_without (i := i) list
  obtain ⟨-, whole', given⟩ := safe_removePlace list less whole
  rw [moves] at whole' given
  have way : ∀ p ∈ s.route (s.box box) before, (s.without b len i).at? p = s.at? p := fun p hp => by
    rw [lies, Store.origin_of_notMem (fun j hj => Store.item_notMem_route ends found hj) hp]
  obtain ⟨found', route⟩ := Store.follow?_congr way
  rw [removeFrom, if_neg (by simp; omega), Int.toNat_natCast, ExceptT.run_bind, StateT.run_bind, moves]
  by_cases outer : before = []
  · subst outer
    have here : ((s.boxes.setIfInBounds box (.list b (len - 1)))[box]?).getD .null = .list b (len - 1) := by
      rw [Array.getElem?_setIfInBounds_self_of_lt inside, Option.getD_some]
    refine ⟨_, rfl, Store.itemRemoved ends found less rfl (fun a other => ?_) (congrArg some here) fun p _ => lies p⟩
    rw [Store.box, Store.box, Array.getElem?_setIfInBounds_ne (Ne.symm (other.resolve_right fun h => h rfl))]
    rfl
  · have parsed' := Path.parse_render_prefix parsed (List.prefix_append before _)
    obtain ⟨t, run, only, shorter, holds⟩ := run_pathSet_found whole' inside (given _ rfl) parsed' outer
      (by rw [show (s.without b len i).box box = s.box box from rfl, route]; exact Store.route_nodup ends before)
      (found'.trans found)
    have boxes (a : Nat) : t.box a = s.box a := by rw [only]; rfl
    have written : (tryCatch (do
        pathSet box (Path.render before) (.list b (len - 1))
        pure true) fun _ => pure false : StoreM Bool).run.run (s.without b len i) = (.ok true, t) := by
      rw [ExceptT.run_tryCatch, StateT.run_bind, ExceptT.run_bind, StateT.run_bind, run]
      rfl
    refine ⟨t, ?_, Store.itemRemoved ends found less (by rw [only]; rfl) (fun a _ => boxes a) (by rw [boxes]; exact shorter)
      fun p seat => ?_⟩
    · exact (congrArg (fun x : StoreM Bool => x.run.run (s.without b len i)) (if_neg (by simp [outer]))).trans written
    · rw [holds, show (s.without b len i).box box = s.box box from rfl, route, if_neg seat, lies]

/-- **Removals at paths of json values.** Where no step of a path is mistaken for one of the other kind, a removal tells whether the
path reads something, and takes it out alone. A last step of the other kind reads nothing, and so nothing is taken out. -/
theorem pathRemove_removed (whole : s.Whole) (inside : box < s.boxes.size) (ends : Acc s.Inner (s.box box))
    (fits : ∀ steps, Path.parse path = .ok steps → ∃ before last, steps = before ++ [last] ∧ s.Suits (s.box box) before last) :
    ∃ r t, (pathRemove box path).run.run s = (r, t) ∧ s.PathRemoved box path r t := by
  cases parsed : Path.parse path with
  | error f =>
    have unread := Store.pathGet?_of_error (s := s) (n := s.box box) parsed
    refine ⟨.ok false, s, ?_, by rw [unread]; rfl, fun _ => rfl, fun n found => ?_⟩
    · rw [pathRemove, parsed]
      rfl
    · cases unread.symm.trans found
  | ok steps =>
    obtain ⟨before, last, rfl, suits⟩ := fits steps parsed
    have start : (pathRemove box path).run.run s = _ := run_pathRemove parsed
    rw [Store.parentOf?_of_fits suits.way] at start
    have reads : s.pathGet? (s.box box) path = (s.follow? (s.box box) before).bind (s.stepInto? · last) := by
      rw [Store.pathGet?_of_parse parsed, Store.follow?_append]
      exact congrArg _ (funext fun m => Option.bind_fun_some _)
    have missing (unread : s.pathGet? (s.box box) path = none)
        (run : (removeFrom box before last ((s.follow? (s.box box) before).getD .null)).run.run s = (.ok false, s)) :
        ∃ r t, (pathRemove box path).run.run s = (r, t) ∧ s.PathRemoved box path r t :=
      ⟨_, _, start.trans run, by rw [unread]; rfl, fun _ => rfl, fun n found => by
        cases unread.symm.trans found⟩
    have removed {m : Node} {t : Store} (found : s.follow? (s.box box) before = some m) (there : (s.stepInto? m last).isSome)
        (run : (removeFrom box before last m).run.run s = (.ok true, t))
        (what : (∃ before' a k, before ++ [last] = before' ++ [.key k] ∧ s.EntryRemoved box before' a k t) ∨
          ∃ (before' : List Path.Step) (b len i : Nat), before ++ [last] = before' ++ [.index i] ∧ s.ItemRemoved box before' b len i t) :
        ∃ r t, (pathRemove box path).run.run s = (r, t) ∧ s.PathRemoved box path r t := by
      have read : (s.pathGet? (s.box box) path).isSome := by
        rw [reads, found]
        exact there
      refine ⟨_, t, start.trans (by rw [found]; exact run), by rw [read], fun unread => ?_, fun n _ => ?_⟩
      · rw [unread] at read
        cases read
      · simpa only [parsed, Except.ok.injEq] using what
    cases found : s.follow? (s.box box) before with
    | none => exact missing (by rw [reads, found]; rfl) (by rw [found]; rfl)
    | some m =>
      have nothing (none : s.stepInto? m last = none) (run : (removeFrom box before last m).run.run s = (.ok false, s)) :=
        missing (by rw [reads, found]; exact none) (by rw [found]; exact run)
      cases m with
      | object a =>
        cases last with
        | index i =>
          refine nothing rfl ?_
          rw [removeFrom, run_get_bind]
          exact congrArg (fun x : StoreM Bool => x.run.run s) (if_neg (by simp [Path.Step.keyOf, suits.last i a rfl found]))
        | key k =>
          by_cases there : (Json.lookup k (s.object a)).isSome
          · refine removed found there ?_ (.inl ⟨before, a, k, rfl, Store.entryRemoved whole ends found⟩)
            rw [removeFrom, run_get_bind]
            exact congrArg (fun x : StoreM Bool => x.run.run s) (if_pos there)
          · refine nothing (Option.not_isSome_iff_eq_none.mp there) ?_
            rw [removeFrom, run_get_bind]
            exact congrArg (fun x : StoreM Bool => x.run.run s) (if_neg there)
      | list b len =>
        cases last with
        | key k => exact nothing rfl rfl
        | index i =>
          by_cases inside' : 0 ≤ i ∧ i < len
          · obtain ⟨i, rfl⟩ := Int.eq_ofNat_of_zero_le inside'.1
            have less : i < len := by omega
            obtain ⟨t, run, done⟩ := run_removeFrom_item whole inside ends parsed found less
            have list : (Node.list b len).In s := whole.follow? (whole.box box) found
            have there : i < (s.buffer b).size := Nat.lt_of_lt_of_le less list.2
            refine removed found ?_ run (.inr ⟨before, b, len, i, rfl, done⟩)
            rw [Store.stepInto?_eq, Node.place?_item less, Option.bind_some, Store.at?, Array.getElem?_eq_getElem there]
            rfl
          · refine nothing ?_ ?_
            · rw [Store.stepInto?_eq, Node.place?, if_neg inside']
              rfl
            · rw [removeFrom, if_pos (by simp; omega)]
              rfl
      | _ => exact nothing (by cases last <;> rfl) rfl

/-- An item of a list in an object: behind it the next one is read at its path. -/
theorem pathRemove_item : ∃ s t : Store, s.Whole ∧ 0 < s.boxes.size ∧ Acc s.Inner (s.box 0) ∧
    (∀ steps, Path.parse "l[1]" = .ok steps → ∃ before last, steps = before ++ [last] ∧ s.Suits (s.box 0) before last) ∧
    (pathRemove 0 "l[1]").run.run s = (.ok true, t) ∧ s.PathRemoved 0 "l[1]" (.ok true) t ∧
    t.pathGet? (t.box 0) "l[1]" = some (.int 3) := by
  let s : Store := { Store.initial with
    boxes := #[.object 0], objects := #[[("l", .list 0 3)]], buffers := #[#[.int 1, .int 2, .int 3]] }
  have whole : s.Whole := by decide
  have scalar (i : Int64) : Acc s.Inner (.int i) := .intro _ nofun
  have list : Acc s.Inner (.list 0 3) := .intro _ fun n inner => by
    have inner : n ∈ [.int 1, .int 2, .int 3] := inner
    simp only [List.mem_cons, List.not_mem_nil, or_false] at inner
    obtain rfl | rfl | rfl := inner <;> exact scalar _
  have ends : Acc s.Inner (s.box 0) := .intro _ fun n inner => by
    obtain rfl := List.mem_singleton.mp (show n ∈ [Node.list 0 3] from inner)
    exact list
  have parsed : Path.parse "l[1]" = .ok ([.key "l"] ++ [.index (1 : Nat)]) := rfl
  have fits : ∀ steps, Path.parse "l[1]" = .ok steps →
      ∃ before last, steps = before ++ [last] ∧ s.Suits (s.box 0) before last := by
    intro steps parsed'
    cases parsed.symm.trans parsed'
    exact ⟨_, _, rfl, ⟨id, fun _ _ => trivial⟩, nofun⟩
  obtain ⟨r, t, run, removed⟩ := pathRemove_removed whole Nat.zero_lt_one ends fits
  have answer : r = .ok true := removed.answers
  subst answer
  refine ⟨s, t, whole, Nat.zero_lt_one, ends, fits, run, removed, ?_⟩
  obtain ⟨before, a, k, same, -⟩ | ⟨before, b, len, i, same, taken⟩ := removed.removed (.int 2) rfl
  · cases (List.append_inj' (Except.ok.inj (parsed.symm.trans same)) rfl).2
  · obtain ⟨rfl, last⟩ := List.append_inj' (Except.ok.inj (parsed.symm.trans same)) rfl
    cases last
    rw [Store.pathGet?_of_parse parsed]
    exact taken.below (.index (1 : Nat)) [] fun _ _ _ none => absurd none List.not_mem_nil

/-- A key that meets a list is taken for its first place, and a number that meets an object for the empty key: what the first
removal takes out was not read at its path, and the second tells that it took nothing out, but leaves the list with its last item
twice. -/
theorem pathRemove_other_kind :
    (∃ s t : Store, s.Whole ∧ s.pathGet? (s.box 0) "a.b" = none ∧ (pathRemove 0 "a.b").run.run s = (.ok true, t) ∧
      s.pathGet? (s.box 0) "[0].b" = some (.int 1) ∧ t.pathGet? (t.box 0) "[0].b" = none) ∧
    ∃ s t : Store, s.Whole ∧ s.pathGet? (s.box 0) "[0][0]" = none ∧ (pathRemove 0 "[0][0]").run.run s = (.ok false, t) ∧
      s.items 0 2 = [.int 1, .int 2] ∧ t.items 0 2 = [.int 2, .int 2] := by
  constructor
  · let s : Store := { Store.initial with boxes := #[.list 0 1], objects := #[[("b", .int 1)]], buffers := #[#[.object 0]] }
    exact ⟨s, { s with objects := #[[]] }, by decide, rfl, rfl, rfl, rfl⟩
  · let s : Store := { Store.initial with boxes := #[.object 0], objects := #[[("", .list 0 2)]], buffers := #[#[.int 1, .int 2]] }
    let t : Store := { s with buffers := #[#[.int 2, .int 2]] }
    have parsed : Path.parse "[0][0]" = .ok ([.index 0] ++ [.index 0]) := rfl
    have moved : (removePlace 0 2 0).run.run s = (.ok (.list 0 1), t) := rfl
    have run : (removeFrom 0 [.index 0] (.index 0) (.list 0 2)).run.run s = (.ok false, t) := by
      rw [removeFrom, if_neg (by decide), Int.toNat_zero, ExceptT.run_bind, StateT.run_bind, moved]
      rfl
    exact ⟨s, t, by decide, rfl, (run_pathRemove parsed).trans run, rfl, rfl⟩

end StoreM

end ScriptEngine
