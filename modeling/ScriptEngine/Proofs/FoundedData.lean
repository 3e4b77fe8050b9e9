import Mathlib.Algebra.GroupWithZero.Nat
import Mathlib.Data.Finset.Card
import Mathlib.Logic.Relation
import ScriptEngine.Proofs.SatisfiedShapes
/-!
# Data that does not contain itself

Json objects and lists hold each other by their addresses, and whoever stores data stores the address. Memory is founded as
long as no data lies in itself at any depth. New containers cannot break that, as nothing that was there can hold them. What
can is a write of data to a container that lies in it.
-/

namespace ScriptEngine

/-! ## Addresses in memory -/

/-- Json data is none with an address outside memory, and a list is no longer than its buffer. -/
def Node.In (s : Store) : Node → Prop
  | .object a => a < s.objects.size
  | .list b len => b < s.buffers.size ∧ len ≤ (s.buffer b).size
  | .null | .bool _ | .int _ | .double _ | .text _ => True

instance (s : Store) : DecidablePred (Node.In s)
  | .object a => inferInstanceAs (Decidable (a < s.objects.size))
  | .list b len => inferInstanceAs (Decidable (b < s.buffers.size ∧ len ≤ (s.buffer b).size))
  | .null | .bool _ | .int _ | .double _ | .text _ => .isTrue trivial

namespace Store

/-- No json data in memory has an address that leads outside. -/
structure Whole (s : Store) : Prop where
  boxes : ∀ n ∈ s.boxes, n.In s
  objects : ∀ es ∈ s.objects, ∀ e ∈ es, e.2.In s
  buffers : ∀ places ∈ s.buffers, ∀ n ∈ places, n.In s

instance (s : Store) : Decidable s.Whole :=
  decidable_of_iff ((∀ n ∈ s.boxes, n.In s) ∧ (∀ es ∈ s.objects, ∀ e ∈ es, e.2.In s) ∧ ∀ places ∈ s.buffers, ∀ n ∈ places, n.In s)
    ⟨fun h => ⟨h.1, h.2.1, h.2.2⟩, fun h => ⟨h.boxes, h.objects, h.buffers⟩⟩

/-- Whatever container lies in memory lies in other memory, which may hold more. -/
structure Grew (s t : Store) : Prop where
  objects : s.objects.size ≤ t.objects.size
  buffers : s.buffers.size ≤ t.buffers.size
  places : ∀ b, (s.buffer b).size ≤ (t.buffer b).size

variable {s t u : Store}

@[refl]
theorem Grew.refl (s : Store) : s.Grew s :=
  ⟨Nat.le_refl _, Nat.le_refl _, fun _ => Nat.le_refl _⟩

theorem Grew.trans (h : s.Grew t) (k : t.Grew u) : s.Grew u where
  objects := Nat.le_trans h.objects k.objects
  buffers := Nat.le_trans h.buffers k.buffers
  places b := Nat.le_trans (h.places b) (k.places b)

end Store

theorem Node.In.grew {s t : Store} (h : s.Grew t) {n : Node} (there : n.In s) : n.In t := by
  cases n with
  | object a => exact Nat.lt_of_lt_of_le there h.objects
  | list b => exact ⟨Nat.lt_of_lt_of_le there.1 h.buffers, Nat.le_trans there.2 (h.places b)⟩
  | _ => trivial

namespace Store

/-! ## Data in data -/

/-- The data that lies directly in an object or a list: the values of its entries, or its items. -/
def children (s : Store) : Node → List Node
  | .object a => (s.object a).map (·.2)
  | .list b len => s.items b len
  | _ => []

/-- Data lies directly in other data. -/
def Inner (s : Store) (x y : Node) : Prop := x ∈ s.children y

/-- Data lies in other data at some depth, or is that data. -/
def Within (s : Store) : Node → Node → Prop := Relation.ReflTransGen s.Inner

/-- No data lies in itself, at any depth. -/
def Founded (s : Store) : Prop := WellFounded s.Inner

variable {s t u : Store} {x y n : Node}

/-- Data from which all ways down end lies in nothing that lies in it. -/
theorem apart_of_acc (h : Acc s.Inner n) : ¬Relation.TransGen s.Inner n n := by
  have ends := h.transGen
  clear h
  induction ends with
  | intro n _ ih => exact fun inside => ih n inside inside

/-- An object with something in it lies in memory. -/
theorem object_of_inner {a : Nat} (inner : s.Inner x (.object a)) : a < s.objects.size := by
  by_contra out
  rw [Inner, children, object, Array.getElem?_eq_none (Nat.not_lt.mp out)] at inner
  cases inner

/-- So does the buffer of a list with something in it. -/
theorem buffer_of_inner {b len : Nat} (inner : s.Inner x (.list b len)) : b < s.buffers.size := by
  by_contra out
  rw [Inner, children, items, buffer, Array.getElem?_eq_none (Nat.not_lt.mp out)] at inner
  simp at inner

/-- What lies in data in whole memory is in memory. -/
theorem Whole.inner (h : s.Whole) (inner : s.Inner x y) : x.In s := by
  cases y with
  | object a =>
    obtain ⟨e, he, rfl⟩ := List.mem_map.mp inner
    rw [Store.object] at he
    cases lies : s.objects[a]? with
    | none =>
      rw [lies] at he
      cases he
    | some es =>
      rw [lies] at he
      exact h.objects es (Array.mem_of_getElem? lies) e he
  | list b len =>
    have inner := List.mem_of_mem_take (show x ∈ s.items b len from inner)
    rw [Store.buffer] at inner
    cases lies : s.buffers[b]? with
    | none =>
      rw [lies] at inner
      cases inner
    | some places =>
      rw [lies] at inner
      exact h.buffers places (Array.mem_of_getElem? lies) x (Array.mem_toList_iff.mp inner)
  | _ => cases inner

theorem Whole.within (h : s.Whole) (inside : s.Within x n) (there : n.In s) : x.In s := by
  induction inside using Relation.ReflTransGen.head_induction_on with
  | refl => exact there
  | head inner _ _ => exact h.inner inner

theorem Whole.box (h : s.Whole) (a : Nat) : (s.box a).In s := by
  rw [Store.box]
  cases lies : s.boxes[a]? with
  | none => trivial
  | some n => exact h.boxes n (Array.mem_of_getElem? lies)

theorem Whole.object (h : s.Whole) {a : Nat} {e : Text × Node} (he : e ∈ s.object a) : e.2.In s :=
  h.inner (y := .object a) (List.mem_map_of_mem he)

theorem Whole.items (h : s.Whole) {b len : Nat} {n : Node} (hn : n ∈ s.items b len) : n.In s :=
  h.inner (y := .list b len) hn

theorem Whole.buffer (h : s.Whole) {b : Nat} {n : Node} (hn : n ∈ s.buffer b) : n.In s := by
  rw [Store.buffer] at hn
  cases lies : s.buffers[b]? with
  | none =>
    rw [lies] at hn
    exact absurd hn (Array.not_mem_empty n)
  | some places =>
    rw [lies] at hn
    exact h.buffers places (Array.mem_of_getElem? lies) n hn

/-! ## What becomes of data -/

/-- Of what lies directly in data, some may be missing, the rest was there before and may have settled, or it is new: then
it was put into one of the opened containers. -/
def Opens (s : Store) (opened put : Node → Prop) (t : Store) : Prop :=
  ∀ x y, t.Inner x y → (∃ x₀, s.Inner x₀ y ∧ x₀.Settles x) ∨ opened y ∧ put x

theorem children_settles {x₀ x : Node} (settles : x₀.Settles x) : x = x₀ ∨ ∀ s : Store, s.children x = [] := by
  obtain same | ⟨_, k, rfl, rfl⟩ := settles.cases
  · exact .inl same
  · exact .inr fun _ => rfl

/-- In later memory, containers that were there hold what they held, settled perhaps. -/
theorem Later.inner {written : Nat → Prop} (later : s.Later written t) (inner : t.Inner x y)
    (objects : ∀ a, y = .object a → a < s.objects.size) (buffers : ∀ b len, y = .list b len → b < s.buffers.size) :
    ∃ x₀, s.Inner x₀ y ∧ x₀.Settles x := by
  cases y with
  | object a =>
    have lies := Array.getElem?_eq_getElem (objects a rfl)
    obtain ⟨es, lies', settles⟩ := later.objects a _ lies
    obtain ⟨e, he, rfl⟩ := List.mem_map.mp inner
    rw [object, lies', Option.getD_some] at he
    obtain ⟨e₀, he₀, -, same⟩ := forall₂_exists_left settles he
    refine ⟨e₀.2, List.mem_map_of_mem ?_, same⟩
    rwa [object, lies, Option.getD_some]
  | list b len =>
    have lies := Array.getElem?_eq_getElem (buffers b len rfl)
    obtain ⟨places, lies', settles⟩ := later.buffers b _ lies
    rw [Inner, children, items, buffer, lies', Option.getD_some] at inner
    obtain ⟨x₀, hx₀, same⟩ := forall₂_exists_left (List.forall₂_take len settles) inner
    refine ⟨x₀, ?_, same⟩
    rwa [Inner, children, items, buffer, lies, Option.getD_some]
  | _ => cases inner

/-- Memory stays founded when no opened container lies in what is put into it. -/
theorem Founded.opens {opened put : Node → Prop} (h : s.Founded) (opens : s.Opens opened put t)
    (apart : ∀ x y, put x → opened y → ¬s.Within y x) : t.Founded := by
  have leaf {x : Node} (none : ∀ s : Store, s.children x = []) : Acc t.Inner x :=
    .intro x fun y inner => by
      rw [Inner, none t] at inner
      cases inner
  -- first all that lies in what is put, where no container was opened
  have inside (n : Node) (hn : put n) (x : Node) : s.Within x n → Acc t.Inner x := by
    induction x using h.induction with
    | _ x ih =>
      refine fun within => .intro x fun z inner => ?_
      obtain ⟨z₀, inner₀, settles⟩ | ⟨here, -⟩ := opens z x inner
      · obtain rfl | none := children_settles settles
        · exact ih z inner₀ (.head inner₀ within)
        · exact leaf none
      · exact absurd within (apart n x hn here)
  refine ⟨fun y => ?_⟩
  induction y using h.induction with
  | _ y ih =>
    refine .intro y fun x inner => ?_
    obtain ⟨x₀, inner₀, settles⟩ | ⟨-, hx⟩ := opens x y inner
    · obtain rfl | none := children_settles settles
      · exact ih x inner₀
      · exact leaf none
    · exact inside x hx x .refl

/-! ## Courses of memory -/

/-- Where data is put: the value of a key in an object, or a place of a buffer. -/
inductive Spot where
  | entry (a : Nat) (key : Text)
  | place (buffer i : Nat)

/-- The data that a spot is part of. The lists that share a buffer share its first places. -/
def Spot.Of : Spot → Node → Prop
  | .entry a _, n => n = .object a
  | .place b i, n => ∃ len, n = .list b len ∧ i < len

/-- Whether a spot is in memory. -/
def Spot.In (s : Store) : Spot → Prop
  | .entry a _ => a < s.objects.size
  | .place b i => i < (s.buffer b).size

/-- Memory with data put into a spot. -/
def put (s : Store) : Spot → Node → Store
  | .entry a key, n => { s with objects := s.objects.setIfInBounds a (Json.insert key n (s.object a)) }
  | .place b i, n => { s with buffers := s.buffers.modify b fun old => old.setIfInBounds i n }

theorem buffer_modify (b b' : Nat) (f : Array Node → Array Node) :
    Store.buffer { s with buffers := s.buffers.modify b f } b' = if b = b' ∧ b < s.buffers.size then f (s.buffer b) else s.buffer b' := by
  simp only [Store.buffer, Array.getElem?_modify]
  split
  · rename_i same
    subst same
    by_cases inside : b < s.buffers.size
    · simp [inside]
    · simp [inside]
  · rename_i other
    rw [if_neg fun h => other h.1]

theorem grew_put (spot : Spot) (n : Node) : s.Grew (s.put spot n) := by
  cases spot with
  | entry a key => exact ⟨by simp [put], Nat.le_refl _, fun _ => Nat.le_refl _⟩
  | place b i =>
    refine ⟨Nat.le_refl _, by simp [put], fun b' => ?_⟩
    rw [put, buffer_modify]
    split
    · rename_i same
      rw [Array.size_setIfInBounds, same.1]
    · exact Nat.le_refl _

/-- Data that a spot is no part of holds the same when something is put there. -/
theorem children_put {spot : Spot} (apart : ¬spot.Of y) : (s.put spot n).children y = s.children y := by
  cases spot with
  | entry a key =>
    cases y with
    | object a' =>
      have other : a ≠ a' := fun same => apart (congrArg Node.object same.symm)
      simp only [put, children, object, Array.getElem?_setIfInBounds, if_neg other]
    | _ => rfl
  | place b i =>
    cases y with
    | list b' len =>
      simp only [put, children, items, buffer_modify]
      split
      · rename_i same
        obtain ⟨rfl, -⟩ := same
        rw [Array.toList_setIfInBounds, List.take_set_of_le (Nat.not_lt.mp fun short => apart ⟨len, rfl, short⟩)]
      · rfl
    | _ => rfl

/-- What is put somewhere is all that is new. -/
theorem opens_put (spot : Spot) (n : Node) : s.Opens spot.Of (· = n) (s.put spot n) := by
  intro x y inner
  by_cases here : spot.Of y
  · cases spot with
    | entry a key =>
      obtain rfl := show y = .object a from here
      rw [Inner, put, children, object, Array.getElem?_setIfInBounds, if_pos rfl] at inner
      split at inner
      · obtain ⟨e, he, rfl⟩ := List.mem_map.mp inner
        obtain rfl | he := Json.mem_insert he
        · exact .inr ⟨rfl, rfl⟩
        · exact .inl ⟨e.2, List.mem_map_of_mem he, .refl _⟩
      · cases inner
    | place b i =>
      obtain ⟨len, rfl, short⟩ := here
      rw [Inner, put, children, items, buffer_modify] at inner
      split at inner
      · rw [Array.toList_setIfInBounds, List.take_set] at inner
        obtain inner | rfl := List.mem_or_eq_of_mem_set inner
        · exact .inl ⟨x, inner, .refl x⟩
        · exact .inr ⟨⟨len, rfl, short⟩, rfl⟩
      · exact .inl ⟨x, inner, .refl x⟩
  · rw [Inner, children_put here] at inner
    exact .inl ⟨x, inner, .refl x⟩

/-- What is put into a spot lies in the data that the spot is part of. -/
theorem inner_put {spot : Spot} (inside : spot.In s) (here : spot.Of y) : (s.put spot n).Inner n y := by
  cases spot with
  | entry a key =>
    obtain rfl := show y = .object a from here
    have inside : a < s.objects.size := inside
    rw [Inner, put, children, object, Array.getElem?_setIfInBounds_self_of_lt inside]
    exact List.mem_map_of_mem (f := Prod.snd) Json.self_mem_insert
  | place b i =>
    obtain ⟨len, rfl, short⟩ := here
    have inside : i < (s.buffer b).size := inside
    have lies : b < s.buffers.size := by
      by_contra out
      rw [buffer, Array.getElem?_eq_none (Nat.not_lt.mp out)] at inside
      exact Nat.not_lt_zero _ inside
    rw [Inner, put, children, items, buffer_modify, if_pos ⟨rfl, lies⟩, Array.toList_setIfInBounds]
    refine List.mem_of_getElem? (i := i) ?_
    rw [List.getElem?_take_of_lt short, List.getElem?_set_self inside]

/-- Containers were made, of what was there, or something went from them. -/
structure Adds (s t : Store) : Prop where
  grew : s.Grew t
  opens : s.Opens (fun y => ¬y.In s) (fun x => x.In s) t

/-- Data of memory was put into a spot of memory. -/
structure Writes (s : Store) (spot : Spot) (n : Node) (t : Store) : Prop where
  there : n.In s
  inside : spot.In s
  put : t = s.put spot n

/-- A write is closing when the container that is written to lies in what is written. -/
def Closing (s : Store) (spot : Spot) (n : Node) : Prop := ∃ y, spot.Of y ∧ s.Within y n

/-- After a closing write, what was written lies in itself. -/
theorem Closing.closes {spot : Spot} (h : s.Closing spot n) (inside : spot.In s) : Relation.TransGen (s.put spot n).Inner n n := by
  obtain ⟨y, here, within⟩ := h
  -- on the way down there is a first container that the spot is part of, and nothing above it changes
  have first : (∃ z, spot.Of z ∧ (s.put spot n).Within z n) ∨ (s.put spot n).Within y n := by
    clear here
    induction within using Relation.ReflTransGen.head_induction_on with
    | refl => exact .inr .refl
    | @head x z inner _ ih =>
      obtain found | within := ih
      · exact .inl found
      by_cases here : spot.Of z
      · exact .inl ⟨z, here, within⟩
      · exact .inr (.head (show (s.put spot n).Inner x z by rwa [Inner, children_put here]) within)
  obtain ⟨z, here, within⟩ | within := first
  · exact .head' (inner_put inside here) within
  · exact .head' (inner_put inside here) within

/-- Memory comes about by making containers, and by writing to them, from memory that is whole. -/
inductive Course (s : Store) : Store → Prop where
  | refl : Course s s
  | adds {t u : Store} (h : Course s t) (whole : t.Whole) (adds : t.Adds u) : Course s u
  | writes {t u : Store} (h : Course s t) (whole : t.Whole) {spot : Spot} {n : Node} (writes : t.Writes spot n u) : Course s u

theorem Course.grew (h : s.Course t) : s.Grew t := by
  induction h with
  | refl => exact .refl s
  | adds _ _ adds ih => exact ih.trans adds.grew
  | writes _ _ writes ih => exact ih.trans (writes.put ▸ grew_put ..)

theorem Course.trans (h : s.Course t) (k : t.Course u) : s.Course u := by
  induction k with
  | refl => exact h
  | adds _ whole adds ih => exact .adds ih whole adds
  | writes _ whole writes ih => exact .writes ih whole writes

/-- A write to a container that does not lie in what is written leaves memory founded. -/
theorem Founded.put {spot : Spot} (h : s.Founded) (open_ : ¬s.Closing spot n) : (s.put spot n).Founded :=
  h.opens (opens_put spot n) fun x y same here inside => open_ ⟨y, here, (show x = n from same) ▸ inside⟩

/-- Making containers leaves memory founded. -/
theorem Founded.adds (h : s.Founded) (whole : s.Whole) (adds : s.Adds t) : t.Founded :=
  h.opens adds.opens fun _ _ there out inside => out (whole.within inside there)

/-- On the way from one memory to another, data is put into a container that lies in it. It lies in itself from then on, and up
to then memory is founded. -/
def Closes (s t : Store) : Prop :=
  ∃ u spot n, s.Course u ∧ u.Founded ∧ u.Writes spot n (u.put spot n) ∧ u.Closing spot n ∧
    Relation.TransGen (u.put spot n).Inner n n ∧ (u.put spot n).Course t

/-- Memory stays founded along its course up to the first write that is closing. -/
theorem Course.founded (h : s.Course t) (founded : s.Founded) : t.Founded ∨ s.Closes t := by
  induction h with
  | refl => exact .inl founded
  | adds h whole adds ih =>
    obtain ih | ⟨u, spot, n, before, sound, writes, closing, circle, after⟩ := ih
    · exact .inl (ih.adds whole adds)
    · exact .inr ⟨u, spot, n, before, sound, writes, closing, circle, .adds after whole adds⟩
  | @writes t w h whole spot n writes ih =>
    obtain ih | ⟨u, spot', n', before, sound, first, closing, circle, after⟩ := ih
    · obtain ⟨there, inside, rfl⟩ := writes
      by_cases closing : t.Closing spot n
      · exact .inr ⟨t, spot, n, h, ih, ⟨there, inside, rfl⟩, closing, closing.closes inside, .refl⟩
      · exact .inl (ih.put closing)
    · exact .inr ⟨u, spot', n', before, sound, first, closing, circle, .writes after whole writes⟩

/-! ## Depth -/

/-- Data goes no deeper than a number of containers in each other. -/
def Deep (s : Store) : Nat → Node → Prop
  | 0, n => s.children n = []
  | d + 1, n => ∀ x ∈ s.children n, s.Deep d x

/-- The containers that there are, lists of a buffer by their lengths. -/
inductive Extent where
  | object (a : Nat)
  | list (buffer length : Nat)
deriving DecidableEq

/-- The containers of memory. -/
def extents (s : Store) : List Extent :=
  (List.range s.objects.size).map .object ++
    (List.range s.buffers.size).flatMap fun b => (List.range ((s.buffer b).size + 1)).map (.list b)

/-- The container that data is, a list cut to what its buffer has. -/
def extent? (s : Store) : Node → Option Extent
  | .object a => some (.object a)
  | .list b len => some (.list b (min len (s.buffer b).size))
  | _ => none

theorem Deep.succ {d : Nat} (h : s.Deep d n) : s.Deep (d + 1) n := by
  induction d generalizing n with
  | zero =>
    intro x hx
    rw [show s.children n = [] from h] at hx
    cases hx
  | succ d ih => exact fun x hx => ih (h x hx)

theorem Deep.mono {d e : Nat} (h : s.Deep d n) (le : d ≤ e) : s.Deep e n := by
  induction le with
  | refl => exact h
  | step _ ih => exact ih.succ

/-- Data with something in it is a container of memory. -/
theorem extent_mem (inner : s.Inner x y) : ∃ e ∈ s.extents, s.extent? y = some e := by
  cases y with
  | object a =>
    exact ⟨.object a, List.mem_append_left _ (List.mem_map_of_mem (List.mem_range.mpr (object_of_inner inner))), rfl⟩
  | list b len =>
    exact ⟨_, List.mem_append_right _ (List.mem_flatMap.mpr ⟨b, List.mem_range.mpr (buffer_of_inner inner),
      List.mem_map_of_mem (List.mem_range.mpr (Nat.lt_succ_of_le (Nat.min_le_right ..)))⟩), rfl⟩
  | _ => cases inner

/-- The same container holds the same. -/
theorem children_of_extent {e : Extent} (hx : s.extent? x = some e) (hy : s.extent? y = some e) :
    s.children x = s.children y := by
  have cut (b len : Nat) : s.items b len = (s.buffer b).toList.take (min len (s.buffer b).size) := by
    rw [items, ← Array.length_toList, List.take_eq_take_min]
  cases x with
  | object a =>
    cases y <;> cases hx <;> cases hy
    rfl
  | list b len =>
    cases hx
    cases y with
    | list b' len' =>
      simp only [extent?, Option.some.injEq, Extent.list.injEq] at hy
      obtain ⟨rfl, same⟩ := hy
      rw [children, children, cut, cut b' len', same]
    | _ => cases hy
  | _ => cases hx

theorem places_eq_sum (s : Store) : s.places = (s.buffers.toList.map Array.size).sum := by
  have counted (l : List (Array Node)) (n : Nat) : l.foldl (fun n b => n + b.size) n = n + (l.map Array.size).sum := by
    induction l generalizing n with
    | nil => rfl
    | cons b l ih => rw [List.foldl_cons, ih, List.map_cons, List.sum_cons, Nat.add_assoc]
  rw [places, ← Array.foldl_toList, counted, Nat.zero_add]

/-- There are as many containers as objects, buffers and places of buffers. -/
theorem length_extents (s : Store) : s.extents.length = s.objects.size + s.buffers.size + s.places := by
  have sizes : (List.range s.buffers.size).map (fun b => (s.buffer b).size) = s.buffers.toList.map Array.size := by
    refine List.ext_getElem (by simp) fun b _ inside => ?_
    rw [List.length_map, Array.length_toList] at inside
    simp [buffer, inside]
  have more (l : List Nat) (f : Nat → Nat) : (l.map fun b => f b + 1).sum = (l.map f).sum + l.length := by
    induction l with
    | nil => rfl
    | cons b l ih =>
      simp only [List.map_cons, List.sum_cons, List.length_cons, ih]
      omega
  rw [extents, List.length_append, List.length_map, List.length_range, List.length_flatMap]
  simp only [List.length_map, List.length_range]
  rw [more, sizes, List.length_range, places_eq_sum]
  omega

/-- Data that does not contain itself ends. It goes no deeper than there are containers. -/
theorem deep_of_acc (h : Acc s.Inner n) : s.Deep (s.objects.size + s.buffers.size + s.places) n := by
  -- the containers that lie in data, and it itself, bound its depth; what lies in it lies in fewer
  have bounded : ∀ left : Finset Extent,
      (∀ y x e, s.Within y n → s.Inner x y → s.extent? y = some e → e ∈ left) → s.Deep left.card n := by
    induction h with
    | intro n ends ih =>
      intro left covers
      cases some? : s.children n with
      | nil => exact Deep.mono (d := 0) some? (Nat.zero_le _)
      | cons x₀ _ =>
        have first : s.Inner x₀ n := by
          rw [Inner, some?]
          exact List.mem_cons_self ..
        obtain ⟨e, -, here⟩ := extent_mem first
        have there := covers n x₀ e .refl first here
        rw [← Finset.card_erase_add_one there]
        intro x inner
        refine ih x inner (left.erase e) fun y z e' within inside he' => Finset.mem_erase.mpr ⟨?_, ?_⟩
        · rintro rfl
          have same := children_of_extent he' here
          exact apart_of_acc (ends x inner) (.head' (show s.Inner x y by rw [Inner, same]; exact inner) within)
        · exact covers y z e' (within.tail inner) inside he'
  refine (bounded s.extents.toFinset fun y x e _ inner he => ?_).mono ?_
  · obtain ⟨e', there, he'⟩ := extent_mem inner
    cases he.symm.trans he'
    exact List.mem_toFinset.mpr there
  · exact (List.toFinset_card_le _).trans_eq s.length_extents

/-- In founded memory all data ends. -/
theorem Founded.deep (h : s.Founded) (n : Node) : s.Deep (s.objects.size + s.buffers.size + s.places) n :=
  deep_of_acc (h.apply n)

end Store

end ScriptEngine
