import Mathlib.Data.List.Perm.Basic
import ScriptEngine.Proofs.DataWalks
import ScriptEngine.Proofs.EqualData
import ScriptEngine.Proofs.WholeNumbers
/-!
# Values read as data

What a value holds lies in memory: elements in arrays and queues, entries and items in json objects and lists. A value
without doubles that ends is read as data, and as one only. Memory that grows changes nothing of it. Containers lie in
each other no deeper than there are containers, so that following them as deep as memory can be follows them to their ends.
-/

namespace ScriptEngine

variable {α β γ : Type} {s t u : Store} {v w : Value} {x y : Datum} {n m : Node} {i j : Json}

/-! ## Lists in parallel -/

/-- Lists whose items are related one by one. -/
theorem forall₂_of_each {R : α → β → Prop} {as : List α} {bs : List β} (size : as.length = bs.length)
    (each : ∀ (i : Nat) (a : α) (b : β), as[i]? = some a → bs[i]? = some b → R a b) : List.Forall₂ R as bs := by
  rw [List.forall₂_iff_get]
  exact ⟨size, fun i ha hb => each i _ _ (List.getElem?_eq_getElem ha) (List.getElem?_eq_getElem hb)⟩

theorem each_of_forall₂ {R : α → β → Prop} {as : List α} {bs : List β} (all : List.Forall₂ R as bs) (i : Nat) (a : α) (b : β)
    (ha : as[i]? = some a) (hb : bs[i]? = some b) : R a b := by
  obtain ⟨hi, rfl⟩ := List.getElem?_eq_some_iff.mp ha
  obtain ⟨hi', rfl⟩ := List.getElem?_eq_some_iff.mp hb
  exact (List.forall₂_iff_get.mp all).2 i hi hi'

/-- Items that are related to something each are so to the items of a list. -/
theorem exists_forall₂ {R : α → β → Prop} {as : List α} (each : ∀ a ∈ as, ∃ b, R a b) : ∃ bs, List.Forall₂ R as bs := by
  induction as with
  | nil => exact ⟨[], .nil⟩
  | cons a as ih =>
    obtain ⟨b, here⟩ := each a (List.mem_cons_self ..)
    obtain ⟨bs, rest⟩ := ih fun a mem => each a (List.mem_cons_of_mem _ mem)
    exact ⟨b :: bs, .cons here rest⟩

/-- A function that takes the items of one list to those of another. -/
theorem map_eq_of_each {f : α → β} {as : List α} {bs : List β} (size : as.length = bs.length)
    (each : ∀ (i : Nat) (a : α) (b : β), as[i]? = some a → bs[i]? = some b → f a = b) : as.map f = bs := by
  refine List.ext_getElem (by simpa using size) fun i ha hb => ?_
  rw [List.getElem_map]
  exact each i _ _ (List.getElem?_eq_getElem (by simpa using ha)) (List.getElem?_eq_getElem hb)

/-- To put in place what lies there changes nothing. -/
theorem setIfInBounds_of_lies {as : Array α} {i : Nat} {a : α} (lies : as[i]? = some a) : as.setIfInBounds i a = as := by
  refine Array.ext_getElem? fun k => ?_
  rw [Array.getElem?_setIfInBounds]
  split
  · subst k
    rw [if_pos (Array.getElem?_eq_some_iff.mp lies).1, lies]
  · rfl

/-- Nor does a change of a place that leaves what lies there as it is. -/
theorem modify_of_lies {f : α → α} {as : Array α} {i : Nat} {a : α} (lies : as[i]? = some a) (same : f a = a) :
    as.modify i f = as := by
  refine Array.ext_getElem? fun k => ?_
  rw [Array.getElem?_modify]
  split
  · subst k
    rw [lies, Option.map_some, same]
  · rfl

namespace Json

theorem depth_le_depthAll {js : List Json} (mem : j ∈ js) : j.depth ≤ depthAll js := by
  induction js with
  | nil => cases mem
  | cons k ks ih =>
    rw [depthAll]
    cases mem with
    | head => exact Nat.le_max_left ..
    | tail _ mem => exact (ih mem).trans (Nat.le_max_right ..)

theorem depth_le_depthEntries {es : List (Text × Json)} {e : Text × Json} (mem : e ∈ es) : e.2.depth ≤ depthEntries es := by
  induction es with
  | nil => cases mem
  | cons f fs ih =>
    rw [depthEntries]
    cases mem with
    | head => exact Nat.le_max_left ..
    | tail _ mem => exact (ih mem).trans (Nat.le_max_right ..)

end Json

namespace Store

/-! ## Json data -/

/-- Json data in memory spells a tree without doubles. -/
inductive Spells (s : Store) : Node → Json → Prop
  | null : Spells s .null .null
  | bool (b : Bool) : Spells s (.bool b) (.bool b)
  | int (n : Int64) : Spells s (.int n) (.int n)
  | text (t : Text) : Spells s (.text t) (.text t)
  | object {a : Nat} {es : List (Text × Node)} {js : List (Text × Json)} (lies : s.objects[a]? = some es)
      (keys : es.map Prod.fst = js.map Prod.fst)
      (each : ∀ (i : Nat) (e : Text × Node) (f : Text × Json), es[i]? = some e → js[i]? = some f → Spells s e.2 f.2) :
      Spells s (.object a) (.object js)
  | list {b len : Nat} {places : Array Node} {js : List Json} (lies : s.buffers[b]? = some places)
      (size : (places.toList.take len).length = js.length)
      (each : ∀ (i : Nat) (m : Node) (j : Json), (places.toList.take len)[i]? = some m → js[i]? = some j → Spells s m j) :
      Spells s (.list b len) (.list js)

theorem object_of_lies {a : Nat} {es : List (Text × Node)} (lies : s.objects[a]? = some es) : s.object a = es := by
  rw [object, lies, Option.getD_some]

theorem items_of_lies {b : Nat} {places : Array Node} (lies : s.buffers[b]? = some places) (len : Nat) :
    s.items b len = places.toList.take len := by
  rw [items, buffer, lies, Option.getD_some]

theorem Spells.of_items {b len : Nat} {places : Array Node} {js : List Json} (lies : s.buffers[b]? = some places)
    (items : List.Forall₂ s.Spells (places.toList.take len) js) : s.Spells (.list b len) (.list js) :=
  .list lies items.length_eq (each_of_forall₂ items)

/-- Data spells the same in memory that keeps objects and lists. -/
theorem Spells.later (spells : s.Spells n j) (keeps : s.KeepsData t) : t.Spells n j := by
  induction spells with
  | null => exact .null
  | bool b => exact .bool b
  | int n => exact .int n
  | text t => exact .text t
  | object lies keys _ ih => exact .object (keeps.objects _ _ lies) keys ih
  | list lies size _ ih => exact .list (keeps.buffers _ _ lies) size ih

/-- Data that spells a tree ends. -/
theorem Spells.acc (spells : s.Spells n j) : Acc s.Inner n := by
  induction spells with
  | @object a es js lies keys each ih =>
    refine .intro _ fun x inner => ?_
    rw [Inner, children, object_of_lies lies] at inner
    obtain ⟨i, hi⟩ := List.mem_iff_getElem?.mp inner
    rw [List.getElem?_map, Option.map_eq_some_iff] at hi
    obtain ⟨e, he, rfl⟩ := hi
    have size : es.length = js.length := by simpa using congrArg List.length keys
    obtain ⟨f, hf⟩ := exists_getElem?_of_length size he
    exact ih i e f he hf
  | @list b len places js lies size each ih =>
    refine .intro _ fun x inner => ?_
    rw [Inner, children, items_of_lies lies] at inner
    obtain ⟨i, hi⟩ := List.mem_iff_getElem?.mp inner
    obtain ⟨j, hj⟩ := exists_getElem?_of_length size hi
    exact ih i x j hi hj
  | _ => exact .intro _ fun x inner => by cases inner

/-- Data that is followed as deep as the tree it spells is that tree. -/
theorem Spells.treeTo (spells : s.Spells n j) (d : Nat) (deep : j.depth ≤ d) : s.treeTo d n = j := by
  induction spells generalizing d with
  | @object a es js lies keys each ih =>
    rw [Json.depth] at deep
    obtain ⟨d, rfl⟩ := Nat.exists_eq_add_of_lt deep
    rw [Store.treeTo, object_of_lies lies]
    have size : es.length = js.length := by simpa using congrArg List.length keys
    refine congrArg Json.object (map_eq_of_each size fun i e f he hf => ?_)
    have key : e.1 = f.1 := by
      have place := congrArg (·[i]?) keys
      simpa [he, hf] using place
    have less := Json.depth_le_depthEntries (List.mem_of_getElem? hf)
    exact Prod.ext key (ih i e f he hf _ (by omega))
  | @list b len places js lies size each ih =>
    rw [Json.depth] at deep
    obtain ⟨d, rfl⟩ := Nat.exists_eq_add_of_lt deep
    rw [Store.treeTo, items_of_lies lies]
    refine congrArg Json.list (map_eq_of_each size fun i m k hm hk => ?_)
    have less := Json.depth_le_depthAll (List.mem_of_getElem? hk)
    exact ih i m k hm hk _ (by omega)
  | _ => simp only [Store.treeTo]

/-- The tree of data is the one that it spells. -/
theorem Spells.tree (spells : s.Spells n j) : s.tree n = j := by
  have inside : s.objects.size + s.buffers.size + s.places < s.nesting := by
    rw [nesting]
    omega
  have deep := deep_of_acc spells.acc
  refine (treeTo_deep deep inside (Nat.lt_add_right j.depth inside)).trans (spells.treeTo _ (Nat.le_add_left ..))

/-- Data spells one tree. -/
theorem Spells.unique (spells : s.Spells n i) (spells' : s.Spells n j) : i = j := spells.tree.symm.trans spells'.tree

/-- Data that ends, without addresses that lead outside memory and without doubles, spells a tree. -/
theorem exists_spells (ends : Acc s.Inner n) (plain : ∀ m, s.Within m n → m.In s ∧ ∀ d, m ≠ .double d) : ∃ j, s.Spells n j := by
  induction ends with
  | intro n _ ih =>
    have inner {m : Node} (inner : s.Inner m n) : ∃ j, s.Spells m j :=
      ih m inner fun k within => plain k (within.tail inner)
    cases n with
    | null => exact ⟨_, .null⟩
    | bool b => exact ⟨_, .bool b⟩
    | int n => exact ⟨_, .int n⟩
    | double d => exact absurd rfl ((plain _ .refl).2 d)
    | text t => exact ⟨_, .text t⟩
    | object a =>
      obtain ⟨es, lies⟩ : ∃ es, s.objects[a]? = some es := ⟨_, Array.getElem?_eq_getElem (plain _ .refl).1⟩
      have values : ∀ e ∈ es, ∃ f : Text × Json, e.1 = f.1 ∧ s.Spells e.2 f.2 := by
        intro e mem
        rw [← object_of_lies lies] at mem
        obtain ⟨j, spells⟩ := inner (List.mem_map_of_mem mem)
        exact ⟨(e.1, j), rfl, spells⟩
      obtain ⟨js, all⟩ := exists_forall₂ values
      refine ⟨_, .object lies ?_ fun i e f he hf => (each_of_forall₂ all i e f he hf).2⟩
      rw [← List.forall₂_eq_eq_eq, List.forall₂_map_left_iff, List.forall₂_map_right_iff]
      exact all.imp fun e f same => same.1
    | list b len =>
      obtain ⟨places, lies⟩ : ∃ places, s.buffers[b]? = some places := ⟨_, Array.getElem?_eq_getElem (plain _ .refl).1.1⟩
      have items : ∀ m ∈ places.toList.take len, ∃ j, s.Spells m j := by
        intro m mem
        rw [← items_of_lies lies] at mem
        exact inner mem
      obtain ⟨js, all⟩ := exists_forall₂ items
      exact ⟨_, .of_items lies all⟩

/-! ## Values -/

/-- The data of a value that is neither json nor a sequence nor a double. -/
def single? (s : Store) : Value → Option Datum
  | .null => some .null
  | .bool b => some (.bool b)
  | .byte n => some (.whole (Int64.ofNat n.toNat))
  | .int n => some (.whole n.toInt64)
  | .long n => some (.whole n)
  | .string t => some (.text t)
  | .date d => some (.date d)
  | .double _ | .json _ | .array _ | .queue _ => none
  | v => some (.handle v (s.inspect v))

/-- The elements of an array, or the items of a queue. -/
def elements? (s : Store) : Value → Option (List Value)
  | .array a => s.arrays[a]?.map fun d => d.cells.toList
  | .queue a => s.queues[a]?
  | _ => none

theorem array_of_elements? {a : Nat} {vs : List Value} (lies : s.elements? (.array a) = some vs) :
    (s.array a).cells.toList = vs := by
  obtain ⟨d, there, rfl⟩ := Option.map_eq_some_iff.mp lies
  rw [array, there, Option.getD_some]

theorem queue_of_elements? {a : Nat} {vs : List Value} (lies : s.elements? (.queue a) = some vs) : s.queue a = vs := by
  rw [queue, show s.queues[a]? = some vs from lies, Option.getD_some]

/-- Numbers of all kinds are the same data. -/
theorem single?_of_toInt64? {k : Int64} (whole : v.toInt64? = some k) (s : Store) : s.single? v = some (.whole k) := by
  cases v <;> cases whole <;> rfl

/-- The data of a value without doubles, elements followed to any depth. -/
inductive ReadsAs (s : Store) : Value → Datum → Prop
  | single {v : Value} {x : Datum} (single : s.single? v = some x) : ReadsAs s v x
  | json {a : Nat} {n : Node} {j : Json} (lies : s.boxes[a]? = some n) (spells : s.Spells n j) : ReadsAs s (.json a) (.json j)
  | sequence {v : Value} {vs : List Value} {xs : List Datum} (lies : s.elements? v = some vs) (size : vs.length = xs.length)
      (each : ∀ (i : Nat) (w : Value) (x : Datum), vs[i]? = some w → xs[i]? = some x → ReadsAs s w x) :
      ReadsAs s v (.sequence (s.kindOf v) xs)

theorem ReadsAs.of_items {vs : List Value} {xs : List Datum} (lies : s.elements? v = some vs)
    (items : List.Forall₂ s.ReadsAs vs xs) : s.ReadsAs v (.sequence (s.kindOf v) xs) :=
  .sequence lies items.length_eq (each_of_forall₂ items)

/-- A value lies directly in an array or a queue. -/
def ItemOf (s : Store) (w v : Value) : Prop := ∃ vs, s.elements? v = some vs ∧ w ∈ vs

/-- A value is no double, and a container is of memory; there are no doubles in json, which ends. -/
def Plain (s : Store) : Value → Prop
  | .double _ => False
  | .array a => a < s.arrays.size
  | .queue a => a < s.queues.size
  | .json a => a < s.boxes.size ∧ Acc s.Inner (s.box a) ∧ ∀ m, s.Within m (s.box a) → m.In s ∧ ∀ d, m ≠ .double d
  | _ => True

/-- A value that ends is read as data if there are no doubles in it. -/
theorem exists_readsAs (ends : Acc s.ItemOf v) (plain : ∀ w, Relation.ReflTransGen s.ItemOf w v → s.Plain w) :
    ∃ x, s.ReadsAs v x := by
  induction ends with
  | intro v _ ih =>
    have here := plain v .refl
    have sequence {vs : List Value} (lies : s.elements? v = some vs) : ∃ x, s.ReadsAs v x := by
      obtain ⟨xs, all⟩ := exists_forall₂ fun w mem => ih w ⟨vs, lies, mem⟩ fun u within => plain u (within.tail ⟨vs, lies, mem⟩)
      exact ⟨_, .of_items lies all⟩
    cases v with
    | double d => exact here.elim
    | array a => exact sequence (Option.map_eq_some_iff.mpr ⟨_, Array.getElem?_eq_getElem here, rfl⟩)
    | queue a => exact sequence (Array.getElem?_eq_getElem here)
    | json a =>
      obtain ⟨there, ends, free⟩ := here
      obtain ⟨j, spells⟩ := exists_spells ends free
      have lies := Array.getElem?_eq_getElem there
      rw [box, lies, Option.getD_some] at spells
      exact ⟨_, .json lies spells⟩
    | _ => exact ⟨_, .single rfl⟩

/-- Memory in which all that was there is as it was. -/
structure KeepsAll (s t : Store) : Prop extends s.KeepsData t where
  arrays : ∀ (a : Nat) (d : ArrayData), s.arrays[a]? = some d → t.arrays[a]? = some d
  queues : ∀ (a : Nat) (items : List Value), s.queues[a]? = some items → t.queues[a]? = some items
  boxes : ∀ (a : Nat) (n : Node), s.boxes[a]? = some n → t.boxes[a]? = some n
  pictures : t.pictures = s.pictures
  vectors : t.vectors = s.vectors
  functions : t.functions = s.functions

theorem KeepsAll.refl (s : Store) : s.KeepsAll s := ⟨.refl s, fun _ _ => id, fun _ _ => id, fun _ _ => id, rfl, rfl, rfl⟩

theorem KeepsAll.trans (h : s.KeepsAll t) (k : t.KeepsAll u) : s.KeepsAll u where
  toKeepsData := h.toKeepsData.trans k.toKeepsData
  arrays a d lies := k.arrays a d (h.arrays a d lies)
  queues a items lies := k.queues a items (h.queues a items lies)
  boxes a n lies := k.boxes a n (h.boxes a n lies)
  pictures := k.pictures.trans h.pictures
  vectors := k.vectors.trans h.vectors
  functions := k.functions.trans h.functions

/-- A picture or function is shown by one text, to whatever depth others are followed. -/
theorem inspectTo_handle (s : Store) (d a : Nat) :
    s.inspectTo d (.image a) = "image(" ++ sizeText (s.picture a) ++ ")" ∧
      s.inspectTo d (.vectorImage a) = "vectorimage(" ++ toString ((s.vectors[a]?).getD "").size ++ " bytes)" ∧
      s.inspectTo d (.canvas a) = "canvas(" ++ (s.picture a).name ++ " " ++ sizeText (s.picture a) ++ ")" ∧
      s.inspectTo d (.function a) = (s.function a).inspect := by
  cases d <;> exact ⟨rfl, rfl, rfl, rfl⟩

/-- Single values are the same data in memory that keeps what there was. -/
theorem KeepsAll.single? (keeps : s.KeepsAll t) (v : Value) : t.single? v = s.single? v := by
  have picture (a : Nat) : t.picture a = s.picture a := by rw [Store.picture, keeps.pictures, Store.picture]
  have function (a : Nat) : t.function a = s.function a := by rw [Store.function, keeps.functions, Store.function]
  have shown (a : Nat) := t.inspectTo_handle t.nesting a
  simp only [picture, function, keeps.vectors, ← inspectTo_handle s s.nesting] at shown
  cases v with
  | image a => exact congrArg (fun text => some (Datum.handle (.image a) text)) (shown a).1
  | vectorImage a => exact congrArg (fun text => some (Datum.handle (.vectorImage a) text)) (shown a).2.1
  | canvas a => exact congrArg (fun text => some (Datum.handle (.canvas a) text)) (shown a).2.2.1
  | function a => exact congrArg (fun text => some (Datum.handle (.function a) text)) (shown a).2.2.2
  | _ => rfl

/-- So are the elements of arrays and queues. -/
theorem KeepsAll.elements? {vs : List Value} (keeps : s.KeepsAll t) (lies : s.elements? v = some vs) :
    t.elements? v = some vs ∧ t.kindOf v = s.kindOf v := by
  cases v with
  | array a =>
    obtain ⟨d, there, rfl⟩ := Option.map_eq_some_iff.mp lies
    have later := keeps.arrays a d there
    refine ⟨by rw [Store.elements?, later]; rfl, ?_⟩
    rw [kindOf, kindOf, array, array, later, there]
  | queue a => exact ⟨keeps.queues a vs lies, rfl⟩
  | _ => cases lies

/-- A value is the same data in memory that keeps what there was. -/
theorem ReadsAs.later (reads : s.ReadsAs v x) (keeps : s.KeepsAll t) : t.ReadsAs v x := by
  induction reads with
  | @single v x single => exact .single ((keeps.single? v).trans single)
  | json lies spells => exact .json (keeps.boxes _ _ lies) (spells.later keeps.toKeepsData)
  | sequence lies size _ ih =>
    obtain ⟨later, kind⟩ := keeps.elements? lies
    rw [← kind]
    exact .sequence later size ih

/-- A value is one data only. -/
theorem ReadsAs.unique (reads : s.ReadsAs v x) (reads' : s.ReadsAs v y) : x = y := by
  induction reads generalizing y with
  | @single v x single =>
    cases reads' with
    | single single' => exact Option.some_inj.mp (single.symm.trans single')
    | json => cases single
    | sequence lies => cases v <;> first | cases lies | cases single
  | json lies spells =>
    cases reads' with
    | single single => cases single
    | json lies' spells' =>
      cases lies.symm.trans lies'
      rw [spells.unique spells']
    | sequence lies' => cases lies'
  | @sequence v vs xs lies size each ih =>
    cases reads' with
    | single single => cases v <;> first | cases lies | cases single
    | json => cases lies
    | @sequence _ _ ys lies' size' each' =>
      cases lies.symm.trans lies'
      congr 1
      refine List.ext_getElem (size.symm.trans size') fun i hx hy => ?_
      have inside : i < vs.length := by omega
      have here := List.getElem?_eq_getElem inside
      exact ih i _ _ here (List.getElem?_eq_getElem hx) (each' i _ _ here (List.getElem?_eq_getElem hy))

/-! ### Depth -/

/-- The arrays and queues of memory. -/
def sequences (s : Store) : List Value := (List.range s.arrays.size).map .array ++ (List.range s.queues.size).map .queue

/-- A value with elements is an array or a queue of memory. -/
theorem mem_sequences {vs : List Value} (lies : s.elements? v = some vs) : v ∈ s.sequences := by
  cases v with
  | array a =>
    obtain ⟨d, there, -⟩ := Option.map_eq_some_iff.mp lies
    exact List.mem_append_left _ (List.mem_map_of_mem (List.mem_range.mpr (Array.getElem?_eq_some_iff.mp there).1))
  | queue a => exact List.mem_append_right _ (List.mem_map_of_mem (List.mem_range.mpr (Array.getElem?_eq_some_iff.mp lies).1))
  | _ => cases lies

/-- In data of some depth there are sequences of each lesser depth. -/
theorem ReadsAs.levels (reads : s.ReadsAs v x) {c : Nat} (less : c < x.depth) :
    ∃ w y, w ∈ s.sequences ∧ s.ReadsAs w y ∧ y.depth = c + 1 := by
  induction reads with
  | @single v x single =>
    have flat : x.depth = 0 := by
      cases v <;> cases single <;> rfl
    omega
  | json => exact absurd less (Nat.not_lt_zero c)
  | @sequence v vs xs lies size each ih =>
    rw [Datum.depth] at less
    obtain inside | here := Nat.lt_or_ge c (Datum.depths xs)
    · obtain ⟨x, mem, deepest⟩ := Datum.exists_depth_eq (Nat.zero_lt_of_lt inside)
      obtain ⟨i, hx⟩ := List.mem_iff_getElem?.mp mem
      obtain ⟨w, hw⟩ := exists_getElem?_of_length size.symm hx
      exact ih i w x hw hx (by omega)
    · refine ⟨v, _, mem_sequences lies, .sequence lies size each, ?_⟩
      rw [Datum.depth]
      omega

/-- Arrays and queues lie in each other no deeper than there are arrays and queues. -/
theorem ReadsAs.depth_le (reads : s.ReadsAs v x) : x.depth ≤ s.arrays.size + s.queues.size := by
  classical
  -- the data of a sequence has one depth, so that those of different depths are different sequences
  let depthOf (w : Value) : Nat := if h : ∃ y, s.ReadsAs w y then (Classical.choose h).depth else 0
  have known {w : Value} {y : Datum} (reads : s.ReadsAs w y) : depthOf w = y.depth := by
    have some : ∃ y, s.ReadsAs w y := ⟨y, reads⟩
    change (if h : ∃ y, s.ReadsAs w y then (Classical.choose h).depth else 0) = _
    rw [dif_pos some, (Classical.choose_spec some).unique reads]
  have covered : (List.range x.depth).map (· + 1) ⊆ s.sequences.map depthOf := by
    intro c mem
    obtain ⟨k, less, rfl⟩ := List.mem_map.mp mem
    obtain ⟨w, y, there, reads, depth⟩ := reads.levels (List.mem_range.mp less)
    exact List.mem_map.mpr ⟨w, there, (known reads).trans depth⟩
  have apart : ((List.range x.depth).map (· + 1)).Nodup := List.nodup_range.map fun _ _ => Nat.succ.inj
  have bound := (List.subperm_of_subset apart covered).length_le
  simpa [sequences] using bound

/-- So they do less deep than containers are followed. -/
theorem ReadsAs.depth_lt (reads : s.ReadsAs v x) : x.depth < s.nesting := by
  have bound := reads.depth_le
  rw [nesting]
  omega

end Store

/-! ## Native forms -/

namespace StoreM

/-- A computation for every item of a list that gives back the item and leaves memory as it is does so for the list. -/
theorem run_mapM_self {f : α → StoreM α} (l : List α) (each : ∀ a ∈ l, (f a).run.run s = (.ok a, s)) :
    (l.mapM f).run.run s = (.ok l, s) := by
  induction l with
  | nil => rfl
  | cons a l ih =>
    rw [List.mapM_cons, ExceptT.run_bind, StateT.run_bind, each a (List.mem_cons_self ..)]
    change ((l.mapM f >>= fun bs => pure (a :: bs) : StoreM (List α))).run.run s = _
    rw [ExceptT.run_bind, StateT.run_bind, ih fun b mem => each b (List.mem_cons_of_mem _ mem)]
    rfl

/-- A computation for every item of a list that only adds to memory. What it gives for each is still so in the end. -/
theorem run_mapM_keeps {f : α → StoreM β} {R : Store → β → γ → Prop}
    (stays : ∀ b c t u, t.KeepsAll u → R t b c → R u b c) {l : List α} {cs : List γ}
    (each : List.Forall₂ (fun a c => ∀ t, s.KeepsAll t → ∃ b u, (f a).run.run t = (.ok b, u) ∧ t.KeepsAll u ∧ R u b c) l cs)
    (keeps : s.KeepsAll t) : ∃ bs u, (l.mapM f).run.run t = (.ok bs, u) ∧ t.KeepsAll u ∧ List.Forall₂ (R u) bs cs := by
  induction each generalizing t with
  | nil => exact ⟨[], t, rfl, .refl t, .nil⟩
  | @cons a c l cs first _ ih =>
    obtain ⟨b, u, run, more, holds⟩ := first t keeps
    obtain ⟨bs, w, run', more', holds'⟩ := ih (keeps.trans more)
    refine ⟨b :: bs, w, ?_, more.trans more', .cons (stays b c u w more' holds) holds'⟩
    rw [List.mapM_cons, ExceptT.run_bind, StateT.run_bind, run]
    change ((l.mapM f >>= fun bs => pure (b :: bs) : StoreM (List β))).run.run u = _
    rw [ExceptT.run_bind, StateT.run_bind, run']
    rfl

/-- Data without doubles is normalized already. -/
theorem run_normalizeTo (spells : s.Spells n j) (d : Nat) : (normalizeTo d n).run.run s = (.ok n, s) := by
  induction spells generalizing d with
  | @object a es js lies keys each ih =>
    cases d with
    | zero => rfl
    | succ d =>
      have inner : ∀ e ∈ es, ((do pure (e.1, ← normalizeTo d e.2) : StoreM (Text × Node))).run.run s = (.ok e, s) := by
        intro e mem
        obtain ⟨i, he⟩ := List.mem_iff_getElem?.mp mem
        have size : es.length = js.length := by simpa using congrArg List.length keys
        obtain ⟨f, hf⟩ := exists_getElem?_of_length size he
        rw [ExceptT.run_bind, StateT.run_bind, ih i e f he hf]
        rfl
      unfold normalizeTo
      rw [run_get_bind, Store.object_of_lies lies, ExceptT.run_bind, StateT.run_bind, run_mapM_self es inner]
      change (Except.ok (Node.object a), { s with objects := s.objects.setIfInBounds a es }) = _
      rw [setIfInBounds_of_lies lies]
  | @list b len places js lies size each ih =>
    cases d with
    | zero => rfl
    | succ d =>
      have inner : ∀ m ∈ places.toList.take len, (normalizeTo d m).run.run s = (.ok m, s) := by
        intro m mem
        obtain ⟨i, hm⟩ := List.mem_iff_getElem?.mp mem
        obtain ⟨k, hk⟩ := exists_getElem?_of_length size hm
        exact ih i m k hm hk d
      -- the items are put back in front of what is left of the buffer
      have same : (places.toList.take len).toArray ++ places.extract (places.toList.take len).length places.size = places := by
        refine Array.toList_inj.mp ?_
        obtain ⟨l⟩ := places
        simp only [Array.toList_append, Array.toList_extract, List.size_toArray, List.extract_eq_take_drop, List.length_take]
        obtain few | many := Nat.le_total len l.length
        · have rest : (l.drop len).take (l.length - len) = l.drop len := List.take_of_length_le (by simp)
          rw [Nat.min_eq_left few, rest, List.take_append_drop]
        · rw [Nat.min_eq_right many, List.drop_length, List.take_nil, List.append_nil, List.take_of_length_le many]
      unfold normalizeTo
      rw [run_get_bind, Store.items_of_lies lies, ExceptT.run_bind, StateT.run_bind, run_mapM_self _ inner]
      change (Except.ok (Node.list b len), { s with buffers := s.buffers.modify b _ }) = _
      rw [modify_of_lies lies same]
  | _ => cases d <;> rfl

theorem run_normalize (spells : s.Spells n j) : (normalize n).run.run s = (.ok n, s) := run_normalizeTo spells _

/-- A list is put into memory as what its items are. -/
theorem run_newList {ns : List Node} {js : List Json} (spells : List.Forall₂ t.Spells ns js) :
    ∃ n u, (newList ns).run.run t = (.ok n, u) ∧ t.KeepsAll u ∧ u.Spells n (.list js) := by
  let u : Store := { t with buffers := t.buffers.push ns.toArray }
  have lies : u.buffers[t.buffers.size]? = some ns.toArray := Array.getElem?_push_size
  have keeps : t.KeepsAll u := ⟨⟨fun _ _ => id, fun b places there => by
    rw [Array.getElem?_push, if_neg (Nat.ne_of_lt (Array.getElem?_eq_some_iff.mp there).1), there]⟩, fun _ _ => id, fun _ _ => id,
    fun _ _ => id, rfl, rfl, rfl⟩
  refine ⟨.list t.buffers.size ns.length, u, rfl, keeps, .of_items lies ?_⟩
  rw [List.take_length]
  exact spells.imp fun n j spells => spells.later keeps.toKeepsData

/-- The native form of a value that is followed to its ends. -/
theorem run_toNodeTo (reads : s.ReadsAs v x) (keeps : s.KeepsAll t) {d : Nat} (deep : x.depth ≤ d) :
    ∃ n u, (toNodeTo d v).run.run t = (.ok n, u) ∧ t.KeepsAll u ∧ u.Spells n x.form := by
  induction reads generalizing t d with
  | @single v x single =>
    have here := (keeps.single? v).trans single
    cases v with
    | null =>
      cases here
      exact ⟨_, t, by cases d <;> rfl, .refl t, .null⟩
    | bool b =>
      cases here
      exact ⟨_, t, by cases d <;> rfl, .refl t, .bool b⟩
    | byte n | int n | long n =>
      cases here
      exact ⟨_, t, by cases d <;> rfl, .refl t, .int _⟩
    | string u | date u =>
      cases here
      exact ⟨_, t, by cases d <;> rfl, .refl t, .text _⟩
    | image a | vectorImage a | canvas a | function a =>
      cases here
      exact ⟨_, t, by cases d <;> rfl, .refl t, .text _⟩
    | _ => cases here
  | json lies spells =>
    refine ⟨_, t, ?_, .refl t, spells.later keeps.toKeepsData⟩
    have box := keeps.boxes _ _ lies
    have run (a : Nat) : (toNodeTo d (.json a)).run.run t = (.ok (t.box a), t) := by cases d <;> rfl
    rw [run, Store.box, box, Option.getD_some]
  | @sequence v vs xs lies size each ih =>
    rw [Datum.depth] at deep
    obtain ⟨d, rfl⟩ := Nat.exists_eq_add_of_lt deep
    have items : List.Forall₂ (fun w x => ∀ t, s.KeepsAll t →
        ∃ n u, (toNodeTo (Datum.depths xs + d) w).run.run t = (.ok n, u) ∧ t.KeepsAll u ∧ u.Spells n x.form) vs xs :=
      forall₂_of_each size fun i w x hw hx t keeps => by
        have less := Datum.depth_le_depths (List.mem_of_getElem? hx)
        exact ih i w x hw hx keeps (by omega)
    obtain ⟨ns, u, run, more, spells⟩ := run_mapM_keeps (R := fun u n (x : Datum) => u.Spells n x.form)
      (fun _ _ _ _ keeps spells => spells.later keeps.toKeepsData) items keeps
    have forms : List.Forall₂ u.Spells ns (xs.map Datum.form) := List.forall₂_map_right_iff.mpr spells
    obtain ⟨n, w, run', more', spells'⟩ := run_newList forms
    have made : ((vs.mapM (toNodeTo (Datum.depths xs + d)) >>= newList : StoreM Node)).run.run t = (.ok n, w) := by
      rw [ExceptT.run_bind, StateT.run_bind, run]
      exact run'
    refine ⟨n, w, ?_, more.trans more', by rwa [Datum.form, Datum.forms_eq_map]⟩
    have there := (keeps.elements? lies).1
    cases v with
    | array a =>
      change ((t.array a).cells.toList.mapM _ >>= newList : StoreM Node).run.run t = _
      rw [Store.array_of_elements? there, made]
    | queue a =>
      change ((t.queue a).mapM _ >>= newList : StoreM Node).run.run t = _
      rw [Store.queue_of_elements? there, made]
    | _ => cases lies

/-- The native form of a value. -/
theorem run_toNode (reads : s.ReadsAs v x) : ∃ n t, (toNode v).run.run s = (.ok n, t) ∧ s.KeepsAll t ∧ t.Spells n x.form :=
  run_toNodeTo reads (.refl s) (Nat.le_of_lt reads.depth_lt)

/-- The value of a native form. -/
theorem run_ofNode (spells : s.Spells n j) :
    ∃ v t, (ofNode n).run.run s = (.ok v, t) ∧ s.KeepsAll t ∧ t.ReadsAs v (.ofForm j) := by
  have boxed (n : Node) (spells : s.Spells n j) :
      ∃ v t, (newBox n).run.run s = (.ok v, t) ∧ s.KeepsAll t ∧ t.ReadsAs v (.json j) := by
    let t : Store := { s with boxes := s.boxes.push n }
    have lies : t.boxes[s.boxes.size]? = some n := Array.getElem?_push_size
    have keeps : s.KeepsAll t := ⟨⟨fun _ _ => id, fun _ _ => id⟩, fun _ _ => id, fun _ _ => id, fun a m there => by
      rw [Array.getElem?_push, if_neg (Nat.ne_of_lt (Array.getElem?_eq_some_iff.mp there).1), there], rfl, rfl, rfl⟩
    exact ⟨_, t, rfl, keeps, .json lies (spells.later keeps.toKeepsData)⟩
  unfold ofNode
  rw [ExceptT.run_bind, StateT.run_bind, run_normalize spells]
  cases spells with
  | null => exact ⟨_, s, rfl, .refl s, .single rfl⟩
  | bool b => exact ⟨_, s, rfl, .refl s, .single rfl⟩
  | int n =>
    obtain ⟨k, found, same⟩ := Value.toInt64?_of_whole? (Value.whole?_ofInt64 n s).1
    rw [Int64.toInt_inj.mp same] at found
    exact ⟨_, s, rfl, .refl s, .single (Store.single?_of_toInt64? found s)⟩
  | text t => exact ⟨_, s, rfl, .refl s, .single rfl⟩
  | object lies keys each => exact boxed _ (.object lies keys each)
  | list lies size each => exact boxed _ (.list lies size each)

/-- Json data without doubles is compared by the trees that it spells. -/
theorem run_equalNodes (spells : s.Spells n i) (spells' : s.Spells m j) :
    (equalNodes n m).run.run s = (.ok (i.equal j), s) := by
  unfold equalNodes
  rw [ExceptT.run_bind, StateT.run_bind, run_normalize spells]
  change (normalize m >>= fun m => get >>= fun s => pure ((s.tree n).equal (s.tree m)) : StoreM Bool).run.run s = _
  rw [ExceptT.run_bind, StateT.run_bind, run_normalize spells']
  change (Except.ok ((s.tree n).equal (s.tree m)), s) = _
  rw [spells.tree, spells'.tree]

end StoreM

end ScriptEngine
