import ScriptEngine.Proofs.CodeMemory
import ScriptEngine.Proofs.FoundedData
/-!
# Memory without dangling addresses

No computation makes up an address: what it gives, and what it stores, was given to it, lay in memory, or is new. So memory
stays whole, and comes about by making containers and writing to them.
-/

namespace ScriptEngine

/-! ## Values with addresses -/

/-- Values of a type may hold addresses of json data. What was in memory stays in memory that grows. -/
class Addressed (α : Type) where
  /-- No address in a value leads outside memory. -/
  Valid : Store → α → Prop
  valid_grew : ∀ {s t : Store} {a : α}, s.Grew t → Valid s a → Valid t a

export Addressed (Valid)

/-- Most values hold none. Script values that stand for json data do so by their boxes. -/
instance (priority := low) Addressed.plain {α : Type} : Addressed α := ⟨fun _ _ => True, fun _ _ => trivial⟩

instance : Addressed Node := ⟨fun s n => n.In s, fun h there => there.grew h⟩

section

variable {α β : Type} [Addressed α] [Addressed β]

instance : Addressed (List α) :=
  ⟨fun s l => ∀ a ∈ l, Valid s a, fun h there a ha => Addressed.valid_grew h (there a ha)⟩

instance : Addressed (Option α) :=
  ⟨fun s o => ∀ a, o = some a → Valid s a, fun h there a ha => Addressed.valid_grew h (there a ha)⟩

instance : Addressed (α × β) :=
  ⟨fun s p => Valid s p.1 ∧ Valid s p.2, fun h there => ⟨Addressed.valid_grew h there.1, Addressed.valid_grew h there.2⟩⟩

end

attribute [grind →] Addressed.valid_grew

attribute [grind] Node.In

section

variable {α β : Type} [Addressed α] [Addressed β] {s : Store}

@[grind =]
theorem valid_node {n : Node} : Valid s n ↔ n.In s := .rfl

@[grind =]
theorem valid_list {l : List α} : Valid s l ↔ ∀ a ∈ l, Valid s a := .rfl

@[grind =]
theorem valid_option {o : Option α} : Valid s o ↔ ∀ a, o = some a → Valid s a := .rfl

@[grind =]
theorem valid_pair {p : α × β} : Valid s p ↔ Valid s p.1 ∧ Valid s p.2 := .rfl

end

@[grind ←]
theorem valid_plain {α : Type} {s : Store} (a : α) : Addressed.plain.Valid s a := trivial

namespace Store

variable {s t u : Store}

/-! ## Changes of whole memory -/

/-- Memory that has grown is whole when whatever is new in it is valid. -/
theorem Whole.change (whole : s.Whole) (grew : s.Grew t)
    (boxes : ∀ n ∈ t.boxes, n ∈ s.boxes ∨ n.In t)
    (objects : ∀ es ∈ t.objects, es ∈ s.objects ∨ ∀ e ∈ es, e.2.In t)
    (buffers : ∀ places ∈ t.buffers, places ∈ s.buffers ∨ ∀ n ∈ places, n.In t) : t.Whole where
  boxes n hn := (boxes n hn).elim (fun old => (whole.boxes n old).grew grew) id
  objects es hes := (objects es hes).elim (fun old e he => (whole.objects es old e he).grew grew) id
  buffers p hp := (buffers p hp).elim (fun old n hn => (whole.buffers p old n hn).grew grew) id

/-- Where objects and lists are the same, data is. -/
theorem opens_same {opened put : Node → Prop} (objects : t.objects = s.objects) (buffers : t.buffers = s.buffers) :
    s.Opens opened put t := by
  intro x y inner
  refine .inl ⟨x, ?_, .refl x⟩
  cases y with
  | object a => rwa [Inner, children, object, ← objects]
  | list b len => rwa [Inner, children, items, buffer, ← buffers]
  | _ => exact inner

end Store

namespace StoreM

variable {α β : Type} {s t : Store}

/-! ## Safe computations -/

/-- From whole memory a computation leads along a course to whole memory, also when it fails, and what it gives is good
there. -/
def Guards (good : α → Store → Prop) (x : StoreM α) (s : Store) : Prop :=
  s.Whole → s.Course (x.run.run s).2 ∧ (x.run.run s).2.Whole ∧ ∀ a, (x.run.run s).1 = .ok a → good a (x.run.run s).2

/-- From whole memory a computation leads along a course to whole memory, and gives nothing with an address outside. -/
def Safe [Addressed α] (x : StoreM α) (s : Store) : Prop := Guards (fun a t => Valid t a) x s

variable {good : α → Store → Prop} {good' : β → Store → Prop}

theorem guards_pure {a : α} (h : good a s) : Guards good (pure a) s := fun whole =>
  ⟨.refl, whole, fun _ same => by cases same; exact h⟩

/-- Two computations one after the other. -/
theorem guards_bind {x : StoreM α} {f : α → StoreM β} (hx : Guards good x s)
    (hf : ∀ a t, s.Grew t → good a t → Guards good' (f a) t) : Guards good' (x >>= f) s := by
  intro whole
  obtain ⟨course, whole', given⟩ := hx whole
  rw [ExceptT.run_bind, StateT.run_bind]
  generalize x.run.run s = r at course whole' given
  obtain ⟨r | a, t⟩ := r
  · exact ⟨course, whole', nofun⟩
  · obtain ⟨course', whole'', given'⟩ := hf a t course.grew (given a rfl) whole'
    exact ⟨course.trans course', whole'', given'⟩

theorem guards_get_bind {f : Store → StoreM β} (h : s.Whole → Guards good' (f s) s) : Guards good' (get >>= f) s :=
  fun whole => h whole whole

theorem guards_tryCatch {x : StoreM α} {f : Fault → StoreM α} (hx : Guards good x s)
    (hf : ∀ e t, s.Grew t → Guards good (f e) t) : Guards good (tryCatch x f) s := by
  intro whole
  obtain ⟨course, whole', given⟩ := hx whole
  rw [ExceptT.run_tryCatch, StateT.run_bind]
  generalize x.run.run s = r at course whole' given
  obtain ⟨r | a, t⟩ := r
  · obtain ⟨course', whole'', given'⟩ := hf r t course.grew whole'
    exact ⟨course.trans course', whole'', given'⟩
  · exact ⟨course, whole', given⟩

/-- A change of memory. -/
theorem guards_modifyGet {f : Store → α × Store} (h : s.Whole → s.Course (f s).2 ∧ (f s).2.Whole ∧ good (f s).1 (f s).2) :
    Guards good (modifyGet f) s := fun whole =>
  have ⟨course, whole', given⟩ := h whole
  ⟨course, whole', fun a same => by cases same; exact given⟩

theorem guards_throw (f : Fault) : Guards good (throw f) s := fun whole => ⟨.refl, whole, nofun⟩

section Safe

variable [Addressed α] [Addressed β]

@[grind ←]
theorem safe_pure {a : α} (h : Valid s a) : Safe (pure a) s := guards_pure h

@[grind ←]
theorem safe_throw (f : Fault) : Safe (throw f : StoreM α) s := guards_throw f

omit [Addressed α] in
/-- What would follow a fault does not matter. -/
@[grind ←]
theorem safe_throw_bind (e : Fault) (f : α → StoreM β) : Safe ((throw e : StoreM α) >>= f) s := guards_throw (α := β) e

@[grind ←]
theorem safe_bind {x : StoreM α} {f : α → StoreM β} (hx : Safe x s) (hf : ∀ a t, s.Grew t → Valid t a → Safe (f a) t) :
    Safe (x >>= f) s := guards_bind hx hf

@[grind ←]
theorem safe_get_bind {f : Store → StoreM β} (h : s.Whole → Safe (f s) s) : Safe (get >>= f) s := guards_get_bind h

@[grind ←]
theorem safe_tryCatch {x : StoreM α} {f : Fault → StoreM α} (hx : Safe x s) (hf : ∀ e t, s.Grew t → Safe (f e) t) :
    Safe (tryCatch x f) s := guards_tryCatch hx hf

end Safe

@[grind ←]
theorem safe_kindOf (v : Value) : Safe (kindOf v) s := fun whole => ⟨.refl, whole, fun _ _ => trivial⟩

/-- Looking at the kind of a value changes nothing. -/
theorem safe_kindOf_bind [Addressed β] {v : Value} {f : Kind → StoreM β} (h : Safe (f (s.kindOf v)) s) : Safe (kindOf v >>= f) s := h

@[grind ←]
theorem safe_inspect (v : Value) : Safe (inspect v) s := fun whole => ⟨.refl, whole, fun _ _ => trivial⟩

/-- One computation for every item of a list. -/
@[grind ←]
theorem safe_mapM [Addressed α] [Addressed β] {f : α → StoreM β} (hf : ∀ a t, s.Grew t → Valid t a → Safe (f a) t)
    {l : List α} (valid : Valid s l) : Safe (l.mapM f) s := by
  induction l generalizing s with
  | nil => exact guards_pure nofun
  | cons a l ih =>
    rw [List.mapM_cons]
    refine safe_bind (hf a s (.refl s) (valid a (List.mem_cons_self ..))) fun b t grew hb => ?_
    refine safe_bind (ih (fun a u grew' => hf a u (grew.trans grew')) fun a ha =>
      Addressed.valid_grew grew (valid a (List.mem_cons_of_mem _ ha))) fun bs u grew' hbs => ?_
    refine safe_pure fun c hc => ?_
    obtain rfl | hc := List.mem_cons.mp hc
    · exact Addressed.valid_grew grew' hb
    · exact hbs c hc

end StoreM

/-! ## Containers that are made and written to -/

section Containers

variable {s t : Store}

theorem Array.mem_modify_cases {α : Type} {xs : Array α} {i : Nat} {f : α → α} {y : α} (h : y ∈ xs.modify i f) :
    y ∈ xs ∨ ∃ x, xs[i]? = some x ∧ y = f x := by
  obtain ⟨j, inside, rfl⟩ := Array.mem_iff_getElem.mp h
  have lies := Array.getElem?_eq_getElem inside
  rw [Array.getElem?_modify] at lies
  split at lies
  · rename_i same
    subst same
    cases found : xs[i]? with
    | none =>
      rw [found] at lies
      cases lies
    | some x =>
      rw [found] at lies
      exact .inr ⟨x, rfl, (Option.some.inj lies).symm⟩
  · exact .inl (Array.mem_of_getElem? lies)

namespace Store

/-- The tables of memory that json data lies in. -/
def holding (s : Store) : Array Node × Array (List (Text × Node)) × Array (Array Node) := (s.boxes, s.objects, s.buffers)

/-- Memory to which containers were added lies on a course. -/
theorem Adds.course (h : s.Adds t) (whole : s.Whole) : s.Course t := .adds .refl whole h

/-- Memory in which objects and lists are as they were. -/
theorem grew_same (objects : t.objects = s.objects) (buffers : t.buffers = s.buffers) : s.Grew t where
  objects := Nat.le_of_eq (congrArg Array.size objects).symm
  buffers := Nat.le_of_eq (congrArg Array.size buffers).symm
  places b := by rw [Store.buffer, Store.buffer, buffers]

theorem adds_same (objects : t.objects = s.objects) (buffers : t.buffers = s.buffers) : s.Adds t :=
  ⟨grew_same objects buffers, opens_same objects buffers⟩

/-- A new object holds what was there. -/
theorem adds_object {es : List (Text × Node)} (valid : ∀ e ∈ es, e.2.In s) : s.Adds { s with objects := s.objects.push es } where
  grew := ⟨by simp, Nat.le_refl _, fun _ => Nat.le_refl _⟩
  opens x y inner := by
    cases y with
    | object a =>
      by_cases new : a = s.objects.size
      · subst new
        obtain ⟨e, he, rfl⟩ := List.mem_map.mp inner
        rw [object, Array.getElem?_push_size] at he
        exact .inr ⟨Nat.lt_irrefl _, valid e he⟩
      · rw [Inner, children, object, Array.getElem?_push, if_neg new] at inner
        exact .inl ⟨x, inner, .refl x⟩
    | list b len => exact .inl ⟨x, inner, .refl x⟩
    | _ => cases inner

/-- A new buffer holds what was there. -/
theorem adds_buffer {places : Array Node} (valid : ∀ n ∈ places, n.In s) : s.Adds { s with buffers := s.buffers.push places } where
  grew := by
    refine ⟨Nat.le_refl _, by simp, fun b => ?_⟩
    rw [Store.buffer, Store.buffer, Array.getElem?_push]
    split
    · rename_i new
      rw [new, Array.getElem?_eq_none (Nat.le_refl _)]
      exact Nat.zero_le _
    · exact Nat.le_refl _
  opens x y inner := by
    cases y with
    | object a => exact .inl ⟨x, inner, .refl x⟩
    | list b len =>
      by_cases new : b = s.buffers.size
      · subst new
        have inner := List.mem_of_mem_take inner
        rw [buffer, Array.getElem?_push_size] at inner
        exact .inr ⟨fun there => Nat.lt_irrefl _ there.1, valid x (Array.mem_toList_iff.mp inner)⟩
      · rw [Inner, children, items, buffer, Array.getElem?_push, if_neg new] at inner
        exact .inl ⟨x, inner, .refl x⟩
    | _ => cases inner

/-- An object loses entries. -/
theorem adds_fewer {a : Nat} {es : List (Text × Node)} (old : ∀ e ∈ es, e ∈ s.object a) :
    s.Adds { s with objects := s.objects.setIfInBounds a es } where
  grew := ⟨by simp, Nat.le_refl _, fun _ => Nat.le_refl _⟩
  opens x y inner := by
    cases y with
    | object a' =>
      rw [Inner, children, object, Array.getElem?_setIfInBounds] at inner
      split at inner
      · rename_i same
        subst same
        split at inner
        · obtain ⟨e, he, rfl⟩ := List.mem_map.mp inner
          exact .inl ⟨e.2, List.mem_map_of_mem (old e he), .refl _⟩
        · cases inner
      · exact .inl ⟨x, inner, .refl x⟩
    | list b len => exact .inl ⟨x, inner, .refl x⟩
    | _ => cases inner

/-- Data of memory put into a spot leaves memory whole. -/
theorem Whole.put {n : Node} (whole : s.Whole) (spot : Spot) (there : n.In s) : (s.put spot n).Whole := by
  have grew := grew_put (s := s) spot n
  cases spot with
  | entry a key =>
    refine whole.change grew (fun _ => .inl) (fun es hes => ?_) fun _ => .inl
    obtain old | rfl := Array.mem_or_eq_of_mem_setIfInBounds hes
    · exact .inl old
    refine .inr fun e he => Node.In.grew grew ?_
    obtain rfl | he := Json.mem_insert he
    · exact there
    · exact whole.object he
  | place b i =>
    refine whole.change grew (fun _ => .inl) (fun _ => .inl) fun p hp => ?_
    obtain old | ⟨old, lies, rfl⟩ := Array.mem_modify_cases (show p ∈ s.buffers.modify b fun old => old.setIfInBounds i n from hp)
    · exact .inl old
    refine .inr fun m hm => Node.In.grew grew ?_
    obtain hm | rfl := Array.mem_or_eq_of_mem_setIfInBounds hm
    · exact whole.buffers old (Array.mem_of_getElem? lies) m hm
    · exact there

/-- Where there is no such spot, nothing is put anywhere. -/
theorem adds_put {spot : Spot} {n : Node} (outside : ¬spot.In s) : s.Adds (s.put spot n) := by
  refine ⟨grew_put spot n, fun x y inner => ?_⟩
  obtain ⟨x₀, inner₀, settles⟩ | ⟨here, rfl⟩ := opens_put spot n x y inner
  · exact .inl ⟨x₀, inner₀, settles⟩
  cases spot with
  | entry a key =>
    obtain rfl := show y = .object a from here
    have outside : ¬a < s.objects.size := outside
    rw [Inner, Store.put, Array.setIfInBounds, dif_neg outside] at inner
    exact .inl ⟨x, inner, .refl x⟩
  | place b i =>
    obtain ⟨len, rfl, -⟩ := here
    have outside : ¬i < (s.buffer b).size := outside
    rw [Inner, Store.put, children, items, buffer_modify, Array.setIfInBounds, dif_neg outside] at inner
    refine .inl ⟨x, ?_, .refl x⟩
    rwa [ite_self] at inner

theorem Whole.course_put (whole : s.Whole) (spot : Spot) {n : Node} (there : n.In s) : s.Course (s.put spot n) := by
  by_cases inside : spot.In s
  · exact .writes .refl whole ⟨there, inside, rfl⟩
  · exact (adds_put inside).course whole

end Store

namespace StoreM

/-- A computation that leaves json data alone, and whose result stands for none. -/
theorem safe_of_leaves {x : StoreM α} (left : Leaves Store.holding x) : @Safe α .plain x s := by
  intro whole
  have left := left s
  generalize x.run.run s = r at left
  obtain ⟨r, t⟩ := r
  simp only [Store.holding, Prod.mk.injEq] at left
  obtain ⟨boxes, objects, buffers⟩ := left
  refine ⟨(Store.adds_same objects buffers).course whole, whole.change (Store.grew_same objects buffers) ?_ ?_ ?_, fun _ _ => trivial⟩
  · exact fun _ h => .inl (boxes ▸ h)
  · exact fun _ h => .inl (objects ▸ h)
  · exact fun _ h => .inl (buffers ▸ h)

@[grind ←]
theorem safe_newBox {n : Node} (valid : Valid s n) : Safe (newBox n) s := by
  refine guards_modifyGet fun whole => ?_
  have adds : s.Adds { s with boxes := s.boxes.push n } := Store.adds_same rfl rfl
  refine ⟨adds.course whole, whole.change adds.grew (fun m hm => ?_) (fun _ => .inl) (fun _ => .inl), trivial⟩
  obtain old | rfl := Array.mem_push.mp hm
  · exact .inl old
  · exact .inr (Node.In.grew adds.grew valid)

@[grind ←]
theorem safe_setBox {a : Nat} {n : Node} (valid : Valid s n) : Safe (setBox a n) s := by
  refine guards_modifyGet fun whole => ?_
  have adds : s.Adds { s with boxes := s.boxes.setIfInBounds a n } := Store.adds_same rfl rfl
  refine ⟨adds.course whole, whole.change adds.grew (fun m hm => ?_) (fun _ => .inl) (fun _ => .inl), trivial⟩
  obtain old | rfl := Array.mem_or_eq_of_mem_setIfInBounds hm
  · exact .inl old
  · exact .inr (Node.In.grew adds.grew valid)

@[grind ←]
theorem safe_newObject {es : List (Text × Node)} (valid : Valid s es) : Safe (newObject es) s := by
  refine guards_modifyGet fun whole => ?_
  have valid (e : Text × Node) (he : e ∈ es) : e.2.In s := (valid e he).2
  have adds := Store.adds_object valid
  refine ⟨adds.course whole, whole.change adds.grew (fun _ => .inl) (fun es' hes => ?_) (fun _ => .inl), by simp [Valid, Node.In]⟩
  obtain old | rfl := Array.mem_push.mp hes
  · exact .inl old
  · exact .inr fun e he => (valid e he).grew adds.grew

@[grind ←]
theorem safe_insert {a : Nat} {k : Text} {n : Node} (there : Valid s n) : Safe (setObject a (Json.insert k n (s.object a))) s :=
  guards_modifyGet fun whole => ⟨whole.course_put (.entry a k) there, whole.put (.entry a k) there, trivial⟩

@[grind ←]
theorem safe_erase {a : Nat} {k : Text} : Safe (setObject a (Json.erase k (s.object a))) s := by
  refine guards_modifyGet fun whole => ?_
  have old (e : Text × Node) (he : e ∈ Json.erase k (s.object a)) : e ∈ s.object a := List.mem_of_mem_filter he
  have adds := Store.adds_fewer old
  refine ⟨adds.course whole, whole.change adds.grew (fun _ => .inl) (fun es hes => ?_) (fun _ => .inl), trivial⟩
  obtain kept | rfl := Array.mem_or_eq_of_mem_setIfInBounds hes
  · exact .inl kept
  · exact .inr fun e he => Node.In.grew adds.grew (whole.object (old e he))

/-- A new buffer. -/
theorem whole_push {places : Array Node} (whole : s.Whole) (valid : ∀ n ∈ places, n.In s) :
    Store.Whole { s with buffers := s.buffers.push places } := by
  have adds := Store.adds_buffer valid
  refine whole.change adds.grew (fun _ => .inl) (fun _ => .inl) fun p hp => ?_
  obtain old | rfl := Array.mem_push.mp hp
  · exact .inl old
  · exact .inr fun n hn => (valid n hn).grew adds.grew

@[grind ←]
theorem safe_newList {items : List Node} (valid : Valid s items) : Safe (newList items) s := by
  refine guards_modifyGet fun whole => ?_
  have there : ∀ n ∈ items.toArray, n.In s := fun n hn => valid n (List.mem_toArray.mp hn)
  refine ⟨(Store.adds_buffer there).course whole, whole_push whole there, ?_⟩
  simp [Valid, Node.In, Store.buffer]

@[grind ←]
theorem safe_newGrownList {items : List Node} (valid : Valid s items) : Safe (newGrownList items) s := by
  refine guards_modifyGet fun whole => ?_
  have there (k : Nat) : ∀ n ∈ items.toArray ++ Array.replicate k Node.null, n.In s := by
    intro n hn
    obtain hn | hn := Array.mem_append.mp hn
    · exact valid n (List.mem_toArray.mp hn)
    · rw [(Array.mem_replicate.mp hn).2]
      trivial
  refine ⟨(Store.adds_buffer (there _)).course whole, whole_push whole (there _), ?_⟩
  simp [Valid, Node.In, Store.buffer]

@[grind ←]
theorem safe_setPlace {b i : Nat} {n : Node} (there : Valid s n) : Safe (setPlace b i n) s :=
  guards_modifyGet fun whole => ⟨whole.course_put (.place b i) there, whole.put (.place b i) there, trivial⟩

/-- A list gets one more item, in its buffer or in a new one. -/
theorem safe_append {b len : Nat} {n : Node} (list : Valid s (Node.list b len)) (there : Valid s n) : Safe (append b len n) s := by
  refine guards_get_bind fun whole => ?_
  dsimp only
  by_cases room : len < (s.buffer b).size
  · rw [if_pos room]
    have sizes : Guards (fun _ t => t.buffers.size = s.buffers.size ∧ (t.buffer b).size = (s.buffer b).size) (setPlace b len n) s := by
      intro whole
      obtain ⟨course, whole', -⟩ := safe_setPlace (b := b) (i := len) there whole
      refine ⟨course, whole', fun _ _ => ⟨Array.size_modify, ?_⟩⟩
      change (Store.buffer { s with buffers := s.buffers.modify b fun old => old.setIfInBounds len n } b).size = _
      rw [Store.buffer_modify]
      split
      · exact Array.size_setIfInBounds
      · rfl
    exact guards_bind sizes fun _ t _ same => safe_pure ⟨same.1 ▸ list.1, same.2 ▸ room⟩
  · rw [if_neg room]
    refine guards_modifyGet fun whole => ?_
    have valid (k : Nat) : ∀ m ∈ ((s.buffer b).extract 0 len).push n ++ Array.replicate k Node.null, m.In s := by
      intro m hm
      obtain hm | hm := Array.mem_append.mp hm
      · obtain hm | rfl := Array.mem_push.mp hm
        · rw [← Array.mem_toList_iff, Array.toList_extract, List.extract_eq_take_drop] at hm
          exact whole.buffer (Array.mem_toList_iff.mp (List.mem_of_mem_drop (List.mem_of_mem_take hm)))
        · exact there
      · rw [(Array.mem_replicate.mp hm).2]
        trivial
    refine ⟨(Store.adds_buffer (valid _)).course whole, whole_push whole (valid _), ?_⟩
    have fits : len ≤ (s.buffer b).size := list.2
    simp only [Valid, Node.In, Array.size_push, Store.buffer, Array.getElem?_push_size, Option.getD_some, Array.size_append,
      Array.size_extract, Array.size_replicate]
    rw [Store.buffer] at fits
    omega

/-! ### Places that are moved -/

/-- Places from `i` up to `k` are given what lies behind them. -/
def shifted (old : Array Node) (i k : Nat) : Array Node :=
  Array.ofFn fun j : Fin old.size => if i ≤ j.val ∧ j.val < k then old[j.val + 1]?.getD .null else old[j]

theorem getElem?_shifted (old : Array Node) (i k j : Nat) :
    (shifted old i k)[j]? = if i ≤ j ∧ j < k ∧ j < old.size then some (old[j + 1]?.getD .null) else old[j]? := by
  rw [shifted, Array.getElem?_ofFn]
  by_cases inside : j < old.size
  · rw [dif_pos inside]
    by_cases moved : i ≤ j ∧ j < k
    · rw [if_pos moved, if_pos ⟨moved.1, moved.2, inside⟩]
    · rw [if_neg moved, if_neg fun h => moved ⟨h.1, h.2.1⟩, Array.getElem?_eq_getElem inside]
      rfl
  · rw [dif_neg inside, if_neg fun h => inside h.2.2, Array.getElem?_eq_none (Nat.not_lt.mp inside)]

theorem size_shifted (old : Array Node) (i k : Nat) : (shifted old i k).size = old.size := Array.size_ofFn

theorem shifted_self (old : Array Node) (i : Nat) : shifted old i i = old := by
  refine Array.ext_getElem? fun j => ?_
  rw [getElem?_shifted, if_neg (by omega)]

/-- Places are moved one after the other. -/
theorem shifted_succ (old : Array Node) {i k : Nat} (le : i ≤ k) :
    shifted old i (k + 1) = (shifted old i k).setIfInBounds k (old[k + 1]?.getD .null) := by
  refine Array.ext_getElem? fun j => ?_
  rw [Array.getElem?_setIfInBounds, getElem?_shifted, getElem?_shifted, size_shifted]
  by_cases here : k = j
  · subst here
    rw [if_pos rfl]
    by_cases inside : k < old.size
    · rw [if_pos ⟨le, Nat.lt_succ_self k, inside⟩, if_pos inside]
    · rw [if_neg fun h => inside h.2.2, if_neg inside, Array.getElem?_eq_none (Nat.not_lt.mp inside)]
  · rw [if_neg here]
    have same : (i ≤ j ∧ j < k + 1 ∧ j < old.size) ↔ (i ≤ j ∧ j < k ∧ j < old.size) := by omega
    simp only [same]

/-- A place is taken out by moving those behind it. -/
theorem extract_eq_shifted {old : Array Node} {i len : Nat} (inside : i < len) (fits : len ≤ old.size) :
    old.extract 0 i ++ old.extract (i + 1) len ++ old.extract (len - 1) old.size = shifted old i (len - 1) := by
  refine Array.ext_getElem? fun j => ?_
  rw [getElem?_shifted, Array.getElem?_append, Array.getElem?_append]
  simp only [Array.size_append, Array.size_extract, Array.getElem?_extract, Nat.min_eq_left fits,
    Nat.min_eq_left (show i ≤ old.size by omega), Nat.min_self, Nat.sub_zero, Nat.zero_add]
  by_cases before : j < i
  · rw [if_pos (by omega), if_pos before, if_pos before, if_neg (by omega)]
  by_cases moved : j < len - 1
  · have next : j + 1 < old.size := by omega
    have place : i + 1 + (j - i) = j + 1 := by omega
    rw [if_pos (by omega), if_neg before, if_pos (by omega), if_pos (by omega), place, Array.getElem?_eq_getElem next,
      Option.getD_some]
  · have place : len - 1 + (j - (i + (len - (i + 1)))) = j := by omega
    rw [if_neg (by omega), if_neg (show ¬(i ≤ j ∧ j < len - 1 ∧ j < old.size) by omega), place]
    split
    · rfl
    · exact (Array.getElem?_eq_none (by omega)).symm

theorem modify_congr {α : Type} {xs : Array α} {b : Nat} {f g : α → α} (h : ∀ x, xs[b]? = some x → f x = g x) :
    xs.modify b f = xs.modify b g := by
  refine Array.ext_getElem? fun j => ?_
  rw [Array.getElem?_modify, Array.getElem?_modify]
  split
  · rename_i same
    subst same
    cases found : xs[b]? with
    | none => rfl
    | some x => rw [Option.map_some, Option.map_some, h x found]
  · rfl

/-- An item is taken out of a list by writing the items behind it to the places before them, one after the other. -/
theorem safe_removePlace {b len i : Nat} (list : Valid s (Node.list b len)) (inside : i < len) : Safe (removePlace b len i) s := by
  let moved (k : Nat) : Store := { s with buffers := s.buffers.modify b (shifted · i k) }
  have steps (whole : s.Whole) (k : Nat) (le : i ≤ k) : s.Course (moved k) ∧ (moved k).Whole := by
    induction k, le using Nat.le_induction with
    | base =>
      have same : moved i = s := by
        have same : s.buffers.modify b (shifted · i i) = s.buffers := by
          simp only [shifted_self]
          exact Array.ext_getElem? fun j => by rw [Array.getElem?_modify]; split <;> simp
        change { s with buffers := s.buffers.modify b (shifted · i i) } = s
        rw [same]
      rw [same]
      exact ⟨.refl, whole⟩
    | succ k le ih =>
      have next : (setPlace b k ((s.buffer b)[k + 1]?.getD .null)).run.run (moved k) = (.ok (), moved (k + 1)) := by
        have same : (s.buffers.modify b (shifted · i k)).modify b
            (fun old => old.setIfInBounds k ((s.buffer b)[k + 1]?.getD .null)) = s.buffers.modify b (shifted · i (k + 1)) := by
          refine Array.ext_getElem? fun j => ?_
          simp only [Array.getElem?_modify]
          split
          · rename_i here
            subst here
            cases found : s.buffers[b]? with
            | none => rfl
            | some old => simp [Store.buffer, found, shifted_succ old le]
          · rfl
        have written : (setPlace b k ((s.buffer b)[k + 1]?.getD .null)).run.run (moved k) =
            (.ok (), { s with buffers := (s.buffers.modify b (shifted · i k)).modify b fun old =>
              old.setIfInBounds k ((s.buffer b)[k + 1]?.getD .null) }) := rfl
        rw [written, same]
      have there : Valid (moved k) ((s.buffer b)[k + 1]?.getD .null) := by
        refine Node.In.grew ih.1.grew ?_
        cases found : (s.buffer b)[k + 1]? with
        | none => trivial
        | some n => exact whole.buffer (Array.mem_of_getElem? found)
      have safe := safe_setPlace (b := b) (i := k) there ih.2
      rw [next] at safe
      exact ⟨ih.1.trans safe.1, safe.2.1⟩
  let close (old : Array Node) : Array Node := old.extract 0 i ++ old.extract (i + 1) len ++ old.extract (len - 1) old.size
  have closes : Guards (fun _ _ => True) (modify fun s => { s with buffers := s.buffers.modify b close }) s := by
    intro whole
    have last : { s with buffers := s.buffers.modify b close } = moved (len - 1) := by
      have same : s.buffers.modify b close = s.buffers.modify b (shifted · i (len - 1)) := by
        refine modify_congr fun old lies => extract_eq_shifted inside ?_
        have fits := list.2
        rwa [Store.buffer, lies] at fits
      rw [same]
    have ⟨course, whole'⟩ := steps whole (len - 1) (by omega)
    rw [← last] at course whole'
    exact ⟨course, whole', fun _ _ => trivial⟩
  refine guards_bind closes fun _ t grew _ => ?_
  have kept := Node.In.grew grew list
  exact safe_pure ⟨kept.1, by have := kept.2; omega⟩

end StoreM

/-! ### Data that settles -/

namespace Store

/-- All of memory that settling leaves alone. -/
def fixed (s : Store) : Array Node × Nat × Nat := (s.boxes, s.objects.size, s.buffers.size)

/-- Memory in which data has settled is whole, and holds no new data. -/
theorem Whole.settled (whole : s.Whole) (later : s.Later (fun _ => False) t) (fixed : t.fixed = s.fixed) :
    s.Adds t ∧ t.Whole := by
  simp only [Store.fixed, Prod.mk.injEq] at fixed
  obtain ⟨boxes, objects, buffers⟩ := fixed
  have back {es : List (Text × Node)} {a : Nat} (lies : t.objects[a]? = some es) :
      ∃ es₀, s.objects[a]? = some es₀ ∧ EntriesSettle es₀ es := by
    have inside := (Array.getElem?_eq_some_iff.mp lies).1
    rw [objects] at inside
    obtain ⟨es', lies', settles⟩ := later.objects a _ (Array.getElem?_eq_getElem inside)
    cases lies.symm.trans lies'
    exact ⟨_, Array.getElem?_eq_getElem inside, settles⟩
  have back' {p : Array Node} {b : Nat} (lies : t.buffers[b]? = some p) :
      ∃ p₀, s.buffers[b]? = some p₀ ∧ PlacesSettle p₀ p := by
    have inside := (Array.getElem?_eq_some_iff.mp lies).1
    rw [buffers] at inside
    obtain ⟨p', lies', settles⟩ := later.buffers b _ (Array.getElem?_eq_getElem inside)
    cases lies.symm.trans lies'
    exact ⟨_, Array.getElem?_eq_getElem inside, settles⟩
  have grew : s.Grew t := by
    refine ⟨Nat.le_of_eq objects.symm, Nat.le_of_eq buffers.symm, fun b => ?_⟩
    rw [Store.buffer, Store.buffer]
    cases lies : s.buffers[b]? with
    | none => exact Nat.zero_le _
    | some p =>
      obtain ⟨p', lies', settles⟩ := later.buffers b p lies
      rw [lies']
      exact Nat.le_of_eq settles.length_eq
  have valid {x₀ x : Node} (there : x₀.In s) (settles : x₀.Settles x) : x.In t := by
    obtain rfl | ⟨_, _, _, rfl⟩ := settles.cases
    · exact there.grew grew
    · trivial
  refine ⟨⟨grew, fun x y inner => .inl (later.inner inner (fun a same => ?_) fun b len same => ?_)⟩,
    whole.change grew (fun n hn => .inl (boxes ▸ hn)) ?_ ?_⟩
  · subst same
    exact objects ▸ object_of_inner inner
  · subst same
    exact buffers ▸ buffer_of_inner inner
  · intro es hes
    obtain ⟨a, lies⟩ := Array.mem_iff_getElem?.mp hes
    obtain ⟨es₀, lies₀, settles⟩ := back lies
    refine .inr fun e he => ?_
    obtain ⟨e₀, he₀, -, same⟩ := forall₂_exists_left settles he
    exact valid (whole.objects es₀ (Array.mem_of_getElem? lies₀) e₀ he₀) same
  · intro p hp
    obtain ⟨b, lies⟩ := Array.mem_iff_getElem?.mp hp
    obtain ⟨p₀, lies₀, settles⟩ := back' lies
    refine .inr fun x hx => ?_
    obtain ⟨x₀, hx₀, same⟩ := forall₂_exists_left settles (Array.mem_toList_iff.mpr hx)
    exact valid (whole.buffers p₀ (Array.mem_of_getElem? lies₀) x₀ (Array.mem_toList_iff.mp hx₀)) same

end Store

namespace StoreM

theorem fixed_normalizeTo (depth : Nat) (n : Node) : Leaves Store.fixed (normalizeTo depth n) :=
  leaves_normalizeTo_of (by simp [Store.fixed]) (by simp [Store.fixed]) depth n

/-- Data that settles holds nothing new. -/
@[grind ←]
theorem safe_normalizeTo {depth : Nat} {n : Node} (valid : Valid s n) : Safe (normalizeTo depth n) s := by
  intro whole
  obtain ⟨later, settled⟩ : Makes (fun _ => False) _ (normalizeTo depth n) s := makes_normalizeTo depth n
  obtain ⟨adds, whole'⟩ := whole.settled later (fixed_normalizeTo depth n s)
  refine ⟨adds.course whole, whole', fun m hm => ?_⟩
  rw [settled m hm]
  have settles : n.Settles n.settle := .inr rfl
  obtain same | ⟨_, _, _, same⟩ := settles.cases
  · rw [same]
    exact Node.In.grew adds.grew valid
  · rw [same]
    trivial

end StoreM

end Containers

end ScriptEngine
