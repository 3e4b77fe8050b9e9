import ScriptEngine.Eval
import ScriptEngine.Proofs.MemberPaths
import ScriptEngine.Proofs.PlaceWrites
/-!
# What a write to a member leaves

A member of a variable without a shape is written in place: one key of one object is set, whoever holds the object. When
the variable has a shape, a copy is written to that nobody else holds, and what the shape makes of it becomes the value. A
write that fails leaves every variable as it was.
-/

namespace ScriptEngine

/-! ## Memory with more in it -/

namespace Store

/-- Objects and lists were added to memory, and all else is exactly as it was. -/
def Extended (s t : Store) : Prop := ∃ os bs, t = { s with objects := s.objects ++ os, buffers := s.buffers ++ bs }

variable {s t u : Store} {n m x y : Node} {a : Nat} {p : List Text}

theorem Extended.refl (s : Store) : s.Extended s := ⟨#[], #[], by rw [Array.append_empty, Array.append_empty]⟩

theorem Extended.trans (h : s.Extended t) (k : t.Extended u) : s.Extended u := by
  obtain ⟨os, bs, rfl⟩ := h
  obtain ⟨os', bs', rfl⟩ := k
  exact ⟨os ++ os', bs ++ bs', by simp only [Array.append_assoc]⟩

theorem Extended.size (h : s.Extended t) : s.objects.size ≤ t.objects.size := by
  obtain ⟨os, bs, rfl⟩ := h
  simp

theorem Extended.object (h : s.Extended t) (inside : a < s.objects.size) : t.object a = s.object a := by
  obtain ⟨os, bs, rfl⟩ := h
  rw [Store.object, Store.object, Array.getElem?_append_left inside]

theorem Extended.getElem? (h : s.Extended t) (inside : a < s.objects.size) : t.objects[a]? = s.objects[a]? := by
  obtain ⟨os, bs, rfl⟩ := h
  exact Array.getElem?_append_left inside

theorem Extended.places (h : s.Extended t) (inside : a < s.buffers.size) : t.buffers[a]? = s.buffers[a]? := by
  obtain ⟨os, bs, rfl⟩ := h
  exact Array.getElem?_append_left inside

/-- What was there holds what it held. -/
theorem Extended.children (h : s.Extended t) (there : n.In s) : t.children n = s.children n := by
  cases n with
  | object a => rw [Store.children, Store.children, h.object there]
  | list b len => rw [Store.children, Store.children, Store.items, Store.items, Store.buffer, Store.buffer, h.places there.1]
  | _ => rfl

/-- Paths lead to what they led to. -/
theorem Extended.member? (h : s.Extended t) (inside : ∀ p a, s.member? n p = some (.object a) → a < s.objects.size) :
    t.member? n p = s.member? n p := by
  induction p generalizing n with
  | nil => rw [member?_nil, member?_nil]
  | cons name rest ih =>
    cases n with
    | object a =>
      rw [member?_object, member?_object, h.object (inside [] a member?_nil)]
      cases found : findKey name (s.object a) with
      | none => rfl
      | some key =>
        exact ih fun p b lies => inside (name :: p) b (by rw [member?_object, found, Option.bind_some, lies])
    | _ => rfl

/-- What a path leads to in whole memory lies there. -/
theorem Whole.member? (whole : s.Whole) (there : n.In s) (h : s.member? n p = some m) : m.In s :=
  whole.within (within_of_member? h) there

/-- What is read at a path is the same. -/
theorem Extended.followMember (h : s.Extended t) (inside : ∀ p a, s.member? n p = some (.object a) → a < s.objects.size)
    {base : Text} {path q : List Text} {d : Nat} :
    Eval.followMember base path t d q n = Eval.followMember base path s d q n :=
  followMember_aside (o := s.objects.size) (fun _ ha _ => h.object ha) inside fun _ _ lies => Nat.lt_irrefl _ (inside _ _ lies)

theorem Extended.leadsOnce (h : s.Extended t) (inside : ∀ p a, s.member? n p = some (.object a) → a < s.objects.size)
    (once : s.LeadsOnce n) : t.LeadsOnce n := by
  intro p q a first again
  rw [h.member? inside] at first again
  exact once p q a first again

theorem Extended.keysApart (h : s.Extended t) (inside : ∀ p a, s.member? n p = some (.object a) → a < s.objects.size)
    (apart : s.KeysApart n) : t.KeysApart n := by
  intro p a lies
  rw [h.member? inside] at lies
  rw [h.object (inside p a lies)]
  exact apart p a lies

/-- Data is put at a path as well when objects and lists were added before. -/
theorem Put.after {root : Node} {path : List Text} {o : Nat} (h : s.Extended t)
    (inside : ∀ p a, s.member? root p = some (.object a) → a < s.objects.size) (put : t.Put root path n o u) :
    s.Put root path n o u := by
  have same (p : List Text) : t.member? root p = s.member? root p := h.member? inside
  obtain ⟨k, hk, along⟩ := put.along
  rw [same] at along
  have here := inside _ o along
  refine ⟨here, ⟨k, hk, along⟩, ?_, fun a ha ne => ?_, ?_, put.reads, fun q diverges only base d => ?_⟩
  · obtain ⟨os, bs, rfl⟩ := h
    obtain ⟨bs', rest⟩ := put.rest
    exact ⟨bs ++ bs', by rw [← Array.append_assoc]; exact rest⟩
  · rw [put.objects a (Nat.lt_of_lt_of_le ha h.size) ne, h.getElem? ha]
  · obtain ⟨key, x, set, alone⟩ := put.set
    rw [h.object here] at set alone
    exact ⟨key, x, set, alone⟩
  · rw [put.others q diverges fun j lies => only j (same _ ▸ lies), h.followMember inside]

/-! ## Data of its own -/

/-- Data that was made since memory was `s`. Every object that paths lead to is new, paths that lead to the same one agree,
and keys are as they should be. -/
structure Own (s t : Store) (m : Node) : Prop where
  fresh : ∀ p a, t.member? m p = some (.object a) → s.objects.size ≤ a ∧ a < t.objects.size
  alone : ∀ p q a, t.member? m p = some (.object a) → t.member? m q = some (.object a) → Agree p q
  apart : t.KeysApart m

theorem Own.extended (h : s.Own t m) (k : t.Extended u) : s.Own u m := by
  have same (p : List Text) : u.member? m p = t.member? m p := k.member? fun p a lies => (h.fresh p a lies).2
  refine ⟨fun p a lies => ?_, fun p q a lies lies' => h.alone p q a (same p ▸ lies) (same q ▸ lies'), fun p a lies => ?_⟩
  · have bounds := h.fresh p a (same p ▸ lies)
    exact ⟨bounds.1, Nat.lt_of_lt_of_le bounds.2 k.size⟩
  · rw [k.object (h.fresh p a (same p ▸ lies)).2]
    exact h.apart p a (same p ▸ lies)

theorem Own.earlier (h : t.Own u m) (k : s.Extended t) : s.Own u m :=
  { h with fresh := fun p a lies => ⟨Nat.le_trans k.size (h.fresh p a lies).1, (h.fresh p a lies).2⟩ }

/-- Data that is no object is its own. -/
theorem own_of_ne (ne : ∀ a, m ≠ .object a) : s.Own t m := by
  have none (p : List Text) (a : Nat) : t.member? m p ≠ some (.object a) := by
    intro lies
    cases p with
    | nil =>
      rw [member?_nil] at lies
      exact ne a (Option.some.inj lies)
    | cons name rest =>
      obtain ⟨b, _, _, rfl, -⟩ := member?_cons lies
      exact ne b rfl
  exact ⟨fun p a lies => absurd lies (none p a), fun p _ a lies => absurd lies (none p a), fun p a lies => absurd lies (none p a)⟩

theorem Own.leadsOnce (h : s.Own t m) : t.LeadsOnce m := by
  intro p q a first again
  have same := (h.alone p (p ++ q) a first again).length_eq
  rw [List.length_append] at same
  exact List.eq_nil_of_length_eq_zero (by omega)

/-- No path leads from one of two nodes to an object that one leads to from the other. -/
def Disjoint (t : Store) (m m' : Node) : Prop := ∀ p q a, t.member? m p = some (.object a) → t.member? m' q ≠ some (.object a)

/-- A new object of data of its own, no two entries of which lead to the same, is its own. -/
theorem own_object {es : List (Text × Node)} (size : s.objects.size ≤ t.objects.size) (each : ∀ e ∈ es, s.Own t e.2)
    (disjoint : es.Pairwise fun e f => t.Disjoint e.2 f.2) (keys : ScriptEngine.KeysApart es) :
    s.Own { t with objects := t.objects.push es } (.object t.objects.size) := by
  let u : Store := { t with objects := t.objects.push es }
  have more : t.Extended u := ⟨#[es], #[], by simp [u]⟩
  have new : u.object t.objects.size = es := by rw [Store.object, Array.getElem?_push_size, Option.getD_some]
  -- a path into the new object goes on from one of its entries
  have onward {p : List Text} {a : Nat} (lies : u.member? (.object t.objects.size) p = some (.object a)) :
      p = [] ∧ a = t.objects.size ∨
        ∃ name rest e, p = name :: rest ∧ e ∈ es ∧ e.1.equalFold name = true ∧ t.member? e.2 rest = some (.object a) := by
    cases p with
    | nil =>
      rw [member?_nil] at lies
      cases lies
      exact .inl ⟨rfl, rfl⟩
    | cons name rest =>
      obtain ⟨b, key, x, same, found, under, inner⟩ := member?_cons lies
      cases same
      rw [new] at found under
      have he := Json.mem_of_lookup under
      rw [more.member? fun p a lies => ((each _ he).fresh p a lies).2] at inner
      exact .inr ⟨name, rest, (key, x), rfl, he, findKey_fold found, inner⟩
  refine ⟨fun p a lies => ?_, fun p q a lies lies' => ?_, fun p a lies => ?_⟩
  · obtain ⟨-, rfl⟩ | ⟨name, rest, e, -, he, -, inner⟩ := onward lies
    · exact ⟨size, by simp⟩
    · have bounds := (each e he).fresh rest a inner
      exact ⟨bounds.1, Nat.lt_of_lt_of_le bounds.2 more.size⟩
  · obtain ⟨rfl, rfl⟩ | ⟨name, rest, e, rfl, he, named, inner⟩ := onward lies
    · obtain ⟨rfl, -⟩ | ⟨_, rest', e', -, he', -, inner'⟩ := onward lies'
      · exact .nil
      · exact absurd ((each e' he').fresh rest' _ inner').2 (Nat.lt_irrefl _)
    · obtain ⟨-, rfl⟩ | ⟨name', rest', e', rfl, he', named', inner'⟩ := onward lies'
      · exact absurd ((each e he).fresh rest _ inner).2 (Nat.lt_irrefl _)
      · obtain rfl : e = e' := by
          obtain ⟨i, hi, rfl⟩ := List.getElem_of_mem he
          obtain ⟨j, hj, rfl⟩ := List.getElem_of_mem he'
          obtain before | rfl | after := Nat.lt_trichotomy i j
          · exact absurd inner' (List.pairwise_iff_getElem.mp disjoint i j hi hj before rest rest' a inner)
          · rfl
          · exact absurd inner (List.pairwise_iff_getElem.mp disjoint j i hj hi after rest' rest a inner')
        refine .cons ?_ ((each e he).alone rest rest' a inner inner')
        rw [← Text.equalFold_congr named, named']
  · obtain ⟨-, rfl⟩ | ⟨name, rest, e, -, he, -, inner⟩ := onward lies
    · rwa [new]
    · rw [more.object ((each e he).fresh rest a inner).2]
      exact (each e he).apart rest a inner

/-- Data that is put at a path of data of its own changes nothing that was there before. -/
theorem Put.later {path : List Text} {o : Nat} (own : s.Own t m) (more : s.Extended t) (put : t.Put m path n o u) :
    s.Later (fun _ => False) u := by
  obtain ⟨k, -, along⟩ := put.along
  have new := (own.fresh _ o along).1
  obtain ⟨os, bs, same⟩ := more
  obtain ⟨bs', rest⟩ := put.rest
  have boxes : u.boxes = s.boxes := by rw [rest, same]
  have arrays : u.arrays = s.arrays := by rw [rest, same]
  have buffers : u.buffers = s.buffers ++ (bs ++ bs') := by rw [rest, same, Array.append_assoc]
  have refl : s.Later (fun _ => False) s := .refl s
  refine ⟨arrays ▸ refl.arrays, boxes ▸ refl.boxes, fun a es lies => ⟨es, ?_, .refl es⟩,
    fun b places lies => ⟨places, ?_, .refl places⟩, by rw [rest, same]⟩
  · have inside := (Array.getElem?_eq_some_iff.mp lies).1
    have size : s.objects.size ≤ t.objects.size := by simp [same]
    rw [put.objects a (by omega) (by omega), same, Array.getElem?_append_left inside, lies]
  · rw [buffers, Array.getElem?_append_left (Array.getElem?_eq_some_iff.mp lies).1, lies]

/-- In data of its own other paths read what they did, wherever they lead. -/
theorem Put.others_own {path q : List Text} {o : Nat} (own : s.Own t m) (put : t.Put m path n o u) (diverges : Diverges path q)
    (base : Text) (d : Nat) : Eval.followMember base q u d q m = Eval.followMember base q t d q m := by
  obtain ⟨k, -, along⟩ := put.along
  refine put.others q diverges (fun j lies apart => ?_) base d
  have agrees := own.alone _ _ o along lies
  rw [← List.take_append_drop k path, ← List.append_nil (q.take j), diverges_append agrees] at apart
  exact not_diverges_nil_right apart

end Store

/-! ## Clones -/

namespace StoreM

/-- A computation gives something, and objects and lists are all that it adds to memory. -/
def Adds {α : Type} (x : StoreM α) : Prop := ∀ s, ∃ a t, x.run.run s = (.ok a, t) ∧ s.Extended t

section Adds

variable {α β : Type} {s : Store}

theorem adds_pure (a : α) : Adds (pure a) := fun s => ⟨a, s, rfl, .refl s⟩

theorem adds_bind {x : StoreM α} {f : α → StoreM β} (hx : Adds x) (hf : ∀ a, Adds (f a)) : Adds (x >>= f) := by
  intro s
  obtain ⟨a, t, first, more⟩ := hx s
  obtain ⟨b, u, next, more'⟩ := hf a t
  refine ⟨b, u, ?_, more.trans more'⟩
  rw [ExceptT.run_bind, StateT.run_bind, first]
  exact next

theorem adds_get_bind {f : Store → StoreM β} (h : ∀ s, Adds (f s)) : Adds (get >>= f) := fun s => h s s

theorem adds_mapM {f : α → StoreM β} (hf : ∀ a, Adds (f a)) (l : List α) : Adds (l.mapM f) := by
  induction l with
  | nil => exact adds_pure []
  | cons a l ih =>
    rw [List.mapM_cons]
    exact adds_bind (hf a) fun b => adds_bind ih fun bs => adds_pure _

theorem adds_newList (items : List Node) : Adds (newList items) := fun s => ⟨_, _, rfl, #[], #[items.toArray], by simp⟩

theorem adds_inspect (v : Value) : Adds (inspect v) := fun s => ⟨_, s, rfl, .refl s⟩

theorem adds_toNodeTo (depth : Nat) (v : Value) : Adds (toNodeTo depth v) := by
  have text (v : Value) : Adds (do pure (Node.text (← inspect v)) : StoreM Node) := adds_bind (adds_inspect v) fun _ => adds_pure _
  induction depth generalizing v with
  | zero =>
    cases v with
    | json a => exact adds_get_bind fun s => adds_pure _
    | array _ | queue _ | image _ | vectorImage _ | canvas _ | function _ => exact text _
    | _ => exact adds_pure _
  | succ depth ih =>
    cases v with
    | json a => exact adds_get_bind fun s => adds_pure _
    | array a | queue a => exact adds_get_bind fun s => adds_bind (adds_mapM ih _) adds_newList
    | image _ | vectorImage _ | canvas _ | function _ => exact text _
    | _ => exact adds_pure _

theorem adds_toNode (v : Value) : Adds (toNode v) := adds_get_bind fun _ => adds_toNodeTo _ v

end Adds

section Clones

variable {s₀ s : Store} {depth : Nat} {n : Node}

/-- Clones of the entries of an object, one after the other, hold nothing in common when each is its own. -/
theorem owns_entries {R : Store → Node → Node → Prop} {P : Prop} (stays : ∀ n m t u, t.Extended u → R t n m → R u n m)
    {es : List (Text × Node)} (each : ∀ e ∈ es, ∀ u, s₀.Extended u →
      ∃ m t, (cloneTo depth e.2).run.run u = (.ok m, t) ∧ u.Extended t ∧ (P → u.Own t m) ∧ R t e.2 m)
    (extended : s₀.Extended s) :
    ∃ es' t, (es.mapM fun (e : Text × Node) => do pure (e.1, ← cloneTo depth e.2) : StoreM _).run.run s = (.ok es', t) ∧ s.Extended t ∧
      (P → (∀ e ∈ es', s.Own t e.2) ∧ es'.Pairwise fun e f => t.Disjoint e.2 f.2) ∧
      List.Forall₂ (fun e e' => e'.1 = e.1 ∧ R t e.2 e'.2) es es' := by
  induction es generalizing s with
  | nil => exact ⟨[], s, rfl, .refl s, fun _ => ⟨fun _ he => absurd he List.not_mem_nil, .nil⟩, .nil⟩
  | cons e es ih =>
    obtain ⟨m, t, run, more, own, same⟩ := each e (List.mem_cons_self ..) s extended
    obtain ⟨es', u, run', more', owns, all⟩ := ih (fun e he => each e (List.mem_cons_of_mem _ he)) (extended.trans more)
    refine ⟨(e.1, m) :: es', u, ?_, more.trans more', fun hp => ⟨?_, List.pairwise_cons.mpr ⟨fun f hf p q a lies lies' => ?_, (owns hp).2⟩⟩, ?_⟩
    · rw [List.mapM_cons, bind_assoc, ExceptT.run_bind, StateT.run_bind, run]
      change ((es.mapM _ >>= fun rest => pure ((e.1, m) :: rest) : StoreM _)).run.run t = _
      rw [ExceptT.run_bind, StateT.run_bind, run']
      rfl
    · intro f hf
      obtain rfl | hf := List.mem_cons.mp hf
      · exact (own hp).extended more'
      · exact ((owns hp).1 f hf).earlier more
    · -- the first lies before all that is made afterwards
      rw [more'.member? fun p a lies => ((own hp).fresh p a lies).2] at lies
      have before := ((own hp).fresh p a lies).2
      have after := (((owns hp).1 f hf).fresh q a lies').1
      omega
    · exact .cons ⟨rfl, stays _ _ _ _ more' same⟩ all

/-- Clones of the items of a list hold the same data. -/
theorem alike_items {R : Store → Node → Node → Prop} (stays : ∀ n m t u, t.Extended u → R t n m → R u n m) {items : List Node}
    (each : ∀ n ∈ items, ∀ u, s₀.Extended u → ∃ m t, (cloneTo depth n).run.run u = (.ok m, t) ∧ u.Extended t ∧ R t n m)
    (extended : s₀.Extended s) :
    ∃ items' t, (items.mapM (cloneTo depth)).run.run s = (.ok items', t) ∧ s.Extended t ∧ List.Forall₂ (R t) items items' := by
  induction items generalizing s with
  | nil => exact ⟨[], s, rfl, .refl s, .nil⟩
  | cons n items ih =>
    obtain ⟨m, t, run, more, same⟩ := each n (List.mem_cons_self ..) s extended
    obtain ⟨items', u, run', more', all⟩ := ih (fun n hn => each n (List.mem_cons_of_mem _ hn)) (extended.trans more)
    refine ⟨m :: items', u, ?_, more.trans more', .cons (stays _ _ _ _ more' same) all⟩
    rw [List.mapM_cons, ExceptT.run_bind, StateT.run_bind, run]
    change ((items.mapM _ >>= fun rest => pure (m :: rest) : StoreM _)).run.run t = _
    rw [ExceptT.run_bind, StateT.run_bind, run']
    rfl

theorem later_of_extended {t u : Store} (h : t.Extended u) : t.Later (fun _ => False) u := by
  obtain ⟨os, bs, rfl⟩ := h
  have refl : t.Later (fun _ => False) t := .refl t
  refine ⟨refl.arrays, refl.boxes, fun a es lies => ⟨es, ?_, .refl es⟩, fun b places lies => ⟨places, ?_, .refl places⟩, rfl⟩
  · rw [Array.getElem?_append_left (Array.getElem?_eq_some_iff.mp lies).1, lies]
  · rw [Array.getElem?_append_left (Array.getElem?_eq_some_iff.mp lies).1, lies]

/-- What a clone to a depth is: it holds the same data, and is its own when the keys of the data are apart. -/
def Clones (s₀ : Store) (depth : Nat) (n : Node) (s : Store) : Prop :=
  ∃ m t, (cloneTo depth n).run.run s = (.ok m, t) ∧ s.Extended t ∧ (s₀.KeysApart n → s.Own t m) ∧ s₀.Alike t n m

/-- Data is cloned one level deeper than what lies in it. -/
theorem clones_succ (there : n.In s₀) (extended : s₀.Extended s)
    (each : ∀ x ∈ s₀.children n, ∀ u, s₀.Extended u → Clones s₀ depth x u) : Clones s₀ (depth + 1) n s := by
  have stays (n m : Node) (t u : Store) (h : t.Extended u) (alike : s₀.Alike t n m) : s₀.Alike u n m :=
    alike.later (later_of_extended h) (.refl m)
  cases n with
  | object a =>
    have inner (e : Text × Node) (he : e ∈ s₀.object a) (u : Store) (hu : s₀.Extended u) : ∃ m t,
        (cloneTo depth e.2).run.run u = (.ok m, t) ∧ u.Extended t ∧ (s₀.KeysApart (.object a) → u.Own t m) ∧ s₀.Alike t e.2 m := by
      obtain ⟨m, t, run, more, own, alike⟩ := each e.2 (List.mem_map_of_mem he) u hu
      refine ⟨m, t, run, more, fun apart => own fun p b lies => apart (e.1 :: p) b ?_, alike⟩
      have found := (apart [] a Store.member?_nil).lookup he
      rw [Store.member?_object, found.1, Option.bind_some, found.2, Option.getD_some, lies]
    obtain ⟨es', t, run, more, owns, all⟩ := owns_entries stays inner extended
    have ran : (cloneTo (depth + 1) (.object a)).run.run s =
        (.ok (.object t.objects.size), { t with objects := t.objects.push es' }) := by
      have opened : cloneTo (depth + 1) (.object a) = (do
        newObject (← ((← get).object a).mapM fun (e : Text × Node) => do pure (e.1, ← cloneTo depth e.2))) := rfl
      rw [opened, run_get_bind, extended.object there, ExceptT.run_bind, StateT.run_bind, run]
      rfl
    have pushed : t.Extended { t with objects := t.objects.push es' } := ⟨#[es'], #[], by simp⟩
    refine ⟨_, _, ran, more.trans pushed, fun apart => ?_, ?_⟩
    · refine Store.own_object more.size (owns apart).1 (owns apart).2 ?_
      exact pairwise_of_keys (S := fun k k' => k.equalFold k' = false) all (apart [] a Store.member?_nil)
    · obtain ⟨es, lies⟩ : ∃ es, s₀.objects[a]? = some es := ⟨_, Array.getElem?_eq_getElem there⟩
      rw [Store.object, lies, Option.getD_some] at all
      exact Store.alike_object lies Array.getElem?_push_size (all.imp fun _ _ h => ⟨h.1, stays _ _ _ _ pushed h.2⟩)
  | list b len =>
    have same : s.items b len = s₀.items b len := extended.children (n := .list b len) there
    obtain ⟨items', t, run, more, all⟩ := alike_items stays (fun x (hx : x ∈ s₀.items b len) u hu =>
      have ⟨m, t, run, more, _, alike⟩ := each x hx u hu
      ⟨m, t, run, more, alike⟩) extended
    have ran : (cloneTo (depth + 1) (.list b len)).run.run s =
        (.ok (.list t.buffers.size items'.length), { t with buffers := t.buffers.push items'.toArray }) := by
      have opened : cloneTo (depth + 1) (.list b len) = (do newList (← ((← get).items b len).mapM (cloneTo depth))) := rfl
      rw [opened, run_get_bind, same, ExceptT.run_bind, StateT.run_bind, run]
      rfl
    have pushed : t.Extended { t with buffers := t.buffers.push items'.toArray } := ⟨#[], #[items'.toArray], by simp⟩
    refine ⟨_, _, ran, more.trans pushed, fun _ => Store.own_of_ne nofun, ?_⟩
    obtain ⟨places, lies⟩ : ∃ places, s₀.buffers[b]? = some places := ⟨_, Array.getElem?_eq_getElem there.1⟩
    rw [Store.items, Store.buffer, lies, Option.getD_some] at all
    refine Store.alike_list lies Array.getElem?_push_size ?_
    rw [List.take_length]
    exact all.imp fun _ _ h => stays _ _ _ _ pushed h
  | _ => exact ⟨_, s, rfl, .refl s, fun _ => Store.own_of_ne nofun, .same (.refl _)⟩

/-- Data is cloned when the depth goes beyond its own. -/
theorem clones_of_deep (whole : s₀.Whole) (there : n.In s₀) (deep : s₀.Deep depth n) (extended : s₀.Extended s) :
    Clones s₀ (depth + 1) n s := by
  induction depth generalizing n s with
  | zero =>
    refine clones_succ there extended fun x hx => ?_
    rw [show s₀.children n = [] from deep] at hx
    cases hx
  | succ depth ih => exact clones_succ there extended fun x hx u hu => ih (whole.inner hx) (deep x hx) hu

/-- Data that does not contain itself is cloned: memory has the depth for it. -/
theorem clones_clone (whole : s.Whole) (there : n.In s) (ends : Acc s.Inner n) :
    ∃ m t, (clone n).run.run s = (.ok m, t) ∧ s.Extended t ∧ (s.KeysApart n → s.Own t m) ∧ s.Alike t n m := by
  have deep := (Store.deep_of_acc ends).mono (e := s.nesting - 1) (by unfold Store.nesting; omega)
  have clones := clones_of_deep whole there deep (.refl s)
  rw [Nat.sub_add_cancel (by unfold Store.nesting; omega)] at clones
  exact clones

end Clones

end StoreM

/-! ## Flat shapes -/

mutual

/-- A shape without arrays of arrays. -/
def Shape.Flat : Shape → Prop
  | .map _ => True
  | .record fields => FieldShape.AllFlat fields
  | .array element => element.isArray = false ∧ element.Flat

/-- Fields whose shapes have none. -/
def FieldShape.AllFlat : List FieldShape → Prop
  | [] => True
  | f :: fs => f.Flat ∧ FieldShape.AllFlat fs

/-- A field whose shape has none. -/
def FieldShape.Flat : FieldShape → Prop
  | .mk _ _ none _ _ _ => True
  | .mk _ _ (some shape) _ _ _ => shape.Flat

end

theorem FieldShape.AllFlat.of_mem {fields : List FieldShape} (h : FieldShape.AllFlat fields) {f : FieldShape} (hf : f ∈ fields) :
    f.Flat := by
  induction fields with
  | nil => cases hf
  | cons g fs ih =>
    obtain rfl | hf := List.mem_cons.mp hf
    · exact h.1
    · exact ih h.2 hf

theorem FieldShape.Flat.shape {f : FieldShape} {shape : Shape} (h : f.Flat) (hs : f.shape = some shape) : shape.Flat := by
  obtain ⟨_, _, _ | _, _, _, _⟩ := f <;> cases hs
  exact h

namespace Eval

variable {rec : Runner}

mutual

/-- The shape of a type is flat: an array is declared of maps or records. -/
theorem flat_shapeOf : (t : TypeSpec) → {m m' : Machine} → {shape : Shape} → shapeOf rec t m = .done (some shape) m' → shape.Flat
  | .mk _ name isArray _ sorted fields, m, m', shape, run => by
    have wrapped {s : Shape} (flat : s.Flat) (single : s.isArray = false)
        (same : shape = if isArray then .array s else s) : shape.Flat := by
      rw [same]
      cases isArray with
      | true => exact ⟨single, flat⟩
      | false => exact flat
    unfold shapeOf at run
    dsimp only at run
    split at run
    · cases run
      exact wrapped (s := .map sorted) trivial rfl rfl
    · split at run
      · cases fields with
        | none =>
          cases run
          exact wrapped (s := .record []) trivial rfl rfl
        | some fs =>
          obtain ⟨shapes, _, fields, ⟨⟩⟩ := Exec.done_bind run
          exact wrapped (s := .record shapes) (flat_fieldShapes fs fields) rfl rfl
      · cases run

theorem flat_fieldShapes : (fs : List FieldSpec) → {m m' : Machine} → {shapes : List FieldShape} →
    fieldShapes rec fs m = .done shapes m' → FieldShape.AllFlat shapes
  | [], _, _, _, run => by
    cases run
    exact trivial
  | f :: fs, _, _, _, run => by
    obtain ⟨g, _, first, run⟩ := Exec.done_bind run
    obtain ⟨gs, _, rest, ⟨⟩⟩ := Exec.done_bind run
    exact ⟨flat_fieldShape f first, flat_fieldShapes fs rest⟩

theorem flat_fieldShape : (f : FieldSpec) → {m m' : Machine} → {shape : FieldShape} →
    fieldShape rec f m = .done shape m' → shape.Flat
  | .mk name type mandatory maxLength fallback, _, _, _, run => by
    obtain ⟨inner, _, shaped, run⟩ := Exec.done_bind run
    have flat (value : Option Value) : (FieldShape.mk name type.kind inner mandatory maxLength value).Flat := by
      cases inner with
      | none => exact trivial
      | some shape => exact flat_shapeOf type shaped
    cases fallback with
    | none =>
      cases run
      exact flat none
    | some e =>
      obtain ⟨value, _, _, ⟨⟩⟩ := Exec.done_bind run
      exact flat (some value)

end

end Eval

namespace StoreM

variable {s : Store}

/-- Making a value fit a flat shape writes to no arrays but the value itself and those among the defaults of the shape. -/
theorem makes_conformTo_flat (depth : Nat) {shape : Shape} (deep : shape.depth ≤ depth) (flat : shape.Flat) (v : Value) :
    Makes (shape.WrittenFor v) (fun _ _ => True) (conformTo depth shape v) s := by
  induction depth generalizing shape v s with
  | zero => cases shape <;> cases deep
  | succ depth ih =>
    cases shape with
    | map sorted =>
      unfold conformTo
      dsimp only
      split
      · exact makes_bind (makes_newObject []) fun n t _ _ => (makes_newBox n).mono fun _ _ _ _ => trivial
      · exact makes_bind (makes_objectEntries _ v) fun _ t _ _ => makes_pure trivial
    | record fields =>
      unfold conformTo
      dsimp only
      split
      · exact makes_pure trivial
      refine makes_bind (makes_objectEntries _ v) fun es t _ looked => ?_
      obtain ⟨-, b, -, rfl, -, -⟩ := looked
      -- a field writes to its default, if it is an array, and to what its shape does
      have inner {f : FieldShape} (hf : f ∈ fields) (shape : Shape) (hs : f.shape = some shape) (v : Value) (t : Store)
          (array : ∀ a, v = .array a → f.fallback = some (.array a)) :
          Makes ((Shape.record fields).WrittenFor (.json b)) (fun _ _ => True) (conformTo depth shape v) t := by
        have bound := FieldShape.depth_le hf
        rw [FieldShape.depth_shape hs] at bound
        rw [Shape.depth] at deep
        refine (ih (by omega) ((FieldShape.AllFlat.of_mem flat hf).shape hs) v).weaken fun a written => .inr ?_
        refine FieldShape.AnyRewrites.of_mem hf ?_
        obtain ⟨_, _, _ | _, _, _, _⟩ := f <;> cases hs
        exact written.imp_left fun own => ⟨array a own.1, own.2⟩
      refine makes_bind (makes_conformGiven (fun _ _ _ => True) (fun _ _ _ _ _ => id) fun e he f found u _ =>
        makes_bind (makes_ofNode e.2) fun v x _ reads =>
          makes_fitted_any fun shape hs => inner (List.mem_of_find?_eq_some found) shape hs v x fun a same => ?_)
        fun out u _ outs => ?_
      · rw [same] at reads
        cases settled : e.2.settle with
        | object _ | list _ _ =>
          rw [settled] at reads
          obtain ⟨_, impossible, -⟩ := reads
          cases impossible
        | int k =>
          rw [settled] at reads
          obtain ⟨_, same, -⟩ | same := Value.ofInt64_cases k
          · cases same.symm.trans (Eq.symm reads)
          · cases same.symm.trans (Eq.symm reads)
        | _ =>
          rw [settled] at reads
          cases reads
      refine makes_bind (makes_fillFields (fun _ _ _ => True) (fun _ _ _ _ _ => id) (fun f hf n x _ => ?_)
        (fun e he => (forall₂_exists_left outs he).elim fun _ h => h.2.2) fun f hf d hd x _ =>
        makes_bind (makes_fitted_any fun shape hs => inner hf shape hs d x fun a same => same ▸ hd) fun n y _ _ =>
          makes_get_bind ((makes_cloneTo _ n).mono fun _ _ _ _ => trivial)) fun all x _ _ => ?_
      · obtain ⟨g, found⟩ := Option.isSome_iff_exists.mp
          (List.find?_isSome (p := fun g : FieldShape => g.name.equalFold f.name).mpr ⟨f, hf, Text.equalFold_refl _⟩)
        exact ⟨g, found, trivial⟩
      exact makes_bind (makes_newObject all) fun n y _ _ => (makes_newBox n).mono fun _ _ _ _ => trivial
    | array element =>
      cases v with
      | array a =>
        refine makes_get_bind (makes_bind (makes_conformElements_any (.inl ⟨rfl, rfl⟩) (fun v t _ => ?_) ?_) fun _ t _ _ =>
          makes_pure trivial)
        · refine (ih (Nat.le_of_succ_le_succ deep) flat.2 v).weaken fun x written => .inr (written.resolve_left fun one => ?_)
          have isArray := one.2
          rw [flat.1] at isArray
          cases isArray
        · rw [Nat.zero_add]
          exact Nat.le_of_eq (s.array a).cells.length_toList
      | _ => exact makes_pure trivial

end StoreM

/-! ## Members of variables -/

/-- The variables and queues in memory. -/
def Store.beside (s : Store) : Array Frame × Array (List Value) := (s.frames, s.queues)

theorem Exec.atLine_congr {α : Type} {x y : Exec α} {m : Machine} {line : Nat} (same : x m = y m) :
    atLine line x m = atLine line y m := by
  unfold atLine
  rw [same]

namespace Eval

/-- What is read when a path leads to data, or to nothing, or to a fault. -/
def valueFound (found : Except Fault (Option Node)) : Exec Value := do
  match ← Exec.ofExcept found with
  | some n => StoreM.ofNode n
  | none => pure .null

variable {m m' : Machine} {line : Nat} {base : Text} {path q : List Text} {v : Value} {a c o : Nat} {b : Binding} {n : Node}

theorem memberBase_of_lookup (found : m.store.lookup? m.scope base = some (a, b)) (json : b.value = .json c) :
    memberBase base path m = .done c m := by
  have value : (StoreM.valueOf m.scope base).run.run m.store = (.ok (.json c), m.store) := by
    unfold StoreM.valueOf
    rw [StoreM.run_get_bind, found, ← json]
    rfl
  exact (Exec.run_get_bind _).trans (Exec.bind_of_done (Exec.lift_ok value))

theorem readMember_eq (found : m.store.lookup? m.scope base = some (a, b)) (json : b.value = .json c) :
    readMember line base path m =
      Exec.atLine line (valueFound (followMember base path m.store 0 path (m.store.box c))) m :=
  Exec.atLine_congr ((Exec.bind_of_done (memberBase_of_lookup found json)).trans (Exec.run_get_bind _))

/-- What a write to a member that fails leaves. No variable is changed, nor any json value. Without a shape nothing is that
was there. With one, doubles may have become the whole numbers that they are, and arrays that are defaults of the shape may
have been made to fit. -/
structure MemberRefused (m : Machine) (b : Binding) (m' : Machine) : Prop where
  machine : m' = { m with store := m'.store }
  frames : m'.store.frames = m.store.frames
  queues : m'.store.queues = m.store.queues
  store : m.store.Later (fun a => ∃ shape, b.shape = some shape ∧ shape.Rewrites a) m'.store
  exact : b.shape = none → m.store.Extended m'.store

/-- What a write to a member leaves when the variable has no shape. The data of the value is at the path, and all other
paths read what they did that do not reach the object that was written to by another way. -/
structure MemberSet (m : Machine) (base : Text) (path : List Text) (v : Value) (c : Nat) (n : Node) (o : Nat) (m' : Machine) :
    Prop where
  data : ∃ s, (StoreM.toNode v).run.run m.store = (.ok n, s)
  machine : m' = { m with store := m'.store }
  put : m.store.Put (m.store.box c) path n o m'.store
  reads : ∀ line, readMember line base path m' = Exec.atLine line (liftM (StoreM.ofNode n)) m'
  others : ∀ line q, Diverges path q → (∀ j, m.store.member? (m.store.box c) (q.take j) = some (.object o) → ¬Diverges path (q.take j)) →
    ∃ found, readMember line base q m = Exec.atLine line (valueFound found) m ∧
      readMember line base q m' = Exec.atLine line (valueFound found) m'

/-- What a write to a member leaves when the variable has a shape. The data of the value was put at the path in a copy of
what the variable held, in which no object is held twice; what the shape makes of the copy is what it holds now. All else is
as it was, but for doubles and defaults as when a write fails. -/
structure MemberFitted (m : Machine) (base : Text) (path : List Text) (v : Value) (c : Nat) (shape : Shape) (copy n : Node) (o : Nat)
    (s₁ s₂ : Store) (m' : Machine) : Prop where
  cloned : (StoreM.clone (m.store.box c)).run.run m.store = (.ok copy, s₁)
  same : m.store.Alike s₁ (m.store.box c) copy
  own : m.store.Own s₁ copy
  data : ∃ s, (StoreM.toNode v).run.run s₁ = (.ok n, s)
  put : s₁.Put copy path n o s₂
  others : ∀ q, Diverges path q → ∀ d, followMember base q s₂ d q copy = followMember base q s₁ d q copy
  machine : m' = { m with store := m'.store }
  frames : m'.store.frames = m.store.frames
  queues : m'.store.queues = m.store.queues
  memory : m.store.LaterBut (fun x => x = .box c ∨ ∃ a, x = .array a ∧ shape.Rewrites a) m'.store
  fitted : ∃ w s₃ s₄, (StoreM.conform shape (.json s₂.boxes.size)).run.run { s₂ with boxes := s₂.boxes.push copy } = (.ok w, s₃) ∧
    (StoreM.toNode w).run.run s₃ = (.ok (m'.store.box c), s₄) ∧
    m'.store = { s₄ with boxes := s₄.boxes.setIfInBounds c (m'.store.box c) }

/-- Data is put at a path of an object, or that is refused. -/
theorem put_or_refused {s t : Store} (extended : s.Extended t) (inside : ∀ p a, s.member? (.object o) p = some (.object a) → a < s.objects.size)
    (once : s.LeadsOnce (.object o)) (apart : s.KeysApart (.object o)) (some_ : path ≠ []) (base : Text) (n : Node) :
    (∃ f, (setBelow base path n 0 path o).run.run t = (.error f, t)) ∨
      ∃ a u, (setBelow base path n 0 path o).run.run t = (.ok (), u) ∧ s.Put (.object o) path n a u := by
  have same (p : List Text) : t.member? (.object o) p = s.member? (.object o) p := extended.member? inside
  have inside' (p : List Text) (a : Nat) (lies : t.member? (.object o) p = some (.object a)) : a < t.objects.size :=
    Nat.lt_of_lt_of_le (inside p a (same p ▸ lies)) extended.size
  obtain refused | ⟨pre, name, rest, a, names, reached, open_, run⟩ :=
    setBelow_run inside' some_
  · exact .inl refused
  · have put := Store.put_withMember (n := n) (extended.leadsOnce inside once) (extended.keysApart inside apart) inside' reached open_
    rw [← names] at put
    exact .inr ⟨a, _, run, put.after extended inside⟩

/-- Data is put at a path of the data of a json value, if that is an object. -/
def putBelow (base : Text) (path : List Text) (n : Node) : Node → Exec Unit
  | .object a => setBelow base path n 0 path a
  | _ => throw (notObject base)

/-- A member of a variable without a shape is written in place. -/
theorem writeMember_plain {s : Store} {k : Machine} {r : Outcome Unit} (found : m.store.lookup? m.scope base = some (a, b))
    (json : b.value = .json c) (plain : b.shape = none) (data : (StoreM.toNode v).run.run m.store = (.ok n, s))
    (here : k = { m with store := s })
    (wrote : putBelow base path n (m.store.box c) k = r) : writeMember line base path v m = Exec.atLine line (fun _ => r) m := by
  refine Exec.atLine_congr ((Exec.bind_of_done (memberBase_of_lookup found json)).trans ((Exec.run_get_bind _).trans ?_))
  rw [found]
  dsimp only [Option.bind_some]
  rw [plain]
  refine (Exec.bind_of_done rfl).trans ((Exec.bind_of_done (Exec.lift_ok data)).trans ?_)
  subst here wrote
  cases m.store.box c with
  | object o => exact congrFun (bind_pure_unit (m := Exec)) _
  | _ => rfl

/-- A write to a member of a variable without a shape is refused, or sets the member. -/
theorem set_or_refused (whole : m.store.Whole) (found : m.store.lookup? m.scope base = some (a, b)) (json : b.value = .json c)
    (plain : b.shape = none) (some_ : path ≠ []) (ends : Acc m.store.Inner (m.store.box c)) (apart : m.store.KeysApart (m.store.box c)) :
    (∃ f m', writeMember line base path v m = .failed f m' ∧ MemberRefused m b m') ∨
      ∃ m', writeMember line base path v m = .done () m' ∧ ∃ n o, MemberSet m base path v c n o m' := by
  obtain ⟨n, s, data, extended⟩ := StoreM.adds_toNode v m.store
  have beside : s.beside = m.store.beside := by
    obtain ⟨os, bs, rfl⟩ := extended
    rfl
  have refused : MemberRefused m b { m with store := s } :=
    ⟨rfl, congrArg Prod.fst beside, congrArg Prod.snd beside, (StoreM.later_of_extended extended).weaken fun _ => False.elim, fun _ => extended⟩
  have failed {f : Fault} (wrote : putBelow base path n (m.store.box c) { m with store := s } = .failed f { m with store := s }) :
      ∃ f m', writeMember line base path v m = .failed f m' ∧ MemberRefused m b m' :=
    ⟨_, _, (writeMember_plain found json plain data rfl wrote).trans (Exec.atLine_of_failed rfl), refused⟩
  cases root : m.store.box c with
  | object o =>
    rw [root] at ends apart
    have there : (Node.object o).In m.store := root ▸ whole.box c
    obtain ⟨f, run⟩ | ⟨o', t, run, put⟩ := put_or_refused extended (fun p a lies => whole.member? there lies)
      (Store.leadsOnce_of_acc ends) apart some_ base n
    · refine .inl (failed (f := f) ?_)
      rw [root]
      exact Exec.lift_error run
    · have wrote : putBelow base path n (m.store.box c) { m with store := s } = .done () { m with store := t } := by
        rw [root]
        exact Exec.lift_ok run
      have later : t.frames = m.store.frames ∧ t.box c = m.store.box c := by
        obtain ⟨bs, rest⟩ := put.rest
        rw [rest]
        exact ⟨rfl, rfl⟩
      have found' : t.lookup? m.scope base = some (a, b) := (Store.lookup_of_frames later.1 _ _).trans found
      refine .inr ⟨{ m with store := t }, (writeMember_plain found json plain data rfl wrote).trans (Exec.atLine_of_done rfl), n, o',
        ⟨s, data⟩, rfl, by rw [root]; exact put, fun line => ?_, fun line q diverges only => ?_⟩
      · rw [readMember_eq (m := { m with store := t }) found' json]
        refine Exec.atLine_congr ?_
        rw [later.2, root, followMember_of_member? put.reads]
        rfl
      · rw [root] at only
        refine ⟨followMember base q m.store 0 q (.object o), ?_, ?_⟩
        · rw [readMember_eq found json, root]
        · rw [readMember_eq (m := { m with store := t }) found' json, later.2, root, put.others q diverges only]
  | _ =>
    refine .inl (failed (f := notObject base) ?_)
    rw [root]
    rfl

/-- What the shape of a variable makes of a json value becomes the data of another. -/
def publish (shape : Shape) (c : Nat) (root : Node) : Exec Unit := do
  let fresh ← StoreM.newBox root
  let checked ← StoreM.conform shape fresh
  StoreM.setBox c (← StoreM.toNode checked)

/-- A member of a variable with a shape is written to a copy. -/
theorem writeMember_shaped {s₁ s₂ : Store} {k : Machine} {r : Outcome Unit} {shape : Shape} {copy : Node}
    (found : m.store.lookup? m.scope base = some (a, b)) (json : b.value = .json c) (shaped : b.shape = some shape)
    (cloned : (StoreM.clone (m.store.box c)).run.run m.store = (.ok copy, s₁)) (data : (StoreM.toNode v).run.run s₁ = (.ok n, s₂))
    (here : k = { m with store := s₂ })
    (wrote : (putBelow base path n copy >>= fun _ => publish shape c copy) k = r) :
    writeMember line base path v m = Exec.atLine line (fun _ => r) m := by
  refine Exec.atLine_congr ((Exec.bind_of_done (memberBase_of_lookup found json)).trans ((Exec.run_get_bind _).trans ?_))
  rw [found]
  dsimp only [Option.bind_some]
  rw [shaped]
  refine (Exec.bind_of_done (Exec.lift_ok cloned)).trans ((Exec.bind_of_done (Exec.lift_ok data)).trans ?_)
  subst here wrote
  cases copy with
  | object o => rfl
  | _ => rfl

/-- What a shape makes of a json value is published, or nothing is. -/
theorem publish_ends {t : Store} {shape : Shape} {root : Node} (flat : shape.Flat) {k : Machine} (here : k.store = t) :
    (∃ f u, publish shape c root k = .failed f { k with store := u } ∧ u.beside = t.beside ∧ t.Later shape.Rewrites u) ∨
      ∃ w u n u', publish shape c root k = .done () { k with store := { u' with boxes := u'.boxes.setIfInBounds c n } } ∧
        u'.beside = t.beside ∧ t.Later shape.Rewrites u' ∧
        (StoreM.conform shape (.json t.boxes.size)).run.run { t with boxes := t.boxes.push root } = (.ok w, u) ∧
        (StoreM.toNode w).run.run u = (.ok n, u') := by
  subst here
  let s : Store := { k.store with boxes := k.store.boxes.push root }
  have boxed : (StoreM.newBox root).run.run k.store = (.ok (.json k.store.boxes.size), s) := rfl
  have first : k.store.Later shape.Rewrites s := (StoreM.makes_newBox root).of_run boxed |>.1
  have fits := StoreM.makes_conformTo_flat (s := s) shape.depth (Nat.le_refl _) flat (.json k.store.boxes.size)
  have left : StoreM.Leaves Store.beside (StoreM.conform shape (.json k.store.boxes.size)) :=
    StoreM.leaves_conform (fun _ _ _ _ _ => rfl) shape (.json k.store.boxes.size)
  have left := left s
  have begun : publish shape c root k = _ := Exec.bind_of_done (Exec.lift_ok boxed)
  rw [begun]
  cases run : (StoreM.conform shape (.json k.store.boxes.size)).run.run s with
  | mk r u =>
    have next : s.Later shape.Rewrites u := by
      have later := fits.1
      rw [show (StoreM.conformTo shape.depth shape (.json k.store.boxes.size)).run.run s = (r, u) from run] at later
      exact later.weaken fun a written => written.resolve_left fun array => nomatch array.1
    rw [run] at left
    cases r with
    | error f =>
      exact .inl ⟨f, u, Exec.bind_of_failed (Exec.lift_error (m := { k with store := s }) run), left, first.trans next⟩
    | ok w =>
      obtain ⟨n, u', native, more⟩ := StoreM.adds_toNode w u
      have beside : u'.beside = u.beside := by
        obtain ⟨os, bs, rfl⟩ := more
        rfl
      refine .inr ⟨w, u, n, u', ?_, beside.trans left,
        first.trans (next.trans ((StoreM.later_of_extended more).weaken fun _ => False.elim)), rfl, native⟩
      refine (Exec.bind_of_done (Exec.lift_ok (m := { k with store := s }) run)).trans ?_
      exact (Exec.bind_of_done (Exec.lift_ok (m := { k with store := u }) native)).trans rfl

/-- A write to a member of a variable with a shape is refused, or what the shape makes of a copy that is written to becomes
the value. -/
theorem fitted_or_refused {shape : Shape} (whole : m.store.Whole) (found : m.store.lookup? m.scope base = some (a, b))
    (json : b.value = .json c) (shaped : b.shape = some shape) (flat : shape.Flat) (some_ : path ≠ [])
    (ends : Acc m.store.Inner (m.store.box c)) (apart : m.store.KeysApart (m.store.box c)) :
    (∃ f m', writeMember line base path v m = .failed f m' ∧ MemberRefused m b m') ∨
      ∃ m', writeMember line base path v m = .done () m' ∧ ∃ copy n o s₁ s₂, MemberFitted m base path v c shape copy n o s₁ s₂ m' := by
  obtain ⟨copy, s₁, cloned, more₁, own, same⟩ := StoreM.clones_clone whole (whole.box c) ends
  have own := own apart
  obtain ⟨n, s₂, data, more₂⟩ := StoreM.adds_toNode v s₁
  -- the copy of a value outside memory is null, and then nothing is written
  have inside {o : Nat} (object : copy = .object o) : c < m.store.boxes.size := by
    by_contra out
    rw [Store.box, Array.getElem?_eq_none (Nat.not_lt.mp out)] at cloned
    subst object
    cases cloned
  -- whatever is done afterwards, memory that was there is later memory
  have refused {t : Store} (beside : t.beside = m.store.beside) (later : m.store.Later shape.Rewrites t) :
      MemberRefused m b { m with store := t } := by
    refine ⟨rfl, congrArg Prod.fst beside, congrArg Prod.snd beside, later.weaken fun a here => ⟨shape, shaped, here⟩, fun plain => ?_⟩
    rw [shaped] at plain
    cases plain
  have failed {f : Fault} {t : Store} (beside : t.beside = m.store.beside) (later : m.store.Later shape.Rewrites t)
      (wrote : (putBelow base path n copy >>= fun _ => publish shape c copy) { m with store := s₂ } = .failed f { m with store := t }) :
      ∃ f m', writeMember line base path v m = .failed f m' ∧ MemberRefused m b m' :=
    ⟨_, _, (writeMember_shaped found json shaped cloned data rfl wrote).trans (Exec.atLine_of_failed rfl), refused beside later⟩
  have beside₂ : s₂.beside = m.store.beside := by
    obtain ⟨os, bs, rfl⟩ := more₁.trans more₂
    rfl
  have later₂ : m.store.Later shape.Rewrites s₂ := (StoreM.later_of_extended (more₁.trans more₂)).weaken fun _ => False.elim
  cases copy with
  | object o =>
    obtain ⟨f, run⟩ | ⟨o', s₃, run, put⟩ := put_or_refused more₂ (fun p a lies => (own.fresh p a lies).2) own.leadsOnce own.apart
      some_ base n
    · exact .inl (failed beside₂ later₂ (Exec.bind_of_failed (Exec.lift_error run)))
    · have beside₃ : s₃.beside = m.store.beside := by
        obtain ⟨bs, rest⟩ := put.rest
        obtain ⟨os, bs, rfl⟩ := more₁
        rw [rest]
        rfl
      have later₃ : m.store.Later shape.Rewrites s₃ := (put.later own more₁).weaken fun _ => False.elim
      obtain ⟨f, u, published, beside, later⟩ | ⟨w, u, n', u', published, beside, later, conformed, native⟩ :=
        publish_ends (c := c) (k := { m with store := s₃ }) flat rfl
      · exact .inl (failed (beside.trans beside₃) (later₃.trans later) ((Exec.bind_of_done (Exec.lift_ok run)).trans published))
      · refine .inr ⟨_, (writeMember_shaped found json shaped cloned data rfl
          ((Exec.bind_of_done (Exec.lift_ok run)).trans published)).trans (Exec.atLine_of_done rfl), .object o, n, o', s₁, s₃,
          cloned, same, own, ⟨s₂, data⟩, put, fun q diverges d => put.others_own own diverges base d, rfl,
          congrArg Prod.fst (beside.trans beside₃), congrArg Prod.snd (beside.trans beside₃), ?_, w, u, u', conformed, ?_⟩
        · exact ((later₃.trans later).but fun a _ here => .inr ⟨a, rfl, here⟩).setBox (fun _ => .inl rfl) n'
        have there : c < u'.boxes.size := Store.Has.later (c := .box c) (later₃.trans later) (inside rfl)
        have held : Store.box { u' with boxes := u'.boxes.setIfInBounds c n' } c = n' := by
          rw [Store.box, Array.getElem?_setIfInBounds_self_of_lt there, Option.getD_some]
        rw [held]
        exact ⟨native, rfl⟩
  | _ => exact .inl (failed beside₂ later₂ rfl)

/-- A write to a member fails and leaves all variables as they were, or succeeds. Then it sets the member where it lies,
when the variable has no shape, and otherwise in a copy of which the shape makes the new value. The variable holds a json
value that does not contain itself, and no object of it has two keys that agree but for the case of letters. -/
theorem member_written (whole : m.store.Whole) (found : m.store.lookup? m.scope base = some (a, b)) (json : b.value = .json c)
    (flat : ∀ shape, b.shape = some shape → shape.Flat) (some_ : path ≠ []) (ends : Acc m.store.Inner (m.store.box c))
    (apart : m.store.KeysApart (m.store.box c)) :
    (∃ f m', writeMember line base path v m = .failed f m' ∧ MemberRefused m b m') ∨
      ∃ m', writeMember line base path v m = .done () m' ∧ match b.shape with
        | none => ∃ n o, MemberSet m base path v c n o m'
        | some shape => ∃ copy n o s₁ s₂, MemberFitted m base path v c shape copy n o s₁ s₂ m' := by
  cases shaped : b.shape with
  | none => exact set_or_refused whole found json shaped some_ ends apart
  | some shape => exact fitted_or_refused whole found json shaped (flat shape shaped) some_ ends apart

theorem member_written_record :
    let shape : Shape := .record [.mk "a" .int none true 0 none]
    let b : Binding := ⟨.json 0, false, some .json, some shape⟩
    let m : Machine := { Machine.initial (Host.initial default default) 10 "" with
      store := { Store.initial with
        boxes := #[.object 0]
        objects := #[[("a", .int 1)]]
        frames := #[⟨[("r", b)], none⟩] } }
    m.store.Whole ∧ m.store.lookup? m.scope "r" = some (0, b) ∧ shape.Flat ∧ Acc m.store.Inner (m.store.box 0) ∧
      m.store.KeysApart (m.store.box 0) ∧ ∃ m', writeMember 1 "r" ["a"] (.int 2) m = .done () m' ∧
        ∃ copy n o s₁ s₂, MemberFitted m "r" ["a"] (.int 2) 0 shape copy n o s₁ s₂ m' := by
  intro shape b m
  have whole : m.store.Whole := by
    refine ⟨?_, ?_, ?_⟩
    · simp [m, Node.In]
    · simp [m, Node.In]
    · simp [m, Store.initial]
  have leaf : Acc m.store.Inner (.int 1) := .intro _ fun _ inner => by cases inner
  have ends : Acc m.store.Inner (m.store.box 0) := by
    refine .intro _ fun y inner => ?_
    obtain rfl : y = .int 1 := List.mem_singleton.mp inner
    exact leaf
  have apart : m.store.KeysApart (m.store.box 0) := by
    intro p x lies
    cases p with
    | nil =>
      cases lies
      exact List.pairwise_singleton ..
    | cons name rest =>
      obtain ⟨y, key, n, same, -, under, inner⟩ := Store.member?_cons lies
      obtain rfl : 0 = y := Node.object.inj same
      obtain rfl : n = .int 1 := (Prod.mk.inj (List.mem_singleton.mp (Json.mem_of_lookup under))).2
      cases rest <;> cases inner
  have flat : ∀ shape', b.shape = some shape' → shape'.Flat := by
    rintro _ ⟨⟩
    exact ⟨trivial, trivial⟩
  have goes : (writeMember 1 "r" ["a"] (.int 2) m).isDone = true := by decide +kernel
  obtain ⟨f, m', run, -⟩ | ⟨m', run, fitted⟩ := @member_written m 1 "r" ["a"] (.int 2) 0 0 b whole
    rfl rfl flat (List.cons_ne_nil _ _) ends apart
  · rw [run] at goes
    cases goes
  · exact ⟨whole, rfl, ⟨trivial, trivial⟩, ends, apart, m', run, fitted⟩

/-- Objects that two members share are written through either of them. -/
theorem shared_member :
    let m : Machine := { Machine.initial (Host.initial default default) 10 "" with
      store := { Store.initial with
        boxes := #[.object 0]
        objects := #[[("a", .object 1), ("b", .object 1)], [("c", .int 1)]]
        frames := #[⟨[("x", ⟨.json 0, false, none, none⟩)], none⟩] } }
    let m' : Machine := { m with store := { m.store with objects := #[[("a", .object 1), ("b", .object 1)], [("c", .int 2)]] } }
    (∀ es ∈ m.store.objects, KeysApart es) ∧ Diverges ["a", "c"] ["b", "c"] ∧ writeMember 1 "x" ["a", "c"] (.int 2) m = .done () m' ∧
      readMember 1 "x" ["b", "c"] m = .done (.int 1) m ∧ readMember 1 "x" ["b", "c"] m' = .done (.int 2) m' := by
  intro m m'
  refine ⟨?_, ?_, ?_, ?_, ?_⟩
  · have other : Text.equalFold "a" "b" = false := by decide
    simpa [m, KeysApart] using other
  · exact ⟨0, "a", "b", rfl, rfl, by decide⟩
  · rfl
  · rfl
  · rfl

end Eval

end ScriptEngine
