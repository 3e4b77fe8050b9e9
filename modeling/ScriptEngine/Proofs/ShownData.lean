import ScriptEngine.Proofs.FitAgain
import ScriptEngine.Proofs.JsonRoundTrip
import ScriptEngine.Proofs.ReadValues
/-!
# Json data and the tree that it shows

Reading json data makes doubles that are whole numbers whole numbers, where the data lies. So the tree of data may change when
the data is read, but not the tree that it is once it is normalized: the one that it shows. What is made of data that shows a tree
depends on the tree alone, in whatever memory the data lies.
-/

namespace ScriptEngine

/-- The tree of json data that is no container. -/
def Node.single? : Node → Option Json
  | .null => some .null
  | .bool b => some (.bool b)
  | .int n => some (.int n)
  | .double x => some (.double x)
  | .text t => some (.text t)
  | .object _ | .list .. => none

namespace Json

theorem depthAll_le {js : List Json} {d : Nat} (each : ∀ j ∈ js, j.depth ≤ d) : depthAll js ≤ d := by
  induction js with
  | nil => exact Nat.zero_le d
  | cons j js ih =>
    rw [depthAll]
    exact Nat.max_le.mpr ⟨each j (List.mem_cons_self ..), ih fun k hk => each k (List.mem_cons_of_mem _ hk)⟩

theorem depthEntries_le {es : List (Text × Json)} {d : Nat} (each : ∀ e ∈ es, e.2.depth ≤ d) : depthEntries es ≤ d := by
  induction es with
  | nil => exact Nat.zero_le d
  | cons e es ih =>
    rw [depthEntries]
    exact Nat.max_le.mpr ⟨each e (List.mem_cons_self ..), ih fun f hf => each f (List.mem_cons_of_mem _ hf)⟩

end Json

theorem Node.depth_of_single? {n : Node} {j : Json} (single : n.single? = some j) : j.depth = 0 := by
  cases n <;> cases single <;> rfl

namespace Store

variable {written : Nat → Prop} {s t : Store} {n n' : Node} {j : Json} {leaf leaf' : Node → Json → Prop}

/-- Json data in memory bears a tree, the data that is no container as a relation says. -/
inductive Bears (s : Store) (leaf : Node → Json → Prop) : Node → Json → Prop
  | single {n : Node} {j : Json} (single : leaf n j) : Bears s leaf n j
  | object {a : Nat} {es : List (Text × Node)} {js : List (Text × Json)} (lies : s.objects[a]? = some es)
      (keys : List.Forall₂ (fun e f => e.1 = f.1) es js)
      (each : ∀ (i : Nat) (e : Text × Node) (f : Text × Json), es[i]? = some e → js[i]? = some f → Bears s leaf e.2 f.2) :
      Bears s leaf (.object a) (.object js)
  | list {b len : Nat} {places : Array Node} {js : List Json} (lies : s.buffers[b]? = some places)
      (size : (places.toList.take len).length = js.length)
      (each : ∀ (i : Nat) (m : Node) (j : Json), (places.toList.take len)[i]? = some m → js[i]? = some j → Bears s leaf m j) :
      Bears s leaf (.list b len) (.list js)

/-- Json data shows a tree: it is the tree, but that doubles which are whole numbers may not have been made such yet. -/
abbrev Shows (s : Store) : Node → Json → Prop := s.Bears fun n j => n.settle.single? = some j

/-- Json data is a tree in which no double is a whole number. -/
abbrev Settled (s : Store) : Node → Json → Prop := s.Bears fun n j => n.settle = n ∧ n.single? = some j

theorem Bears.of_entries {a : Nat} {es : List (Text × Node)} {js : List (Text × Json)} (lies : s.objects[a]? = some es)
    (all : List.Forall₂ (fun e f => e.1 = f.1 ∧ s.Bears leaf e.2 f.2) es js) : s.Bears leaf (.object a) (.object js) :=
  .object lies (all.imp fun _ _ h => h.1) fun i e f he hf => (each_of_forall₂ all i e f he hf).2

theorem Bears.of_items {b len : Nat} {places : Array Node} {js : List Json} (lies : s.buffers[b]? = some places)
    (all : List.Forall₂ (s.Bears leaf) (places.toList.take len) js) : s.Bears leaf (.list b len) (.list js) :=
  .list lies all.length_eq (each_of_forall₂ all)

theorem Bears.mono (weaker : ∀ n j, leaf n j → leaf' n j) (bears : s.Bears leaf n j) : s.Bears leaf' n j := by
  induction bears with
  | single single => exact .single (weaker _ _ single)
  | object lies keys _ ih => exact .object lies keys ih
  | list lies size _ ih => exact .list lies size ih

/-- Data bears the same tree in memory to which more has been added, where it may have settled. -/
theorem Bears.later (stays : ∀ n n' j, n.Settles n' → leaf n j → leaf n' j) (bears : s.Bears leaf n j) (later : s.Later written t)
    (settles : n.Settles n') : t.Bears leaf n' j := by
  -- a container stays the one that it is, and what lies in it may have settled there
  induction bears generalizing n' with
  | single single => exact .single (stays _ _ _ settles single)
  | @object a es js lies keys each ih =>
    rw [settles.eq_of_settled rfl]
    obtain ⟨es', lies', same⟩ := later.objects a es lies
    refine .object lies' ?_ fun i e' f he' hf => ?_
    · have renamed : List.Forall₂ (fun (e' e : Text × Node) => e'.1 = e.1) es' es := same.flip.imp fun _ _ h => And.left h
      exact forall₂_comp (fun _ _ _ h k => h.trans k) renamed keys
    · obtain ⟨e, he, -, settles⟩ := forall₂_getElem? same he'
      exact ih i e f he hf settles
  | @list b len places js lies size each ih =>
    rw [settles.eq_of_settled rfl]
    obtain ⟨places', lies', same⟩ := later.buffers b places lies
    have first := List.forall₂_take len same
    refine .list lies' (first.length_eq.symm.trans size) fun i m' k hm' hk => ?_
    obtain ⟨m, hm, settles⟩ := forall₂_getElem? first hm'
    exact ih i m k hm hk settles

/-- Data shows the same in later memory. -/
theorem Shows.later (shows_ : s.Shows n j) (later : s.Later written t) (settles : n.Settles n') : t.Shows n' j :=
  Bears.later (fun _ _ _ settles single => by rwa [settles.settle]) shows_ later settles

/-- Data that has settled stays as it is. -/
theorem Settled.later (settled : s.Settled n j) (later : s.Later written t) : t.Settled n j :=
  Bears.later (fun _ _ _ settles single => by rwa [settles.eq_of_settled single.1]) settled later (.refl n)

/-- Data that is a tree shows it. -/
theorem Settled.shows (settled : s.Settled n j) : s.Shows n j :=
  settled.mono fun n j ⟨settled, single⟩ => by rwa [settled]

/-- Data that shows a tree ends. -/
theorem Shows.acc (shows_ : s.Shows n j) : Acc s.Inner n := by
  induction shows_ with
  | @single n j single =>
    refine .intro _ fun x inner => ?_
    cases n with
    | object | list => cases single
    | _ => cases inner
  | @object a es js lies keys each ih =>
    refine .intro _ fun x inner => ?_
    rw [Inner, children, object_of_lies lies] at inner
    obtain ⟨e, he, rfl⟩ := List.mem_map.mp inner
    obtain ⟨i, hi⟩ := List.mem_iff_getElem?.mp he
    obtain ⟨f, hf⟩ := exists_getElem?_of_length keys.length_eq hi
    exact ih i e f hi hf
  | @list b len places js lies size each ih =>
    refine .intro _ fun x inner => ?_
    rw [Inner, children, items_of_lies lies] at inner
    obtain ⟨i, hi⟩ := List.mem_iff_getElem?.mp inner
    obtain ⟨k, hk⟩ := exists_getElem?_of_length size hi
    exact ih i x k hi hk

/-- Data that goes no deeper than a number of containers shows a tree that does so at most by one. -/
theorem Shows.depth_le (shows_ : s.Shows n j) {d : Nat} (deep : s.Deep d n) : j.depth ≤ d + 1 := by
  induction shows_ generalizing d with
  | single single =>
    rw [Node.depth_of_single? single]
    exact Nat.zero_le _
  | @object a es js lies keys each ih =>
    rw [Json.depth]
    refine Nat.succ_le_succ (Json.depthEntries_le fun f hf => ?_)
    obtain ⟨i, hi⟩ := List.mem_iff_getElem?.mp hf
    obtain ⟨e, he⟩ := exists_getElem?_of_length keys.length_eq.symm hi
    have inner : s.Inner e.2 (.object a) := by
      rw [Inner, children, object_of_lies lies]
      exact List.mem_map_of_mem (List.mem_of_getElem? he)
    obtain ⟨c, less, deep⟩ := deep.inner inner
    exact (ih i e f he hi deep).trans less
  | @list b len places js lies size each ih =>
    rw [Json.depth]
    refine Nat.succ_le_succ (Json.depthAll_le fun k hk => ?_)
    obtain ⟨i, hi⟩ := List.mem_iff_getElem?.mp hk
    obtain ⟨m, hm⟩ := exists_getElem?_of_length size.symm hi
    have inner : s.Inner m (.list b len) := by
      rw [Inner, children, items_of_lies lies]
      exact List.mem_of_getElem? hm
    obtain ⟨c, less, deep⟩ := deep.inner inner
    exact (ih i m k hm hi deep).trans less

/-- It is followed deeper than that. -/
theorem Shows.depth_lt (shows_ : s.Shows n j) : j.depth < s.nesting := by
  have bound := shows_.depth_le (deep_of_acc shows_.acc)
  rw [nesting]
  omega

theorem Settled.treeTo (settled : s.Settled n j) (d : Nat) (deep : j.depth ≤ d) : s.treeTo d n = j := by
  induction settled generalizing d with
  | @single n j single =>
    cases n <;> cases single.2 <;> simp only [Store.treeTo]
  | @object a es js lies keys each ih =>
    rw [Json.depth] at deep
    obtain ⟨d, rfl⟩ := Nat.exists_eq_add_of_lt deep
    rw [Store.treeTo, object_of_lies lies]
    refine congrArg Json.object (map_eq_of_each keys.length_eq fun i e f he hf => ?_)
    have less := Json.depth_le_depthEntries (List.mem_of_getElem? hf)
    exact Prod.ext (each_of_forall₂ keys i e f he hf) (ih i e f he hf _ (by omega))
  | @list b len places js lies size each ih =>
    rw [Json.depth] at deep
    obtain ⟨d, rfl⟩ := Nat.exists_eq_add_of_lt deep
    rw [Store.treeTo, items_of_lies lies]
    refine congrArg Json.list (map_eq_of_each size fun i m k hm hk => ?_)
    have less := Json.depth_le_depthAll (List.mem_of_getElem? hk)
    exact ih i m k hm hk _ (by omega)

/-- The tree of settled data is the one that it shows. -/
theorem Settled.tree (settled : s.Settled n j) : s.tree n = j := settled.treeTo _ (Nat.le_of_lt settled.shows.depth_lt)

end Store

namespace StoreM

variable {α β γ : Type} {written : Nat → Prop} {s t : Store} {n : Node} {j : Json}

/-! ## Computations that show trees -/

/-- One computation for every item of a list, when what is good of each stays good in later memory. -/
theorem does_mapM {f : α → StoreM β} {Q : α → β → Prop} {R : β → γ → Store → Prop}
    (stays : ∀ b c t u, t.Later written u → R b c t → R b c u) {l : List α} {cs : List γ}
    (each : List.Forall₂ (fun a c => ∀ t, s.Later written t → Does written (fun b u => Q a b ∧ R b c u) (f a) t) l cs) :
    Does written (fun bs u => List.Forall₂ Q l bs ∧ List.Forall₂ (fun b c => R b c u) bs cs) (l.mapM f) s := by
  induction l generalizing cs s with
  | nil =>
    cases each
    exact does_pure ⟨.nil, .nil⟩
  | cons a l ih =>
    cases each with
    | cons first each =>
    rw [List.mapM_cons]
    refine does_bind (first s (.refl s)) fun b t later here => ?_
    have rest := ih (each.imp fun a c h u next => h u (later.trans next))
    exact does_bind rest fun bs u next others => does_pure ⟨.cons here.1 others.1, .cons (stays _ _ _ _ next here.2) others.2⟩

theorem does_setObject {a : Nat} {es old : List (Text × Node)} (lies : s.objects[a]? = some old) (settled : EntriesSettle old es) :
    Does written (fun _ t => t.objects[a]? = some es) (setObject a es) s := by
  have made : Makes written (fun _ _ => True) (setObject a es) s := makes_setObject fun old' lies' => by
    cases lies.symm.trans lies'
    exact settled
  refine ⟨(), _, rfl, made.1, ?_⟩
  change (s.objects.setIfInBounds a es)[a]? = _
  rw [Array.getElem?_setIfInBounds, if_pos rfl, if_pos (Array.getElem?_eq_some_iff.mp lies).1]

theorem does_modifyBuffer {b : Nat} {f : Array Node → Array Node} {old : Array Node} (lies : s.buffers[b]? = some old)
    (settled : PlacesSettle old (f old)) :
    Does written (fun _ t => t.buffers[b]? = some (f old)) (modify fun s => { s with buffers := s.buffers.modify b f } : StoreM PUnit) s := by
  have made : Makes written (fun _ _ => True) (modify fun s => { s with buffers := s.buffers.modify b f } : StoreM PUnit) s :=
    makes_modifyBuffer fun old' lies' => by
      cases lies.symm.trans lies'
      exact settled
  refine ⟨⟨⟩, _, rfl, made.1, ?_⟩
  change (s.buffers.modify b f)[b]? = _
  rw [Array.getElem?_modify, if_pos rfl, lies]
  rfl

/-- Places of which the first are replaced begin with what they are replaced by. -/
theorem take_replaced {old : Array Node} {items : List Node} {len : Nat} (size : (old.toList.take len).length = items.length) :
    (items.toArray ++ old.extract items.length old.size).toList.take len = items := by
  rw [List.length_take, Array.length_toList] at size
  have within : items.length ≤ len := size.symm.trans_le (Nat.min_le_left ..)
  rw [Array.toList_append, List.toList_toArray, List.take_append, List.take_of_length_le within, ← size]
  obtain few | many := Nat.le_total len old.size
  · rw [Nat.min_eq_left few, Nat.sub_self, List.take_zero, List.append_nil]
  · rw [Nat.min_eq_right many, Array.extract_empty_of_stop_le_start (Nat.le_refl _), List.take_nil, List.append_nil]

theorem does_normalizeTo_single {depth : Nat} (single : n.settle.single? = some j) :
    Does written (fun m t => m = n.settle ∧ t.Settled m j) (normalizeTo depth n) s := by
  have run : normalizeTo depth n = pure n.settle := by
    cases n with
    | object | list => cases single
    | _ => cases depth <;> rfl
  rw [run]
  exact does_pure ⟨rfl, .single ⟨n.settle_settle, single⟩⟩

/-- Data that is normalized is the tree that it showed. -/
theorem does_normalizeTo_shows (depth : Nat) (deep : j.depth ≤ depth) (shows_ : s.Shows n j) :
    Does written (fun m t => m = n.settle ∧ t.Settled m j) (normalizeTo depth n) s := by
  induction depth generalizing n j s with
  | zero =>
    cases shows_ with
    | single single => exact does_normalizeTo_single single
    | object | list => cases deep
  | succ depth ih =>
    cases shows_ with
    | single single => exact does_normalizeTo_single single
    | @object a es js lies keys each =>
      rw [Json.depth] at deep
      have inner : List.Forall₂ (fun e f => ∀ t, s.Later written t →
          Does written (fun e' u => e' = (e.1, e.2.settle) ∧ (e'.1 = f.1 ∧ u.Settled e'.2 f.2))
            (do pure (e.1, ← normalizeTo depth e.2) : StoreM (Text × Node)) t) es js :=
        forall₂_of_each keys.length_eq fun i e f he hf t later => by
          have less := Json.depth_le_depthEntries (List.mem_of_getElem? hf)
          refine does_bind (ih (by omega) (Store.Shows.later (each i e f he hf) later (.refl _))) fun m u _ settled => does_pure ?_
          exact ⟨congrArg (e.1, ·) settled.1, each_of_forall₂ keys i e f he hf, settled.2⟩
      unfold normalizeTo
      refine does_get_bind ?_
      rw [Store.object_of_lies lies]
      refine does_bind (does_mapM (fun _ _ _ _ later h => ⟨h.1, h.2.later later⟩) inner) fun es' t later all => ?_
      obtain ⟨old, lies', settled⟩ := later.objects a es lies
      have settles : EntriesSettle old es' := forall₂_comp (fun e e₀ e' h h' => by
        rw [h']
        exact ⟨h.1.symm, .inr h.2.settle.symm⟩) settled.flip all.1
      refine does_bind (does_setObject lies' settles) fun _ u next lies'' => does_pure ⟨rfl, .of_entries lies'' ?_⟩
      exact all.2.imp fun e f h => ⟨h.1, h.2.later next⟩
    | @list b len places js lies size each =>
      rw [Json.depth] at deep
      have inner : List.Forall₂ (fun m k => ∀ t, s.Later written t →
          Does written (fun m' u => m' = m.settle ∧ u.Settled m' k) (normalizeTo depth m) t) (places.toList.take len) js :=
        forall₂_of_each size fun i m k hm hk t later => by
          have less := Json.depth_le_depthAll (List.mem_of_getElem? hk)
          exact ih (by omega) (Store.Shows.later (each i m k hm hk) later (.refl _))
      unfold normalizeTo
      refine does_get_bind ?_
      rw [Store.items_of_lies lies]
      refine does_bind (does_mapM (fun _ _ _ _ later h => h.later later) inner) fun items t later all => ?_
      obtain ⟨old, lies', settled⟩ := later.buffers b places lies
      refine does_bind (does_modifyBuffer lies' (placesSettle_replaced settled all.1)) fun _ u next lies'' =>
        does_pure ⟨rfl, .of_items lies'' ?_⟩
      have size' : (old.toList.take len).length = items.length := (List.forall₂_take len settled).length_eq.symm.trans all.1.length_eq
      rw [take_replaced size']
      exact all.2.imp fun m k h => h.later next

theorem does_normalize_shows (shows_ : s.Shows n j) : Does written (fun m t => m = n.settle ∧ t.Settled m j) (normalize n) s :=
  does_get_bind (does_normalizeTo_shows _ (Nat.le_of_lt shows_.depth_lt) shows_)

/-- A new list shows what its items do. -/
theorem does_newList_shows {ns : List Node} {js : List Json} (all : List.Forall₂ s.Shows ns js) :
    Does written (fun n t => t.Shows n (.list js)) (newList ns) s := by
  refine ((makes_newList ns).does ⟨_, _, rfl⟩).mono fun n t later made => ?_
  obtain ⟨b, rfl, lies⟩ := made
  refine .of_items lies ?_
  rw [List.toList_toArray, List.take_length]
  exact all.imp fun m k h => h.later later (.refl m)

theorem does_newGrownList_shows {ns : List Node} {js : List Json} (all : List.Forall₂ s.Shows ns js) :
    Does written (fun n t => t.Shows n (.list js)) (newGrownList ns) s := by
  obtain ⟨b, t, places, run, -, -, lies, items⟩ := run_newGrownList ns s
  have later : s.Later written t := ((makes_newGrownList ns).of_run run).1
  refine ⟨_, t, run, later, .of_items lies ?_⟩
  rw [items]
  exact all.imp fun m k h => h.later later (.refl m)

/-- A new object shows what its entries do. -/
theorem does_newObject_shows {es : List (Text × Node)} {js : List (Text × Json)}
    (all : List.Forall₂ (fun e f => e.1 = f.1 ∧ s.Shows e.2 f.2) es js) :
    Does written (fun n t => t.Shows n (.object js)) (newObject es) s := by
  refine (does_newObject es).mono fun n t later made => ?_
  obtain ⟨a, rfl, lies⟩ := made
  exact .of_entries lies (all.imp fun e f h => ⟨h.1, h.2.later later (.refl _)⟩)

/-- A copy shows the same. -/
theorem does_cloneTo_shows (depth : Nat) (deep : j.depth ≤ depth) (shows_ : s.Shows n j) :
    Does written (fun m t => t.Shows m j) (cloneTo depth n) s := by
  have flat {d : Nat} {n : Node} {j : Json} {s : Store} (single : n.settle.single? = some j) :
      Does written (fun m t => t.Shows m j) (cloneTo d n) s := by
    have run : cloneTo d n = pure n := by
      cases n with
      | object | list => cases single
      | _ => cases d <;> rfl
    rw [run]
    exact does_pure (.single single)
  induction depth generalizing n j s with
  | zero =>
    cases shows_ with
    | single single => exact flat single
    | object | list => cases deep
  | succ depth ih =>
    cases shows_ with
    | single single => exact flat single
    | @object a es js lies keys each =>
      rw [Json.depth] at deep
      have inner : List.Forall₂ (fun e f => ∀ t, s.Later written t →
          Does written (fun e' u => True ∧ (e'.1 = f.1 ∧ u.Shows e'.2 f.2)) (do pure (e.1, ← cloneTo depth e.2) : StoreM (Text × Node)) t)
          es js :=
        forall₂_of_each keys.length_eq fun i e f he hf t later => by
          have less := Json.depth_le_depthEntries (List.mem_of_getElem? hf)
          refine does_bind (ih (by omega) (Store.Shows.later (each i e f he hf) later (.refl _))) fun m u _ same => does_pure ?_
          exact ⟨trivial, each_of_forall₂ keys i e f he hf, same⟩
      unfold cloneTo
      refine does_get_bind ?_
      rw [Store.object_of_lies lies]
      exact does_bind (does_mapM (Q := fun _ _ => True) (fun _ _ _ _ later h => ⟨h.1, h.2.later later (.refl _)⟩) inner)
        fun es' t _ all => does_newObject_shows all.2
    | @list b len places js lies size each =>
      rw [Json.depth] at deep
      have inner : List.Forall₂ (fun m k => ∀ t, s.Later written t →
          Does written (fun m' u => True ∧ u.Shows m' k) (cloneTo depth m) t) (places.toList.take len) js :=
        forall₂_of_each size fun i m k hm hk t later => by
          have less := Json.depth_le_depthAll (List.mem_of_getElem? hk)
          exact (ih (by omega) (Store.Shows.later (each i m k hm hk) later (.refl _))).mono fun _ _ _ h => ⟨trivial, h⟩
      unfold cloneTo
      refine does_get_bind ?_
      rw [Store.items_of_lies lies]
      exact does_bind (does_mapM (Q := fun _ _ => True) (fun _ _ _ _ later h => h.later later (.refl _)) inner)
        fun items t _ all => does_newList_shows all.2

theorem does_clone_shows (shows_ : s.Shows n j) : Does written (fun m t => t.Shows m j) (clone n) s :=
  does_get_bind (does_cloneTo_shows _ (Nat.le_of_lt shows_.depth_lt) shows_)

mutual

/-- A tree that is put into memory shows what it is once it is normalized. -/
theorem does_ofTree_shows : (j : Json) → (s : Store) → Does written (fun n t => t.Shows n j.normalize) (ofTree j) s
  | .null, _ | .bool _, _ | .int _, _ | .text _, _ => does_pure (.single rfl)
  | .double x, _ => does_pure (.single (by
      rw [Json.normalize, Node.settle]
      split <;> rfl))
  | .list items, s => by
    refine does_bind (does_ofTrees_shows items s) fun ns t _ all => ?_
    rw [Json.normalize]
    exact does_newGrownList_shows all
  | .object es, s => by
    refine does_bind (does_ofEntries_shows es s) fun ns t _ all => ?_
    rw [Json.normalize]
    exact does_newObject_shows all

theorem does_ofTrees_shows : (js : List Json) → (s : Store) →
    Does written (fun ns t => List.Forall₂ t.Shows ns (Json.normalizeAll js)) (ofTrees js) s
  | [], _ => does_pure .nil
  | j :: js, s =>
    does_bind (does_ofTree_shows j s) fun _ t _ first => does_bind (does_ofTrees_shows js t) fun _ _ later rest =>
      does_pure (.cons (first.later later (.refl _)) rest)

theorem does_ofEntries_shows : (es : List (Text × Json)) → (s : Store) →
    Does written (fun ns t => List.Forall₂ (fun e f => e.1 = f.1 ∧ t.Shows e.2 f.2) ns (Json.normalizeEntries es)) (ofEntries es) s
  | [], _ => does_pure .nil
  | (_, j) :: es, s =>
    does_bind (does_ofTree_shows j s) fun _ t _ first => does_bind (does_ofEntries_shows es t) fun _ _ later rest =>
      does_pure (.cons ⟨rfl, first.later later (.refl _)⟩ rest)

end

end StoreM

/-! ## Values -/

/-- A value that lies in no memory. -/
def Value.IsSingle : Value → Prop
  | .array _ | .queue _ | .json _ | .image _ | .vectorImage _ | .canvas _ | .function _ => False
  | _ => True

/-- What is known of a value, in whatever memory it lies: the value itself, or the tree of the json data that it holds. -/
inductive Source where
  | value (v : Value)
  | data (j : Json)

/-- The tree that the json data of a value shows. -/
def Value.form : Value → Json
  | .bool b => .bool b
  | .byte n => .int (Int64.ofNat n.toNat)
  | .int n => .int n.toInt64
  | .long n => .int n
  | .double x => (Json.double x).normalize
  | .string t => .text t
  | .date d => .text (Layout.internet.format d)
  | _ => .null

/-- The tree that the json data shows of a value of which something is known. -/
def Source.form : Source → Json
  | value v => v.form
  | data j => j

/-- What is known of a value that is read of data that shows a tree. -/
def Json.source : Json → Source
  | .null => .value .null
  | .bool b => .value (.bool b)
  | .int n => .value (.ofInt64 n)
  | .double x => .value (.double x)
  | .text t => .value (.string t)
  | j => .data j

/-- A value is the one that is known, or a json value whose data has settled and is the tree that is known. -/
def Store.Carries (s : Store) (v : Value) : Source → Prop
  | .value w => v = w ∧ w.IsSingle
  | .data j => ∃ b n, v = .json b ∧ s.boxes[b]? = some n ∧ s.Settled n j

theorem Store.Carries.later {written : Nat → Prop} {s t : Store} {v : Value} {src : Source} (carries : s.Carries v src)
    (later : s.Later written t) : t.Carries v src := by
  cases src with
  | value w => exact carries
  | data j =>
    obtain ⟨b, n, rfl, lies, settled⟩ := carries
    exact ⟨b, n, rfl, later.keeps.boxes b n lies, settled.later later⟩

namespace StoreM

variable {α : Type} {s t u : Store} {n : Node} {j : Json} {v : Value} {src : Source}

/-- The json data of a value shows a tree. -/
def GivesTree (u : Store) (w : Value) (j : Json) : Prop := Does (fun _ => False) (fun n t => t.Shows n j) (toNode w) u

/-- A value that is read of data that shows a tree carries the tree. -/
theorem does_ofNode_shows (shows_ : s.Shows n j) : Does (fun _ => False) (fun v t => t.Carries v j.source) (ofNode n) s := by
  refine does_bind (does_normalize_shows shows_) fun m t _ normal => ?_
  obtain ⟨-, settled⟩ := normal
  have boxed (data : j.source = .data j) : Does (fun _ => False) (fun v u => u.Carries v j.source) (newBox m) t := by
    rw [data]
    refine (does_newBox m).mono fun v u later made => ?_
    obtain ⟨b, rfl, lies⟩ := made
    exact ⟨b, m, rfl, lies, settled.later later⟩
  cases settled with
  | single single =>
    cases m with
    | object | list => cases single.2
    | int k =>
      cases single.2
      refine does_pure ⟨rfl, ?_⟩
      obtain ⟨i, same, -⟩ | same := Value.ofInt64_cases k <;> rw [same] <;> trivial
    | _ =>
      cases single.2
      exact does_pure ⟨rfl, trivial⟩
  | object | list => exact boxed rfl

theorem Node.single?_double (x : Float) : (Node.double x).settle.single? = some (Json.double x).normalize := by
  rw [Json.normalize, Node.settle]
  split <;> rfl

/-- The json data of a value of which something is known shows the tree that is known, to whatever depth it is followed. -/
theorem does_toNodeTo_shows (depth : Nat) (carries : s.Carries v src) :
    Does (fun _ => False) (fun n t => t.Shows n src.form) (toNodeTo depth v) s := by
  cases src with
  | value w =>
    obtain ⟨rfl, single⟩ := carries
    cases v with
    | array | queue | json | image | vectorImage | canvas | function => cases single
    | double x => cases depth <;> exact does_pure (.single (Node.single?_double x))
    | _ => cases depth <;> exact does_pure (.single rfl)
  | data j =>
    obtain ⟨b, m, rfl, lies, settled⟩ := carries
    have here : s.box b = m := by rw [Store.box, lies, Option.getD_some]
    cases depth <;> exact does_get_bind (does_pure (here ▸ settled.shows))

end StoreM

namespace Store

variable {s t : Store} {v : Value} {src : Source} {n : Node} {j : Json}

theorem Carries.gives (carries : s.Carries v src) : StoreM.GivesTree s v src.form :=
  StoreM.does_get_bind (StoreM.does_toNodeTo_shows _ carries)

/-- What is known of a value that was made: the value itself, or that it is no text and which tree its json data shows. -/
def Offers (s : Store) (v : Value) : Source → Prop
  | .value w => v = w ∧ w.IsSingle
  | .data j => (∀ t, v ≠ .string t) ∧ StoreM.GivesTree s v j

theorem Carries.offers (carries : s.Carries v src) : s.Offers v src := by
  cases src with
  | value w => exact carries
  | data j =>
    have gives := carries.gives
    obtain ⟨b, n, rfl, -⟩ := carries
    exact ⟨nofun, gives⟩

theorem Offers.gives (offers : s.Offers v src) : StoreM.GivesTree s v src.form := by
  cases src with
  | value w => exact (show s.Carries v (.value w) from offers).gives
  | data j => exact offers.2

/-- A value is the one that is known, or a json value whose data shows the tree that is known. -/
def Means (s : Store) (v : Value) : Source → Prop
  | .value w => v = w ∧ w.IsSingle
  | .data j => ∃ b n, v = .json b ∧ s.boxes[b]? = some n ∧ s.Shows n j

theorem Carries.means (carries : s.Carries v src) : s.Means v src := by
  cases src with
  | value w => exact carries
  | data j =>
    obtain ⟨b, n, rfl, lies, settled⟩ := carries
    exact ⟨b, n, rfl, lies, settled.shows⟩

/-- A json value in memory offers the tree that its data shows. -/
theorem Shows.offers {b : Nat} (lies : s.boxes[b]? = some n) (shows_ : s.Shows n j) : s.Offers (.json b) (.data j) := by
  refine ⟨nofun, (StoreM.does_toNode (.json b)).mono fun m t later native => ?_⟩
  rw [show m = s.box b from native, box, lies]
  exact shows_.later later (.refl n)

theorem Means.offers (means : s.Means v src) : s.Offers v src := by
  cases src with
  | value w => exact means
  | data j =>
    obtain ⟨b, n, rfl, lies, shows_⟩ := means
    exact Shows.offers lies shows_

end Store

namespace StoreM

variable {s : Store} {n : Node} {j : Json} {v w : Value} {src : Source}

/-! ## Conversions -/

/-- A computation fails with a fault of some sort. -/
def FailsWith {α : Type} (blame : Fault → Prop) (x : StoreM α) (s : Store) : Prop := ∃ f t, x.run.run s = (.error f, t) ∧ blame f

/-- A computation ends as is known beforehand: it fails with a fault of some sort, or what it gives is as is known. -/
def Ends {α β : Type} (blame : Fault → Prop) (as : α → β → Store → Prop) : Option β → StoreM α → Store → Prop
  | some b, x, s => Does (fun _ => False) (fun a t => as a b t) x s
  | none, x, s => FailsWith blame x s

/-- A computation that fails, or gives a value of which something is known. -/
abbrev Turns : Option Source → StoreM Value → Store → Prop := Ends (fun _ => True) fun v src t => t.Offers v src

section Ends

variable {α β γ : Type} {blame blame' : Fault → Prop} {as : α → γ → Store → Prop} {good : β → Store → Prop} {o : Option γ}

theorem fails_throw {f : Fault} (h : blame f) : FailsWith blame (throw f : StoreM α) s := ⟨f, s, rfl, h⟩

theorem FailsWith.mono {x : StoreM α} (h : FailsWith blame x s) (weaker : ∀ f t, x.run.run s = (.error f, t) → blame f → blame' f) :
    FailsWith blame' x s := by
  obtain ⟨f, t, run, h⟩ := h
  exact ⟨f, t, run, weaker f t run h⟩

/-- What comes behind a fault does not matter. -/
theorem FailsWith.bind {x : StoreM β} (h : FailsWith blame x s) (f : β → StoreM α) : FailsWith blame (x >>= f) s := by
  obtain ⟨e, t, run, h⟩ := h
  exact ⟨e, t, bind_of_error run, h⟩

/-- What comes behind something that succeeds may fail. -/
theorem fails_bind {x : StoreM β} {f : β → StoreM α} (hx : Does (fun _ => False) good x s)
    (hf : ∀ b t, s.Later (fun _ => False) t → good b t → FailsWith blame (f b) t) : FailsWith blame (x >>= f) s := by
  obtain ⟨b, t, run, later, given⟩ := hx
  obtain ⟨e, u, run', h⟩ := hf b t later given
  exact ⟨e, u, (bind_of_ok run).trans run', h⟩

/-- Computations one after the other end as the last one does. -/
theorem ends_bind {x : StoreM β} {f : β → StoreM α} (hx : Does (fun _ => False) good x s)
    (hf : ∀ b t, s.Later (fun _ => False) t → good b t → Ends blame as o (f b) t) : Ends blame as o (x >>= f) s := by
  cases o with
  | some c => exact does_bind hx hf
  | none => exact fails_bind hx hf

theorem ends_get_bind {f : Store → StoreM α} (h : Ends blame as o (f s) s) : Ends blame as o (get >>= f) s := by
  cases o <;> exact h

theorem ends_kindOf_bind {v : Value} {f : Kind → StoreM α} (h : Ends blame as o (f (s.kindOf v)) s) :
    Ends blame as o (kindOf v >>= f) s := by
  cases o <;> exact h

theorem Ends.mono {x : StoreM α} (h : Ends blame as o x s) (weaker : ∀ f t, x.run.run s = (.error f, t) → blame f → blame' f) :
    Ends blame' as o x s := by
  cases o with
  | some c => exact h
  | none => exact FailsWith.mono h weaker

end Ends

theorem turns_pure (single : v.IsSingle) : Turns (some (.value v)) (pure v) s := does_pure ⟨rfl, single⟩

/-- Data that shows a tree is held by a new json value. -/
theorem turns_newBox (shows_ : s.Shows n j) : Turns (some (.data j)) (newBox n) s := by
  refine (does_newBox n).mono fun v t later made => ?_
  obtain ⟨b, rfl, lies⟩ := made
  exact Store.Shows.offers lies (shows_.later later (.refl n))

/-- Whether a text can be read as json data, and which tree it spells, depends on the text alone. -/
theorem jsonOfText_turns (x : Text) : ∃ o, ∀ s, Turns o (jsonOfText x) s := by
  unfold jsonOfText
  dsimp only
  split
  · unfold parseJson
    split
    · rename_i j _
      exact ⟨some (.data j.normalize), fun s => does_bind (does_ofTree_shows j s) fun _ _ _ shows_ => turns_newBox shows_⟩
    · exact ⟨none, fun s => fails_throw trivial⟩
  · exact ⟨some (.data (.text x)), fun s => turns_newBox (.single rfl)⟩

/-- A value that lies in no memory is of the same kind in all memories, and has the same text. -/
theorem kindOf_single (single : w.IsSingle) (s t : Store) : s.kindOf w = t.kindOf w := by
  cases w with
  | array | queue | json | image | vectorImage | canvas | function => cases single
  | _ => rfl

theorem inspect_single (single : w.IsSingle) (s t : Store) : s.inspect w = t.inspect w := by
  have same (d e : Nat) : s.inspectTo d w = t.inspectTo e w := by
    cases w with
    | array | queue | json | image | vectorImage | canvas | function => cases single
    | _ => cases d <;> cases e <;> rfl
  exact same _ _

theorem coerce_value_turns (here : Zone) (single : w.IsSingle) (target : Kind) :
    ∃ o, ∀ s : Store, s.platform.zone = here → Turns o (coerce w target) s := by
  obtain ⟨k, kind⟩ : ∃ k, ∀ s : Store, s.kindOf w = k := ⟨_, fun s => kindOf_single single s .initial⟩
  have data : ∃ o, ∀ s, Turns o (do newBox (← normalize (← toNode w))) s := by
    refine ⟨some (.data w.form), fun s => ?_⟩
    refine does_bind (show s.Carries w (.value w) from ⟨rfl, single⟩).gives fun n t _ shows_ => ?_
    exact does_bind (does_normalize_shows shows_) fun m u _ settled => turns_newBox settled.2.shows
  have known (f : Kind → StoreM Value) (same : coerce w target = kindOf w >>= f)
      (h : ∃ o, ∀ s : Store, s.platform.zone = here → Turns o (f k) s) :
      ∃ o, ∀ s : Store, s.platform.zone = here → Turns o (coerce w target) s := by
    obtain ⟨o, turns⟩ := h
    refine ⟨o, fun s zone => ?_⟩
    rw [same]
    exact ends_kindOf_bind ((kind s).symm ▸ turns s zone)
  have anywhere {x : StoreM Value} (h : ∃ o, ∀ s, Turns o x s) : ∃ o, ∀ s : Store, s.platform.zone = here → Turns o x s :=
    h.imp fun _ turns s _ => turns s
  refine known _ rfl ?_
  split
  · exact ⟨_, fun s _ => turns_pure single⟩
  split
  · exact ⟨_, fun s _ => turns_pure (by cases target <;> trivial)⟩
  split
  iterate 6 exact ⟨_, fun s _ => turns_pure trivial⟩
  · exact ⟨none, fun s _ => fails_throw trivial⟩
  · refine ⟨some (.value (.string (Store.initial.inspect w))), fun s _ => ⟨_, s, rfl, .refl s, ?_, trivial⟩⟩
    exact congrArg Value.string (inspect_single single s .initial)
  · -- the zone of the host tells which date a text names
    rename_i t _
    cases read : Date.readIn? here t with
    | some d =>
      refine ⟨some (.value (.date d)), fun s zone => does_get_bind ?_⟩
      rw [zone, read]
      exact turns_pure trivial
    | none =>
      refine ⟨none, fun s zone => ends_get_bind ?_⟩
      rw [zone, read]
      exact fails_throw trivial
  · exact anywhere (jsonOfText_turns _)
  iterate 6 exact anywhere data
  iterate 4 exact single.elim
  · exact ⟨none, fun s _ => fails_throw trivial⟩

/-- The json data of an array is the list of that of its elements. -/
theorem gives_array {a : Nat} {d : ArrayData} {srcs : List Source} (lies : s.arrays[a]? = some d)
    (elements : List.Forall₂ s.Carries d.cells.toList srcs) : GivesTree s (.array a) (.list (srcs.map Source.form)) := by
  refine does_get_bind (does_get_bind ?_)
  rw [Store.array, lies, Option.getD_some]
  have forms (depth : Nat) : List.Forall₂ (fun v src => ∀ t, s.Later (fun _ => False) t →
      Does (fun _ => False) (fun n u => True ∧ u.Shows n src.form) (toNodeTo depth v) t) d.cells.toList srcs :=
    elements.imp fun v src carries t later => by
      have there := carries.later later
      exact (does_toNodeTo_shows depth there).mono fun _ _ _ h => ⟨trivial, h⟩
  refine does_bind (does_mapM (Q := fun _ _ => True) (fun _ _ _ _ later h => h.later later (.refl _)) (forms _)) fun ns t _ all => ?_
  exact does_newList_shows (List.forall₂_map_right_iff.mpr all.2)

/-- A list is read as an array of what its items are read as. -/
theorem turns_readList {b len : Nat} {js : List Json} (settled : s.Settled (.list b len) (.list js)) :
    Turns (some (.data (.list (js.map (Source.form ∘ Json.source))))) (do newArrayOf (← ((← get).items b len).mapM ofNode)) s := by
  cases settled with
  | single single => cases single.2
  | @list _ _ places _ lies size each =>
    refine does_get_bind ?_
    rw [Store.items_of_lies lies]
    have inner : List.Forall₂ (fun m k => ∀ t, s.Later (fun _ => False) t →
        Does (fun _ => False) (fun v u => True ∧ u.Carries v (Json.source k)) (ofNode m) t) (places.toList.take len) js :=
      forall₂_of_each size fun i m k hm hk t later =>
        (does_ofNode_shows ((Store.Settled.shows (each i m k hm hk)).later later (.refl m))).mono fun _ _ _ h => ⟨trivial, h⟩
    refine does_bind (does_mapM (Q := fun _ _ => True) (fun _ _ _ _ later h => h.later later) inner) fun vs t _ read => ?_
    refine ((makes_newArray _).does ⟨_, _, rfl⟩).mono fun w u later made => ?_
    obtain ⟨a, rfl, lies'⟩ := made
    refine ⟨nofun, ?_⟩
    have all : List.Forall₂ u.Carries vs (js.map Json.source) :=
      List.forall₂_map_right_iff.mpr (read.2.imp fun v k carries => carries.later later)
    have gives := gives_array lies' all
    rwa [List.map_map] at gives

theorem coerce_json_array (b : Nat) : coerce (.json b) .array = (do
    match (← get).box b with
    | .list b len => newArrayOf (← ((← get).items b len).mapM ofNode)
    | _ => cannotConvert .json .array) := rfl

theorem coerce_data_turns (j : Json) (target : Kind) : ∃ o, ∀ s v, s.Carries v (.data j) → Turns o (coerce v target) s := by
  cases target with
  | json | any | invalid =>
    refine ⟨some (.data j), fun s v carries => ?_⟩
    have offers := carries.offers
    obtain ⟨b, n, rfl, -⟩ := carries
    exact ⟨_, s, rfl, .refl s, offers⟩
  | string =>
    refine ⟨some (.value (.string j.inspect)), fun s v carries => ?_⟩
    obtain ⟨b, n, rfl, lies, settled⟩ := carries
    refine ⟨_, s, rfl, .refl s, ?_, trivial⟩
    refine congrArg Value.string ((s.inspectTo_json _ b).trans ?_)
    rw [Store.box, lies]
    exact congrArg Json.inspect settled.tree
  | array =>
    by_cases list : ∃ js, j = .list js
    · obtain ⟨js, rfl⟩ := list
      refine ⟨some (.data (.list (js.map (Source.form ∘ Json.source)))), fun s v carries => ?_⟩
      obtain ⟨b, n, rfl, lies, settled⟩ := carries
      rw [coerce_json_array]
      refine does_get_bind ?_
      rw [Store.box, lies, Option.getD_some]
      cases n with
      | list b len => exact turns_readList settled
      | _ => cases settled with | single single => cases single.2
    · refine ⟨none, fun s v carries => ?_⟩
      obtain ⟨b, n, rfl, lies, settled⟩ := carries
      cases n with
      | list b' len =>
        cases settled with
        | single single => cases single.2
        | list => exact absurd ⟨_, rfl⟩ list
      | _ =>
        change FailsWith _ (coerce (.json b) .array) s
        rw [FailsWith, coerce_json_array, run_get_bind, Store.box, lies]
        exact fails_throw trivial
  | _ =>
    refine ⟨none, fun s v carries => ?_⟩
    obtain ⟨b, n, rfl, -⟩ := carries
    exact ⟨_, s, rfl, trivial⟩

/-- What a conversion makes of a value of which something is known is the same in all memories of a host. -/
theorem coerce_turns (here : Zone) (src : Source) (target : Kind) :
    ∃ o, ∀ s v, s.platform.zone = here → s.Carries v src → Turns o (coerce v target) s := by
  cases src with
  | data j => exact (coerce_data_turns j target).imp fun _ turns s v _ => turns s v
  | value w =>
    by_cases single : w.IsSingle
    · obtain ⟨o, turns⟩ := coerce_value_turns here single target
      exact ⟨o, fun s v zone carries => carries.1 ▸ turns s zone⟩
    · exact ⟨none, fun s v _ carries => absurd carries.2 single⟩

end StoreM

end ScriptEngine
