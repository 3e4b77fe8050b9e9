import ScriptEngine.Eval.Member
import ScriptEngine.Proofs.Definitions
/-!
# Data that is shared

Json data is shared by all values that reach it, so that a write to one of them shows in the others. What a write can
change are the containers that are reached from what is written to.
-/

namespace ScriptEngine

/-- What lies in memory and is written to. -/
inductive Container where
  | array (a : Nat)
  | box (a : Nat)
  | object (a : Nat)
  | buffer (b : Nat)

/-- Json data reaches objects and buffers only. -/
def Container.IsData : Container → Prop
  | .object _ | .buffer _ => True
  | _ => False

namespace Store

/-- A container that json data reaches. Nothing is known of what an address outside memory may come to reach. -/
inductive Reaches (s : Store) : Node → Container → Prop
  | object (a : Nat) : Reaches s (.object a) (.object a)
  | entry {a : Nat} {es : List (Text × Node)} {e : Text × Node} {c : Container} (lies : s.objects[a]? = some es)
      (he : e ∈ es) (inner : Reaches s e.2 c) : Reaches s (.object a) c
  | noObject {a : Nat} {c : Container} (data : c.IsData) (out : s.objects[a]? = none) : Reaches s (.object a) c
  | buffer (b len : Nat) : Reaches s (.list b len) (.buffer b)
  | place {b len : Nat} {places : Array Node} {n : Node} {c : Container} (lies : s.buffers[b]? = some places)
      (hn : n ∈ places.toList) (inner : Reaches s n c) : Reaches s (.list b len) c
  | noBuffer {b len : Nat} {c : Container} (data : c.IsData) (out : s.buffers[b]? = none) : Reaches s (.list b len) c

/-- A container that a value reaches. -/
inductive Holding (s : Store) : Value → Container → Prop
  | box (a : Nat) : Holding s (.json a) (.box a)
  | data {a : Nat} {n : Node} {c : Container} (lies : s.boxes[a]? = some n) (inner : s.Reaches n c) : Holding s (.json a) c
  | array (a : Nat) : Holding s (.array a) (.array a)
  | element {a : Nat} {d : ArrayData} {v : Value} {c : Container} (lies : s.arrays[a]? = some d)
      (hv : v ∈ d.cells.toList) (inner : Holding s v c) : Holding s (.array a) c

/-- A container lies in memory. -/
def Has (s : Store) : Container → Prop
  | .array a => a < s.arrays.size
  | .box a => a < s.boxes.size
  | .object a => a < s.objects.size
  | .buffer b => b < s.buffers.size

/-- Memory `t` to which data has been added since it was `s`: what was there is as it was, but that data may have
settled and that containers were changed. -/
structure LaterBut (changed : Container → Prop) (s t : Store) : Prop where
  arrays : ∀ a d, s.arrays[a]? = some d → ¬changed (.array a) → t.arrays[a]? = some d
  boxes : ∀ a n, s.boxes[a]? = some n → ¬changed (.box a) → t.boxes[a]? = some n
  objects : ∀ a es, s.objects[a]? = some es → ¬changed (.object a) → ∃ es', t.objects[a]? = some es' ∧ EntriesSettle es es'
  buffers : ∀ b places, s.buffers[b]? = some places → ¬changed (.buffer b) →
    ∃ places', t.buffers[b]? = some places' ∧ PlacesSettle places places'

section

variable {changed changed' : Container → Prop} {written : Nat → Prop} {s t u : Store}

theorem LaterBut.refl (s : Store) : s.LaterBut changed s where
  arrays := fun _ _ lies _ => lies
  boxes := fun _ _ lies _ => lies
  objects := fun _ es lies _ => ⟨es, lies, .refl es⟩
  buffers := fun _ places lies _ => ⟨places, lies, .refl places⟩

theorem LaterBut.trans (h : s.LaterBut changed t) (k : t.LaterBut changed u) : s.LaterBut changed u where
  arrays := fun a d lies kept => k.arrays a d (h.arrays a d lies kept) kept
  boxes := fun a n lies kept => k.boxes a n (h.boxes a n lies kept) kept
  objects := fun a es lies kept => by
    obtain ⟨es', lies', first⟩ := h.objects a es lies kept
    obtain ⟨es'', lies'', second⟩ := k.objects a es' lies' kept
    exact ⟨es'', lies'', .trans _ _ _ first second⟩
  buffers := fun b places lies kept => by
    obtain ⟨places', lies', first⟩ := h.buffers b places lies kept
    obtain ⟨places'', lies'', second⟩ := k.buffers b places' lies' kept
    exact ⟨places'', lies'', .trans _ _ _ first second⟩

/-- What changes some containers only may be said to change more. -/
theorem LaterBut.weaken (h : s.LaterBut changed t) (more : ∀ c, changed c → changed' c) : s.LaterBut changed' t where
  arrays := fun a d lies kept => h.arrays a d lies (mt (more _) kept)
  boxes := fun a n lies kept => h.boxes a n lies (mt (more _) kept)
  objects := fun a es lies kept => h.objects a es lies (mt (more _) kept)
  buffers := fun b places lies kept => h.buffers b places lies (mt (more _) kept)

/-- Memory that is only added to has changed in the arrays that are written to. -/
theorem Later.but (h : s.Later written t) (arrays : ∀ a, s.Has (.array a) → written a → changed (.array a)) :
    s.LaterBut changed t where
  arrays := fun a d lies kept => by
    obtain ⟨d', lies', -, same⟩ := h.arrays a d lies
    rwa [same (mt (arrays a (Array.getElem?_eq_some_iff.mp lies).1) kept)] at lies'
  boxes := fun a n lies _ => by
    obtain ⟨n', lies', rfl⟩ := h.boxes a n lies
    exact lies'
  objects := fun a es lies _ => h.objects a es lies
  buffers := fun b places lies _ => h.buffers b places lies

/-- Memory that is only added to has changed in no json data. -/
theorem Later.butArrays (h : s.Later written t) : s.LaterBut (fun c => ¬c.IsData) t := h.but fun _ _ _ => id

/-- A change of variables alone changes no container. -/
theorem LaterBut.of_frames {frames : Array Frame} (s : Store) : s.LaterBut changed { s with frames := frames } :=
  ⟨(LaterBut.refl s).arrays, (LaterBut.refl s).boxes, (LaterBut.refl s).objects, (LaterBut.refl s).buffers⟩

/-- A json value is given other data. -/
theorem LaterBut.setBox (h : s.LaterBut changed t) {a : Nat} (here : s.Has (.box a) → changed (.box a)) (n : Node) :
    s.LaterBut changed { t with boxes := t.boxes.setIfInBounds a n } where
  arrays := h.arrays
  objects := h.objects
  buffers := h.buffers
  boxes := fun b m lies kept => by
    rw [Array.getElem?_setIfInBounds, if_neg]
    · exact h.boxes b m lies kept
    · rintro rfl
      exact kept (here (Array.getElem?_eq_some_iff.mp lies).1)

/-- An object is given other entries. -/
theorem LaterBut.setObject (h : s.LaterBut changed t) {a : Nat} (here : s.Has (.object a) → changed (.object a))
    (es : List (Text × Node)) : s.LaterBut changed { t with objects := t.objects.setIfInBounds a es } where
  arrays := h.arrays
  boxes := h.boxes
  buffers := h.buffers
  objects := fun b fs lies kept => by
    rw [Array.getElem?_setIfInBounds, if_neg]
    · exact h.objects b fs lies kept
    · rintro rfl
      exact kept (here (Array.getElem?_eq_some_iff.mp lies).1)

/-- A buffer is changed. -/
theorem LaterBut.modifyBuffer (h : s.LaterBut changed t) {b : Nat} (here : s.Has (.buffer b) → changed (.buffer b))
    (f : Array Node → Array Node) : s.LaterBut changed { t with buffers := t.buffers.modify b f } where
  arrays := h.arrays
  boxes := h.boxes
  objects := h.objects
  buffers := fun b' places lies kept => by
    rw [Array.getElem?_modify, if_neg]
    · exact h.buffers b' places lies kept
    · rintro rfl
      exact kept (here (Array.getElem?_eq_some_iff.mp lies).1)

/-- An array is changed. -/
theorem LaterBut.modifyArray (h : s.LaterBut changed t) {a : Nat} (here : s.Has (.array a) → changed (.array a))
    (f : ArrayData → ArrayData) : s.LaterBut changed { t with arrays := t.arrays.modify a f } where
  boxes := h.boxes
  objects := h.objects
  buffers := h.buffers
  arrays := fun b d lies kept => by
    rw [Array.getElem?_modify, if_neg]
    · exact h.arrays b d lies kept
    · rintro rfl
      exact kept (here (Array.getElem?_eq_some_iff.mp lies).1)

/-! ## What is reached in later memory -/

theorem settles_object {n : Node} {a : Nat} (h : n.Settles (.object a)) : n = .object a := by
  obtain same | ⟨_, _, _, impossible⟩ := h.cases
  · exact same.symm
  · cases impossible

theorem settles_list {n : Node} {b len : Nat} (h : n.Settles (.list b len)) : n = .list b len := by
  obtain same | ⟨_, _, _, impossible⟩ := h.cases
  · exact same.symm
  · cases impossible

theorem Reaches.isData {n : Node} {c : Container} (h : s.Reaches n c) : c.IsData := by
  induction h with
  | object _ | buffer _ _ => trivial
  | entry _ _ _ ih | place _ _ _ ih => exact ih
  | noObject data _ | noBuffer data _ => exact data

/-- Json data reaches no more containers in later memory than it did before. -/
theorem Reaches.earlier (h : s.Later written t) {n n' : Node} {c : Container} (r : t.Reaches n' c) (settles : n.Settles n') :
    s.Reaches n c := by
  induction r generalizing n with
  | object a =>
    rw [settles_object settles]
    exact .object a
  | buffer b len =>
    rw [settles_list settles]
    exact .buffer b len
  | @entry a es' e' c lies' he' inner ih =>
    rw [settles_object settles]
    cases lies : s.objects[a]? with
    | none => exact .noObject inner.isData lies
    | some es =>
      obtain ⟨es'', same, more⟩ := h.objects a es lies
      cases lies'.symm.trans same
      obtain ⟨e, he, -, settles⟩ := forall₂_exists_left more he'
      exact .entry lies he (ih settles)
  | @place b len places' n' c lies' hn' inner ih =>
    rw [settles_list settles]
    cases lies : s.buffers[b]? with
    | none => exact .noBuffer inner.isData lies
    | some places =>
      obtain ⟨places'', same, more⟩ := h.buffers b places lies
      cases lies'.symm.trans same
      obtain ⟨n, hn, settles⟩ := forall₂_exists_left more hn'
      exact .place lies hn (ih settles)
  | @noObject a c data out =>
    rw [settles_object settles]
    cases lies : s.objects[a]? with
    | none => exact .noObject data lies
    | some es =>
      obtain ⟨es', lies', -⟩ := h.objects a es lies
      rw [out] at lies'
      cases lies'
  | @noBuffer b len c data out =>
    rw [settles_list settles]
    cases lies : s.buffers[b]? with
    | none => exact .noBuffer data lies
    | some places =>
      obtain ⟨places', lies', -⟩ := h.buffers b places lies
      rw [out] at lies'
      cases lies'

/-- What lies in memory lies in later memory. -/
theorem Has.later (h : s.Later written t) {c : Container} (has : s.Has c) : t.Has c := by
  have inside {α : Type} {R : Nat → α → α → Prop} {xs ys : Array α} (more : Extends R xs ys) {a : Nat} (ha : a < xs.size) :
      a < ys.size := by
    obtain ⟨y, lies, -⟩ := more a xs[a] (Array.getElem?_eq_getElem ha)
    exact (Array.getElem?_eq_some_iff.mp lies).1
  cases c with
  | array a => exact inside h.arrays has
  | box a => exact inside h.boxes has
  | object a => exact inside h.objects has
  | buffer b => exact inside h.buffers has

end

end Store

/-! ## Clones -/

namespace StoreM

section Clones

variable {written : Nat → Prop} {s₀ s : Store}

/-- Of the containers that were there, a clone reaches only those that its original does. -/
theorem makes_cloneTo_apart (depth : Nat) (n : Node) (later : s₀.Later written s) :
    Makes written (fun m t => ∀ c, s₀.Has c → t.Reaches m c → s.Reaches n c) (cloneTo depth n) s := by
  induction depth generalizing n s with
  | zero => cases n <;> exact makes_pure fun _ _ => id
  | succ depth ih =>
    cases n with
    | object a =>
      refine makes_get_bind (makes_bind (makes_mapM
        (fun e e' t => ∀ c, s₀.Has c → t.Reaches e'.2 c → s.Reaches e.2 c) ?_ _ ?_) fun es t more all => ?_)
      · exact fun e e' t u next apart c has r => apart c has (r.earlier next (.refl e'.2))
      · intro e _ t next
        refine makes_bind (ih e.2 (later.trans next)) fun m u _ apart => makes_pure fun c has r => ?_
        exact (apart c has r).earlier next (.refl e.2)
      · -- the new object lies behind all that were there
        have fresh : s₀.objects.size ≤ t.objects.size := by
          by_contra less
          exact Nat.lt_irrefl _ (Store.Has.later (c := .object t.objects.size) (later.trans more) (Nat.not_le.mp less))
        have new : (newObject es).run.run t = (.ok (.object t.objects.size), { t with objects := t.objects.push es }) := rfl
        refine ⟨(makes_newObject es).1, fun m hm c has r => ?_⟩
        rw [new] at hm r
        cases hm
        cases r with
        | object => exact absurd has (Nat.not_lt.mpr fresh)
        | noObject _ out => simp at out
        | entry lies he inner =>
          rw [Array.getElem?_push_size] at lies
          cases lies
          obtain ⟨e, he, apart⟩ := forall₂_exists_left all he
          have next : t.Later written _ := (makes_newObject (s := t) es).1
          cases found : s.objects[a]? with
          | none => exact .noObject inner.isData found
          | some fs =>
            rw [Store.object, found] at he
            exact .entry found he (apart c has (inner.earlier next (.refl _)))
    | list b len =>
      refine makes_get_bind (makes_bind (makes_mapM
        (fun n n' t => ∀ c, s₀.Has c → t.Reaches n' c → s.Reaches n c) ?_ _ ?_) fun ns t more all => ?_)
      · exact fun n n' t u next apart c has r => apart c has (r.earlier next (.refl n'))
      · exact fun n _ t next => (ih n (later.trans next)).mono fun m u _ apart c has r => (apart c has r).earlier next (.refl n)
      · have fresh : s₀.buffers.size ≤ t.buffers.size := by
          by_contra less
          exact Nat.lt_irrefl _ (Store.Has.later (c := .buffer t.buffers.size) (later.trans more) (Nat.not_le.mp less))
        have new : (newList ns).run.run t =
            (.ok (.list t.buffers.size ns.length), { t with buffers := t.buffers.push ns.toArray }) := rfl
        refine ⟨(makes_newList ns).1, fun m hm c has r => ?_⟩
        rw [new] at hm r
        cases hm
        cases r with
        | buffer => exact absurd has (Nat.not_lt.mpr fresh)
        | noBuffer _ out => simp at out
        | place lies hn inner =>
          rw [Array.getElem?_push_size] at lies
          cases lies
          obtain ⟨n, hn, apart⟩ := forall₂_exists_left all hn
          have next : t.Later written _ := (makes_newList (s := t) ns).1
          cases found : s.buffers[b]? with
          | none => exact .noBuffer inner.isData found
          | some places =>
            rw [Store.items, Store.buffer, found] at hn
            exact .place found (List.mem_of_mem_take hn) (apart c has (inner.earlier next (.refl _)))
    | _ => exact makes_pure fun _ _ => id

/-- Of the containers that were there, a clone reaches only those that its original does. -/
theorem makes_clone_apart (n : Node) : Makes written (fun m t => ∀ c, s.Has c → t.Reaches m c → s.Reaches n c) (clone n) s :=
  makes_get_bind (makes_cloneTo_apart _ n (.refl s))

end Clones

end StoreM

/-! ## Writes below objects -/

theorem Json.mem_of_lookup {α : Type} {key : Text} {x : α} {es : List (Text × α)} (h : lookup key es = some x) :
    (key, x) ∈ es := by
  induction es with
  | nil => cases h
  | cons e rest ih =>
    rw [lookup] at h
    split at h
    · rename_i same
      cases same
      cases h
      exact List.mem_cons_self ..
    · exact List.mem_cons_of_mem _ (ih h)

/-- What a member reaches, its object reaches. -/
theorem Store.reaches_member {s : Store} {key : Text} {a : Nat} {n : Node} {c : Container}
    (found : (Json.lookup key (s.object a)).getD .null = n) (inner : s.Reaches n c) : s.Reaches (.object a) c := by
  cases lies : s.objects[a]? with
  | none => exact .noObject inner.isData lies
  | some es =>
    rw [Store.object, lies, Option.getD_some] at found
    cases member : Json.lookup key es with
    | none =>
      rw [member] at found
      subst found
      cases inner
    | some m =>
      rw [member] at found
      subst found
      exact .entry lies (Json.mem_of_lookup member) inner

/-- A write at a path below an object changes only containers that the object reaches, or that are new. -/
theorem laterBut_setBelow {changed : Container → Prop} {s₀ s t : Store} {base : Text} {path names : List Text} {v : Node}
    {done a : Nat} {r : Unit} (later : s₀.LaterBut changed s) (sizes : s₀.objects.size ≤ s.objects.size)
    (below : ∀ c, s₀.Has c → s.Reaches (.object a) c → changed c)
    (run : (Eval.setBelow base path v done names a).run.run s = (.ok r, t)) : s₀.LaterBut changed t := by
  induction names generalizing a done s with
  | nil =>
    cases run
    exact later
  | cons name rest ih =>
    have here (has : s₀.Has (.object a)) : changed (.object a) := below _ has (.object a)
    cases rest with
    | nil =>
      cases run
      exact later.setObject here _
    | cons next rest =>
      rw [Eval.setBelow, StoreM.run_get_bind] at run
      · dsimp only at run
        split at run
        · rename_i x found
          exact ih later sizes (fun c has inner => below c has (Store.reaches_member found inner)) run
        · -- a new object is put in, which reaches nothing that was there
          let es := Json.insert ((findKey name (s.object a)).getD name) (.object s.objects.size) (s.object a)
          let s' : Store := { s with objects := (s.objects.push []).setIfInBounds a es }
          have run : (Eval.setBelow base path v (done + 1) (next :: rest) s.objects.size).run.run s' = (.ok r, t) := run
          have new : s.Later (fun _ => False) { s with objects := s.objects.push [] } := (StoreM.makes_newObject []).1
          have pushed : s₀.LaterBut changed { s with objects := s.objects.push [] } :=
            later.trans (new.but fun _ _ => nofun)
          refine ih (pushed.setObject here es) (by simp; omega) (fun c has inner => ?_) run
          by_cases inside : a < s.objects.size
          · have empty : s'.objects[s.objects.size]? = some [] := by
              rw [Array.getElem?_setIfInBounds, if_neg (Nat.ne_of_lt inside), Array.getElem?_push_size]
            cases inner with
            | object => exact absurd has (Nat.not_lt.mpr sizes)
            | noObject _ out => cases empty.symm.trans out
            | entry lies he =>
              cases empty.symm.trans lies
              cases he
          · exact below c has (.noObject inner.isData (Array.getElem?_eq_none (Nat.not_lt.mp inside)))
        · cases run
      · exact nofun

end ScriptEngine
