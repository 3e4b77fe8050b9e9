import ScriptEngine.Eval.Expression
import ScriptEngine.Proofs.FitAgain
import ScriptEngine.Proofs.Local
/-!
# Writes to names, elements and members

What a write changes in memory and among the variables, for each of the places that an assignment can have. A write to an
element changes the containers that hold the elements. A write to a name or a member makes a value fit what is declared of
the variable.
-/

namespace ScriptEngine

/-! ## Runs that end -/

namespace Exec

variable {α β : Type} {x : Exec α} {a : α} {m m' : Machine}

theorem done_bind {f : α → Exec β} {b : β} (run : (x >>= f) m = .done b m') :
    ∃ a m₀, x m = .done a m₀ ∧ f a m₀ = .done b m' := by
  change andThen x f m = _ at run
  unfold andThen at run
  split at run
  · exact ⟨_, _, ‹_›, run⟩
  all_goals cases run

theorem done_atLine {line : Nat} (run : atLine line x m = .done a m') : x m = .done a m' := by
  unfold atLine at run
  split at run
  · cases run
  · exact run

theorem done_lift {y : StoreM α} (run : (liftM y : Exec α) m = .done a m') :
    ∃ s, y.run.run m.store = (.ok a, s) ∧ m' = { m with store := s } := by
  change onStore y m = _ at run
  unfold onStore at run
  dsimp only at run
  split at run
  · cases run
    exact ⟨_, ‹_›, rfl⟩
  · cases run

theorem atLine_of_done {line : Nat} (run : x m = .done a m') : atLine line x m = .done a m' := by
  unfold atLine
  rw [run]

theorem atLine_of_failed {line : Nat} {f : Fault} (run : x m = .failed f m') : atLine line x m = .failed (f.atLine line) m' := by
  unfold atLine
  rw [run]

/-- A computation on memory that leaves the variables alone. -/
theorem done_beside {y : StoreM α} (code : StoreM.Leaves Store.code y) (run : (liftM y : Exec α) m = .done a m') :
    ∃ s, y.run.run m.store = (.ok a, s) ∧ m' = { m with store := s } ∧ s.frames = m.store.frames := by
  obtain ⟨s, ran, same⟩ := done_lift run
  have left := code m.store
  rw [ran] at left
  exact ⟨s, ran, same, congrArg Prod.snd left⟩

end Exec

/-! ## Variables in sight -/

namespace Store

variable {s t : Store} {e : Scope} {n n' : Text} {a : Nat} {b b' : Binding} {f : List (Text × Binding) → List (Text × Binding)}

/-- Names have the same variables where frames are the same. -/
theorem lookup_of_frames (h : t.frames = s.frames) (e : Scope) (n : Text) : t.lookup? e n = s.lookup? e n := by
  have frame (a : Nat) : t.frame a = s.frame a := by rw [frame, frame, h]
  have same (fuel a : Nat) : t.lookupTo n fuel a = s.lookupTo n fuel a := by
    induction fuel generalizing a with
    | zero => rfl
    | succ fuel ih => simp only [lookupTo, frame, ih]
  rw [lookup?, lookup?, h, same]

/-- Other names keep their variables. -/
theorem lookup_withBindings_ne (others : ∀ bs, (f bs).lookup n' = bs.lookup n') :
    (s.withBindings a f).lookup? e n' = s.lookup? e n' := by
  have bindings (c : Nat) : ((s.withBindings a f).frame c).bindings.lookup n' = (s.frame c).bindings.lookup n' := by
    rw [frame, frame, withBindings, Array.getElem?_modify]
    split
    · cases s.frames[c]? with
      | none => rfl
      | some fr => exact others fr.bindings
    · rfl
  have same (fuel c : Nat) : (s.withBindings a f).lookupTo n' fuel c = s.lookupTo n' fuel c := by
    induction fuel generalizing c with
    | zero => rfl
    | succ fuel ih => simp only [lookupTo, bindings, outer_withBindings, ih]
  rw [lookup?, lookup?, size_withBindings, same]

/-- A variable that is set where it is found has its new binding. -/
theorem lookup_withBindings_self (found : s.lookup? e n = some (a, b)) :
    (s.withBindings a (setBinding n b')).lookup? e n = some (a, b') := by
  have here := lookup_of_lookupTo found
  have there (fuel c : Nat) (found : s.lookupTo n fuel c = some (a, b)) :
      (s.withBindings a (setBinding n b')).lookupTo n fuel c = some (a, b') := by
    induction fuel generalizing c with
    | zero => cases found
    | succ fuel ih =>
      by_cases same : a = c
      · subst same
        simp only [lookupTo, bindings_withBindings_self (inside_of_lookup here), lookup_setBinding, if_pos]
      · rw [lookupTo] at found ⊢
        rw [bindings_withBindings_ne same, outer_withBindings]
        split at found
        · cases found
          exact absurd rfl same
        · split at found
          · exact ih _ found
          · cases found
  rw [lookup?, size_withBindings]
  exact there _ _ found

end Store

/-- The value of a name is the one that it is bound to. -/
theorem StoreM.run_valueOf {e : Scope} {s t : Store} {name : Text} {w : Value} (run : (valueOf e name).run.run s = (.ok w, t)) :
    t = s ∧ ∃ a b, s.lookup? e name = some (a, b) ∧ b.value = w := by
  unfold valueOf at run
  rw [run_get_bind] at run
  split at run
  · cases run
    exact ⟨rfl, _, _, ‹_›, rfl⟩
  · cases run

/-! ## Declared shapes -/

namespace Binding

/-- A variable was declared with a shape that values can be made to fit. -/
structure Declared (s : Store) (b : Binding) (shape : Shape) : Prop where
  array : shape.isArray = true → b.kind = some .array
  sound : shape.Sound s
  plain : shape.Plain s

/-- The arrays that are made to fit when a value is assigned to a variable. -/
def Refits (b : Binding) (v : Value) (c : Container) : Prop :=
  ∃ shape a, b.shape = some shape ∧ c = .array a ∧ shape.WrittenFor v a

/-- The containers that a write to a member of a variable may change: those that its value reaches, and the arrays among
the defaults of its shape. -/
def Below (b : Binding) (s : Store) (c : Container) : Prop :=
  s.Holding b.value c ∨ ∃ shape a, b.shape = some shape ∧ c = .array a ∧ shape.Rewrites a

end Binding

/-! ## Elements -/

namespace Store

/-- The containers that hold the elements of a value. -/
inductive Outer (s : Store) : Value → Container → Prop
  | array (a : Nat) : Outer s (.array a) (.array a)
  | box (a : Nat) : Outer s (.json a) (.box a)
  | object {a o : Nat} (lies : s.boxes[a]? = some (.object o)) : Outer s (.json a) (.object o)
  | buffer {a b len : Nat} (lies : s.boxes[a]? = some (.list b len)) : Outer s (.json a) (.buffer b)

/-- Json values that hold objects still do. -/
def KeepsObjects (s t : Store) : Prop :=
  ∀ a o : Nat, s.boxes[a]? = some (.object o) → ∃ o' : Nat, t.boxes[a]? = some (.object o')

variable {changed : Container → Prop} {written : Nat → Prop} {s t : Store}

theorem LaterBut.keepsObjects (h : s.LaterBut changed t) (boxes : ∀ a o : Nat, s.boxes[a]? = some (.object o) →
    ¬changed (.box a)) : s.KeepsObjects t := fun a o lies => ⟨o, h.boxes a _ lies (boxes a o lies)⟩

theorem Later.keepsObjects (h : s.Later written t) : s.KeepsObjects t := fun a o lies => ⟨o, h.keeps.boxes a _ lies⟩

end Store

namespace Eval

open StoreM

theorem laterBut_of_makes {α : Type} {changed : Container → Prop} {written : Nat → Prop} {good : α → Store → Prop}
    {x : StoreM α} {s t : Store} {a : α} (makes : Makes written good x s) (run : x.run.run s = (.ok a, t))
    (arrays : ∀ a, written a → changed (.array a)) : s.LaterBut changed t := (makes.of_run run).1.but fun a _ => arrays a

/-- Writing an element of an array changes the array alone. -/
theorem laterBut_arraySet {a : Nat} {i : Int} {v : Value} {s t : Store} {r : Unit}
    (run : (arraySet a i v).run.run s = (.ok r, t)) : s.LaterBut (Eq (.array a)) t := by
  have rest (d : ArrayData) (s' : Store) (first : s.LaterBut (Eq (.array a)) s') (run : (do
      let length := ((← get).array a).length
      if i < 0 || (length : Int) ≤ i then throw (outOfBounds i length)
      let v ← forElement d.element d.cells v
      arrayPut a i.toNat v : StoreM Unit).run.run s' = (.ok r, t)) : s.LaterBut (Eq (.array a)) t := by
    rw [run_get_bind] at run
    dsimp only at run
    split at run
    · cases run
    · obtain ⟨w, u, element, put⟩ := Signature.run_bind_ok run
      refine (first.trans ?_).trans (laterBut_of_makes (makes_arrayPut a _ w) put fun _ h => h ▸ rfl)
      exact laterBut_of_makes (makes_forElement v _ _) element fun _ => False.elim
  unfold arraySet at run
  rw [run_get_bind] at run
  dsimp only at run
  split at run
  · exact rest _ _ ((Store.LaterBut.refl s).modifyArray (fun _ => rfl) _) run
  · exact rest _ _ (.refl s) run

/-- Writing an element changes the containers that hold the elements alone. -/
theorem laterBut_writeIndex {c k v : Value} {s t : Store} {r : Unit} (run : (writeIndex c k v).run.run s = (.ok r, t)) :
    s.LaterBut (s.Outer c) t ∧ s.KeepsObjects t := by
  have placed {i : Int} {u : Store} (run : (placeOf k).run.run s = (.ok i, u)) : s = u := by
    unfold placeOf at run
    split at run
    · cases run
      rfl
    · cases run
  cases c with
  | array a =>
    obtain ⟨i, u, index, run⟩ := Signature.run_bind_ok run
    cases placed index
    have but := laterBut_arraySet run
    exact ⟨but.weaken fun _ same => same ▸ .array a, but.keepsObjects fun _ _ _ => nofun⟩
  | json b =>
    unfold Eval.writeIndex at run
    rw [run_get_bind] at run
    split at run
    · rename_i o box
      have lies := Store.box_lies box rfl
      obtain ⟨key, u, keyed, run⟩ := Signature.run_bind_ok run
      obtain rfl : s = u := by
        unfold keyOf at keyed
        split at keyed
        · cases keyed
          rfl
        · cases keyed
      obtain ⟨n, u, data, run⟩ := Signature.run_bind_ok run
      have later := ((makes_toNode v).adds data).1
      have but : s.LaterBut (Eq (.object o)) u := later.but fun _ _ => nofun
      cases run
      have but := but.setObject (fun _ => rfl) (Json.insert key n (u.object o))
      exact ⟨but.weaken fun _ same => same ▸ .object lies, but.keepsObjects fun _ _ _ => nofun⟩
    · rename_i buffer len box
      have lies := Store.box_lies box rfl
      obtain ⟨i, u, index, run⟩ := Signature.run_bind_ok run
      cases placed index
      have later {n : Node} {u : Store} (data : (toNode v).run.run s = (.ok n, u)) : s.LaterBut (fun c => c = .box b ∨ c = .buffer buffer) u :=
        laterBut_of_makes (makes_toNode v) data fun _ => False.elim
      have done (but : s.LaterBut (fun c => c = .box b ∨ c = .buffer buffer) t) : s.LaterBut (s.Outer (.json b)) t ∧ s.KeepsObjects t := by
        refine ⟨but.weaken ?_, but.keepsObjects fun a o lies' changed => ?_⟩
        · rintro _ (rfl | rfl)
          · exact .box b
          · exact .buffer lies
        · obtain same | impossible := changed
          · cases same
            cases lies.symm.trans lies'
          · cases impossible
      split at run
      · obtain ⟨n, u, data, run⟩ := Signature.run_bind_ok run
        obtain ⟨m, u', appended, run⟩ := Signature.run_bind_ok run
        cases run
        refine done (Store.LaterBut.setBox ?_ (fun _ => .inl rfl) m)
        unfold StoreM.append at appended
        rw [run_get_bind] at appended
        dsimp only at appended
        split at appended
        · cases appended
          exact (later data).modifyBuffer (fun _ => .inr rfl) _
        · cases appended
          have more (places : Array Node) : u.Later (fun _ => False) { u with buffers := u.buffers.push places } :=
            { Store.Later.refl u with buffers := .push (fun _ => PlacesSettle.refl) _ _ }
          exact (later data).trans ((more _).but fun _ _ => nofun)
      split at run
      · obtain ⟨n, u, data, run⟩ := Signature.run_bind_ok run
        cases run
        exact done ((later data).modifyBuffer (fun _ => .inr rfl) _)
      · cases run
    · cases run
  | _ => cases run

end Eval

/-! ## Names -/

namespace StoreM

section Refit

variable {written : Nat → Prop} {s t : Store} {shape : Shape} {v w : Value}

/-- What is converted to an array is the value itself or a new array of anything. -/
theorem makes_coerce_array (v : Value) : Makes written (fun w t => w = v ∧ t = s ∨
    ∃ a d, w = .array a ∧ t.arrays[a]? = some d ∧ d.element = .any ∧ s.arrays.size ≤ a) (coerce v .array) s := by
  refine makes_kindOf_bind ?_
  split
  · exact makes_pure (.inl ⟨rfl, rfl⟩)
  split
  · rename_i null
    refine makes_pure (.inl ⟨?_, rfl⟩)
    cases v with
    | null => rfl
    | array a => exact absurd null (Store.kindOf_ne_null rfl)
    | _ => cases null
  cases v with
  | array a => exact makes_pure (.inl ⟨rfl, rfl⟩)
  | json a =>
    refine makes_get_bind ?_
    split
    · rename_i b len _
      refine makes_get_bind ?_
      have read : Makes written (fun _ _ => True) ((s.items b len).mapM ofNode) s :=
        (makes_mapM (fun _ _ _ => True) (fun _ _ _ _ _ h => h) _ fun n _ _ _ => (makes_ofNode n).mono fun _ _ _ _ => trivial).mono
          fun _ _ _ _ => trivial
      refine makes_bind read fun vs u later _ => ?_
      refine ⟨(makes_newArray _).1, fun w hw => .inr ?_⟩
      have new : (newArrayOf vs).run.run u = (.ok (.array u.arrays.size), { u with arrays := u.arrays.push ⟨.any, false, .boxed vs.toArray⟩ }) := rfl
      rw [new] at hw ⊢
      cases hw
      exact ⟨_, _, rfl, Array.getElem?_push_size, rfl, later.keeps.arrays⟩
    · exact makes_throw _
  | _ => exact makes_throw _

/-- A value that can be made to fit can be so after it is converted, and no more of the arrays that were there are
written to. -/
theorem makes_coerce_admits {k : Kind} (array : shape.isArray = true → k = .array) (plain : shape.Plain s)
    (admits : shape.Admits s v) :
    Makes written (fun w t => shape.Admits t w ∧ ∀ a < s.arrays.size, shape.WrittenFor w a → shape.WrittenFor v a) (coerce v k) s := by
  cases single : shape.isArray with
  | false =>
    refine ⟨(makes_coerce v k).1, fun w _ => ⟨fun _ _ impossible => ?_, fun a _ here => .inr (here.resolve_left fun h => ?_)⟩⟩
    · cases single.symm.trans impossible
    · cases single.symm.trans h.2
  | true =>
    rw [array single]
    refine (makes_coerce_array v).mono fun w t _ converted => ?_
    obtain ⟨rfl, rfl⟩ | ⟨a, d, rfl, lies, any, fresh⟩ := converted
    · exact ⟨admits, fun _ _ here => here⟩
    · refine ⟨fun b hb _ => ?_, fun b inside here => .inr (here.resolve_left fun ⟨same, _⟩ => ?_)⟩
      · cases hb
        exact ⟨⟨d, lies, .inl any⟩, fun here => absurd (Shape.Rewrites.inside shape plain here) (Nat.not_lt.mpr fresh)⟩
      · cases same
        omega

/-- A value that is made to fit what is declared of a variable is taken by the shape. Only arrays are written to. -/
theorem takes_refit {name : Text} {source : Kind} {b : Binding}
    (declared : ∀ shape, b.shape = some shape → b.Declared s shape ∧ shape.Admits s v)
    (run : (refit name source b v).run.run s = (.ok w, t)) :
    s.KeepsObjects t ∧ s.LaterBut (b.Refits v) t ∧ ∀ shape, b.shape = some shape → shape.Takes t w := by
  obtain ⟨value, constant, kind, shape⟩ := b
  have rethrown {k : Kind} {good : Value → Store → Prop} {x : Value} {u : Store}
      (makes : Makes (fun _ => False) good (coerce v k) s) (run : (tryCatch (coerce v k) (fun _ =>
        throw (Fault.wrongType ("cannot assign " ++ source.name ++ " to " ++ k.name ++ " variable '" ++ name ++ "'"))) :
          StoreM Value).run.run s = (.ok x, u)) : s.Later (fun _ => False) u ∧ good x u := (makes_rethrow makes).of_run run
  cases shape with
  | none =>
    have done (later : s.Later (fun _ => False) t) : s.KeepsObjects t ∧
        s.LaterBut (Binding.Refits ⟨value, constant, kind, none⟩ v) t ∧ ∀ shape : Shape, none = some shape → shape.Takes t w :=
      ⟨later.keepsObjects, later.but fun _ _ => nofun, nofun⟩
    cases kind with
    | none =>
      cases run
      exact done (.refl s)
    | some k =>
      obtain ⟨x, u, converted, ⟨⟩⟩ := Signature.run_bind_ok run
      exact done (rethrown (makes_coerce v k) converted).1
  | some shape =>
    obtain ⟨⟨array, sound, plain⟩, admits⟩ := declared shape rfl
    have done {u : Store} {x : Value} (later : s.Later (fun _ => False) u) (run : (conform shape x).run.run u = (.ok w, t))
        (admits : shape.Admits u x ∧ ∀ a < s.arrays.size, shape.WrittenFor x a → shape.WrittenFor v a) :
        s.KeepsObjects t ∧ s.LaterBut (Binding.Refits ⟨value, constant, kind, some shape⟩ v) t ∧
          ∀ shape', some shape = some shape' → shape'.Takes t w := by
      have sound := Shape.Sound.later later shape sound
      have plain := Shape.Plain.kept later.keeps shape plain
      have all := (later.weaken nofun).trans (later_conform sound plain run)
      refine ⟨all.keepsObjects, all.but fun a inside here => ⟨shape, a, rfl, rfl, admits.2 a inside here⟩, fun _ same => ?_⟩
      cases same
      exact takes_conform sound plain admits.1 run
    cases kind with
    | none => exact done (.refl s) run ⟨admits, fun _ _ here => here⟩
    | some k =>
      obtain ⟨x, u, converted, run⟩ := Signature.run_bind_ok run
      obtain ⟨later, admits⟩ := rethrown (makes_coerce_admits (fun isArray => Option.some.inj (array isArray)) plain admits) converted
      exact done later run admits

end Refit

end StoreM

/-- A name that is assigned to has a value that its shape takes, if it has one, and other names have the variables that
they had. Only arrays are written to. -/
theorem Eval.done_assignName {name : Text} {v w : Value} {m m' : Machine}
    (declared : ∀ a b shape, m.store.lookup? m.scope name = some (a, b) → b.shape = some shape →
      b.Declared m.store shape ∧ shape.Admits m.store v)
    (run : assignName name v m = .done w m') :
    m'.scope = m.scope ∧ m.store.KeepsObjects m'.store ∧
      m.store.LaterBut (fun c => ∃ a b, m.store.lookup? m.scope name = some (a, b) ∧ b.Refits v c) m'.store ∧
      (∀ other, other ≠ name → m'.store.lookup? m'.scope other = m.store.lookup? m.scope other) ∧
      ∀ a b, m.store.lookup? m.scope name = some (a, b) → ∃ x,
        m'.store.lookup? m'.scope name = some (a, { b with value := x }) ∧ ∀ shape, b.shape = some shape → shape.Takes m'.store x := by
  unfold assignName at run
  rw [Exec.run_get_bind] at run
  cases found : m.store.lookup? m.scope name with
  | none =>
    rw [found] at run
    obtain ⟨_, _, lifted, ⟨⟩⟩ := Exec.done_bind run
    obtain ⟨s, defined, rfl⟩ := Exec.done_lift lifted
    rw [StoreM.defineGlobal_eq] at defined
    cases defined
    have others (other : Text) (ne : other ≠ name) : (m.store.withBindings m.scope.global fun bs =>
        setBinding name ⟨v, (bs.lookup name).elim false (·.constant), (bs.lookup name).bind (·.kind),
          (bs.lookup name).bind (·.shape)⟩ bs).lookup? m.scope other = m.store.lookup? m.scope other :=
      Store.lookup_withBindings_ne fun bs => by rw [lookup_setBinding, if_neg ne]
    exact ⟨rfl, fun a o lies => ⟨o, lies⟩, .of_frames _, others, fun _ _ none => by cases none⟩
  | some place =>
    obtain ⟨a, b⟩ := place
    rw [found] at run
    obtain ⟨_, _, lifted, read⟩ := Exec.done_bind run
    obtain ⟨s, assigned, rfl⟩ := Exec.done_lift lifted
    obtain ⟨t, valued, rfl⟩ := Exec.done_lift read
    obtain ⟨rfl, -⟩ := StoreM.run_valueOf valued
    cases constant : b.constant with
    | true =>
      rw [StoreM.run_assign_constant found constant] at assigned
      cases assigned
    | false =>
      rw [StoreM.run_assign found constant] at assigned
      obtain ⟨x, u, refitted, ⟨⟩⟩ := Signature.run_bind_ok assigned
      obtain ⟨objects, but, takes⟩ := StoreM.takes_refit (declared a b · found) refitted
      have frames : u.frames = m.store.frames := by
        have left := StoreM.code_refit name (m.store.kindOf v) b v m.store
        rw [refitted] at left
        exact congrArg Prod.snd left
      refine ⟨rfl, objects, ?_, fun other ne => ?_, fun a' b' same => ?_⟩
      · exact (but.weaken fun c here => ⟨a, b, rfl, here⟩).trans (.of_frames _)
      · refine (Store.lookup_withBindings_ne fun bs => ?_).trans (Store.lookup_of_frames frames m.scope other)
        rw [lookup_setBinding, if_neg ne]
      · cases same
        refine ⟨x, Store.lookup_withBindings_self ((Store.lookup_of_frames frames _ _).trans found), fun shape hs => ?_⟩
        exact (takes shape hs).kept (.of_frames _) fun _ _ => not_false

/-! ## Members -/

namespace Eval

section Members

variable {changed : Container → Prop} {s t : Store}

theorem leaves_setBelow (base : Text) (path : List Text) (v : Node) (done : Nat) (names : List Text) (a : Nat) :
    StoreM.Leaves (fun s => (s.boxes, s.arrays)) (setBelow base path v done names a) := by
  have object (es : List (Text × Node)) : StoreM.Leaves (fun s => (s.boxes, s.arrays)) (StoreM.newObject es) :=
    StoreM.leaves_modifyGet fun _ => rfl
  have set (a : Nat) (es : List (Text × Node)) : StoreM.Leaves (fun s => (s.boxes, s.arrays)) (StoreM.setObject a es) :=
    StoreM.leaves_modify fun _ => rfl
  fun_induction setBelow base path v done names a with
  | case1 => exact StoreM.leaves_pure ()
  | case2 => exact StoreM.leaves_bind StoreM.leaves_get fun s => set _ _
  | case3 done name rest a _ ih =>
    refine StoreM.leaves_bind StoreM.leaves_get fun s => ?_
    dsimp only
    split
    · exact ih _
    · refine StoreM.leaves_bind (object []) fun n => ?_
      split
      · exact StoreM.leaves_bind (set _ _) fun _ => ih _
      · exact StoreM.leaves_pure _
    · exact StoreM.leaves_throw _

/-- A value that was made to fit replaces the data of a json value, which the shape takes then. -/
theorem takes_setBox {shape : Shape} {b o fresh : Nat} {w : Value} {n : Node} {t u : Store} (inside : b < s.boxes.size)
    (object : s.boxes[fresh]? = some (.object o)) (sound : shape.Sound s) (plain : shape.Plain s)
    (conformed : (StoreM.conform shape (.json fresh)).run.run s = (.ok w, t))
    (data : (StoreM.toNode w).run.run t = (.ok n, u)) :
    s.Later shape.Rewrites u ∧ (∃ o', n = .object o') ∧ shape.Takes { u with boxes := u.boxes.setIfInBounds b n } (.json b) := by
  obtain ⟨first, taken⟩ := (StoreM.makes_conformTo_takes shape.depth (Nat.le_refl _) (.json fresh) sound plain).of_run conformed
  obtain ⟨next, native⟩ := (StoreM.makes_toNode w).adds data
  have later := (first.weaken fun a here => here.resolve_left fun h => Value.noConfusion h.1).trans
    (next.weaken fun _ => False.elim)
  cases single : shape.isArray with
  | true =>
    cases taken.same single
    obtain ⟨_, lies, rfl⟩ := first.boxes fresh _ object
    rw [Store.Native, Store.box, lies, Option.getD_some] at native
    refine ⟨later, ⟨o, native⟩, ?_⟩
    cases shape with
    | array element => trivial
    | _ => cases single
  | false =>
    obtain ⟨rfl, -⟩ | ⟨c, m, rfl, lies, takes⟩ := taken.takes single
    · cases taken.present rfl
    rw [Store.Native, Store.box, lies, Option.getD_some] at native
    subst native
    obtain ⟨o', rfl⟩ : ∃ o', n = .object o' := by
      cases shape with
      | map _ => exact takes
      | record _ =>
        obtain ⟨a, _, rfl, -⟩ := takes
        exact ⟨a, rfl⟩
      | array _ => cases single
    have lies' : (u.boxes.setIfInBounds b (Node.object o'))[b]? = some (.object o') := by
      rw [Array.getElem?_setIfInBounds_self_of_lt (Store.Has.later (c := .box b) later inside)]
    have same : t.LaterBut (Eq (.box b)) u := next.but fun _ _ => False.elim
    have but := same.setBox (fun _ => rfl) (.object o')
    refine ⟨later, ⟨o', rfl⟩, (Shape.takes_iff single).mpr (.inr ⟨b, .object o', rfl, lies', ?_⟩)⟩
    refine Shape.TakesData.kept but shape (.refl _) (fun c reaches same => ?_) takes
    cases same
    exact reaches.isData

/-- Data is written below an object that reaches only what may be changed. -/
theorem laterBut_put {base : Text} {path : List Text} {v : Value} {n : Node} {o : Nat} {s₁ s₂ : Store} {r : Unit}
    (first : s.Later (fun _ => False) s₁) (below : ∀ c, s.Has c → s₁.Reaches (.object o) c → changed c)
    (data : (StoreM.toNode v).run.run s₁ = (.ok n, s₂)) (put : (setBelow base path n 0 path o).run.run s₂ = (.ok r, t)) :
    s.LaterBut changed t ∧ s.Keeps t := by
  have next := ((StoreM.makes_toNode v).adds data).1
  have later := first.trans next
  have same : (t.boxes, t.arrays) = (s₂.boxes, s₂.arrays) := by
    have left := leaves_setBelow base path n 0 path o s₂
    rwa [put] at left
  obtain ⟨boxes, arrays⟩ := Prod.mk.inj same
  have sizes : s.objects.size ≤ s₂.objects.size := by
    by_contra less
    exact Nat.lt_irrefl _ (Store.Has.later (c := .object s₂.objects.size) later (Nat.not_le.mp less))
  refine ⟨laterBut_setBelow (later.but fun _ _ => nofun) sizes (fun c has reaches => ?_) put, ?_, fun a m lies => ?_⟩
  · exact below c has (reaches.earlier next (.refl _))
  · rw [arrays]
    exact later.keeps.arrays
  · rw [boxes]
    exact later.keeps.boxes a m lies

/-- A member is written to a copy of a json value, which is made to fit and replaces the value. -/
theorem takes_member {base : Text} {path : List Text} {b : Binding} {v fresh checked : Value} {n n' : Node} {c o : Nat}
    {s₁ s₂ s₃ s₄ s₅ s₆ : Store} {shape : Shape} {r : Unit} (hb : b.value = .json c) (hs : b.shape = some shape)
    (sound : shape.Sound s) (plain : shape.Plain s) (copy : (StoreM.clone (s.box c)).run.run s = (.ok (.object o), s₁))
    (data : (StoreM.toNode v).run.run s₁ = (.ok n, s₂)) (put : (setBelow base path n 0 path o).run.run s₂ = (.ok r, s₃))
    (boxed : (StoreM.newBox (.object o)).run.run s₃ = (.ok fresh, s₄))
    (conformed : (StoreM.conform shape fresh).run.run s₄ = (.ok checked, s₅))
    (data' : (StoreM.toNode checked).run.run s₅ = (.ok n', s₆)) :
    let t := { s₆ with boxes := s₆.boxes.setIfInBounds c n' }
    s.KeepsObjects t ∧ s.LaterBut (b.Below s) t ∧ shape.Takes t b.value := by
  obtain ⟨first, apart⟩ := (StoreM.makes_clone_apart _).adds copy
  have present := ((StoreM.makes_clone_takes _).adds copy).2.null
  have lies := Store.box_lies rfl present.symm
  have held {x : Container} (reaches : s.Reaches (s.box c) x) : b.Below s x := .inl (hb ▸ .data lies reaches)
  obtain ⟨but, keeps⟩ := laterBut_put first (fun x has reaches => held (apart x has reaches)) data put
  obtain ⟨next, f, rfl, object⟩ := (StoreM.makes_newBox _).adds boxed
  have keeps := keeps.trans next.keeps
  have inside := (Array.getElem?_eq_some_iff.mp (keeps.boxes c _ lies)).1
  obtain ⟨last, ⟨o', rfl⟩, takes⟩ := takes_setBox inside object (Shape.Sound.kept keeps shape sound)
    (Shape.Plain.kept keeps shape plain) conformed data'
  refine ⟨fun a x lies' => ?_, ?_, hb ▸ takes⟩
  · have kept := last.keeps.boxes a _ (keeps.boxes a _ lies')
    by_cases same : c = a
    · subst same
      exact ⟨o', Array.getElem?_setIfInBounds_self_of_lt (Array.getElem?_eq_some_iff.mp kept).1⟩
    · exact ⟨x, (Array.getElem?_setIfInBounds_ne same).trans kept⟩
  · have fit : s₄.LaterBut (b.Below s) s₆ := last.but fun a _ here => .inr ⟨shape, a, hs, rfl, here⟩
    exact ((but.trans (next.but fun _ _ => False.elim)).trans fit).setBox (fun _ => .inl (hb ▸ .box c)) _

/-- A member is one of the json value that its variable has. -/
theorem done_memberBase {m m' : Machine} {base : Text} {path : List Text} {c : Nat} (run : memberBase base path m = .done c m') :
    m' = m ∧ ∃ a b, m.store.lookup? m.scope base = some (a, b) ∧ b.value = .json c := by
  obtain ⟨_, _, ⟨⟩, run⟩ := Exec.done_bind run
  obtain ⟨v, _, lifted, run⟩ := Exec.done_bind run
  obtain ⟨s, value, rfl⟩ := Exec.done_lift lifted
  obtain ⟨rfl, a, b, found, same⟩ := StoreM.run_valueOf value
  cases v with
  | json =>
    cases run
    exact ⟨rfl, a, b, found, same⟩
  | _ =>
    obtain ⟨_, _, -, impossible⟩ := Exec.done_bind run
    cases impossible

/-- Writing a member leaves the variables alone. It changes what the variable's value reaches, and the shape of the
variable, if it has one, takes the value then. -/
theorem done_writeMember {line : Nat} {base : Text} {path : List Text} {v : Value} {m m' : Machine} {r : Unit}
    (declared : ∀ a b shape, m.store.lookup? m.scope base = some (a, b) → b.shape = some shape →
      shape.Sound m.store ∧ shape.Plain m.store)
    (run : writeMember line base path v m = .done r m') :
    ∃ a b, m.store.lookup? m.scope base = some (a, b) ∧ m'.scope = m.scope ∧ m'.store.frames = m.store.frames ∧
      m.store.KeepsObjects m'.store ∧ m.store.LaterBut (b.Below m.store) m'.store ∧
      ∀ shape, b.shape = some shape → shape.Takes m'.store b.value := by
  obtain ⟨c, m₀, reached, run₁⟩ := Exec.done_bind (Exec.done_atLine run)
  obtain ⟨rfl, a, ⟨_, constant, kind, shape⟩, found, rfl⟩ := done_memberBase reached
  have run₂ := (Exec.run_get_bind _).symm.trans run₁
  rw [found] at run₂
  cases shape with
  | none =>
    obtain ⟨_, _, ⟨⟩, run₃⟩ := Exec.done_bind run₂
    obtain ⟨n, _, lifted, run₄⟩ := Exec.done_bind run₃
    obtain ⟨s₂, data, rfl, frames⟩ := Exec.done_beside (StoreM.code_toNode v) lifted
    dsimp only at run₄
    cases root : m₀.store.box c with
    | object o =>
      rw [root] at run₄
      obtain ⟨_, _, lifted', ⟨⟩⟩ := Exec.done_bind run₄
      obtain ⟨t, put, rfl, frames'⟩ := Exec.done_beside (code_setBelow base path n 0 path o) lifted'
      have lies := Store.box_lies root rfl
      obtain ⟨but, keeps⟩ := laterBut_put (.refl _) (fun _ _ => Store.Holding.data lies) data put
      exact ⟨a, _, found, rfl, frames'.trans frames, fun a o lies => ⟨o, keeps.boxes a _ lies⟩, but.weaken fun _ => .inl, nofun⟩
    | _ =>
      rw [root] at run₄
      obtain ⟨_, _, impossible, -⟩ := Exec.done_bind run₄
      cases impossible
  | some shape =>
    obtain ⟨sound, plain⟩ := declared _ _ _ found rfl
    obtain ⟨root, _, cloned, run₃⟩ := Exec.done_bind run₂
    obtain ⟨s₁, copy, rfl, frames₁⟩ := Exec.done_beside (StoreM.code_clone _) cloned
    obtain ⟨n, _, lifted, run₄⟩ := Exec.done_bind run₃
    obtain ⟨s₂, data, rfl, frames₂⟩ := Exec.done_beside (StoreM.code_toNode v) lifted
    dsimp only at run₄
    split at run₄
    · rename_i o
      obtain ⟨_, _, lifted, run₅⟩ := Exec.done_bind run₄
      obtain ⟨s₃, put, rfl, frames₃⟩ := Exec.done_beside (code_setBelow base path n 0 path o) lifted
      obtain ⟨fresh, _, lifted, run₆⟩ := Exec.done_bind run₅
      obtain ⟨s₄, boxed, rfl, frames₄⟩ := Exec.done_beside (StoreM.code_newBox _) lifted
      obtain ⟨checked, _, lifted, run₇⟩ := Exec.done_bind run₆
      obtain ⟨s₅, conformed, rfl, frames₅⟩ := Exec.done_beside (StoreM.code_conform shape fresh) lifted
      obtain ⟨n', _, lifted, run₈⟩ := Exec.done_bind run₇
      obtain ⟨s₆, data', rfl, frames₆⟩ := Exec.done_beside (StoreM.code_toNode checked) lifted
      obtain ⟨t, set, rfl, frames₇⟩ := Exec.done_beside (StoreM.code_setBox c n') run₈
      cases set
      obtain ⟨objects, but, takes⟩ := takes_member (b := ⟨.json c, constant, kind, some shape⟩) rfl rfl sound plain copy data put boxed conformed data'
      refine ⟨a, _, found, rfl, ?_, objects, but, fun _ same => ?_⟩
      · exact frames₇.trans (frames₆.trans (frames₅.trans (frames₄.trans (frames₃.trans (frames₂.trans frames₁)))))
      · cases same
        exact takes
    · obtain ⟨_, _, impossible, -⟩ := Exec.done_bind run₄
      cases impossible

end Members

end Eval

end ScriptEngine
