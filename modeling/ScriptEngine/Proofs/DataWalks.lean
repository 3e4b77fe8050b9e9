import ScriptEngine.Proofs.FitAgain
import ScriptEngine.Proofs.JsonPlaces
import ScriptEngine.Proofs.WholeRuns
/-!
# Walks through data

Whoever shows, copies, compares or normalizes json data opens the containers in it, those in them, and so on. Nothing but the
data stops such a walk, so it ends where data ends: in founded memory every walk does, and it does not matter how deep it may
go.
-/

namespace ScriptEngine

variable {s t u : Store} {m n x : Node} {c d e : Nat} {α β : Type}

/-! ## Depth -/

namespace Store

/-- What lies in data goes less deep. -/
theorem Deep.inner (deep : s.Deep d n) (inner : s.Inner x n) : ∃ c < d, s.Deep c x := by
  cases d with
  | zero =>
    rw [Inner, show s.children n = [] from deep] at inner
    cases inner
  | succ d => exact ⟨d, Nat.lt_succ_self d, deep x inner⟩

/-- Data goes no deeper in later memory, where it may have settled. -/
theorem Deep.later {written : Nat → Prop} (deep : s.Deep d n) (whole : s.Whole) (there : n.In s) (later : s.Later written t) :
    t.Deep d n := by
  induction d generalizing n with
  | zero =>
    refine List.eq_nil_iff_forall_not_mem.mpr fun x inner => ?_
    obtain ⟨x₀, inner₀, -⟩ := later.inner (y := n) inner (fun a same => by subst same; exact there)
      fun b len same => by subst same; exact there.1
    obtain ⟨_, impossible, -⟩ := Deep.inner deep inner₀
    exact Nat.not_lt_zero _ impossible
  | succ d ih =>
    intro x inner
    obtain ⟨x₀, inner₀, settles⟩ := later.inner (y := n) inner (fun a same => by subst same; exact there)
      fun b len same => by subst same; exact there.1
    obtain rfl | leaf := children_settles settles
    · exact ih (deep x inner₀) (whole.inner inner₀)
    · exact Deep.mono (d := 0) (leaf t) (Nat.zero_le d)

/-- Of two bounds on the depth of data the lower one holds. -/
theorem Deep.min (deep : s.Deep d n) (deep' : s.Deep e n) : s.Deep (min d e) n := by
  obtain first | second := Nat.le_total d e
  · rwa [Nat.min_eq_left first]
  · rwa [Nat.min_eq_right second]

/-- Data goes as deep as before when it settles. -/
theorem Deep.settle (deep : s.Deep d n) : s.Deep d n.settle := by
  obtain same | leaf := children_settles (show n.Settles n.settle from .inr rfl)
  · rwa [same]
  · exact Deep.mono (d := 0) (leaf s) (Nat.zero_le d)

/-- Data in founded memory goes less deep than containers are followed. -/
theorem Founded.deep_nesting (founded : s.Founded) (n : Node) : ∃ c < s.nesting, s.Deep c n :=
  ⟨_, by rw [nesting]; omega, founded.deep n⟩

/-- The tree of data is the same, to whatever depth it is followed, if only that is deeper than the data. -/
theorem treeTo_deep (deep : s.Deep c n) (hd : c < d) (he : c < e) : s.treeTo d n = s.treeTo e n := by
  induction c using Nat.strong_induction_on generalizing n d e with
  | _ c ih =>
    obtain ⟨d, rfl⟩ := Nat.exists_eq_add_of_lt hd
    obtain ⟨e, rfl⟩ := Nat.exists_eq_add_of_lt he
    have inside (x : Node) (inner : s.Inner x n) : s.treeTo (c + d) x = s.treeTo (c + e) x := by
      obtain ⟨b, less, deep⟩ := deep.inner inner
      exact ih b less deep (Nat.lt_add_right d less) (Nat.lt_add_right e less)
    cases n with
    | object a =>
      simp only [treeTo]
      exact congrArg Json.object (List.map_congr_left fun entry he => by rw [inside entry.2 (List.mem_map_of_mem he)])
    | list b len =>
      simp only [treeTo]
      exact congrArg Json.list (List.map_congr_left inside)
    | _ => simp only [treeTo]

end Store

/-! ## Walks -/

namespace StoreM

/-- A computation that opens data to a depth: what it makes of the containers in a container is put together in some way. It
does no more to memory than to settle data and to add to it. -/
structure Walk (walk : Nat → Node → StoreM Node) : Prop where
  object : ∃ close : Nat → List (Text × Node) → StoreM Node, ∀ d a, walk (d + 1) (.object a) = do
    close a (← ((← get).object a).mapM fun (k, n) => do pure (k, ← walk d n))
  list : ∃ close : Nat → Nat → List Node → StoreM Node, ∀ d b len, walk (d + 1) (.list b len) = do
    close b len (← ((← get).items b len).mapM (walk d))
  other : ∀ d e n, (∀ a, n ≠ .object a) → (∀ b len, n ≠ .list b len) → walk d n = walk e n
  makes : ∀ d n s, Makes (fun _ => False) (fun _ _ => True) (walk d n) s
  safe : ∀ d n s, Valid s n → Safe (walk d n) s

theorem walk_normalizeTo : Walk normalizeTo where
  object := ⟨fun a es => do setObject a es; pure (.object a), fun _ _ => rfl⟩
  list := ⟨fun b len items => do
    modify fun s => { s with buffers := s.buffers.modify b fun old => items.toArray ++ old.extract items.length old.size }
    pure (.list b len), fun d b len => by
      unfold normalizeTo
      rfl⟩
  other d e n object list := by
    cases n with
    | object a => exact absurd rfl (object a)
    | list b len => exact absurd rfl (list b len)
    | _ => cases d <;> cases e <;> rfl
  makes d n s := (makes_normalizeTo d n).mono fun _ _ _ _ => trivial
  safe _ _ _ valid := safe_normalizeTo valid

theorem walk_cloneTo : Walk cloneTo where
  object := ⟨fun _ => newObject, fun _ _ => rfl⟩
  list := ⟨fun _ _ => newList, fun _ _ _ => rfl⟩
  other d e n object list := by
    cases n with
    | object a => exact absurd rfl (object a)
    | list b len => exact absurd rfl (list b len)
    | _ => cases d <;> cases e <;> rfl
  makes d n s := makes_cloneTo d n
  safe d _ _ valid := safe_cloneTo d valid

/-- Two computations for every item of a list come to the same when they do for each of them, in all memory that has come
about so far. -/
theorem run_mapM_congr {f g : α → StoreM β} {P : Store → Prop} (l : List α) (start : P s)
    (each : ∀ a ∈ l, ∀ t, P t → (f a).run.run t = (g a).run.run t ∧ P ((f a).run.run t).2) :
    (l.mapM f).run.run s = (l.mapM g).run.run s := by
  induction l generalizing s with
  | nil => rfl
  | cons a l ih =>
    obtain ⟨same, next⟩ := each a (List.mem_cons_self ..) s start
    rw [List.mapM_cons, List.mapM_cons, ExceptT.run_bind, ExceptT.run_bind, StateT.run_bind, StateT.run_bind, ← same]
    generalize (f a).run.run s = r at next
    obtain ⟨r | b, t⟩ := r
    · rfl
    · have rest := ih next fun a ha => each a (List.mem_cons_of_mem _ ha)
      change ((l.mapM f >>= fun bs => pure (b :: bs) : StoreM (List β))).run.run t =
        ((l.mapM g >>= fun bs => pure (b :: bs) : StoreM (List β))).run.run t
      rw [ExceptT.run_bind, ExceptT.run_bind, StateT.run_bind, StateT.run_bind, rest]

/-- A walk comes to the same, however deep it may go, if only that is deeper than the data. -/
theorem Walk.run_deep {walk : Nat → Node → StoreM Node} (h : Walk walk) (whole : s.Whole) (there : n.In s) (deep : s.Deep c n)
    (hd : c < d) (he : c < e) : (walk d n).run.run s = (walk e n).run.run s := by
  induction c using Nat.strong_induction_on generalizing s n d e with
  | _ c ih =>
    obtain ⟨d, rfl⟩ := Nat.exists_eq_add_of_lt hd
    obtain ⟨e, rfl⟩ := Nat.exists_eq_add_of_lt he
    -- what lies in the data is walked through in memory that is later each time
    let Reached (t : Store) : Prop := s.Later (fun _ => False) t ∧ s.Grew t ∧ t.Whole
    have start : Reached s := ⟨.refl s, .refl s, whole⟩
    have inside (x : Node) (inner : s.Inner x n) (t : Store) (reached : Reached t) :
        (walk (c + d) x).run.run t = (walk (c + e) x).run.run t ∧ Reached ((walk (c + d) x).run.run t).2 := by
      obtain ⟨b, less, deep⟩ := deep.inner inner
      obtain ⟨later, grew, whole'⟩ := reached
      have there' := (whole.inner inner).grew grew
      obtain ⟨course, whole'', -⟩ := h.safe (c + d) x t there' whole'
      exact ⟨ih b less whole' there' (deep.later whole (whole.inner inner) later) (Nat.lt_add_right d less)
        (Nat.lt_add_right e less), later.trans (h.makes (c + d) x t).1, grew.trans course.grew, whole''⟩
    cases n with
    | object a =>
      obtain ⟨close, opened⟩ := h.object
      rw [opened, opened]
      rw [run_get_bind, run_get_bind]
      refine run_bind_congr (run_mapM_congr (P := Reached) _ start fun entry he t reached => ?_) (close a)
      obtain ⟨same, next⟩ := inside entry.2 (List.mem_map_of_mem he) t reached
      refine ⟨run_bind_congr same _, ?_⟩
      rw [ExceptT.run_bind, StateT.run_bind]
      generalize (walk (c + d) entry.2).run.run t = r at next
      obtain ⟨r | m, u⟩ := r <;> exact next
    | list b len =>
      obtain ⟨close, opened⟩ := h.list
      rw [opened, opened]
      rw [run_get_bind, run_get_bind]
      exact run_bind_congr (run_mapM_congr (P := Reached) _ start inside) (close b len)
    | _ =>
      rw [h.other (c + d + 1) (c + e + 1)]
      · exact fun _ => nofun
      · exact fun _ _ => nofun

/-- Whether json data is equal, as far as it is followed to a depth. -/
def equalNodesTo (depth : Nat) (m n : Node) : StoreM Bool := do
  let m ← normalizeTo depth m
  let n ← normalizeTo depth n
  let s ← get
  pure ((s.treeTo depth m).equal (s.treeTo depth n))

end StoreM

/-! ## Walks that end -/

namespace Store

/-- All walks through data end by themselves: the text by which it is shown, its copy, what it is normalized to, and whether
other data equals it do not depend on how deep a walk may go. -/
structure WalksEnd (s : Store) (n : Node) : Prop where
  tree : ∀ d, s.nesting ≤ d → s.treeTo d n = s.tree n
  clone : ∀ d, s.nesting ≤ d → (StoreM.cloneTo d n).run.run s = (StoreM.clone n).run.run s
  normalize : ∀ d, s.nesting ≤ d → (StoreM.normalizeTo d n).run.run s = (StoreM.normalize n).run.run s
  equal : ∀ d m, s.nesting ≤ d → m.In s → (StoreM.equalNodesTo d n m).run.run s = (StoreM.equalNodes n m).run.run s

/-- Normalization leaves memory founded, and data goes as deep as before. -/
theorem Founded.normalized (founded : s.Founded) (whole : s.Whole) (d : Nat) (n : Node) :
    ∃ t, (StoreM.normalizeTo d n).run.run s = (.ok n.settle, t) ∧ t.Founded ∧ t.Whole ∧ s.Grew t ∧
      ∀ c x, x.In s → s.Deep c x → t.Deep c x := by
  obtain ⟨later, settled⟩ : StoreM.Makes (fun _ => False) _ (StoreM.normalizeTo d n) s := StoreM.makes_normalizeTo d n
  have fixed := StoreM.fixed_normalizeTo d n s
  obtain ⟨m, t, run⟩ := StoreM.succeeds_normalizeTo d n s
  rw [run] at later settled fixed
  obtain rfl := settled m rfl
  obtain ⟨adds, whole'⟩ := whole.settled later fixed
  exact ⟨t, run, founded.adds whole adds, whole', adds.grew, fun c x there deep => deep.later whole there later⟩

/-- The comparison of data comes to the same in founded memory, however deep it may go. -/
theorem Founded.equal_ends (founded : s.Founded) (whole : s.Whole) (thereₙ : n.In s) (thereₘ : m.In s) (hd : s.nesting ≤ d) :
    (StoreM.equalNodesTo d n m).run.run s = (StoreM.equalNodes n m).run.run s := by
  obtain ⟨c, less, deep⟩ := founded.deep_nesting n
  obtain ⟨c', less', deep'⟩ := founded.deep_nesting m
  obtain ⟨t, run, foundedₜ, wholeₜ, grew, kept⟩ := founded.normalized whole d n
  obtain ⟨u, run', foundedᵤ, wholeᵤ, -, kept'⟩ := foundedₜ.normalized wholeₜ d m
  have thereₜ := thereₘ.grew grew
  have deepₜ := kept c' m thereₘ deep'
  -- the depth may have become another in each memory, and data is less deep than both
  have first : (StoreM.normalize n).run.run s = (.ok n.settle, t) :=
    (StoreM.walk_normalizeTo.run_deep whole thereₙ deep less (less.trans_le hd)).trans run
  have second : (StoreM.normalize m).run.run t = (.ok m.settle, u) := by
    obtain ⟨b, lessₜ, bound⟩ := foundedₜ.deep_nesting m
    refine Eq.trans ?_ run'
    exact StoreM.walk_normalizeTo.run_deep wholeₜ thereₜ (deepₜ.min bound) ((Nat.min_le_right _ _).trans_lt lessₜ)
      ((Nat.min_le_left _ _).trans_lt (less'.trans_le hd))
  have trees (x : Node) {b : Nat} (deepᵤ : u.Deep b x) (lessᵤ : b < s.nesting) : u.treeTo d x.settle = u.tree x.settle := by
    obtain ⟨b', less', bound⟩ := foundedᵤ.deep_nesting x
    exact treeTo_deep (deepᵤ.min bound).settle ((Nat.min_le_left _ _).trans_lt (lessᵤ.trans_le hd))
      ((Nat.min_le_right _ _).trans_lt less')
  have deepᵤ := kept' c n (thereₙ.grew grew) (kept c n thereₙ deep)
  unfold StoreM.equalNodesTo StoreM.equalNodes
  rw [ExceptT.run_bind, ExceptT.run_bind, StateT.run_bind, StateT.run_bind, run, first]
  change StateT.run (ExceptT.run (StoreM.normalizeTo d m >>= _)) t = StateT.run (ExceptT.run (StoreM.normalize m >>= _)) t
  rw [ExceptT.run_bind, ExceptT.run_bind, StateT.run_bind, StateT.run_bind, run', second]
  change (Except.ok ((u.treeTo d n.settle).equal (u.treeTo d m.settle)), u) = (.ok ((u.tree n.settle).equal (u.tree m.settle)), u)
  rw [trees n deepᵤ less, trees m (kept' c' m thereₜ deepₜ) less']

/-- In founded memory all walks end. -/
theorem Founded.ends (founded : s.Founded) (whole : s.Whole) (there : n.In s) : s.WalksEnd n := by
  obtain ⟨c, less, deep⟩ := founded.deep_nesting n
  exact {
    tree := fun d hd => treeTo_deep deep (less.trans_le hd) less
    clone := fun d hd => StoreM.walk_cloneTo.run_deep whole there deep (less.trans_le hd) less
    normalize := fun d hd => StoreM.walk_normalizeTo.run_deep whole there deep (less.trans_le hd) less
    equal := fun d m hd there' => founded.equal_ends whole there there' hd }

end Store

/-! ## Circles -/

namespace Eval

variable {F : Runner → Exec α} {rec : Runner} {k l l' m : Machine} {n j : Nat} {t u : Task}

/-- `F`, run with `rec` at `l`, closes a circle by its own doing: memory is founded there, and not where `F` ends, while no part
that finds memory founded leaves it otherwise. So some data is put into a container that lies in it. -/
structure Closes (F : Runner → Exec α) (rec : Runner) (l l' : Machine) : Prop where
  founded : l.store.Founded
  ends : (F rec l).EndsAt l'
  circle : ¬l'.store.Founded
  parts : ∀ u q q', Asks F rec l u q → q.store.Founded → (rec u q).EndsAt q' → q'.store.Founded
  write : l.store.Closes l'.store

/-- On its way to `k`, the computation `F`, run with fuel `n` at `m`, runs `G` at `l`. What is on its way has got to a part amid
which the machine is `k`, or at whose end: there `rec` crashes. All else is run to its end. -/
inductive Passes (k : Machine) : {α β : Type} → (Runner → Exec α) → Nat → Machine → (Runner → Exec β) → Runner → Machine → Prop where
  | ends {α : Type} {F : Runner → Exec α} {n : Nat} {m : Machine} (ends : (F (run n) m).EndsAt k) : Passes k F n m F (run n) m
  | asks {α : Type} {F : Runner → Exec α} {n j : Nat} {m l q : Machine} {t u : Task} (asked : Asks F (run n) m t l)
    (performed : Performs (fun _ => True) n t l j u q) (here : q = k ∨ (run j u q).EndsAt k) :
    Passes k F n m F ((run n).crashingAt t l "") m
  | amid {α β : Type} {F : Runner → Exec α} {G : Runner → Exec β} {n : Nat} {m l q : Machine} {t : Task} {rec : Runner}
    (asked : Asks F (run (n + 1)) m t l) (rest : Passes k (fun rec => step n rec t) n l G rec q) : Passes k F (n + 1) m G rec q
  | part {α β : Type} {F : Runner → Exec α} {G : Runner → Exec β} {n i : Nat} {m l q : Machine} {u : Task} {rec : Runner}
    (outer : Passes k F n m G rec l) (asked : Asks G rec l u q) (whole : rec u q = run (i + 1) u q) :
    Passes k F n m (fun rec => step i rec u) (run i) q

/-- On the way of `F` to `k` a circle is closed. -/
def ClosesBefore (k : Machine) (F : Runner → Exec α) (n : Nat) (m : Machine) : Prop :=
  ∃ (β : Type) (G : Runner → Exec β) (rec : Runner) (l l' : Machine), Passes k F n m G rec l ∧ Closes G rec l l'

/-- When memory gets lost its foundation in a computation that is passed, a circle is closed by that, or by a part of it. -/
theorem Passes.closes {β : Type} {G : Runner → Exec β} {i : Nat} (passes : Passes k F n m G rec l) (keeping : Keeping G)
    (cut : ∀ u q, rec u q = run i u q ∨ ∃ why, rec u q = .crashed why q) (keeps : Runner.Keeps l.host.plugins rec)
    (careful : l.host.plugins.Careful) (whole : l.store.Whole) (founded : l.store.Founded) (ends : (G rec l).EndsAt l')
    (circle : ¬l'.store.Founded) : ClosesBefore k F n m := by
  induction i using Nat.strong_induction_on generalizing β G rec l l' with
  | _ i ih =>
    by_cases parts : ∀ u q q', Asks G rec l u q → q.store.Founded → (rec u q).EndsAt q' → q'.store.Founded
    · have course := ((keeping _ _ _ careful keeps l rfl whole rfl).onward ends).course
      exact ⟨_, G, rec, l, l', passes, founded, ends, circle, parts, (course.founded founded).resolve_left circle⟩
    · push Not at parts
      obtain ⟨u, q, q', asked, sound, ended, broken⟩ := parts
      obtain same | ⟨why, same⟩ := cut u q
      · cases i with
        | zero =>
          rw [same] at ended
          exact ended.elim
        | succ i =>
          have onward := asked_onward careful keeping keeps whole asked
          have careful' := onward.plugins ▸ careful
          exact ih i (Nat.lt_succ_self i) (passes.part asked same) (keeping_step i u) (fun _ _ => .inl rfl) (keeps_run careful' i)
            careful' onward.whole sound (show (run (i + 1) u q).EndsAt q' by rwa [← same]) broken
      · rw [same] at ended
        obtain rfl : q = q' := ended
        exact absurd sound broken

end Eval

/-! ## The life of a machine -/

namespace Machine

open Eval

variable {start k : Machine}

end Machine

end ScriptEngine
