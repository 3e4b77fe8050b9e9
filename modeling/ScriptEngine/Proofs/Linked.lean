import ScriptEngine.Proofs.Local
import ScriptEngine.Proofs.ProgramParts
/-!
# Two runs side by side

A part of a program is run twice: once as it is, and once with a run of some part inside it replaced by a crash.
The two runs agree until the replaced part is met. From there on the first run can only go on towards the fault
that the replaced part ended in, and the second has crashed. Side by side with itself, a run shows what it leaves
as it found it.
-/

namespace ScriptEngine

/-! ## What runs keep -/

/-- What a part of a program leaves as it found it: the frames in use, the record of what is being run, the depth
of calls and its greatest value. -/
structure Machine.Context where
  scope : Scope
  calls : List CallEntry
  depth : Nat
  maxDepth : Nat

/-- The context of a machine. -/
def Machine.context (m : Machine) : Machine.Context := ⟨m.scope, m.calls, m.depth, m.maxDepth⟩

/-- No function in memory has a loose loop control in its body. -/
def Store.Closed (s : Store) : Prop := ∀ f ∈ s.functions, f.body.closed = true

/-- A plugin leaves memory closed: it puts no function into memory whose body has a loose loop control. -/
def Plugin.KeepsClosed (p : Plugin) : Prop :=
  ∀ (args : List Value) (s : Store), s.Closed → (p.run args s).2.Closed

/-- Every plugin leaves memory closed. -/
def Plugins.KeepClosed (ps : Plugins) : Prop := ∀ p ∈ ps.entries, p.KeepsClosed

/-- No function in memory has a loose loop control in its body, and no plugin puts such a function there. -/
structure Machine.Sound (m : Machine) : Prop where
  functions : m.store.Closed
  plugins : m.host.plugins.KeepClosed

/-- The function at an address has no loose loop control in its body. -/
theorem Store.Closed.function {s : Store} (h : s.Closed) (a : Nat) : (s.function a).body.closed = true := by
  unfold Store.function
  cases ha : s.functions[a]? with
  | none => rfl
  | some f => exact h f (Array.mem_of_getElem? ha)

/-! ## Links -/

/-- What links two runs. -/
structure Link where
  /-- No machine that is met has a greater depth of calls. -/
  limit : Nat
  /-- The greatest depth of calls that all machines met allow. -/
  maxDepth : Nat
  maxDepth_le : maxDepth ≤ limit
  /-- Whether all machines met are sound. -/
  checked : Prop
  /-- The faults in whose place the second run may crash. -/
  escapes : Fault → Prop
  escapes_atLine : ∀ f line, escapes f → escapes (f.atLine line)
  /-- Whether the second run may crash in the place of everything. -/
  lost : Prop
  /-- The crash of the second run. -/
  why : Text
  stop : Machine

/-- A machine as both runs may meet it. -/
structure Link.Meets (L : Link) (m : Machine) : Prop where
  depth : m.depth ≤ L.limit
  maxDepth : m.maxDepth = L.maxDepth
  sound : L.checked → m.Sound

/-- A machine met in a context. -/
structure Link.At (L : Link) (κ : Machine.Context) (m : Machine) : Prop extends L.Meets m where
  context : m.context = κ

/-- A machine beside one that both runs may meet may be met, too. -/
theorem Link.Meets.beside {L : Link} {m m' : Machine} (h : L.Meets m) (b : m.Beside m') : L.Meets m' where
  depth := by rw [b.depth]; exact h.depth
  maxDepth := by rw [b.maxDepth]; exact h.maxDepth
  sound hc := by
    have sound := h.sound hc
    refine ⟨?_, by rw [b.plugins]; exact sound.plugins⟩
    unfold Store.Closed
    rw [b.functions]
    exact sound.functions

/-- A machine beside one met in a context is met in the same context. -/
theorem Link.At.beside {L : Link} {κ : Machine.Context} {m m' : Machine} (h : L.At κ m) (b : m.Beside m') :
    L.At κ m' := by
  refine ⟨h.toMeets.beside b, ?_⟩
  rw [← h.context]
  unfold Machine.context
  rw [b.scope, b.calls, b.depth, b.maxDepth]

/-- A machine met in a context is met there with other memory, too, that has the same functions. -/
theorem Link.At.stored {L : Link} {κ : Machine.Context} {m : Machine} {s : Store} (h : L.At κ m)
    (functions : s.functions = m.store.functions) : L.At κ { m with store := s } := by
  refine ⟨⟨h.depth, h.maxDepth, fun hc => ⟨?_, (h.sound hc).plugins⟩⟩, h.context⟩
  show ∀ f ∈ s.functions, _
  rw [functions]
  exact (h.sound hc).functions

/-- A machine met in a context is met in another scope in the context with that. -/
theorem Link.At.rescoped {L : Link} {κ : Machine.Context} {m : Machine} (h : L.At κ m) (e : Scope) :
    L.At { κ with scope := e } { m with scope := e } := by
  obtain ⟨met, rfl⟩ := h
  exact ⟨⟨met.depth, met.maxDepth, fun hc => ⟨(met.sound hc).functions, (met.sound hc).plugins⟩⟩, rfl⟩

/-- Linked outcomes: the same result, fault or crash, or one in whose place the second run crashed. Results and faults
leave the context as it is, and results are as promised. -/
inductive Outcome.Linked (L : Link) (κ : Machine.Context) {α : Type} (promise : α → Prop) :
    Outcome α → Outcome α → Prop where
  | done {a : α} {m : Machine} (met : L.At κ m) (kept : promise a) : Linked L κ promise (.done a m) (.done a m)
  | failed {f : Fault} {m : Machine} (met : L.At κ m) : Linked L κ promise (.failed f m) (.failed f m)
  | crashed {why : Text} {m : Machine} (met : L.Meets m) : Linked L κ promise (.crashed why m) (.crashed why m)
  | outOfFuel : Linked L κ promise .outOfFuel .outOfFuel
  | escaped {f : Fault} {m : Machine} (met : L.At κ m) (escapes : L.escapes f) :
    Linked L κ promise (.failed f m) (.crashed L.why L.stop)
  | lost {r : Outcome α} (lost : L.lost) : Linked L κ promise r (.crashed L.why L.stop)

/-- Linked crashes are one crash. -/
theorem Outcome.Linked.one_crash {L : Link} {κ : Machine.Context} {α : Type} {promise : α → Prop}
    {why why' : Text} {m m' : Machine} (h : Linked L κ promise (.crashed why m) (.crashed why' m'))
    (hl : ¬ L.lost) : why = why' ∧ L.Meets m := by
  cases h with
  | crashed met => exact ⟨rfl, met⟩
  | lost lost => exact absurd lost hl

/-- The same bounds, with no fault in whose place the second run may crash. -/
def Link.strict (L : Link) : Link := { L with escapes := fun _ => False, escapes_atLine := fun _ _ hf => hf }

/-- Outcomes linked without any escape are linked. -/
theorem Outcome.Linked.of_strict {L : Link} {κ : Machine.Context} {α : Type} {promise : α → Prop}
    {r r' : Outcome α} (h : Outcome.Linked L.strict κ promise r r') : Outcome.Linked L κ promise r r' := by
  have meets {m : Machine} (met : L.strict.Meets m) : L.Meets m := ⟨met.depth, met.maxDepth, met.sound⟩
  cases h with
  | done met kept => exact .done ⟨meets met.toMeets, met.context⟩ kept
  | failed met => exact .failed ⟨meets met.toMeets, met.context⟩
  | crashed met => exact .crashed (meets met)
  | outOfFuel => exact .outOfFuel
  | escaped _ escapes => exact escapes.elim
  | lost lost => exact .lost lost

namespace Exec

variable {α β : Type} {L : Link} {κ : Machine.Context}

/-- Computations that end linked from every machine in a context. -/
def Linked (L : Link) (κ : Machine.Context) (promise : α → Prop) (x y : Exec α) : Prop :=
  ∀ m, L.At κ m → Outcome.Linked L κ promise (x m) (y m)

/-- Linked computations that promise nothing of their results. -/
abbrev Same (L : Link) (κ : Machine.Context) (x y : Exec α) : Prop := Linked L κ (fun _ => True) x y

/-! ## Putting linked computations together -/

/-- A weaker promise is kept too. -/
theorem Linked.mono {promise weaker : α → Prop} {x y : Exec α} (h : Linked L κ promise x y)
    (hw : ∀ a, promise a → weaker a) : Linked L κ weaker x y := by
  intro m hm
  have ends := h m hm
  generalize x m = r, y m = r' at ends ⊢
  cases ends with
  | done met kept => exact .done met (hw _ kept)
  | failed met => exact .failed met
  | crashed met => exact .crashed met
  | outOfFuel => exact .outOfFuel
  | escaped met escapes => exact .escaped met escapes
  | lost lost => exact .lost lost

/-- Linked computations are linked when nothing is promised. -/
theorem Linked.same {promise : α → Prop} {x y : Exec α} (h : Linked L κ promise x y) : Same L κ x y :=
  h.mono fun _ _ => trivial

/-- A result is linked to itself. -/
theorem linked_pure {promise : α → Prop} {a : α} (h : promise a) : Linked L κ promise (pure a) (pure a) :=
  fun _ hm => .done hm h

/-- A result about which nothing is promised is linked to itself. -/
theorem same_pure (a : α) : Same L κ (pure a) (pure a) := linked_pure trivial

/-- A fault is linked to itself. -/
theorem linked_throw {promise : α → Prop} (f : Fault) : Linked L κ promise (throw f) (throw f : Exec α) :=
  fun _ hm => .failed hm

/-- Nothing that comes after a fault matters. -/
theorem linked_throw_bind {promise : β → Prop} (e : Fault) (f g : α → Exec β) :
    Linked L κ promise (throw e >>= f) (throw e >>= g) := fun _ hm => .failed hm

/-- Linked computations are linked one after the other. -/
theorem linked_bind {promise : α → Prop} {promise' : β → Prop} {x y : Exec α} {f g : α → Exec β}
    (hx : Linked L κ promise x y) (hf : ∀ a, promise a → Linked L κ promise' (f a) (g a)) :
    Linked L κ promise' (x >>= f) (y >>= g) := by
  intro m hm
  have first := hx m hm
  show Outcome.Linked L κ promise' (andThen x f m) (andThen y g m)
  unfold andThen
  generalize x m = r, y m = r' at first
  cases first with
  | done met kept => exact hf _ kept _ met
  | failed met => exact .failed met
  | crashed met => exact .crashed met
  | outOfFuel => exact .outOfFuel
  | escaped met escapes => exact .escaped met escapes
  | lost lost => exact .lost lost

/-- After computations that promise nothing, linked ones are linked. -/
theorem linked_same_bind {promise : β → Prop} {x y : Exec α} {f g : α → Exec β} (hx : Same L κ x y)
    (hf : ∀ a, Linked L κ promise (f a) (g a)) : Linked L κ promise (x >>= f) (y >>= g) :=
  linked_bind hx fun a _ => hf a

/-- A look at the machine shows one met in the context. -/
theorem linked_get : Linked L κ (L.At κ) get get := fun _ hm => .done hm hm

/-- A local computation is linked to itself. -/
theorem same_of_local {x : Exec α} (hx : ∀ p, Local p x) : Same L κ x x := by
  intro m hm
  have ends := hx _ m rfl
  generalize x m = r at ends
  cases r with
  | done a m' => exact .done (hm.beside ends) trivial
  | failed f m' => exact .failed (hm.beside ends)
  | crashed why m' => exact .crashed (hm.toMeets.beside ends)
  | outOfFuel => exact .outOfFuel

/-- A computation on memory that leaves functions alone is linked to itself. -/
theorem same_lift {x : StoreM α} (hx : StoreM.Leaves Store.functions x) :
    Same L κ (liftM x : Exec α) (liftM x) := by
  intro m hm
  have kept := hx m.store
  show Outcome.Linked L κ _ (onStore x m) (onStore x m)
  unfold onStore
  obtain ⟨r, s, hr⟩ : ∃ r s, x m.store = (r, s) := ⟨_, _, rfl⟩
  have kept : s.functions = m.store.functions := by
    have same : (x.run.run m.store).2 = s := congrArg Prod.snd hr
    rw [← kept, same]
  dsimp only
  rw [hr]
  cases r with
  | ok a => exact .done (hm.stored kept) trivial
  | error f => exact .failed (hm.stored kept)

/-- Linked computations are linked with linked handlers, when handlers end a fault that escapes in one. -/
theorem linked_tryCatch {promise : α → Prop} {x y : Exec α} {f g : Fault → Exec α}
    (hx : Linked L κ promise x y) (hf : ∀ e, Linked L κ promise (f e) (g e))
    (he : ∀ e m, L.escapes e → L.At κ m → ∃ e' m', f e m = .failed e' m' ∧ L.escapes e' ∧ L.At κ m') :
    Linked L κ promise (tryCatch x f) (tryCatch y g) := by
  intro m hm
  have first := hx m hm
  show Outcome.Linked L κ promise (rescue x f m) (rescue y g m)
  unfold rescue
  generalize x m = r, y m = r' at first
  cases first with
  | done met kept => exact .done met kept
  | failed met => exact hf _ _ met
  | crashed met => exact .crashed met
  | outOfFuel => exact .outOfFuel
  | escaped met escapes =>
    obtain ⟨e', m', ends, escapes', met'⟩ := he _ _ escapes met
    dsimp only
    rw [ends]
    exact .escaped met' escapes'
  | lost lost => exact .lost lost

/-- Linked computations are linked with the lines of their faults set. -/
theorem linked_atLine {promise : α → Prop} {x y : Exec α} (line : Nat) (h : Linked L κ promise x y) :
    Linked L κ promise (atLine line x) (atLine line y) := by
  intro m hm
  have inner := h m hm
  unfold atLine
  generalize x m = r, y m = r' at inner
  cases inner with
  | done met kept => exact .done met kept
  | failed met => exact .failed met
  | crashed met => exact .crashed met
  | outOfFuel => exact .outOfFuel
  | escaped met escapes => exact .escaped met (L.escapes_atLine _ _ escapes)
  | lost lost => exact .lost lost

/-! ## Another context -/

/-- Computations between changes of the machine are linked when they are in the changed context and the second
change undoes the first. -/
theorem linked_within {promise : α → Prop} {x y : Exec α} {before after : Machine → Machine}
    (inner : Machine.Context) (h : Linked L inner promise x y) (hb : ∀ m, L.At κ m → L.At inner (before m))
    (ha : ∀ m, L.At inner m → L.At κ (after m)) :
    Linked L κ promise (within before after x) (within before after y) := by
  intro m hm
  have ends := h _ (hb m hm)
  unfold within
  generalize x (before m) = r, y (before m) = r' at ends
  cases ends with
  | done met kept => exact .done (ha _ met) kept
  | failed met => exact .failed (ha _ met)
  | crashed met => exact .crashed met
  | outOfFuel => exact .outOfFuel
  | escaped met escapes => exact .escaped (ha _ met) escapes
  | lost lost => exact .lost lost

/-- Linked computations are linked in another scope. -/
theorem linked_inScope {promise : α → Prop} {x y : Exec α} (scope : Scope)
    (h : Linked L { κ with scope := scope } promise x y) :
    Linked L κ promise (inScope scope x) (inScope scope y) := by
  intro m hm
  obtain rfl := hm.context
  exact linked_within _ h (fun m' hm' => hm'.rescoped scope) (fun m' hm' => hm'.rescoped m.scope) m hm

/-- Linked computations are linked in a frame that is opened for them: they leave it on top, and it is popped. -/
theorem linked_opened {promise : α → Prop} {x y : Scope → Exec α} {outer : Machine → Option Nat}
    (h : ∀ scope, Linked L { κ with scope := scope } promise (x scope) (y scope)) :
    Linked L κ promise
      (get >>= fun m => (liftM (StoreM.pushFrom m.scope (outer m)) : Exec Scope) >>= fun e => popping e (x e))
      (get >>= fun m => (liftM (StoreM.pushFrom m.scope (outer m)) : Exec Scope) >>= fun e => popping e (y e)) := by
  intro m hm
  obtain rfl := hm.context
  have back (k : Machine) (hk : L.At { m.context with scope := m.scope.add m.store.frames.size } k) :
      L.At m.context k.popped := by
    rw [Machine.popped_of_add (congrArg Machine.Context.scope hk.context)]
    exact hk.rescoped m.scope
  have opened : L.At m.context { m with store := { m.store with frames := m.store.frames.push ⟨[], outer m⟩ } } := hm.stored rfl
  rw [run_get_bind, run_get_bind]
  exact linked_within _ (h _) (fun k hk => hk.rescoped _) back _ opened

/-- Linked computations are linked in a frame of their own. -/
theorem linked_inFrame {promise : α → Prop} {x y : Exec α}
    (h : ∀ scope, Linked L { κ with scope := scope } promise x y) :
    Linked L κ promise (inFrame x) (inFrame y) := linked_opened h

/-- Linked computations leave no frame that would have to be dropped behind a fault. -/
theorem linked_unwinding {promise : α → Prop} {x y : Exec α} (h : Linked L κ promise x y) :
    Linked L κ promise (unwinding x) (unwinding y) := by
  intro m hm
  have ends := h m hm
  obtain rfl := hm.context
  have kept (k : Machine) (hk : L.At m.context k) : L.At m.context { k with scope := k.scope.unwind m.scope.length } := by
    have same : k.scope = m.scope := congrArg Machine.Context.scope hk.context
    rw [same, Scope.unwind_length]
    exact hk.rescoped m.scope
  unfold unwinding
  dsimp only
  generalize x m = r, y m = r' at ends
  cases ends with
  | done met promised => exact .done met promised
  | failed met => exact .failed (kept _ met)
  | crashed met => exact .crashed met
  | outOfFuel => exact .outOfFuel
  | escaped met escapes => exact .escaped (kept _ met) escapes
  | lost lost => exact .lost lost

/-- Linked computations are linked with an entry on the record of what is being run. -/
theorem linked_recorded {promise : α → Prop} {x y : Exec α} (kind name : Text) (line : Nat)
    (h : ∀ calls, Linked L { κ with calls := calls } promise x y) :
    Linked L κ promise (recorded kind name line x) (recorded kind name line y) := by
  refine linked_within { κ with calls := ⟨kind, name, line⟩ :: κ.calls } (h _) (fun m hm => ?_) fun m hm => ?_
  · obtain ⟨met, context⟩ := hm
    subst context
    exact ⟨⟨met.depth, met.maxDepth, fun hc => ⟨(met.sound hc).functions, (met.sound hc).plugins⟩⟩, rfl⟩
  · obtain ⟨met, context⟩ := hm
    refine ⟨⟨met.depth, met.maxDepth, fun hc => ⟨(met.sound hc).functions, (met.sound hc).plugins⟩⟩, ?_⟩
    exact congrArg (fun c : Machine.Context => { c with calls := c.calls.drop 1 }) context

/-- Linked computations are linked one call deeper, when that is not deeper than the limit. -/
theorem linked_deeper {promise : α → Prop} {x y : Exec α} (room : κ.depth < L.limit)
    (h : Linked L { κ with depth := κ.depth + 1 } promise x y) :
    Linked L κ promise
      (within (fun m => { m with depth := m.depth + 1 }) (fun m => { m with depth := m.depth - 1 }) x)
      (within (fun m => { m with depth := m.depth + 1 }) (fun m => { m with depth := m.depth - 1 }) y) := by
  refine linked_within _ h (fun m hm => ?_) fun m hm => ?_
  · obtain ⟨met, context⟩ := hm
    subst context
    exact ⟨⟨room, met.maxDepth, fun hc => ⟨(met.sound hc).functions, (met.sound hc).plugins⟩⟩, rfl⟩
  · obtain ⟨met, context⟩ := hm
    refine ⟨⟨Nat.le_trans (Nat.sub_le _ _) met.depth, met.maxDepth,
      fun hc => ⟨(met.sound hc).functions, (met.sound hc).plugins⟩⟩, ?_⟩
    exact congrArg (fun c : Machine.Context => { c with depth := c.depth - 1 }) context

end Exec

end ScriptEngine
