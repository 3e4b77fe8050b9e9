import Mathlib.Logic.Relation
import ScriptEngine.Proofs.Definitions
import ScriptEngine.Proofs.MachineLives
/-!
# All frames lie in the global frame

The frames of a machine form a tree. Each one but the global frame lies in one that was opened before it, so the way
outward from any frame ends in the global frame: from the frames in use, and from those that functions were declared in. A
name that is in sight nowhere can therefore be given to the global frame, and is then in sight from everywhere.
-/

namespace ScriptEngine

/-! ## Frames -/

/-- A frame lies in another: the way outward from it passes the other. -/
def Store.LiesIn (s : Store) : Nat → Nat → Prop := Relation.ReflTransGen fun a b => (s.frame a).outer = some b

/-- For each frame the names of its variables. -/
def Store.variables (s : Store) : Array (List Text) := s.frames.map fun f => f.bindings.map Prod.fst

/-- Plugins leave functions alone, and how frames lie in each other. -/
def Plugins.LeaveFrames (ps : Plugins) : Prop :=
  ∀ p ∈ ps.entries, ∀ (args : List Value) (s : Store), (p.run args s).2.lexical = s.lexical

/-- All frames lie in the global frame: those in use, and those that functions were declared in. -/
structure Machine.Rooted (m : Machine) : Prop where
  outward : ∀ a, 0 < a → a < m.store.frames.size → ∃ b < a, (m.store.frame a).outer = some b
  root : (m.store.frame 0).outer = none
  captured : ∀ f ∈ m.store.functions, f.frame < m.store.frames.size
  inside : ∀ a ∈ m.scope.frames, a < m.store.frames.size
  bottom : m.scope.global = 0

namespace Store

variable {s t : Store}

theorem outer_eq (s : Store) (a : Nat) : (s.frame a).outer = s.lexical.2[a]?.join := by
  rw [frame, lexical, Array.getElem?_map]
  cases s.frames[a]? <;> rfl

theorem size_of_lexical (h : t.lexical = s.lexical) : t.frames.size = s.frames.size := by
  have same := congrArg (fun l => l.2.size) h
  rwa [lexical, lexical, Array.size_map, Array.size_map] at same

theorem outer_of_lexical (h : t.lexical = s.lexical) (a : Nat) : (t.frame a).outer = (s.frame a).outer := by
  rw [outer_eq, outer_eq, h]

end Store

namespace Machine

variable {m k : Machine} {a outer : Nat}

theorem opened_frame (m : Machine) (outer a : Nat) :
    (m.opened outer).store.frame a = if a = m.store.frames.size then ⟨[], some outer⟩ else m.store.frame a := by
  rw [opened, Store.frame, Array.getElem?_push]
  split <;> rfl

theorem opened_size (m : Machine) (outer : Nat) : (m.opened outer).store.frames.size = m.store.frames.size + 1 :=
  Array.size_push _

namespace Rooted

/-! ## Moves -/

/-- A machine that has run nothing has the global frame alone. -/
theorem initial (host : Host) (maxDepth : Nat) (importDir : Text) : (Machine.initial host maxDepth importDir).Rooted where
  outward a pos less := absurd less (Nat.not_lt.mpr pos)
  root := rfl
  captured f hf := absurd hf (Array.not_mem_empty f)
  inside a ha := by
    cases List.mem_singleton.mp ha
    exact Nat.one_pos
  bottom := rfl

theorem top_inside (h : m.Rooted) : m.scope.top < m.store.frames.size := h.inside _ m.scope.top_mem

theorem global_inside (h : m.Rooted) : 0 < m.store.frames.size := h.inside 0 (h.bottom ▸ m.scope.global_mem)

theorem frame_inside (h : m.Rooted) (a : Nat) : (m.store.function a).frame < m.store.frames.size := by
  rw [Store.function]
  cases ha : m.store.functions[a]? with
  | none => exact h.global_inside
  | some f => exact h.captured f (Array.mem_of_getElem? ha)

/-- A frame that a machine can open a frame inside is there. -/
theorem known_inside (h : m.Rooted) (known : m.Knows outer) : outer < m.store.frames.size := by
  obtain rfl | ⟨a, rfl⟩ := known
  · exact h.top_inside
  · exact h.frame_inside a

theorem of_lexical (h : m.Rooted) (lexical : k.store.lexical = m.store.lexical) (scope : k.scope = m.scope) :
    k.Rooted := by
  have size := Store.size_of_lexical lexical
  refine ⟨fun a pos less => ?_, ?_, fun f hf => ?_, fun a ha => ?_, ?_⟩
  · rw [Store.outer_of_lexical lexical]
    exact h.outward a pos (size ▸ less)
  · rw [Store.outer_of_lexical lexical, h.root]
  · have functions : k.store.functions = m.store.functions := congrArg Prod.fst lexical
    rw [size]
    exact h.captured f (functions ▸ hf)
  · rw [size]
    exact h.inside a (scope ▸ ha)
  · rw [scope, h.bottom]

/-- A new frame lies in the one that it was opened inside. -/
theorem opened (h : m.Rooted) (there : outer < m.store.frames.size) : (m.opened outer).Rooted where
  outward a pos less := by
    rw [opened_size] at less
    rw [opened_frame]
    split
    · exact ⟨outer, by omega, rfl⟩
    · exact h.outward a pos (by omega)
  root := by
    rw [opened_frame, if_neg (Nat.ne_of_lt h.global_inside), h.root]
  captured f hf := by
    rw [opened_size]
    exact Nat.lt_succ_of_lt (h.captured f hf)
  inside a ha := by
    rw [opened_size]
    obtain rfl | ha := List.mem_cons.mp ha
    · exact Nat.lt_succ_self _
    · exact Nat.lt_succ_of_lt (h.inside a ha)
  bottom := h.bottom

/-- A function is declared in a frame that is there. -/
theorem declared (h : m.Rooted) {f : FunctionData} (there : f.frame < m.store.frames.size) :
    { m with store := { m.store with functions := m.store.functions.push f } : Machine }.Rooted :=
  { h with
    captured := fun g hg => by
      obtain hg | rfl := Array.mem_push.mp hg
      · exact h.captured g hg
      · exact there }

/-- The frames of an earlier machine are in use again. -/
theorem back (h : m.Rooted) (h' : k.Rooted) (later : m.store.frames.size ≤ k.store.frames.size) :
    { k with scope := m.scope : Machine }.Rooted :=
  { h' with
    inside := fun a ha => Nat.lt_of_lt_of_le (h.inside a ha) later
    bottom := h.bottom }

theorem detached (h : m.Rooted) : { m with scope := m.scope.detach : Machine }.Rooted :=
  { h with
    inside := fun a ha => by
      rw [List.mem_singleton.mp ha]
      exact h.inside _ m.scope.global_mem
    bottom := h.bottom }

end Rooted

/-- Moves keep all frames in the global frame, and take no frame away. -/
theorem Leads.rooted {files : List Text} (h : m.Leads files k) (plugins : m.host.plugins.LeaveFrames) :
    m.Rooted → k.Rooted ∧ m.store.frames.size ≤ k.store.frames.size := by
  induction h with
  | beside h => exact fun rooted => ⟨rooted.of_lexical h.lexical h.scope, Nat.le_of_eq (Store.size_of_lexical h.lexical).symm⟩
  | recorded m calls depth => exact fun rooted => ⟨rooted.of_lexical rfl rfl, Nat.le_refl _⟩
  | owned m owners => exact fun rooted => ⟨rooted.of_lexical rfl rfl, Nat.le_refl _⟩
  | declared top => exact fun rooted => ⟨rooted.declared (top ▸ rooted.top_inside), Nat.le_refl _⟩
  | @plugged m p hp args =>
    have left := plugins p hp args m.store
    exact fun rooted => ⟨rooted.of_lexical left rfl, Nat.le_of_eq (Store.size_of_lexical left).symm⟩
  | @opened m k files outer h known ih =>
    intro rooted
    -- what was known before the moves is still there behind them, as no frame is taken away
    obtain ⟨rooted', later⟩ := ih plugins rooted
    refine ⟨rooted'.opened (Nat.lt_of_lt_of_le (rooted.known_inside known) later), ?_⟩
    rw [opened_size]
    exact Nat.le_succ_of_le later
  | detached m => exact fun rooted => ⟨rooted.detached, Nat.le_refl _⟩
  | back h ih => exact fun rooted => ⟨rooted.back (ih plugins rooted).1 (ih plugins rooted).2, (ih plugins rooted).2⟩
  | imports fresh read => exact fun rooted => ⟨rooted.of_lexical rfl rfl, Nat.le_refl _⟩
  | trans h h' ih ih' =>
    intro rooted
    have first := ih plugins rooted
    have second := ih' (h.plugins ▸ plugins) first.1
    exact ⟨second.1, Nat.le_trans first.2 second.2⟩

theorem Precedes.rooted (h : m.Precedes k) (plugins : m.host.plugins.LeaveFrames) (rooted : m.Rooted) : k.Rooted :=
  have ⟨_, leads⟩ := h
  (leads.rooted plugins rooted).1

/-- Every frame lies in the global frame. -/
theorem Rooted.liesIn (h : m.Rooted) (there : a < m.store.frames.size) : m.store.LiesIn a 0 := by
  -- the way outward goes to frames that were opened earlier, and so ends at the first
  induction a using Nat.strongRecOn with
  | _ a ih =>
    obtain rfl | pos := Nat.eq_zero_or_pos a
    · exact .refl
    · obtain ⟨b, less, outer⟩ := h.outward a pos there
      exact .head outer (ih b less (Nat.lt_trans less there))

end Machine

/-! ## Names in sight nowhere -/

namespace Store

variable {s : Store} {name : Text} {a : Nat} {b : Binding}

/-- With a variable made in the global frame, its name is seen from every frame from which it was not seen before, and
other frames see what they saw. -/
theorem lookupTo_withBindings_global {fuel : Nat}
    (outward : ∀ a, 0 < a → a < s.frames.size → ∃ o < a, (s.frame a).outer = some o) (root : (s.frame 0).outer = none)
    (fresh : (s.frame 0).bindings.lookup name = none) (there : a < s.frames.size) (enough : a < fuel) :
    (s.withBindings 0 (setBinding name b)).lookupTo name fuel a = (s.lookupTo name fuel a).or (some (0, b)) := by
  induction fuel generalizing a with
  | zero => omega
  | succ fuel ih =>
    simp only [lookupTo, outer_withBindings]
    obtain rfl | pos := Nat.eq_zero_or_pos a
    · rw [bindings_withBindings_self there, lookup_setBinding, if_pos rfl, fresh, root]
      rfl
    · obtain ⟨o, less, outer⟩ := outward a pos there
      rw [bindings_withBindings_ne (Nat.ne_of_lt pos), outer]
      cases (s.frame a).bindings.lookup name with
      | some b => rfl
      | none => exact ih (Nat.lt_trans less there) (by omega)

theorem lookup_withBindings_global {m : Machine} (rooted : m.Rooted) (missing : m.store.lookup? m.scope name = none)
    (there : a < m.store.frames.size) :
    (m.store.withBindings 0 (setBinding name b)).lookup? ⟨[], a⟩ name = (m.store.lookup? ⟨[], a⟩ name).or (some (0, b)) := by
  have fresh := global_of_lookupTo rooted.outward rooted.top_inside (Nat.lt_succ_of_lt rooted.top_inside) missing
  rw [lookup?, size_withBindings]
  exact lookupTo_withBindings_global rooted.outward rooted.root fresh there (Nat.lt_succ_of_lt there)

end Store

/-- A name in sight nowhere is given a new variable in the global frame. -/
theorem Eval.assignName_missing {m : Machine} {name : Text} (rooted : m.Rooted)
    (missing : m.store.lookup? m.scope name = none) (v : Value) :
    Eval.assignName name v m =
      .done v { m with store := m.store.withBindings 0 (setBinding name ⟨v, false, none, none⟩) } := by
  have fresh := Store.global_of_lookupTo rooted.outward rooted.top_inside (Nat.lt_succ_of_lt rooted.top_inside) missing
  unfold assignName
  rw [Exec.run_get_bind, missing, if_pos (by rfl), StoreM.defineGlobal, rooted.bottom]
  -- no other frame is looked at, and the global one has no variable of the name
  refine congrArg (fun frames => Outcome.done v { m with store := { m.store with frames := frames } })
    (Array.ext_getElem? fun a => ?_)
  rw [Array.getElem?_modify, Array.getElem?_modify]
  split
  · rename_i zero
    subst zero
    rw [Store.frame] at fresh
    cases root : m.store.frames[0]? with
    | none => rfl
    | some f =>
      rw [root] at fresh
      simp only [Option.map_some, Option.getD_some] at fresh ⊢
      rw [fresh]
  · rfl

/-! ## Names in sight -/

/-- A binding that is replaced keeps its name. -/
theorem names_setBinding {name : Text} {bs : List (Text × Binding)} {old : Binding} (b : Binding)
    (bound : bs.lookup name = some old) : (setBinding name b bs).map Prod.fst = bs.map Prod.fst := by
  induction bs with
  | nil => cases bound
  | cons head rest ih =>
    obtain ⟨n, c⟩ := head
    rw [setBinding]
    split
    · rename_i same
      rw [same]
      rfl
    · rename_i ne
      rw [List.lookup_cons, beq_false_of_ne (Ne.symm ne)] at bound
      exact congrArg (n :: ·) (ih bound)

namespace StoreM

variable {α β γ : Type} {s : Store} {e : Scope} {a : Nat} {b : Binding} {name : Text}

/-- What follows a computation that leaves functions and frames alone may look at them as they were before. -/
theorem view_bind {view : Store → γ} {x : StoreM α} {f : α → StoreM β} (hx : Leaves Store.code x)
    (code : ∀ t, t.code = s.code → view t = view s)
    (hf : ∀ a t, t.code = s.code → view ((f a).run.run t).2 = view s) : view ((x >>= f).run.run s).2 = view s := by
  have left := hx s
  show view ((ExceptT.run (x >>= f)).run s).2 = view s
  rw [ExceptT.run_bind, StateT.run_bind]
  obtain ⟨r, t, hr⟩ : ∃ r t, StateT.run (ExceptT.run x) s = (r, t) := ⟨_, _, rfl⟩
  rw [hr] at left ⊢
  cases r with
  | ok a => exact hf a t left
  | error e => exact code t left

theorem variables_of_code {t : Store} (h : t.code = s.code) : t.variables = s.variables :=
  congrArg (fun c => c.2.map fun f => f.bindings.map Prod.fst) h

/-- Giving a variable another value makes no variable. -/
theorem variables_modifyFrame (b' : Binding) (bound : (s.frame a).bindings.lookup name = some b) :
    ((modifyFrame a (setBinding name b')).run.run s).2.variables = s.variables := by
  change (s.withBindings a (setBinding name b')).variables = s.variables
  refine Array.ext_getElem? fun c => ?_
  rw [Store.variables, Store.variables, Array.getElem?_map, Array.getElem?_map, Store.withBindings,
    Array.getElem?_modify]
  split
  · rename_i here
    subst here
    rw [Store.frame] at bound
    cases found : s.frames[a]? with
    | none => rfl
    | some f =>
      rw [found] at bound
      exact congrArg some (names_setBinding b' bound)
  · rfl

/-- An assignment to a variable makes none, however it ends. -/
theorem variables_assign (found : s.lookup? e name = some (a, b)) (v : Value) :
    ((assign e name v).run.run s).2.variables = s.variables := by
  cases constant : b.constant with
  | true => rw [run_assign_constant found constant]
  | false =>
    rw [run_assign found constant]
    refine view_bind (code_refit name _ b v) (fun _ => variables_of_code) fun w t code => ?_
    have frames : t.frames = s.frames := congrArg Prod.snd code
    have frame : t.frame a = s.frame a := by rw [Store.frame, Store.frame, frames]
    rw [variables_modifyFrame _ (frame ▸ Store.lookup_of_lookupTo found), variables_of_code code]

end StoreM

/-- A computation on memory ends in a machine with the memory that it leaves. -/
theorem Exec.store_of_lift {α : Type} {x : StoreM α} {m k : Machine} (ends : ((liftM x : Exec α) m).EndsAt k) :
    k.store = (x.run.run m.store).2 := by
  change (Exec.onStore x m).EndsAt k at ends
  change k.store = (x m.store).2
  unfold Exec.onStore at ends
  dsimp only at ends
  generalize x m.store = r at ends ⊢
  obtain ⟨r, t⟩ := r
  cases r with
  | _ => exact congrArg Machine.store ends.symm

/-- An assignment to a name in sight makes no variable, however it ends. -/
theorem Eval.variables_assignName {m k : Machine} {name : Text} (seen : (m.store.lookup? m.scope name).isSome) (v : Value)
    (ends : (Eval.assignName name v m).EndsAt k) : k.store.variables = m.store.variables := by
  obtain ⟨⟨a, b⟩, found⟩ := Option.isSome_iff_exists.mp seen
  have assigned := fun l => Exec.store_of_lift (x := StoreM.assign m.scope name v) (m := m) (k := l)
  unfold assignName at ends
  rw [Exec.run_get_bind, found, if_neg (by simp)] at ends
  change (Exec.andThen (liftM (StoreM.assign m.scope name v)) _ m).EndsAt k at ends
  unfold Exec.andThen at ends
  generalize (liftM (StoreM.assign m.scope name v) : Exec Unit) m = r at assigned ends
  cases r with
  | done u l =>
    have read : k.store.variables = l.store.variables :=
      (congrArg Store.variables (Exec.store_of_lift ends)).trans (leaves_valueOf m.scope name l.store)
    rw [read, assigned l rfl, StoreM.variables_assign found v]
  | failed f l => rw [assigned k ends, StoreM.variables_assign found v]
  | crashed why l => rw [assigned k ends, StoreM.variables_assign found v]
  | outOfFuel => exact ends.elim

/-! ## Assignments -/

namespace Machine

open Eval

/-- In the life of a machine, the frames in use and those that functions were declared in lie in the global frame, and
that lies in no other. An assignment to a name in sight nowhere makes a variable in the global frame and changes nothing
else; every frame from which no variable of the name was seen sees this one then, and the others see what they saw. An
assignment to a name in sight makes no variable in any frame, however it ends. -/
theorem Lives.assigns_by_sight {host : Host} {maxDepth : Nat} {importDir : Text} {m : Machine}
    (lives : (Machine.initial host maxDepth importDir).Lives m) (plugins : host.plugins.LeaveFrames) :
    (∀ a ∈ m.scope.frames, m.store.LiesIn a m.scope.global) ∧
    (∀ f ∈ m.store.functions, m.store.LiesIn f.frame m.scope.global) ∧
    m.scope.global = 0 ∧ (m.store.frame 0).outer = none ∧
    ∀ (n : Nat) (mark place : Mark) (name : Text) (e : Expr) (v : Value) (k : Machine), run n (.expr e) m = .done v k →
      (k.store.lookup? k.scope name = none → ∃ s,
        run (n + 1) (.expr (.assign mark .set (.name place name) e)) m = .done v { k with store := s } ∧
        s = k.store.withBindings 0 (setBinding name ⟨v, false, none, none⟩) ∧
        ∀ a < k.store.frames.size,
          s.lookup? ⟨[], a⟩ name = (k.store.lookup? ⟨[], a⟩ name).or (some (0, ⟨v, false, none, none⟩))) ∧
      ((k.store.lookup? k.scope name).isSome → ∀ l,
        (run (n + 1) (.expr (.assign mark .set (.name place name) e)) m).EndsAt l →
          l.store.variables = k.store.variables) := by
  have led := lives.precedes
  have rooted : m.Rooted := led.rooted plugins (.initial host maxDepth importDir)
  rw [rooted.bottom]
  refine ⟨fun a ha => rooted.liesIn (rooted.inside a ha), fun f hf => rooted.liesIn (rooted.captured f hf), rfl,
    rooted.root, fun n mark place name e v k evaluated => ?_⟩
  have later : m.Precedes k := (run_moves n (.expr e) m).precedes (k := k) (evaluated ▸ rfl)
  have rooted : k.Rooted := (led.trans later).rooted plugins (.initial host maxDepth importDir)
  have assigned : run (n + 1) (.expr (.assign mark .set (.name place name) e)) m = assignName name v k :=
    Exec.bind_of_done evaluated
  rw [assigned]
  exact ⟨fun missing => ⟨_, assignName_missing rooted missing v, rfl, fun a there =>
    Store.lookup_withBindings_global rooted missing there⟩, fun seen l ends => variables_assignName seen v ends⟩

/-- A new machine on which a function was declared in a block. -/
def declaredInBlock : Machine :=
  ((Machine.initial (Host.initial default default) 10 "").runSource 5 "{ function f() { return y; } }" "").2

/-- A function that was declared in a block sees a variable that is made once the block is left. -/
theorem assigns_by_sight_closure :
    (Machine.initial (Host.initial default default) 10 "").Lives declaredInBlock ∧
      declaredInBlock.store.LiesIn (declaredInBlock.store.function 0).frame declaredInBlock.scope.global ∧
      (declaredInBlock.store.function 0).frame = 1 ∧ declaredInBlock.scope.top = 0 ∧ ∃ s,
        run 2 (.expr (.assign default .set (.name default "y") (.int default 7))) declaredInBlock =
          .done (.int 7) { declaredInBlock with store := s } ∧
        s.lookup? ⟨[], 1⟩ "y" = some (0, ⟨.int 7, false, none, none⟩) := by
  have lives : (Machine.initial (Host.initial default default) 10 "").Lives declaredInBlock := Lives.start.source 5 _ ""
  obtain ⟨-, captured, -, -, assigns⟩ := lives.assigns_by_sight fun _ mem => absurd mem List.not_mem_nil
  obtain ⟨declared, opened, missing, unseen, frame, top⟩ : 0 < declaredInBlock.store.functions.size ∧
      1 < declaredInBlock.store.frames.size ∧
      (declaredInBlock.store.lookup? declaredInBlock.scope "y").isNone = true ∧
      (declaredInBlock.store.lookup? ⟨[], 1⟩ "y").isNone = true ∧ (declaredInBlock.store.function 0).frame = 1 ∧
      declaredInBlock.scope.top = 0 := by decide +kernel
  obtain ⟨s, ran, -, seen⟩ := (assigns 1 default default "y" (.int default 7) (.int 7) _ rfl).1
    (Option.isNone_iff_eq_none.mp missing)
  refine ⟨lives, captured _ ?_, frame, top, s, ran, ?_⟩
  · rw [Store.function, Array.getElem?_eq_getElem declared]
    exact Array.getElem_mem declared
  · rw [seen 1 opened, Option.isNone_iff_eq_none.mp unseen]
    rfl

end Machine

end ScriptEngine
