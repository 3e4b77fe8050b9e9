import ScriptEngine.Proofs.LoopSnapshots
import ScriptEngine.Proofs.Performed
/-!
# Where a part is asked for

A computation that asks for a part of a program asks for it in one of the computations that it is put together from. Of two computations
it is the first, or the second when the first has ended with a result; of a computation with a handler it is the computation, or the
handler when there is a fault; of repeated rounds it is one of the rounds.

This holds of computations for which every part decides: they ask for it, or a crash of it makes no difference to them.
-/

namespace ScriptEngine

theorem Outcome.behind_behind {α : Type} (r : Outcome α) (first second : Machine → Machine) :
    (r.behind first).behind second = r.behind fun k => second (first k) := by
  cases r <;> rfl

namespace Eval

open Exec

variable {α β : Type} {rec : Runner} {m k : Machine} {u : Task} {s t : Stmt}

/-- A crash of a part makes no difference to a computation. -/
def Unmoved (F : Runner → Exec α) (rec : Runner) (m : Machine) (u : Task) (k : Machine) : Prop :=
  ∀ why, F (rec.crashingAt u k why) m = F rec m

/-- From every machine, a computation asks for a part, or a crash of it makes no difference. -/
def Decides (F : Runner → Exec α) (rec : Runner) (u : Task) (k : Machine) : Prop :=
  ∀ m, Asks F rec m u k ∨ Unmoved F rec m u k

/-- A computation that runs no part of a program but expressions. -/
def OnlyExprs (F : Runner → Exec α) : Prop :=
  ∀ rec rec' : Runner, (∀ e, rec (.expr e) = rec' (.expr e)) → F rec = F rec'

/-- No outcome is a crash for every reason. -/
theorem not_every_crash (r : Outcome α) : ¬ ∀ why, r = .crashed why k := by
  intro every
  have first := every ""
  have second := every "x"
  rw [first, Outcome.crashed.injEq] at second
  exact absurd second.1 (by decide)

/-- A computation that ends the same whatever the reason of the crash does not ask. -/
theorem not_asks_of_unmoved {F : Runner → Exec α} (h : Unmoved F rec m u k) : ¬ Asks F rec m u k := by
  intro asked
  apply not_every_crash (F rec m)
  intro why
  rw [← h why]
  exact asked why

/-! ## Parts, and computations that run none -/

/-- Running a part asks for that part only. -/
theorem asks_part {t : Task} (asked : Asks (fun rec => rec t) rec m u k) : t = u ∧ m = k := by
  refine Classical.byContradiction fun other => ?_
  apply not_asks_of_unmoved _ asked
  intro why
  exact crashingAt_other rec why other

theorem decides_part (t : Task) : Decides (fun rec => rec t) rec u k := by
  intro m
  by_cases same : t = u ∧ m = k
  · obtain ⟨rfl, rfl⟩ := same
    exact .inl fun why => crashingAt_self rec t m why
  · exact .inr fun why => crashingAt_other rec why same

/-- What a statement leaves behind. -/
def perform (rec : Runner) (s : Stmt) : Exec Flow := rec (.stmt s)

theorem asks_perform (asked : Asks (fun rec => perform rec s) rec m (.stmt t) k) : s = t ∧ m = k := by
  obtain ⟨same, rfl⟩ := asks_part asked
  cases same
  exact ⟨rfl, rfl⟩

theorem decides_perform (s : Stmt) : Decides (fun rec => perform rec s) rec u k := decides_part (.stmt s)

theorem onlyExprs_const (x : Exec α) : OnlyExprs fun _ => x := fun _ _ _ => rfl

theorem OnlyExprs.unmoved {F : Runner → Exec α} (h : OnlyExprs F) : Unmoved F rec m (.stmt s) k := by
  intro why
  refine congrFun (h _ _ ?_) m
  intro e
  funext l
  apply crashingAt_other
  rintro ⟨⟨⟩, -⟩

theorem OnlyExprs.not_asks {F : Runner → Exec α} (h : OnlyExprs F) : ¬ Asks F rec m (.stmt s) k := not_asks_of_unmoved h.unmoved

theorem OnlyExprs.decides {F : Runner → Exec α} (h : OnlyExprs F) : Decides F rec (.stmt s) k := fun _ => .inr h.unmoved

theorem onlyExprs_bind {x : Runner → Exec α} {f : Runner → α → Exec β} (hx : OnlyExprs x) (hf : ∀ a, OnlyExprs fun rec => f rec a) :
    OnlyExprs fun rec => x rec >>= f rec := by
  intro rec rec' same
  have after : f rec = f rec' := funext fun a => hf a rec rec' same
  show x rec >>= f rec = x rec' >>= f rec'
  rw [hx rec rec' same, after]

theorem OnlyExprs.atLine {F : Runner → Exec α} (h : OnlyExprs F) (line : Nat) : OnlyExprs fun rec => atLine line (F rec) :=
  fun rec rec' same => congrArg (Exec.atLine line) (h rec rec' same)

theorem onlyExprs_evaluate (e : Expr) : OnlyExprs fun rec => evaluate rec e := fun _ _ same => same e

/-- The truth value of a condition is found by running an expression. -/
theorem onlyExprs_condition (e : Expr) : OnlyExprs fun rec => condition rec e :=
  onlyExprs_bind (onlyExprs_evaluate e) fun v => by cases v <;> exact onlyExprs_const _

/-! ## Computations around one -/

section Around

variable {F : Runner → Exec β} {x : Runner → Exec α} {ending : Outcome α → Outcome β} {l : Machine}

theorem decides_around (same : ∀ rec, F rec m = ending (x rec l)) (passes : ∀ r why, ending r = .crashed why k ↔ r = .crashed why k)
    (decided : Asks x rec l u k ∨ Unmoved x rec l u k) : Asks F rec m u k ∨ Unmoved F rec m u k := by
  refine decided.imp (asks_around same passes).mpr fun unmoved why => ?_
  rw [same, same, unmoved why]

end Around

variable {x : Runner → Exec α}

theorem decides_inFrame (decided : Decides x rec u k) : Decides (fun rec => inFrame (x rec)) rec u k := fun m =>
  decides_around (fun rec => inFrame_eq (x rec) m) (fun r _ => behind_crashed r) (decided (m.opened m.scope.top))

theorem decides_unwinding (decided : Decides x rec u k) : Decides (fun rec => unwinding (x rec)) rec u k := fun m =>
  decides_around (fun rec => unwinding_eq (x rec) m) (fun r _ => unwound_crashed r) (decided m)

theorem decides_atLine (line : Nat) (decided : Decides x rec u k) : Decides (fun rec => atLine line (x rec)) rec u k := fun m =>
  decides_around (fun rec => atLine_eq line (x rec) m) (fun r _ => atLine_crashed r) (decided m)

/-! ## One computation after another -/

/-- The first of two computations asks for a part, or it ends with a result and the second one asks. -/
theorem asks_bind {f : Runner → α → Exec β} (decided : Decides x rec u k) (asked : Asks (fun rec => x rec >>= f rec) rec m u k) :
    Asks x rec m u k ∨ ∃ a l, x rec m = .done a l ∧ Asks (fun rec => f rec a) rec l u k := by
  rcases decided m with first | unmoved
  · exact .inl first
  right
  have after (why : Text) : andThen (x (rec.crashingAt u k why)) (f (rec.crashingAt u k why)) m = .crashed why k := asked why
  unfold andThen at after
  simp only [unmoved _] at after
  -- unless the first one ends with a result, all that there is of the second one is the crash, whose reason nothing knows
  cases ran : x rec m with
  | done a l => exact ⟨a, l, rfl, fun why => by have crash := after why; rwa [ran] at crash⟩
  | _ => exact absurd (fun why => by have crash := after why; rwa [ran] at crash) (not_every_crash _)

/-- A statement is asked for behind what runs only expressions. -/
theorem asks_then {f : Runner → α → Exec β} (only : OnlyExprs x) (asked : Asks (fun rec => x rec >>= f rec) rec m (.stmt s) k) :
    ∃ a l, x rec m = .done a l ∧ Asks (fun rec => f rec a) rec l (.stmt s) k := by
  rcases asks_bind only.decides asked with first | second
  · exact absurd first only.not_asks
  · exact second

theorem decides_bind {f : Runner → α → Exec β} (decided : Decides x rec u k) (later : ∀ a, Decides (fun rec => f rec a) rec u k) :
    Decides (fun rec => x rec >>= f rec) rec u k := by
  intro m
  rcases decided m with asked | unmoved
  · exact .inl (asks_first asked)
  cases ran : x rec m with
  | done a l =>
    have goes (rec' : Runner) (same : x rec' m = x rec m) : (x rec' >>= f rec') m = f rec' a l := bind_of_done (same.trans ran)
    rcases later a l with asked | same
    · left
      intro why
      exact (goes _ (unmoved why)).trans (asked why)
    · right
      intro why
      exact (goes _ (unmoved why)).trans ((same why).trans (goes rec rfl).symm)
  | _ =>
    right
    intro why
    show andThen _ _ m = andThen _ _ m
    rw [andThen, andThen, unmoved why, ran]

/-- A computation asks for a part, or it ends in a fault and its handler asks. -/
theorem asks_tryCatch {handler : Runner → Fault → Exec α} (decided : Decides x rec u k)
    (asked : Asks (fun rec => tryCatch (x rec) (handler rec)) rec m u k) :
    Asks x rec m u k ∨ ∃ e l, x rec m = .failed e l ∧ Asks (fun rec => handler rec e) rec l u k := by
  rcases decided m with first | unmoved
  · exact .inl first
  right
  have after (why : Text) : rescue (x (rec.crashingAt u k why)) (handler (rec.crashingAt u k why)) m = .crashed why k := asked why
  unfold rescue at after
  simp only [unmoved _] at after
  cases ran : x rec m with
  | failed e l => exact ⟨e, l, rfl, fun why => by have crash := after why; rwa [ran] at crash⟩
  | _ => exact absurd (fun why => by have crash := after why; rwa [ran] at crash) (not_every_crash _)

/-! ## Rounds and lists of statements -/

/-- Of repeated rounds, one asks for a part, and all of them are what is left of them from there. -/
theorem asks_rounds {round : Runner → Exec (Option α)} {n : Nat} (decided : Decides round rec (.stmt s) k)
    (asked : Asks (fun rec => rounds (round rec) n) rec m (.stmt s) k) :
    ∃ l left, Asks round rec l (.stmt s) k ∧ rounds (round rec) n m = rounds (round rec) (left + 1) l := by
  induction n generalizing m with
  | zero => exact absurd asked (onlyExprs_const noFuel).not_asks
  | succ n ih =>
    simp only [rounds_succ] at asked
    rcases asks_bind decided asked with first | ⟨r, l, ran, later⟩
    · exact ⟨m, n, first, rfl⟩
    cases r with
    | some a => exact absurd later (onlyExprs_const (pure a)).not_asks
    | none =>
      obtain ⟨l', left, there, same⟩ := ih later
      refine ⟨l', left, there, ?_⟩
      rw [rounds_succ, bind_of_done ran]
      exact same

theorem decides_statementsFrom (last : Flow) (ss : List Stmt) : Decides (fun rec => statementsFrom rec last ss) rec u k := by
  induction ss generalizing last with
  | nil => exact fun _ => .inr fun _ => rfl
  | cons s rest ih =>
    simp only [statementsFrom_cons]
    refine decides_bind (decides_atLine s.line (decides_perform s)) ?_
    intro flow
    cases flow.isSignal with
    | true => exact fun _ => .inr fun _ => rfl
    | false => exact ih flow

theorem decides_blockBody (b : Block) : Decides (fun rec => blockBody rec b) rec u k := decides_inFrame (decides_statementsFrom _ _)

end Eval

end ScriptEngine
