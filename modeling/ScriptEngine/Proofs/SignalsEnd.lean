import ScriptEngine.Proofs.AskedParts
import ScriptEngine.Proofs.LexicalScope
/-!
# Signals end what they are to end

A statement that returns ends the function that it is in, and one that breaks or continues ends the loop around it or a round of that
loop. So it is wherever the statement stands in the body: in blocks, branches, bodies of loops, and blocks with handlers. Nothing that
comes behind it is run; the machine is the one that the statement left, in the context of what has ended.

There is one place where it is not so. Whatever the statement leaves behind that a loop begins with, the loop goes on.
-/

namespace ScriptEngine

/-- The machine in the context of another. -/
def Machine.back (m k : Machine) : Machine := { k with scope := m.scope, calls := m.calls, depth := m.depth }

/-- A machine in the context of another is the same there. -/
theorem Machine.back_of_restored {m k : Machine} (restored : k.scope = m.scope ∧ k.calls = m.calls ∧ k.depth = m.depth ∧ k.maxDepth = m.maxDepth) :
    k = m.back k := by
  obtain ⟨scope, record, depth, -⟩ := restored
  unfold Machine.back
  rw [← scope, ← record, ← depth]

/-- An outcome in the context of a machine. -/
def Outcome.back {α : Type} (m : Machine) : Outcome α → Outcome α
  | .done a k => .done a (m.back k)
  | .failed e k => .failed e (m.back k)
  | r => r

/-- An outcome that restores the context of a machine is in that context. -/
theorem Outcome.behind_eq_back {α : Type} {m : Machine} {r : Outcome α} {change : Machine → Machine}
    (restores : (r.behind change).Restores m) (changes : ∀ k, m.back (change k) = m.back k) : r.behind change = r.back m := by
  cases r with
  | done a k => exact congrArg (Outcome.done a) ((Machine.back_of_restored restores).trans (changes k))
  | failed e k => exact congrArg (Outcome.failed e) ((Machine.back_of_restored restores).trans (changes k))
  | _ => rfl

/-- Whether a statement runs its rounds in a loop. -/
def Stmt.loops : Stmt → Bool
  | .whileLoop .. | .doLoop .. | .forLoop .. | .forEach .. => true
  | _ => false

/-- Whether a statement runs statements that are inside it. -/
def Stmt.nests : Stmt → Bool
  | .block .. | .cond .. | .tries .. => true
  | s => s.loops

namespace Exec

variable {α β : Type} {x : Exec α} {a : α} {m k : Machine}

/-- A computation ends with a result at a given machine, but for the frames in use and the record of what is being run. -/
def Gives (x : Exec α) (m : Machine) (a : α) (k : Machine) : Prop := ∃ e calls, x m = .done a (k.elsewhere e calls)

theorem gives_of_done (run : x m = .done a k) : x.Gives m a k := ⟨k.scope, k.calls, run⟩

theorem Gives.of_eq {y : Exec α} {l : Machine} (gives : y.Gives l a k) (same : x m = y l) : x.Gives m a k := by
  obtain ⟨e, calls, run⟩ := gives
  exact ⟨e, calls, same.trans run⟩

theorem Gives.from_elsewhere {e : Scope} {calls : List CallEntry} (gives : x.Gives m a (k.elsewhere e calls)) : x.Gives m a k := gives

/-- A result in the context of a machine. -/
theorem Gives.back (gives : x.Gives m a k) (restores : (x m).Restores m) : x m = .done a (m.back k) := by
  obtain ⟨e, calls, run⟩ := gives
  rw [run] at restores ⊢
  obtain ⟨scope, record, depth, -⟩ := restores
  change e = m.scope at scope
  change calls = m.calls at record
  change k.depth = m.depth at depth
  unfold Machine.back Machine.elsewhere
  rw [scope, record, ← depth]

theorem gives_recorded {kind name : Text} {line : Nat} (gives : x.Gives { m with calls := ⟨kind, name, line⟩ :: m.calls } a k) :
    (recorded kind name line x).Gives m a k := by
  obtain ⟨e, calls, run⟩ := gives
  refine ⟨e, calls.drop 1, ?_⟩
  unfold recorded
  rw [within_eq, run]
  rfl

theorem gives_inFrame (gives : x.Gives (m.opened m.scope.top) a k) : (inFrame x).Gives m a k := by
  obtain ⟨e, calls, run⟩ := gives
  refine ⟨e.popped, calls, ?_⟩
  rw [inFrame_eq, run]
  rfl

theorem gives_unwinding (gives : x.Gives m a k) : (unwinding x).Gives m a k := by
  obtain ⟨e, calls, run⟩ := gives
  refine ⟨e, calls, ?_⟩
  rw [unwinding_eq, run]
  rfl

theorem gives_bind {f : α → Exec β} {b : β} {l : Machine} (first : x m = .done a l) (gives : (f a).Gives l b k) :
    (x >>= f).Gives m b k := by
  obtain ⟨e, calls, run⟩ := gives
  exact ⟨e, calls, (bind_of_done first).trans run⟩

theorem rescue_of_failed {handler : Fault → Exec α} {e : Fault} {l : Machine} (failed : x m = .failed e l) :
    (tryCatch x handler : Exec α) m = handler e l := by
  show rescue x handler m = _
  rw [rescue, failed]

theorem gives_tryCatch {handler : Fault → Exec α} (gives : x.Gives m a k) : (tryCatch x handler).Gives m a k := by
  obtain ⟨e, calls, run⟩ := gives
  refine ⟨e, calls, ?_⟩
  show rescue x handler m = _
  rw [rescue, run]

end Exec

namespace Eval

open Exec

variable {rec : Runner} {m k k' l : Machine} {s u t : Stmt} {flow : Flow}

/-! ## Lists of statements and blocks -/

/-- Statements end with the one that ends more than itself. -/
theorem statementsFrom_signal {last : Flow} {ss : List Stmt} (asked : Asks (fun rec => statementsFrom rec last ss) rec m (.stmt u) k)
    (ended : perform rec u k = .done flow k') (signal : flow.isSignal = true) : statementsFrom rec last ss m = .done flow k' := by
  induction ss generalizing last m with
  | nil => exact absurd asked (onlyExprs_const (pure last)).not_asks
  | cons s rest ih =>
    simp only [statementsFrom_cons] at asked ⊢
    rcases asks_bind (decides_atLine s.line (decides_perform s)) asked with here | ⟨before, l, ran, later⟩
    · obtain ⟨rfl, rfl⟩ := asks_perform (asks_atLine.mp here)
      have ran : atLine s.line (perform rec s) m = .done flow k' := by
        rw [atLine, ended]
      refine (bind_of_done ran).trans ?_
      rw [if_pos signal]
      rfl
    · refine (bind_of_done ran).trans ?_
      cases goes : before.isSignal with
      | true =>
        -- behind a statement that ended the list nothing is asked for
        simp only [goes] at later
        exact absurd later (onlyExprs_const (pure before)).not_asks
      | false =>
        simp only [goes] at later
        exact ih later

theorem statements_signal {ss : List Stmt} (asked : Asks (fun rec => statements rec ss) rec m (.stmt u) k)
    (ended : perform rec u k = .done flow k') (signal : flow.isSignal = true) : statements rec ss m = .done flow k' :=
  statementsFrom_signal asked ended signal

theorem gives_blockBody {b : Block} (asked : Asks (fun rec => blockBody rec b) rec m (.stmt u) k)
    (ended : perform rec u k = .done flow k') (signal : flow.isSignal = true) : (blockBody rec b).Gives m flow k' :=
  gives_inFrame (gives_of_done (statements_signal (asks_inFrame.mp asked) ended signal))

/-! ## Rounds of loops -/

/-- The first part of a round of a loop that tests before its body: whether the body is run. -/
def reaching (rec : Runner) (test : Option Expr) : Exec Bool := do
  checkInterrupt
  match test with
  | some e => condition rec e
  | none => pure true

/-- What comes behind the body in a round of such a loop: its update. -/
def updating (rec : Runner) (update : Option Expr) : Exec (Option Flow) :=
  match update with
  | some e => do
    let _ ← evaluate rec e
    pure none
  | none => pure none

/-- What comes behind the body in a round of a loop that tests after it. -/
def testing (rec : Runner) (test : Expr) : Exec (Option Flow) := do
  if ← condition rec test then pure none else pure (some (.value .null))

/-- What a loop makes of what its body left behind: its end, or what comes behind the body. -/
def closing {α : Type} (ending : Flow → α) (rest : Exec α) (flow : Flow) : Exec α :=
  match afterBody flow with
  | some f => pure (ending f)
  | none => rest

theorem onlyExprs_reaching (test : Option Expr) : OnlyExprs fun rec => reaching rec test :=
  onlyExprs_bind (onlyExprs_const checkInterrupt) fun _ => by
    cases test with
    | some e => exact onlyExprs_condition e
    | none => exact onlyExprs_const _

theorem onlyExprs_updating (update : Option Expr) : OnlyExprs fun rec => updating rec update := by
  cases update with
  | some e => exact onlyExprs_bind (onlyExprs_evaluate e) fun _ => onlyExprs_const _
  | none => exact onlyExprs_const _

theorem onlyExprs_testing (test : Expr) : OnlyExprs fun rec => testing rec test :=
  onlyExprs_bind (onlyExprs_condition test) fun goes => by cases goes <;> exact onlyExprs_const _

section Closing

variable {α : Type} {ending : Flow → α} {f : Flow}

theorem onlyExprs_closing {rest : Runner → Exec α} (only : OnlyExprs rest) (flow : Flow) :
    OnlyExprs fun rec => closing ending (rest rec) flow := by
  unfold closing
  cases afterBody flow with
  | some f => exact onlyExprs_const _
  | none => exact only

/-- A loop ends where its body ended it. -/
theorem gives_closing {x : Exec Flow} {rest : Exec α} (gives : x.Gives m flow k) (after : afterBody flow = some f) :
    (x >>= closing ending rest).Gives m (ending f) k := by
  obtain ⟨e, calls, run⟩ := gives
  refine ⟨e, calls, (bind_of_done run).trans ?_⟩
  rw [closing, after]
  rfl

end Closing

theorem testedRound_eq (rec : Runner) (test update : Option Expr) (body : Block) :
    testedRound rec test update body = reaching rec test >>= fun goes =>
      if goes then blockBody rec body >>= closing some (updating rec update) else pure (some (.value .null)) := by
  unfold testedRound reaching
  rw [bind_assoc]
  refine congrArg (checkInterrupt >>= ·) (funext fun _ => ?_)
  cases test with
  | none => rfl
  | some e =>
    refine congrArg (condition rec e >>= ·) (funext fun goes => ?_)
    cases goes <;> rfl

theorem testingRound_eq (rec : Runner) (body : Block) (test : Expr) :
    testingRound rec body test = checkInterrupt >>= fun _ => blockBody rec body >>= closing some (testing rec test) := rfl

theorem eachRound_eq (rec : Runner) (item : Text) (body : Block) (v : Value) (rest : List Value) :
    eachRound rec item body (v :: rest) = checkInterrupt >>= fun _ =>
      inFrame (do StoreM.define (← get).scope item v; statements rec body.body) >>= closing id (eachRound rec item body rest) := rfl

variable {test update : Option Expr} {body : Block} {item : Text} {f : Flow}

/-- A statement that is asked for in a round is asked for in the body. -/
theorem asks_testedRound (asked : Asks (fun rec => testedRound rec test update body) rec m (.stmt u) k) :
    ∃ l, reaching rec test m = .done true l ∧ Asks (fun rec => blockBody rec body) rec l (.stmt u) k ∧
      testedRound rec test update body m = (blockBody rec body >>= closing some (updating rec update)) l := by
  simp only [testedRound_eq] at asked ⊢
  obtain ⟨goes, l, ran, later⟩ := asks_then (onlyExprs_reaching test) asked
  cases goes with
  | false => exact absurd later (onlyExprs_const _).not_asks
  | true =>
    rcases asks_bind (decides_blockBody body) later with here | ⟨flow, l', -, behind⟩
    · exact ⟨l, ran, here, bind_of_done ran⟩
    · exact absurd behind (onlyExprs_closing (onlyExprs_updating update) flow).not_asks

theorem asks_testingRound {test : Expr} (asked : Asks (fun rec => testingRound rec body test) rec m (.stmt u) k) :
    checkInterrupt m = .done () m ∧ Asks (fun rec => blockBody rec body) rec m (.stmt u) k ∧
      testingRound rec body test m = (blockBody rec body >>= closing some (testing rec test)) m := by
  simp only [testingRound_eq] at asked ⊢
  obtain ⟨⟨⟩, l, ran, later⟩ := asks_then (onlyExprs_const checkInterrupt) asked
  obtain rfl : m = l := by
    unfold checkInterrupt at ran
    split at ran
    · cases ran
    · cases ran
      rfl
  rcases asks_bind (decides_blockBody body) later with here | ⟨flow, l', -, behind⟩
  · exact ⟨ran, here, bind_of_done ran⟩
  · exact absurd behind (onlyExprs_closing (onlyExprs_testing test) flow).not_asks

theorem decides_testedRound : Decides (fun rec => testedRound rec test update body) rec (.stmt u) k := by
  simp only [testedRound_eq]
  refine decides_bind (onlyExprs_reaching test).decides fun goes => ?_
  cases goes with
  | false => exact (onlyExprs_const _).decides
  | true => exact decides_bind (decides_blockBody body) fun flow => (onlyExprs_closing (onlyExprs_updating update) flow).decides

theorem decides_testingRound {test : Expr} : Decides (fun rec => testingRound rec body test) rec (.stmt u) k := by
  simp only [testingRound_eq]
  refine decides_bind (onlyExprs_const checkInterrupt).decides fun _ => ?_
  exact decides_bind (decides_blockBody body) fun flow => (onlyExprs_closing (onlyExprs_testing test) flow).decides

/-- What is done about a fault in a block with handlers. -/
def handling (rec : Runner) (handlers : List Handler) (e : Fault) : Exec Flow :=
  if !e.catchable then throw e
  else match handlerFor? handlers e with
    | some h => handle rec h e
    | none => throw e

theorem guarded_eq (rec : Runner) (body : Block) (handlers : List Handler) :
    guarded rec body handlers = tryCatch (unwinding (blockBody rec body)) (handling rec handlers) := rfl

section Signal

variable (ended : perform rec u k = .done flow k') (signal : flow.isSignal = true)
include ended signal

theorem gives_testedRound (after : afterBody flow = some f)
    (asked : Asks (fun rec => testedRound rec test update body) rec m (.stmt u) k) :
    (testedRound rec test update body).Gives m (some f) k' := by
  obtain ⟨l, -, here, same⟩ := asks_testedRound asked
  exact (gives_closing (gives_blockBody here ended signal) after).of_eq same

theorem gives_testingRound {test : Expr} (after : afterBody flow = some f)
    (asked : Asks (fun rec => testingRound rec body test) rec m (.stmt u) k) :
    (testingRound rec body test).Gives m (some f) k' := by
  obtain ⟨-, here, same⟩ := asks_testingRound asked
  exact (gives_closing (gives_blockBody here ended signal) after).of_eq same

omit ended signal in
/-- Repeated rounds end with the one that ends the loop. -/
theorem gives_rounds {round : Runner → Exec (Option Flow)} {n : Nat} (decided : Decides round rec (.stmt u) k)
    (each : ∀ l, Asks round rec l (.stmt u) k → (round rec).Gives l (some f) k')
    (asked : Asks (fun rec => rounds (round rec) n) rec m (.stmt u) k) : (rounds (round rec) n).Gives m f k' := by
  obtain ⟨l, left, here, same⟩ := asks_rounds decided asked
  obtain ⟨e, calls, run⟩ := each l here
  refine ⟨e, calls, same.trans ?_⟩
  rw [rounds_succ, bind_of_done run]
  rfl

/-- Statements that are run in a frame with one variable. -/
theorem gives_entered {v : Value} (asked : Asks (fun rec => statements rec body.body) rec (m.entered item v) (.stmt u) k) :
    (inFrame (do StoreM.define (← get).scope item v; statements rec body.body)).Gives m flow k' := by
  apply gives_inFrame
  exact gives_of_done (k := k') (statements_signal asked ended signal)

omit ended signal in
theorem decides_entered {v : Value} :
    Decides (fun rec => inFrame (do StoreM.define (← get).scope item v; statements rec body.body)) rec (.stmt u) k := by
  apply decides_inFrame
  refine decides_bind (onlyExprs_const get).decides fun l => ?_
  exact decides_bind (onlyExprs_const _).decides fun _ => decides_statementsFrom _ _

/-- The rounds for values end with the one that ends the loop. -/
theorem gives_eachRound {items : List Value} (after : afterBody flow = some f)
    (asked : Asks (fun rec => eachRound rec item body items) rec m (.stmt u) k) : (eachRound rec item body items).Gives m f k' := by
  induction items generalizing m with
  | nil => exact absurd asked (onlyExprs_const _).not_asks
  | cons v rest ih =>
    simp only [eachRound_eq] at asked ⊢
    obtain ⟨⟨⟩, l, ran, later⟩ := asks_then (onlyExprs_const checkInterrupt) asked
    rcases asks_bind decides_entered later with here | ⟨before, l', run, behind⟩
    · exact gives_bind ran (gives_closing (gives_entered ended signal (asks_inFrame.mp here)) after)
    · unfold closing at behind
      refine gives_bind ran (gives_bind run ?_)
      rw [closing]
      cases goes : afterBody before with
      | some g =>
        simp only [goes] at behind
        exact absurd behind (onlyExprs_const _).not_asks
      | none =>
        simp only [goes] at behind
        exact ih behind

/-! ## Handlers -/

theorem gives_handle {h : Handler} {e : Fault} (asked : Asks (fun rec => handle rec h e) rec m (.stmt u) k) :
    (handle rec h e).Gives m flow k' := by
  obtain ⟨mark, category, caught, body⟩ := h
  cases caught with
  | some name => exact gives_entered ended signal (asks_inFrame.mp asked)
  | none => exact gives_inFrame (gives_of_done (statements_signal (asks_inFrame.mp asked) ended signal))

/-- A block with handlers ends with a signal that comes from the block or from the handler. -/
theorem gives_guarded {handlers : List Handler} (asked : Asks (fun rec => guarded rec body handlers) rec m (.stmt u) k) :
    (guarded rec body handlers).Gives m flow k' := by
  simp only [guarded_eq] at asked ⊢
  rcases asks_tryCatch (decides_unwinding (decides_blockBody body)) asked with here | ⟨e, l, failed, later⟩
  · exact gives_tryCatch (gives_unwinding (gives_blockBody (asks_unwinding.mp here) ended signal))
  refine Gives.of_eq ?_ (rescue_of_failed failed)
  unfold handling at later ⊢
  cases caught : e.catchable with
  | false =>
    simp only [caught, Bool.not_false, if_true] at later
    exact absurd later (onlyExprs_const _).not_asks
  | true =>
    simp only [caught, Bool.not_true, Bool.false_eq_true, if_false] at later ⊢
    cases found : handlerFor? handlers e with
    | none =>
      simp only [found] at later
      exact absurd later (onlyExprs_const _).not_asks
    | some h =>
      simp only [found] at later
      exact gives_handle ended signal later

end Signal

/-! ## One statement around another -/

/-- A statement is run as the one that a loop begins with. -/
def Begins : Stmt → Machine → Stmt → Machine → Prop
  | .forLoop mark (some s) _ _ _, m, u, k => u = s ∧ k = m.within "loop" "for" mark.line
  | _, _, _, _ => False

/-- A statement inside another ends it when it ends more than itself: a loop as the loop makes of it, and any other as it is. -/
theorem gives_statement {fuel : Nat} (nests : s.nests = true) (inner : ¬ Begins s m u k)
    (asked : Asks (fun rec => statement rec fuel s) rec m (.stmt u) k) (ended : perform rec u k = .done flow k')
    (signal : flow.isSignal = true) (after : (if s.loops then afterBody flow else some flow) = some f) :
    (statement rec fuel s).Gives m f k' := by
  have plain (h : s.loops = false) : flow = f := by
    rw [h] at after
    exact Option.some.inj after
  have looped (h : s.loops = true) : afterBody flow = some f := by
    rwa [if_pos h] at after
  cases s with
  | block b =>
    cases plain rfl
    exact gives_recorded (gives_blockBody (asks_within.mp asked) ended signal)
  | cond mark test yes no =>
    cases plain rfl
    obtain ⟨goes, l, ran, later⟩ := asks_then (onlyExprs_condition test) asked
    refine gives_bind ran ?_
    cases goes with
    | true =>
      obtain ⟨rfl, rfl⟩ := asks_perform later
      exact gives_of_done ended
    | false =>
      cases no with
      | none => exact absurd later (onlyExprs_const _).not_asks
      | some no =>
        obtain ⟨rfl, rfl⟩ := asks_perform later
        exact gives_of_done ended
  | tries mark body handlers =>
    cases plain rfl
    exact gives_recorded (gives_guarded ended signal (asks_within.mp asked))
  | whileLoop mark test body =>
    apply gives_recorded
    exact gives_rounds decides_testedRound (fun l => gives_testedRound ended signal (looped rfl)) (asks_within.mp asked)
  | doLoop mark body test =>
    apply gives_recorded
    exact gives_rounds decides_testingRound (fun l => gives_testingRound ended signal (looped rfl)) (asks_within.mp asked)
  | forLoop mark init test update body =>
    have inside := asks_inFrame.mp (asks_within.mp asked)
    apply gives_recorded
    apply gives_inFrame
    cases init with
    | none => exact gives_rounds decides_testedRound (fun l => gives_testedRound ended signal (looped rfl)) inside
    | some s =>
      rcases asks_bind (decides_perform s) inside with here | ⟨flow', l, ran, later⟩
      · -- the statement that the loop begins with was left out
        obtain ⟨rfl, rfl⟩ := asks_perform here
        exact absurd ⟨rfl, rfl⟩ inner
      · refine gives_bind ran ?_
        exact gives_rounds decides_testedRound (fun l => gives_testedRound ended signal (looped rfl)) later
  | forEach mark item container body =>
    apply gives_recorded
    obtain ⟨v, l, ran, later⟩ := asks_then (onlyExprs_evaluate container) (asks_within.mp asked)
    refine gives_bind ran ?_
    obtain ⟨items, l', taken, rounds⟩ := asks_then (onlyExprs_const _) later
    exact gives_bind taken (gives_eachRound ended signal (looped rfl) rounds)
  | _ => cases nests

/-! ## All statements around one -/

/-- With fuel `n`, running `s` at `m` runs `t` at `k` with fuel `j`: the same statement, or one that is nested in it. All statements around
that one are in `around`, and none of them begins with it. -/
inductive Nested (around : Stmt → Prop) : Nat → Stmt → Machine → Nat → Stmt → Machine → Prop where
  | here (n : Nat) (s : Stmt) (m : Machine) : Nested around n s m n s m
  | inside {n j : Nat} {s u t : Stmt} {m k l : Machine} (outer : around s)
    (asked : Asks (fun rec => step n rec (.stmt s)) (run n) m (.stmt u) k) (inner : ¬ Begins s m u k)
    (rest : Nested around n u k j t l) : Nested around (n + 1) s m j t l

/-- A signal passes through all statements around it, through loops if it is not for them. -/
theorem gives_nested {around : Stmt → Prop} {n j : Nat} (nests : ∀ s, around s → s.nests = true)
    (passes : ∀ s, around s → s.loops = true → afterBody flow = some flow) (nested : Nested around n s m j t k)
    (ended : perform (run j) t k = .done flow k') (signal : flow.isSignal = true) : (perform (run n) s).Gives m flow k' := by
  induction nested with
  | here n s m => exact gives_of_done ended
  | @inside n j s u t m k l outer asked inner rest ih =>
    obtain ⟨e, calls, run⟩ := ih ended
    refine Gives.from_elsewhere (gives_statement (nests s outer) inner asked run signal ?_)
    cases loops : s.loops with
    | true => exact passes s outer loops
    | false => rfl

/-! ## Calls -/

/-- The parameters of a function are defined by running expressions. -/
theorem onlyExprs_bindParams (f : FunctionData) (ps : List (Param × Option Value)) : OnlyExprs fun rec => bindParams rec f ps :=
  fun _ _ same => eq_constructs.bindParams same f ps

variable {f : FunctionData} {outer : Nat} {args : List Value} {names : List Text} {line : Nat} {bound : List (Option Value)}

/-- What is done in a call: the function is run in a frame inside the one that it was declared in. -/
def called (rec : Runner) (f : FunctionData) (outer line : Nat) (bound : List (Option Value)) : Exec Value := do
  let scope ← StoreM.pushFrom (← get).scope (some outer)
  popping scope do
    atLine line (bindParams rec f (f.params.zip bound))
    let flow ← statements rec f.body.body
    resultOf f line flow

/-- A call that is not too deep. -/
theorem apply_eq (rec : Runner) (room : ¬ m.maxDepth ≤ m.depth) : apply rec f outer args names line m =
    (atLine line (Exec.ofExcept (bindArguments f args names)) >>= fun bound =>
      within (fun m => { m with depth := m.depth + 1 }) (fun m => { m with depth := m.depth - 1 })
        (recorded "call" f.name line (called rec f outer line bound))) m := by
  show (if m.maxDepth ≤ m.depth then _ else _ : Exec Value) m = _
  rw [if_neg room]
  rfl

/-- A statement that is asked for in a call is asked for in the body, and the call ends as the body and what is made of its result. -/
theorem asks_called (asked : Asks (fun rec => called rec f outer line bound) rec m (.stmt u) k) :
    ∃ l, Asks (fun rec => statements rec f.body.body) rec l (.stmt u) k ∧
      called rec f outer line bound m = ((statements rec f.body.body >>= resultOf f line) l).behind Machine.popped := by
  obtain ⟨m', m'', looked, later⟩ := asks_then (onlyExprs_const get) asked
  obtain ⟨scope, l, pushed, inside⟩ := asks_then (onlyExprs_const _) later
  obtain ⟨⟨⟩, l', given, body⟩ := asks_then ((onlyExprs_bindParams f _).atLine line) (asks_popping.mp inside)
  rcases asks_bind (decides_statementsFrom _ _) body with here | ⟨flow, l'', -, behind⟩
  · refine ⟨l', here, ?_⟩
    refine (bind_of_done looked).trans ((bind_of_done pushed).trans ?_)
    rw [popping_eq, bind_of_done given]
  · exact absurd behind (onlyExprs_const _).not_asks

/-- It is so of a call from outside, which goes back to the context before. -/
theorem asks_apply (asked : Asks (fun rec => apply rec f outer args names line) rec m (.stmt u) k) :
    ∃ l, Asks (fun rec => statements rec f.body.body) rec l (.stmt u) k ∧
      apply rec f outer args names line m = ((statements rec f.body.body >>= resultOf f line) l).behind fun k =>
        { k.popped with calls := k.calls.drop 1, depth := k.depth - 1 } := by
  by_cases deep : m.maxDepth ≤ m.depth
  · have refused : Unmoved (fun rec => apply rec f outer args names line) rec m (.stmt u) k := by
      intro why
      exact (apply_at_limit _ f outer args names line deep).trans (apply_at_limit _ f outer args names line deep).symm
    exact absurd asked (not_asks_of_unmoved refused)
  have goes := (asks_around (fun rec => apply_eq rec deep) fun _ _ => Iff.rfl).mp asked
  obtain ⟨bound, l, given, later⟩ := asks_then (onlyExprs_const _) goes
  obtain ⟨l', here, same⟩ := asks_called (asks_within.mp (asks_within.mp later))
  refine ⟨l', here, ?_⟩
  rw [apply_eq rec deep, bind_of_done given, within_eq]
  unfold recorded
  rw [within_eq, same, Outcome.behind_behind, Outcome.behind_behind]
  rfl

/-- What is returned is made to fit, or that fails. -/
theorem resultOf_ends (f : FunctionData) (line : Nat) (v : Value) (m : Machine) :
    (∃ w k, resultOf f line (.returned v) m = .done w k) ∨ ∃ e k, resultOf f line (.returned v) m = .failed e k := by
  unfold resultOf
  dsimp only
  cases f.result with
  | none => exact .inl ⟨v, m, rfl⟩
  | some t =>
    show (∃ w k, rescue (onStore (StoreM.coerce v t.kind)) _ m = .done w k) ∨ ∃ e k, rescue (onStore (StoreM.coerce v t.kind)) _ m = .failed e k
    unfold rescue onStore
    dsimp only
    generalize StoreM.coerce v t.kind m.store = r
    obtain ⟨r, s⟩ := r
    cases r with
    | ok w => exact .inl ⟨w, _, rfl⟩
    | error e => exact .inr ⟨_, _, rfl⟩

/-! ## Contexts -/

/-- A computation that only runs parts restores the context. -/
theorem restores_of_links {α : Type} {F : Runner → Exec α} (n : Nat) (m : Machine) (links : Links (Link.from False m) F) :
    (F (run n) m).Restores m :=
  (links m.context (run n) (run n) (linked_run n) m ⟨Link.meets_from False.elim, rfl⟩).restores

theorem links_blockBody {L : Link} (hL : ¬ L.checked) (b : Block) : Links L fun rec => blockBody rec b :=
  fun _ _ _ h => (linked_blockBody h b fun hc => absurd hc hL).same

theorem links_reaching {L : Link} (test : Option Expr) : Links L fun rec => reaching rec test := by
  intro κ rec rec' h
  refine linked_same_bind (same_of_local fun _ => local_checkInterrupt) fun _ => ?_
  cases test with
  | some e => exact same_condition h e
  | none => exact same_pure true

theorem links_entered {L : Link} (hL : ¬ L.checked) (item : Text) (v : Value) (body : Block) :
    Links L fun rec => inFrame (do StoreM.define (← get).scope item v; statements rec body.body) := by
  intro κ rec rec' h
  refine linked_inFrame fun scope => ?_
  refine linked_same_bind linked_get.same fun _ => ?_
  refine linked_same_bind (same_lift (lexical_define _ item v).functions_of_lexical) fun _ => ?_
  exact (linked_statements h body fun hc => absurd hc hL).same

/-! ## Statements that come first -/

/-- The machine on which the body of a function begins. -/
def calling (f : FunctionData) (outer line : Nat) (m : Machine) : Machine :=
  Machine.opened outer { m with depth := m.depth + 1, calls := ⟨"call", f.name, line⟩ :: m.calls }

/-- A call without arguments asks for the first statement of the body. -/
theorem asks_apply_first {rest : List Stmt} (params : f.params = []) (body : f.body.body = s :: rest) (room : ¬ m.maxDepth ≤ m.depth) :
    Asks (fun rec => apply rec f outer [] [] line) rec m (.stmt s) (calling f outer line m) := by
  intro why
  have first : statements (rec.crashingAt (.stmt s) (calling f outer line m) why) f.body.body (calling f outer line m) =
      .crashed why (calling f outer line m) := by
    rw [body]
    exact asks_statements rec s rest _ why
  generalize rec.crashingAt (.stmt s) (calling f outer line m) why = rec at first ⊢
  have bound : bindArguments f [] [] = .ok [] := by
    simp [bindArguments, params]
  have begun : called rec f outer line [] { m with depth := m.depth + 1, calls := ⟨"call", f.name, line⟩ :: m.calls } =
      .crashed why (calling f outer line m) := by
    have goes : called rec f outer line [] { m with depth := m.depth + 1, calls := ⟨"call", f.name, line⟩ :: m.calls } =
        popping (calling f outer line m).scope (atLine line (bindParams rec f (f.params.zip [])) >>= fun _ => statements rec f.body.body >>= resultOf f line)
          { calling f outer line m with scope := m.scope } := rfl
    rw [goes, popping_eq, params]
    show Outcome.behind _ (andThen (statements rec f.body.body) (resultOf f line) (calling f outer line m)) = _
    rw [andThen, first]
    rfl
  show apply rec f outer [] [] line m = _
  have given : atLine line (Exec.ofExcept (bindArguments f [] [])) m = .done [] m := by
    rw [bound]
    rfl
  rw [apply_eq rec room, bind_of_done given]
  unfold recorded
  rw [within_eq, within_eq, begun]
  rfl

theorem asks_block {b : Block} {rest : List Stmt} {n : Nat} (body : b.body = s :: rest) :
    Asks (fun rec => step n rec (.stmt (.block b))) rec m (.stmt s) (m.within "block" "" b.mark.line) :=
  asks_within.mpr (asks_blockBody body)

/-- A loop asks for the statement that it begins with. -/
theorem asks_forLoop {mark : Mark} {test update : Option Expr} {b : Block} {n : Nat} :
    Asks (fun rec => step n rec (.stmt (.forLoop mark (some s) test update b))) rec m (.stmt s) (m.within "loop" "for" mark.line) :=
  asks_within.mpr (asks_inFrame.mpr (asks_first fun why => crashingAt_self rec _ _ why))

/-! ## Signals -/

/-- Statements that run statements inside them, but not in rounds. -/
def Plain (s : Stmt) : Prop := s.nests = true ∧ s.loops = false

theorem Plain.passes {s : Stmt} (plain : Plain s) (loops : s.loops = true) : afterBody flow = some flow := by
  rw [plain.2] at loops
  cases loops

/-- A body ends in its context with a signal of a statement in it that is not in a loop inside. -/
theorem blockBody_signal {n j : Nat} {b : Block} (asked : Asks (fun rec => blockBody rec b) (run n) m (.stmt s) l)
    (nested : Nested Plain n s l j t k) (ended : run j (.stmt t) k = .done flow k') (signal : flow.isSignal = true) :
    blockBody (run n) b m = .done flow (m.back k') := by
  obtain ⟨e, calls, run⟩ := gives_nested (fun s plain => plain.1) (fun s plain => plain.passes) nested ended signal
  have gives : (blockBody (Eval.run n) b).Gives m flow k' := (gives_blockBody asked run signal).from_elsewhere
  exact gives.back (restores_of_links n m (links_blockBody id b))

/-- A call ends with the statement that returns. -/
theorem apply_signal {n j : Nat} {v : Value} (asked : Asks (fun rec => apply rec f outer args names line) (run n) m (.stmt s) l)
    (nested : Nested (fun s => s.nests = true) n s l j t k) (ended : run j (.stmt t) k = .done (.returned v) k') :
    apply (run n) f outer args names line m = (resultOf f line (.returned v) k').back m := by
  have restores : (apply (run n) f outer args names line m).Restores m :=
    restores_of_links n m fun _ _ _ h => same_apply h f outer args names line False.elim
  obtain ⟨l', body, same⟩ := asks_apply asked
  obtain ⟨e', calls, passed⟩ := gives_nested (fun s nests => nests) (fun _ _ _ => rfl) nested ended rfl
  -- the conversion of the result looks at neither the frames nor the record of what is being run
  have made := blind_resultOf f line (.returned v) k' e' calls
  rw [bind_of_done (statements_signal body passed rfl), made] at same
  rw [same] at restores ⊢
  refine (Outcome.behind_eq_back restores fun _ => rfl).trans ?_
  rcases resultOf_ends f line v k' with ⟨w, k'', result⟩ | ⟨fault, k'', result⟩
  · rw [result]
    rfl
  · rw [result]
    rfl

/-- A loop ends with the statement in its body that breaks. -/
theorem loop_signal {n j : Nat} {loop : Stmt} (loops : loop.loops = true)
    (asked : Asks (fun rec => step n rec (.stmt loop)) (run n) m (.stmt s) l) (inner : ¬ Begins loop m s l)
    (nested : Nested Plain n s l j t k) (ended : run j (.stmt t) k = .done .broken k') :
    run (n + 1) (.stmt loop) m = .done (.value .null) (m.back k') := by
  obtain ⟨e, calls, passed⟩ := gives_nested (fun s plain => plain.1) (fun s plain => plain.passes) nested ended rfl
  have nests : loop.nests = true := by
    cases loop with
    | whileLoop | doLoop | forLoop | forEach => rfl
    | _ => cases loops
  have after : (if loop.loops then afterBody Flow.broken else some Flow.broken) = some (.value .null) := by
    rw [if_pos loops]
    rfl
  have gives := (gives_statement nests inner asked passed rfl after).from_elsewhere
  exact gives.back (run_restores (n + 1) (.stmt loop) m)

theorem testedRound_signal {n j : Nat} (asked : Asks (fun rec => testedRound rec test update body) (run n) m (.stmt s) l)
    (nested : Nested Plain n s l j t k) (ended : run j (.stmt t) k = .done .continued k') :
    testedRound (run n) test update body m = updating (run n) update (m.back k') := by
  obtain ⟨m', ran, here, same⟩ := asks_testedRound asked
  -- the body is run in the context of the round: the test has restored it
  have restores := restores_of_links n m (links_reaching test)
  rw [ran] at restores
  have back : m'.back k' = m.back k' := by
    obtain ⟨scope, record, depth, -⟩ := restores
    unfold Machine.back
    rw [scope, record, depth]
  rw [same, bind_of_done (blockBody_signal here nested ended rfl), back]
  rfl

theorem testingRound_signal {n j : Nat} {test : Expr} (asked : Asks (fun rec => testingRound rec body test) (run n) m (.stmt s) l)
    (nested : Nested Plain n s l j t k) (ended : run j (.stmt t) k = .done .continued k') :
    testingRound (run n) body test m = testing (run n) test (m.back k') := by
  obtain ⟨-, here, same⟩ := asks_testingRound asked
  rw [same, bind_of_done (blockBody_signal here nested ended rfl)]
  rfl

theorem eachRound_signal {n j : Nat} {v : Value} (rest : List Value) (quiet : m.host.interruption? = none)
    (asked : Asks (fun rec => statements rec body.body) (run n) (m.entered item v) (.stmt s) l)
    (nested : Nested Plain n s l j t k) (ended : run j (.stmt t) k = .done .continued k') :
    eachRound (run n) item body (v :: rest) m = eachRound (run n) item body rest (m.back k') := by
  have ran : checkInterrupt m = .done () m := by
    rw [checkInterrupt, quiet]
  obtain ⟨e, calls, passed⟩ := gives_nested (fun s plain => plain.1) (fun s plain => plain.passes) nested ended rfl
  have gives : (inFrame (do StoreM.define (← get).scope item v; statements (run n) body.body)).Gives m .continued k' :=
    (gives_entered passed rfl asked).from_elsewhere
  have left := gives.back (restores_of_links n m (links_entered id item v body))
  rw [eachRound_eq, bind_of_done ran, bind_of_done left]
  rfl

/-- Whatever the statement leaves behind that a loop begins with, the loop goes on. -/
theorem forLoop_goes_on {n : Nat} {mark : Mark} (ended : run n (.stmt u) (m.within "loop" "for" mark.line) = .done flow k') :
    run (n + 1) (.stmt (.forLoop mark (some u) test update body)) m = (rounds (testedRound (run n) test update body) n k').back m := by
  have restores := run_restores (n + 1) (.stmt (.forLoop mark (some u) test update body)) m
  have goes : run (n + 1) (.stmt (.forLoop mark (some u) test update body)) m =
      (rounds (testedRound (run n) test update body) n k').behind fun k => { k.popped with calls := k.calls.drop 1 } := by
    show recorded "loop" "for" mark.line (inFrame (perform (run n) u >>= fun _ => rounds (testedRound (run n) test update body) n)) m = _
    unfold recorded
    rw [within_eq, inFrame_eq, Outcome.behind_behind]
    exact congrArg (Outcome.behind _) (bind_of_done ended)
  rw [goes] at restores ⊢
  exact Outcome.behind_eq_back restores fun _ => rfl

/-- **Signals.** A call ends with the first statement of the body that returns, wherever it is nested: what is returned is made to fit the
result, on the machine that the statement left. A loop ends with the first statement in its body, outside of loops inside, that breaks,
and a round of it with the first one that continues. Only what the statement leaves behind that a loop begins with is lost. -/
theorem signals_end (n : Nat) :
    (∀ f outer args names line m s l j t k v k', Asks (fun rec => apply rec f outer args names line) (run n) m (.stmt s) l →
      Nested (fun s => s.nests = true) n s l j t k → run j (.stmt t) k = .done (.returned v) k' →
      apply (run n) f outer args names line m = (resultOf f line (.returned v) k').back m) ∧
    (∀ loop m s l j t k k', loop.loops = true → Asks (fun rec => step n rec (.stmt loop)) (run n) m (.stmt s) l → ¬ Begins loop m s l →
      Nested Plain n s l j t k → run j (.stmt t) k = .done .broken k' →
      run (n + 1) (.stmt loop) m = .done (.value .null) (m.back k')) ∧
    (∀ test update body m s l j t k k', Asks (fun rec => testedRound rec test update body) (run n) m (.stmt s) l →
      Nested Plain n s l j t k → run j (.stmt t) k = .done .continued k' →
      testedRound (run n) test update body m = updating (run n) update (m.back k')) ∧
    (∀ body test m s l j t k k', Asks (fun rec => testingRound rec body test) (run n) m (.stmt s) l →
      Nested Plain n s l j t k → run j (.stmt t) k = .done .continued k' →
      testingRound (run n) body test m = testing (run n) test (m.back k')) ∧
    (∀ item body v rest m s l j t k k', m.host.interruption? = none →
      Asks (fun rec => statements rec body.body) (run n) (m.entered item v) (.stmt s) l →
      Nested Plain n s l j t k → run j (.stmt t) k = .done .continued k' →
      eachRound (run n) item body (v :: rest) m = eachRound (run n) item body rest (m.back k')) ∧
    (∀ mark u test update body m flow k', run n (.stmt u) (m.within "loop" "for" mark.line) = .done flow k' →
      run (n + 1) (.stmt (.forLoop mark (some u) test update body)) m =
        (rounds (testedRound (run n) test update body) n k').back m) := by
  refine ⟨?_, ?_, ?_, ?_, ?_, ?_⟩
  · intro f outer args names line m s l j t k v k' asked nested ended
    exact apply_signal asked nested ended
  · intro loop m s l j t k k' loops asked inner nested ended
    exact loop_signal loops asked inner nested ended
  · intro test update body m s l j t k k' asked nested ended
    exact testedRound_signal asked nested ended
  · intro body test m s l j t k k' asked nested ended
    exact testingRound_signal asked nested ended
  · intro item body v rest m s l j t k k' quiet asked nested ended
    exact eachRound_signal rest quiet asked nested ended
  · intro mark u test update body m flow k' ended
    exact forLoop_goes_on ended

/-- A return in a block ends the function, and a break and a continue end a loop and a round of it. -/
theorem signals_end_first :
    let one : Stmt := .returns ⟨"return", 1⟩ (some (.int ⟨"1", 1⟩ 1))
    let two : Stmt := .returns ⟨"return", 1⟩ (some (.int ⟨"2", 1⟩ 2))
    let f : FunctionData := ⟨"f", [], none, ⟨⟨"\x7b", 1⟩, [.block ⟨⟨"\x7b", 1⟩, [one]⟩, two]⟩, 0⟩
    let test : Expr := .bool ⟨"true", 1⟩ true
    let m := Machine.initial (Host.initial default default) 10 ""
    apply (run 4) f 0 [] [] 1 m = (resultOf f 1 (.returned (.int 1)) ((calling f 0 1 m).within "block" "" 1)).back m ∧
      run 4 (.stmt (.doLoop ⟨"do", 1⟩ ⟨⟨"\x7b", 1⟩, [.breaks ⟨"break", 1⟩, two]⟩ test)) m = .done (.value .null) (m.back (m.within "loop" "do" 1)) ∧
      testingRound (run 3) ⟨⟨"\x7b", 1⟩, [.continues ⟨"continue", 1⟩, two]⟩ test m = testing (run 3) test (m.back (m.opened m.scope.top)) := by
  intro one two f test m
  obtain ⟨call, -⟩ := signals_end 4
  obtain ⟨-, loop, -, round, -⟩ := signals_end 3
  have nested : Nested (fun s => s.nests = true) 4 (.block ⟨⟨"\x7b", 1⟩, [one]⟩) (calling f 0 1 m) 3 one ((calling f 0 1 m).within "block" "" 1) :=
    .inside rfl (asks_block rfl) id (.here 3 one _)
  refine ⟨call f 0 [] [] 1 m _ _ _ _ _ _ _ (asks_apply_first rfl rfl ?_) nested rfl,
    loop _ m _ _ _ _ _ _ rfl (asks_doLoop rfl rfl) id (.here _ _ _) rfl,
    round _ test m _ _ _ _ _ _ (asks_testingRound_first rfl rfl) (.here _ _ _) rfl⟩
  decide

/-- What a loop begins with may return, and the function goes on. -/
theorem signals_end_lost :
    ∃ (mark : Mark) (f : FunctionData), Program.parse ⟨⟨[]⟩, ⟨[]⟩⟩ "function f() { for (return 1; false; ) { } return 2; }" =
        (⟨[.function mark f.name f.params f.result f.body]⟩, []) ∧
      ∃ m l k k' m' loop s, Asks (fun rec => apply rec f 0 [] [] 1) (run 4) m (.stmt loop) l ∧
        Asks (fun rec => step 3 rec (.stmt loop)) (run 3) l (.stmt s) k ∧ run 3 (.stmt s) k = .done (.returned (.int 1)) k' ∧
        apply (run 4) f 0 [] [] 1 m = .done (.int 2) m' := by
  let loop : Stmt := .forLoop ⟨"for", 1⟩ (some (.returns ⟨"return", 1⟩ (some (.int ⟨"1", 1⟩ 1)))) (some (.bool ⟨"false", 1⟩ false)) none
    ⟨⟨"\x7b", 1⟩, []⟩
  let f : FunctionData := ⟨"f", [], none, ⟨⟨"\x7b", 1⟩, [loop, .returns ⟨"return", 1⟩ (some (.int ⟨"2", 1⟩ 2))]⟩, 0⟩
  let m := Machine.initial (Host.initial default default) 10 ""
  obtain ⟨m', goes⟩ : ∃ m', apply (run 4) f 0 [] [] 1 m = .done (.int 2) m' := Outcome.done_of_result? rfl
  exact ⟨⟨"function", 1⟩, f, rfl, m, _, _, _, m', loop, _, asks_apply_first rfl rfl (by decide), asks_forLoop, rfl, goes⟩

end Eval

end ScriptEngine
