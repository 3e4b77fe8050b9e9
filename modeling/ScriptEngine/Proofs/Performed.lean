import ScriptEngine.Proofs.LinkedRun
/-!
# Parts that a run performs

A computation asks for a part of a program at a machine when a crash of the part there is a crash of the
computation: nothing handles a crash. A run performs the parts that it asks for, those that they ask for, and so on.

A part of a program may push frames, go to another scope, go deeper into calls and be recorded as being run. However
it ends, it undoes that: a construct that pushed a frame pops one, and behind a fault a block with handlers drops the frames above
those that it began with. Frames, calls and what is recorded come out even. Calls go no deeper than the machine allows.
-/

namespace ScriptEngine

/-- The bounds that every run from a machine keeps. -/
def Link.from (checked : Prop) (m : Machine) : Link where
  limit := max m.depth m.maxDepth
  maxDepth := m.maxDepth
  maxDepth_le := Nat.le_max_right _ _
  checked := checked
  escapes _ := False
  escapes_atLine _ _ h := h
  lost := False
  why := ""
  stop := m

/-- A machine is within its own bounds. -/
theorem Link.meets_from {checked : Prop} {m : Machine} (h : checked → m.Sound) : (Link.from checked m).Meets m :=
  ⟨Nat.le_max_left _ _, rfl, h⟩

namespace Eval

open Exec

variable {α : Type} {F : Runner → Exec α} {rec rec' : Runner} {L : Link} {m k : Machine} {u : Task}

open Classical in
/-- A runner with its run of one part at one machine replaced by a crash. -/
noncomputable def Runner.crashingAt (rec : Runner) (u : Task) (k : Machine) (why : Text) : Runner := fun t m =>
  if t = u ∧ m = k then .crashed why k else rec t m

/-- A computation that runs parts of a program asks for a part at a machine: if that crashed, so would the
computation. -/
def Asks (F : Runner → Exec α) (rec : Runner) (m : Machine) (u : Task) (k : Machine) : Prop :=
  ∀ why, F (rec.crashingAt u k why) m = .crashed why k

/-- With fuel `n`, running `t` at `m` performs the run of `u` at `k` with fuel `j`. All parts around that one are in
`around`. -/
inductive Performs (around : Task → Prop) : Nat → Task → Machine → Nat → Task → Machine → Prop where
  | here (n : Nat) (t : Task) (m : Machine) : Performs around n t m n t m
  | inside {n j : Nat} {t u v : Task} {m k l : Machine} (outer : around t)
    (asked : Asks (fun rec => step n rec t) (run n) m u k) (rest : Performs around n u k j v l) :
    Performs around (n + 1) t m j v l

/-- A computation links runs when the runner that it is given does. -/
def Links (L : Link) (F : Runner → Exec α) : Prop :=
  ∀ κ rec rec', Runner.Linked L rec rec' → Same L κ (F rec) (F rec')

theorem crashingAt_self (rec : Runner) (u : Task) (k : Machine) (why : Text) :
    rec.crashingAt u k why u k = .crashed why k := if_pos ⟨rfl, rfl⟩

theorem crashingAt_other {t : Task} (rec : Runner) (why : Text) (h : ¬ (t = u ∧ m = k)) :
    rec.crashingAt u k why t m = rec t m := if_neg h

/-- A runner with a replaced run is linked to another when they are linked at the run that is replaced in either. -/
theorem linked_crashingAt {r r' : Runner} (n : Nat) (hr : ∀ t m, ¬ (t = u ∧ m = k) → r t m = run n t m)
    (hr' : ∀ t m, ¬ (t = u ∧ m = k) → r' t m = run n t m)
    (h : ∀ κ, (L.checked → u.tight = true) → L.At κ k → Outcome.Linked L κ u.Promise (r u k) (r' u k)) :
    Runner.Linked L r r' := by
  intro κ t ht m hm
  by_cases same : t = u ∧ m = k
  · obtain ⟨rfl, rfl⟩ := same
    exact h κ ht hm
  · rw [hr t m same, hr' t m same]
    exact linked_run n κ t ht m hm

/-- Where a computation asks for a part, the machine is as the computation may meet it, and the part is tight. -/
theorem asked_met {n : Nat} (hF : Links L F) (hl : ¬ L.lost) (hm : L.Meets m) (asked : Asks F (run n) m u k) :
    L.Meets k ∧ (L.checked → u.tight = true) := by
  by_cases met : L.Meets k ∧ (L.checked → u.tight = true)
  · exact met
  -- if the part were not asked for, two different crashes there would not be told apart
  have linked : Runner.Linked L ((run n).crashingAt u k "") ((run n).crashingAt u k "x") :=
    linked_crashingAt n (fun t m => crashingAt_other _ _) (fun t m => crashingAt_other _ _)
      fun κ ht hk => absurd ⟨hk.toMeets, ht⟩ met
  have ends := hF _ _ _ linked m ⟨hm, rfl⟩
  rw [asked, asked] at ends
  exact absurd (ends.one_crash hl).1 (by decide)

/-! ## Computations that only run parts -/

/-- One level of running a part links runs. -/
theorem links_step (fuel : Nat) (t : Task) (ht : L.checked → t.tight = true) (hp : t.LetsPass L) :
    Links L fun rec => step fuel rec t := fun _ _ _ h => (linked_step h fuel t ht hp).same

/-- The statements of a source text link runs. -/
theorem links_program (p : Program) (ht : L.checked → p.body.all Stmt.tight = true) :
    Links L fun rec => program rec p := fun _ _ _ h => (linked_program h p ht).same

/-- The callback of a tick links runs in which no fault escapes. -/
theorem links_runTick (t : Timer.Tick) (hn : ∀ f, ¬ L.escapes f) : Links L fun rec => runTick rec t :=
  fun _ _ _ h => same_runTick h hn t

/-- An operator in front of an operand performs the operand. -/
theorem performs_operand {around : Task → Prop} (n : Nat) (mark : Mark) (op : UnaryOp) (e : Expr) (m : Machine)
    (outer : around (.expr (.unary mark op e))) :
    Performs around (n + 1) (.expr (.unary mark op e)) m n (.expr e) m := by
  refine .inside outer (fun why => ?_) (.here n _ m)
  change andThen ((run n).crashingAt (.expr e) m why (.expr e)) _ m = _
  unfold andThen
  rw [crashingAt_self]
  rfl

/-- The bounds that a run keeps hold at every part that it performs. -/
theorem performed_met {around : Task → Prop} {n j : Nat} {t v : Task} {m l : Machine}
    (hn : ∀ f, ¬ L.escapes f) (hl : ¬ L.lost) (performed : Performs around n t m j v l) (hm : L.Meets m)
    (ht : L.checked → t.tight = true) : L.Meets l ∧ (L.checked → v.tight = true) := by
  induction performed with
  | here n t m => exact ⟨hm, ht⟩
  | @inside n j t u v m k l outer asked rest ih =>
    obtain ⟨met, tight⟩ := asked_met (links_step n t ht (t.letsPass_of_none hn)) hl hm asked
    exact ih met tight

end Eval

/-! ## Scripts -/

namespace Machine

/-- The machine with another name of a source in use. -/
def withSource (name : Text) (m : Machine) : Machine := { m with host := { m.host with source := name } }

/-- The machine on which the statements of a source text start: the name of the source, if it has one, is in use. -/
def begun (source : Text) (m : Machine) : Machine := if source.isEmpty then m else m.withSource source

/-- The machine after the statements of a source text: the name from before is in use again. -/
def ended (source old : Text) (m : Machine) : Machine := if source.isEmpty then m else m.withSource old

/-- A source text ends as its statements do. -/
theorem runProgram_eq (n : Nat) (source : Text) (p : Program) (m : Machine) :
    m.runProgram n source p = match Eval.program (Eval.run n) p (m.begun source) with
      | .done flow k => (.left flow, k.ended source m.host.source)
      | .failed f k => (.faults [f], k.ended source m.host.source)
      | .crashed why k => (.crashed why, k)
      | .outOfFuel => (.outOfFuel, m) := by
  unfold runProgram
  extract_lets old setSource x y
  by_cases h : source.isEmpty = true
  · have plain : y = x := if_pos h
    have here : m.begun source = m := if_pos h
    have there (k : Machine) : k.ended source m.host.source = k := if_pos h
    simp only [plain, here, there]
    change _ = match x m with | .done .. => _ | .failed .. => _ | .crashed .. => _ | .outOfFuel => _
    cases x m <;> rfl
  · have inside : y = Exec.within (setSource source) (setSource old) x := if_neg h
    have here : m.begun source = setSource source m := if_neg h
    have there (k : Machine) : k.ended source m.host.source = setSource old k := if_neg h
    simp only [inside, here, there]
    change _ = match x (setSource source m) with | .done .. => _ | .failed .. => _ | .crashed .. => _ | .outOfFuel => _
    unfold Exec.within
    cases x (setSource source m) <;> rfl

end Machine

/-! ## What is asked for first -/

/-- The machine with a new frame, inside a given one, as its top frame. -/
def Machine.opened (outer : Nat) (m : Machine) : Machine :=
  { m with store := { m.store with frames := m.store.frames.push ⟨[], some outer⟩ },
           scope := m.scope.add m.store.frames.size }

/-- The machine in a frame of its own, with an entry in the record of what is being run. -/
def Machine.within (kind name : Text) (line : Nat) (m : Machine) : Machine :=
  Machine.opened m.scope.top { m with calls := ⟨kind, name, line⟩ :: m.calls }

/-- An outcome with a change of its machine, unless it is a crash. -/
def Outcome.behind {α : Type} (after : Machine → Machine) : Outcome α → Outcome α
  | .done a m => .done a (after m)
  | .failed e m => .failed e (after m)
  | r => r

/-- An outcome with a line for its fault, if it is one. -/
def Outcome.atLine {α : Type} (line : Nat) : Outcome α → Outcome α
  | .failed e m => .failed (e.atLine line) m
  | r => r

/-- An outcome with the scope cut back to a number of frames behind a fault. -/
def Outcome.unwound {α : Type} (depth : Nat) : Outcome α → Outcome α
  | .failed e m => .failed e { m with scope := m.scope.unwind depth }
  | r => r

namespace Exec

variable {α : Type}

/-- A computation between two changes of the machine. -/
theorem within_eq (before after : Machine → Machine) (x : Exec α) (m : Machine) :
    within before after x m = (x (before m)).behind after := by
  unfold within
  cases x (before m) <;> rfl

theorem atLine_eq (line : Nat) (x : Exec α) (m : Machine) : atLine line x m = (x m).atLine line := by
  unfold atLine
  cases x m <;> rfl

/-- A computation in a scope whose top frame is popped. -/
theorem popping_eq (scope : Scope) (x : Exec α) (m : Machine) :
    popping scope x m = (x { m with scope := scope }).behind Machine.popped := within_eq _ _ x m

/-- A computation in a fresh frame begins in that frame, which is popped behind it. -/
theorem inFrame_eq (x : Exec α) (m : Machine) : inFrame x m = (x (m.opened m.scope.top)).behind Machine.popped :=
  within_eq (fun k => k) Machine.popped x (m.opened m.scope.top)

theorem unwinding_eq (x : Exec α) (m : Machine) : unwinding x m = (x m).unwound m.scope.length := by
  unfold unwinding
  cases x m <;> rfl

end Exec

namespace Eval

open Exec

section Asked

variable {α β : Type} {rec : Runner} {m k : Machine} {u : Task} {s : Stmt}

/-- A computation that does nothing about crashes of another asks for what the other asks for. -/
theorem asks_around {F : Runner → Exec β} {x : Runner → Exec α} {ending : Outcome α → Outcome β} {l : Machine}
    (same : ∀ rec, F rec m = ending (x rec l)) (passes : ∀ r why, ending r = .crashed why k ↔ r = .crashed why k) :
    Asks F rec m u k ↔ Asks x rec l u k := by
  refine forall_congr' fun why => ?_
  rw [same, passes]

/-- A change of the machine behind a computation is no crash, and spares crashes. -/
theorem behind_crashed {after : Machine → Machine} {why : Text} (r : Outcome α) : r.behind after = .crashed why k ↔ r = .crashed why k := by
  cases r <;> simp [Outcome.behind]

variable {x : Runner → Exec α}

theorem asks_within {before after : Machine → Machine} :
    Asks (fun rec => within before after (x rec)) rec m u k ↔ Asks x rec (before m) u k :=
  asks_around (fun rec => within_eq before after (x rec) m) fun r _ => behind_crashed r

theorem asks_popping {scope : Scope} : Asks (fun rec => popping scope (x rec)) rec m u k ↔ Asks x rec { m with scope := scope } u k :=
  asks_around (fun rec => popping_eq scope (x rec) m) fun r _ => behind_crashed r

theorem asks_inFrame : Asks (fun rec => inFrame (x rec)) rec m u k ↔ Asks x rec (m.opened m.scope.top) u k :=
  asks_around (fun rec => inFrame_eq (x rec) m) fun r _ => behind_crashed r

theorem unwound_crashed {depth : Nat} {why : Text} (r : Outcome α) : r.unwound depth = .crashed why k ↔ r = .crashed why k := by
  cases r <;> simp [Outcome.unwound]

theorem asks_unwinding : Asks (fun rec => unwinding (x rec)) rec m u k ↔ Asks x rec m u k :=
  asks_around (fun rec => unwinding_eq (x rec) m) fun r _ => unwound_crashed r

theorem atLine_crashed {line : Nat} {why : Text} (r : Outcome α) : r.atLine line = .crashed why k ↔ r = .crashed why k := by
  cases r <;> simp [Outcome.atLine]

theorem asks_atLine {line : Nat} : Asks (fun rec => atLine line (x rec)) rec m u k ↔ Asks x rec m u k :=
  asks_around (fun rec => atLine_eq line (x rec) m) fun r _ => atLine_crashed r

/-- What the first of two computations asks for, both ask for. -/
theorem asks_first {f : Runner → α → Exec β} (asked : Asks x rec m u k) : Asks (fun rec => x rec >>= f rec) rec m u k := by
  intro why
  show andThen (x (rec.crashingAt u k why)) _ m = _
  rw [andThen, asked why]

theorem asks_statements (rec : Runner) (s : Stmt) (rest : List Stmt) (m : Machine) :
    Asks (fun rec => statements rec (s :: rest)) rec m (.stmt s) m := by
  intro why
  show statementsFrom _ _ (s :: rest) m = _
  rw [statementsFrom]
  dsimp only
  rw [crashingAt_self]

theorem asks_blockBody {b : Block} {rest : List Stmt} (body : b.body = s :: rest) :
    Asks (fun rec => blockBody rec b) rec m (.stmt s) (m.opened m.scope.top) := by
  refine asks_inFrame.mpr ?_
  rw [body]
  exact asks_statements rec s rest _

/-- What a computation with a handler asks for without it, it asks for with it. -/
theorem asks_guarded {handler : Runner → Fault → Exec α} (asked : Asks x rec m u k) :
    Asks (fun rec => tryCatch (x rec) (handler rec)) rec m u k := by
  intro why
  show rescue (x (rec.crashingAt u k why)) _ m = _
  rw [rescue, asked why]

/-- A block with handlers asks for its first statement. -/
theorem asks_tries {mark : Mark} {b : Block} {handlers : List Handler} {rest : List Stmt} {n : Nat} (body : b.body = s :: rest) :
    Asks (fun rec => step n rec (.stmt (.tries mark b handlers))) rec m (.stmt s) (m.within "try" "" mark.line) :=
  asks_within.mpr (asks_guarded (asks_unwinding.mpr (asks_blockBody body)))

theorem asks_testingRound_first {b : Block} {rest : List Stmt} {test : Expr} (body : b.body = s :: rest) (quiet : m.host.interruption? = none) :
    Asks (fun rec => testingRound rec b test) rec m (.stmt s) (m.opened m.scope.top) := by
  have ran : checkInterrupt m = .done () m := by
    rw [checkInterrupt, quiet]
  intro why
  have inside : blockBody (rec.crashingAt (.stmt s) (m.opened m.scope.top) why) b m = .crashed why _ := asks_blockBody body why
  refine (bind_of_done ran).trans ?_
  show andThen (blockBody _ b) _ m = _
  rw [andThen, inside]

theorem asks_doLoop {mark : Mark} {b : Block} {rest : List Stmt} {test : Expr} {n : Nat} (body : b.body = s :: rest)
    (quiet : m.host.interruption? = none) :
    Asks (fun rec => step (n + 1) rec (.stmt (.doLoop mark b test))) rec m (.stmt s) (m.within "loop" "do" mark.line) := by
  refine asks_within.mpr ?_
  simp only [rounds_succ]
  exact asks_first (asks_testingRound_first body quiet)

end Asked

end Eval

/-! ## Runs leave the context as they found it -/

/-- From one machine to another, what is allowed for the depth of calls stays, and depth that is allowed stays
allowed. -/
def Machine.KeepsDepth (m k : Machine) : Prop :=
  k.maxDepth = m.maxDepth ∧ (m.depth ≤ m.maxDepth → k.depth ≤ k.maxDepth)

/-- An outcome that leaves the context of a machine: a result or a fault leaves the same frames in the same order,
the same record of what is being run and the same depth of calls. A crash leaves an allowed depth. -/
def Outcome.Restores {α : Type} (m : Machine) : Outcome α → Prop
  | .done _ k | .failed _ k => k.scope = m.scope ∧ k.calls = m.calls ∧ k.depth = m.depth ∧ k.maxDepth = m.maxDepth
  | .crashed _ k => m.KeepsDepth k
  | .outOfFuel => True

/-- A machine within the bounds of another is not too deep in calls. -/
theorem Link.Meets.keepsDepth {checked : Prop} {m k : Machine} (h : (Link.from checked m).Meets k) :
    m.KeepsDepth k := by
  have depth : k.depth ≤ max m.depth m.maxDepth := h.depth
  have maxDepth : k.maxDepth = m.maxDepth := h.maxDepth
  refine ⟨maxDepth, fun allowed => ?_⟩
  rw [maxDepth]
  rwa [Nat.max_eq_right allowed] at depth

/-- Linked with itself, a run restores the context. -/
theorem Outcome.Linked.restores {α : Type} {checked : Prop} {promise : α → Prop} {m : Machine} {r : Outcome α}
    (h : Outcome.Linked (Link.from checked m) m.context promise r r) : r.Restores m := by
  have context {k : Machine} (met : (Link.from checked m).At m.context k) :
      k.scope = m.scope ∧ k.calls = m.calls ∧ k.depth = m.depth ∧ k.maxDepth = m.maxDepth := by
    have same := met.context
    unfold Machine.context at same
    simpa using same
  generalize other : r = r' at h
  cases h with
  | done met kept => exact context met
  | failed met => exact context met
  | crashed met => exact met.keepsDepth
  | outOfFuel => trivial
  | lost lost => exact lost.elim

namespace Eval

/-- A call fails, and nothing of the function runs, where calls are as deep as allowed. -/
theorem apply_at_limit (rec : Runner) (f : FunctionData) (outer : Nat) (args : List Value) (names : List Text)
    (line : Nat) {m : Machine} (h : m.maxDepth ≤ m.depth) : apply rec f outer args names line m =
      .failed ((Fault.raised Fault.anyError ("maximum call depth " ++ toString m.maxDepth
        ++ " exceeded calling " ++ f.name)).atLine line) m := by
  show (if m.maxDepth ≤ m.depth then _ else _ : Exec Value) m = _
  rw [if_pos h]
  rfl

/-- Every run restores the context. -/
theorem run_restores (n : Nat) (t : Task) (k : Machine) : (run n t k).Restores k :=
  have met : (Link.from False k).Meets k := Link.meets_from False.elim
  (linked_run n k.context t False.elim k ⟨met, rfl⟩).restores

/-- Every run of a part, or of the statements of a source text, restores the context, and so does every run that it
performs, at a machine that is not too deep in calls. A call does not start where that would be too deep. -/
theorem run_restores_context (fuel : Nat) (m : Machine) :
    (∀ t, (run fuel t m).Restores m) ∧
    (∀ p, (program (run fuel) p m).Restores m) ∧
    (∀ t j u k, Performs (fun _ => True) fuel t m j u k → m.KeepsDepth k ∧ (run j u k).Restores k) ∧
    (∀ p t l j u k, Asks (fun rec => program rec p) (run fuel) m t l → Performs (fun _ => True) fuel t l j u k →
      m.KeepsDepth k ∧ (run j u k).Restores k) ∧
    (∀ f outer args names line, m.maxDepth ≤ m.depth →
      ∃ e, apply (run fuel) f outer args names line m = .failed e m) := by
  have met : (Link.from False m).Meets m := Link.meets_from False.elim
  refine ⟨fun t => run_restores fuel t m, fun p => ?_, fun t j u k performed => ⟨?_, run_restores j u k⟩,
    fun p t l j u k asked performed => ⟨?_, run_restores j u k⟩, fun f outer args names line deep => ?_⟩
  · exact (linked_program (linked_run fuel) p False.elim m ⟨met, rfl⟩).restores
  · exact (performed_met (fun _ => id) id performed met False.elim).1.keepsDepth
  · have asked := asked_met (links_program p False.elim) id met asked
    exact (performed_met (fun _ => id) id performed asked.1 asked.2).1.keepsDepth
  · exact ⟨_, apply_at_limit _ f outer args names line deep⟩

/-- An exception is raised in a block with handlers inside a loop, two frames down, and the handler ends the loop. Where calls are as
deep as allowed, a function is not called. -/
theorem run_restores_context_raised :
    let raise : Stmt := .raise ⟨"raise", 1⟩ "ANY_ERROR" []
    let handler : Handler := ⟨⟨"exception", 1⟩, "ANY_ERROR", none, ⟨⟨"\x7b", 1⟩, [.breaks ⟨"break", 1⟩]⟩⟩
    let attempt : Stmt := .tries ⟨"try", 1⟩ ⟨⟨"\x7b", 1⟩, [raise]⟩ [handler]
    let loop : Stmt := .doLoop ⟨"do", 1⟩ ⟨⟨"\x7b", 1⟩, [attempt]⟩ (.bool ⟨"true", 1⟩ true)
    let m := Machine.initial (Host.initial default default) 10 ""
    let k := (m.within "loop" "do" 1).within "try" "" 1
    let f : FunctionData := ⟨"f", [], none, ⟨⟨"\x7b", 1⟩, [raise]⟩, 0⟩
    Performs (fun _ => True) 6 (.stmt loop) m 4 (.stmt raise) k ∧ k.scope.inner.length = m.scope.inner.length + 2 ∧
      (∃ f l, run 4 (.stmt raise) k = .failed f l) ∧ (m.KeepsDepth k ∧ (run 4 (.stmt raise) k).Restores k) ∧
      (run 6 (.stmt loop) m).isDone = true ∧ (run 6 (.stmt loop) m).Restores m ∧
      ∃ e, apply (run 6) f 0 [] [] 1 { m with depth := 10 } = .failed e { m with depth := 10 } := by
  intro raise handler attempt loop m k f
  have performs : Performs (fun _ => True) 6 (.stmt loop) m 4 (.stmt raise) k :=
    .inside trivial (asks_doLoop rfl rfl) (.inside trivial (asks_tries rfl) (.here 4 _ k))
  have raised : ∃ f l, run 4 (.stmt raise) k = .failed f l := ⟨_, _, rfl⟩
  have ends : (run 6 (.stmt loop) m).isDone = true := by decide +kernel
  obtain ⟨-, -, -, -, deep⟩ := run_restores_context 6 { m with depth := 10 }
  have limit : ∃ e, apply (run 6) f 0 [] [] 1 { m with depth := 10 } = .failed e { m with depth := 10 } :=
    deep f 0 [] [] 1 (Nat.le_refl 10)
  -- from here on the machine need not be known, and the runs need not be evaluated
  clear_value m
  obtain ⟨runs, -, parts, -⟩ := run_restores_context 6 m
  exact ⟨performs, rfl, raised, parts (.stmt loop) 4 (.stmt raise) k performs, ends, runs (.stmt loop), limit⟩

end Eval

end ScriptEngine
