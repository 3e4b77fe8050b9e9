import ScriptEngine.Proofs.MachineMoves
/-!
# The life of a machine

A host runs source texts and callbacks of timers on a machine, one after the other, and between them changes the world
around and the variables of owners. Whatever a machine goes through, and in the midst of each run, it only makes moves.

A statement may end a loop, a round of one or a function. In a machine that runs only source texts that were read
without faults, the signal goes no further than that: it never leaves the body of a function or a source text, and it
is never the value of an expression, nor is it kept in memory.

A file is marked when the program in it was read and before its statements run, and no mark is taken away. So an import
that comes later, in the midst of the file itself, behind it in the same run or in another run, finds the file marked and
does nothing. A file that cannot be read, or that holds no program, is not marked.
-/

namespace ScriptEngine

/-- Whether a kind is that of a control signal. -/
def Kind.isSignal : Kind → Bool
  | .returned | .broken | .continued | .error => true
  | _ => false

/-- No value is a control signal. -/
theorem Store.isSignal_kindOf (s : Store) (v : Value) : (s.kindOf v).isSignal = false := by
  cases v with
  | array a =>
    show (s.array a).cells.kind.isSignal = false
    cases (s.array a).cells with
    | _ => rfl
  | _ => rfl

/-- No variable, element of an array or element of a queue is a control signal. -/
structure Store.HoldsNoSignal (s : Store) : Prop where
  bindings : ∀ f ∈ s.frames, ∀ b ∈ f.bindings, (s.kindOf b.2.value).isSignal = false
  elements : ∀ d ∈ s.arrays, ∀ v ∈ d.cells.toList, (s.kindOf v).isSignal = false
  items : ∀ q ∈ s.queues, ∀ v ∈ q, (s.kindOf v).isSignal = false

/-- Whether an outcome leaves a machine. -/
def Outcome.EndsAt {α : Type} (k : Machine) : Outcome α → Prop
  | .done _ m | .failed _ m | .crashed _ m => m = k
  | .outOfFuel => False

/-- The machine that a linked outcome leaves is as it may be met. -/
theorem Outcome.Linked.meets {L : Link} {κ : Machine.Context} {α : Type} {promise : α → Prop} {r r' : Outcome α}
    {k : Machine} (h : Outcome.Linked L κ promise r r') (hl : ¬ L.lost) (ends : r.EndsAt k) : L.Meets k := by
  cases h with
  | done met kept =>
    cases ends
    exact met.toMeets
  | failed met =>
    cases ends
    exact met.toMeets
  | crashed met =>
    cases ends
    exact met
  | outOfFuel => exact ends.elim
  | escaped met escapes =>
    cases ends
    exact met.toMeets
  | lost lost => exact absurd lost hl

namespace Eval

open Exec

/-- What a machine is made to do from outside: to run the statements of a source text, or the callback of a tick. -/
inductive Activity where
  | script (p : Program)
  | callback (t : Timer.Tick)

/-- Runs an activity. -/
def Activity.run (rec : Runner) : Activity → Exec Unit
  | .script p => do let _ ← program rec p
  | .callback t => runTick rec t

/-- A source text is run when it was read without faults. -/
def Activity.Accepted : Activity → Prop
  | .script p => ∃ c text, Program.parse c text = (p, [])
  | .callback _ => True

/-- A script ends where the statements of its text end. -/
theorem Activity.endsAt_script {rec : Runner} {p : Program} {m k : Machine} (ends : (program rec p m).EndsAt k) :
    ((Activity.script p).run rec m).EndsAt k := by
  change (andThen (program rec p) (fun _ => pure ()) m).EndsAt k
  unfold andThen
  generalize program rec p m = r at ends
  cases r <;> exact ends

/-- An activity links runs in which no fault escapes. -/
theorem links_activity {L : Link} {a : Activity} (h : a.Accepted) (hn : ∀ f, ¬ L.escapes f) :
    Links L fun rec => a.run rec := by
  cases a with
  | script p =>
    obtain ⟨c, text, read⟩ := h
    have tight := tight_parse c text
    rw [read] at tight
    exact fun κ rec rec' linked => linked_same_bind (links_program p (fun _ => tight) κ rec rec' linked) fun _ =>
      same_pure _
  | callback t => exact links_runTick t hn

end Eval

open Eval in
/-- The machines that come about: from one that has run nothing, by activities, in the midst of them, and by any
change that leaves functions and plugins alone. -/
inductive Machine.Reachable : Machine → Prop where
  | initial (host : Host) (maxDepth : Nat) (importDir : Text) (plugins : host.plugins.KeepClosed) :
    Reachable (Machine.initial host maxDepth importDir)
  | changed {m k : Machine} (h : Reachable m) (functions : k.store.functions = m.store.functions)
    (plugins : k.host.plugins = m.host.plugins) : Reachable k
  | after {m k : Machine} (h : Reachable m) (fuel : Nat) (a : Activity) (accepted : a.Accepted)
    (ends : (a.run (run fuel) m).EndsAt k) : Reachable k
  /-- Where the run of a part begins. -/
  | beginning {m l k : Machine} (h : Reachable m) (fuel : Nat) (a : Activity) (accepted : a.Accepted) {t u : Task}
    {j : Nat} (asked : Asks (fun rec => a.run rec) (run fuel) m t l)
    (performed : Performs (fun _ => True) fuel t l j u k) : Reachable k
  /-- Where it ends. -/
  | ending {m l k k' : Machine} (h : Reachable m) (fuel : Nat) (a : Activity) (accepted : a.Accepted) {t u : Task}
    {j : Nat} (asked : Asks (fun rec => a.run rec) (run fuel) m t l)
    (performed : Performs (fun _ => True) fuel t l j u k) (ends : (run j u k).EndsAt k') : Reachable k'

namespace Machine.Reachable

open Eval

/-- No function of a reachable machine has a loose loop control in its body. -/
theorem sound {m : Machine} (h : m.Reachable) : m.Sound := by
  have none (m : Machine) : ∀ f, ¬ (Link.from True m).escapes f := fun _ => id
  induction h with
  | initial host maxDepth importDir plugins => exact ⟨fun f hf => absurd hf (Array.not_mem_empty f), plugins⟩
  | changed h functions plugins ih =>
    refine ⟨?_, plugins ▸ ih.plugins⟩
    unfold Store.Closed
    rw [functions]
    exact ih.functions
  | @after m k h fuel a accepted ends ih =>
    have met : (Link.from True m).Meets m := Link.meets_from fun _ => ih
    have linked := links_activity accepted (none m) m.context _ _ (linked_run fuel) m ⟨met, rfl⟩
    exact (linked.meets id ends).sound trivial
  | @beginning m l k h fuel a accepted t u j asked performed ih =>
    have met : (Link.from True m).Meets m := Link.meets_from fun _ => ih
    have asked := asked_met (links_activity accepted (none m)) id met asked
    exact (performed_met (none m) id performed asked.1 asked.2).1.sound trivial
  | @ending m l k k' h fuel a accepted t u j asked performed ends ih =>
    have met : (Link.from True m).Meets m := Link.meets_from fun _ => ih
    have asked := asked_met (links_activity accepted (none m)) id met asked
    have performed := performed_met (none m) id performed asked.1 asked.2
    have linked := linked_run j k.context u performed.2 k ⟨performed.1, rfl⟩
    exact (linked.meets id ends).sound trivial

end Machine.Reachable

/-! ## What a host does -/

open Eval in
/-- A property of machines that neither a change of the world around takes away nor anything a machine is made to do. -/
structure Machine.Lasting (P : Machine → Prop) : Prop where
  hosted : ∀ {m : Machine}, P m → ∀ host : Host, host.plugins = m.host.plugins → P { m with host := host }
  activity : ∀ {m k : Machine}, P m → ∀ (fuel : Nat) (a : Activity), a.Accepted → (a.run (run fuel) m).EndsAt k → P k

/-- Reachable machines stay reachable. -/
theorem Machine.Reachable.lasting : Machine.Lasting Machine.Reachable where
  hosted h _ plugins := h.changed rfl plugins
  activity h fuel a accepted ends := h.after fuel a accepted ends

namespace Exec

open Eval

variable {α β : Type} {P : Machine → Prop}

/-- A computation that leads from machines with a property to machines with it. -/
def Carries (P : Machine → Prop) (x : Exec α) : Prop := ∀ m k, P m → (x m).EndsAt k → P k

theorem carries_pure (a : α) : Carries P (pure a) := fun _ _ h ends => ends ▸ h

theorem carries_bind {x : Exec α} {f : α → Exec β} (hx : Carries P x) (hf : ∀ a, Carries P (f a)) : Carries P (x >>= f) := by
  intro m k h ends
  have first := fun l => hx m l h
  change (andThen x f m).EndsAt k at ends
  unfold andThen at ends
  generalize x m = r at first ends
  cases r with
  | done a l => exact hf a l k (first l rfl) ends
  | failed e l => exact first k ends
  | crashed why l => exact first k ends
  | outOfFuel => exact ends.elim

theorem carries_onTimers (lasting : Machine.Lasting P) (f : Scheduler → α × Scheduler) : Carries P (onTimers f) :=
  fun _ _ h ends => ends ▸ lasting.hosted h _ (plugins_logTimers _)

theorem carries_runTick (lasting : Machine.Lasting P) (fuel : Nat) (t : Timer.Tick) : Carries P (runTick (run fuel) t) :=
  fun _ _ h ends => lasting.activity h fuel (.callback t) trivial ends

theorem carries_rounds {round : Exec (Option α)} (h : Carries P round) (n : Nat) : Carries P (rounds round n) := by
  induction n with
  | zero => exact fun _ _ _ ends => ends.elim
  | succ n ih =>
    rw [rounds_succ]
    refine carries_bind h fun o => ?_
    cases o with
    | some a => exact carries_pure a
    | none => exact ih

theorem carries_pumpUpTo (lasting : Machine.Lasting P) (fuel n done : Nat) : Carries P (pumpUpTo (run fuel) n done) := by
  induction n generalizing done with
  | zero => exact carries_pure done
  | succ n ih =>
    refine carries_bind (carries_onTimers lasting _) fun tick => ?_
    cases tick with
    | some t => exact carries_bind (carries_runTick lasting fuel t) fun _ => ih _
    | none => exact carries_pure done

end Exec

namespace Machine

open Exec

variable {P : Machine → Prop} (lasting : Lasting P)
include lasting

/-- A lasting property outlasts the callbacks of the ticks in wait. -/
theorem Lasting.pump (fuel : Nat) : Carries P (Machine.pump fuel) :=
  fun m k h ends => carries_pumpUpTo lasting fuel _ 0 m k h ends

theorem Lasting.loopRound (fuel deadline : Nat) : Carries P (Machine.loopRound fuel deadline) := by
  refine carries_bind (fun _ _ h ends => ends ▸ h) fun w => ?_
  extract_lets s
  split
  · exact carries_bind (lasting.pump fuel) fun _ => carries_pure _
  split
  · exact carries_pure _
  · refine carries_bind (carries_onTimers lasting _) fun tick => ?_
    cases tick with
    | some t => exact carries_bind (carries_runTick lasting fuel t) fun _ => carries_pure _
    | none => exact carries_bind (carries_onTimers lasting _) fun _ => carries_pure _

/-- It outlasts timers that run. -/
theorem Lasting.runLoop (fuel span : Nat) : Carries P (Machine.runLoop fuel span) := by
  intro m k h ends
  unfold Machine.runLoop at ends
  extract_lets deadline setDeadline at ends
  have moved (d : Option Nat) {l : Machine} (h : P l) : P (setDeadline d l) := lasting.hosted h _ rfl
  have inner := fun l => carries_rounds (lasting.loopRound fuel deadline) fuel _ l (moved (some deadline) h)
  unfold Exec.within at ends
  generalize Eval.rounds _ _ _ = r at inner ends
  cases r with
  | done a l => exact ends ▸ moved _ (inner l rfl)
  | failed e l => exact ends ▸ moved _ (inner l rfl)
  | crashed why l => exact inner k ends
  | outOfFuel => exact ends.elim

/-- It outlasts the reading and running of a source text. -/
theorem Lasting.runSource {m : Machine} (h : P m) (fuel : Nat) (text source : Text) : P (m.runSource fuel text source).2 := by
  unfold Machine.runSource
  split
  · next p read =>
    have begun : P (m.begun source) := by
      unfold Machine.begun
      split
      · exact h
      · exact lasting.hosted h _ rfl
    have ended {k : Machine} (hk : P k) : P (k.ended source m.host.source) := by
      unfold Machine.ended
      split
      · exact hk
      · exact lasting.hosted hk _ rfl
    have after (k : Machine) (ends : (Eval.program (Eval.run fuel) p (m.begun source)).EndsAt k) : P k :=
      lasting.activity begun fuel (.script p) ⟨_, _, read⟩ (Eval.Activity.endsAt_script ends)
    rw [runProgram_eq]
    generalize Eval.program _ _ _ = r at after
    cases r with
    | done flow k => exact ended (after k rfl)
    | failed f k => exact ended (after k rfl)
    | crashed why k => exact after k rfl
    | outOfFuel => exact h
  · exact h

end Machine

namespace Eval

open Exec

/-- In a reachable machine, no expression and no call has a control signal as its value, no signal to end a loop or a
round of one leaves the body of a function, no signal at all leaves a source text, and memory holds none. -/
theorem signals_stay_inside {m : Machine} (reached : m.Reachable) (fuel : Nat) :
    (∀ e v k, run fuel (.expr e) m = .done v k → (k.store.kindOf v).isSignal = false) ∧
    (∀ f outer args names line v k, apply (run fuel) f outer args names line m = .done v k →
      (k.store.kindOf v).isSignal = false) ∧
    (∀ a flow k, statements (run fuel) (m.store.function a).body.body m = .done flow k → flow.endsLoop = false) ∧
    (∀ c text p flow k, Program.parse c text = (p, []) → program (run fuel) p m = .done flow k →
      flow.isSignal = false) ∧
    m.store.HoldsNoSignal := by
  have met : (Link.from True m).At m.context m := ⟨Link.meets_from fun _ => reached.sound, rfl⟩
  refine ⟨fun _ v k _ => k.store.isSignal_kindOf v, fun _ _ _ _ _ v k _ => k.store.isSignal_kindOf v,
    fun a flow k ends => ?_, fun c text p flow k read ends => ?_, ?_⟩
  · have closed := reached.sound.functions.function a
    rw [Block.closed, Bool.and_eq_true, Bool.not_eq_true'] at closed
    have linked := linked_statements (linked_run fuel) (m.store.function a).body (fun _ => closed.2) m met
    rw [ends] at linked
    cases linked with
    | done met kept => exact Bool.eq_false_iff.mpr fun he => absurd (kept he) (Bool.eq_false_iff.mp closed.1)
  · have tight := tight_parse c text
    have firm := firm_parse c text
    rw [read] at tight firm
    have linked := linked_program (linked_run fuel) p (fun _ => tight) m met
    rw [ends] at linked
    cases linked with
    | done met kept => exact kept rfl firm
  · exact ⟨fun _ _ b _ => m.store.isSignal_kindOf b.2.value, fun _ _ v _ => m.store.isSignal_kindOf v,
      fun _ _ v _ => m.store.isSignal_kindOf v⟩

/-- A loop that is left at once leaves no signal behind on a new machine without plugins. -/
theorem signals_stay_inside_break :
    (Machine.initial (Host.initial default default) 10 "").Reachable ∧
      ∀ flow k, program (run 5) (Program.parse ⟨⟨[]⟩, ⟨[]⟩⟩ "while (true) { break; }").1
        (Machine.initial (Host.initial default default) 10 "") = .done flow k → flow.isSignal = false := by
  have reached : (Machine.initial (Host.initial default default) 10 "").Reachable :=
    .initial _ _ _ fun _ mem => absurd mem List.not_mem_nil
  have read : Program.parse ⟨⟨[]⟩, ⟨[]⟩⟩ "while (true) { break; }" =
      ((Program.parse ⟨⟨[]⟩, ⟨[]⟩⟩ "while (true) { break; }").1, []) := rfl
  exact ⟨reached, fun flow k => (signals_stay_inside reached 5).2.2.2.1 _ _ _ flow k read⟩

end Eval

open Eval Exec

/-- An end of a computation that makes moves is led to by moves. -/
theorem Outcome.Moves.precedes {α : Type} {m k : Machine} {r : Outcome α} (h : r.Moves m) (ends : r.EndsAt k) :
    m.Precedes k := by
  cases r with
  | done a l => exact ends ▸ h.1
  | failed f l => exact ends ▸ h.1
  | crashed why l => exact ends ▸ h
  | outOfFuel => exact ends.elim

/-- What a machine is made to do from outside makes moves. -/
theorem Eval.moving_activity (a : Activity) : Moving fun rec => a.run rec := by
  intro c rec rec' h
  cases a with
  | script p => exact moves_bind (moves_program h p) fun _ => moves_pure _
  | callback t => exact moves_runTick h t

namespace Machine

variable {start m k : Machine}

/-- Another world around, with the same plugins, is a move away. -/
theorem precedes_withHost (m : Machine) {host : Host} (plugins : host.plugins = m.host.plugins) :
    m.Precedes { m with host := host } :=
  Beside.precedes ⟨rfl, rfl, rfl, rfl, rfl, rfl, rfl, rfl, plugins⟩

/-! ## Lives -/

/-- The machines that come about in the life of one: by what a host does with it, and in the midst of that. -/
inductive Lives (start : Machine) : Machine → Prop where
  | start : Lives start start
  /-- The world around changes, and the host sets the variables of owners. -/
  | hosted {m : Machine} (h : Lives start m) (host : Host) (plugins : host.plugins = m.host.plugins)
    (owners : List (Text × List (Text × Value))) : Lives start { m with host := host, owners := owners }
  /-- What the machine was made to do ends. -/
  | activity {m k : Machine} (h : Lives start m) (fuel : Nat) (a : Activity) (ends : (a.run (run fuel) m).EndsAt k) :
    Lives start k
  /-- The run of a part begins, in the midst of what the machine is made to do. -/
  | beginning {m l k : Machine} (h : Lives start m) (fuel : Nat) (a : Activity) {t u : Task} {j : Nat}
    (asked : Asks (fun rec => a.run rec) (run fuel) m t l)
    (performed : Performs (fun _ => True) fuel t l j u k) : Lives start k
  /-- It ends. -/
  | ending {m l k k' : Machine} (h : Lives start m) (fuel : Nat) (a : Activity) {t u : Task} {j : Nat}
    (asked : Asks (fun rec => a.run rec) (run fuel) m t l)
    (performed : Performs (fun _ => True) fuel t l j u k) (ends : (run j u k).EndsAt k') : Lives start k'

/-- To come about in the life of a machine lasts. -/
theorem Lives.lasting : Lasting (Lives start) where
  hosted h host plugins := h.hosted host plugins _
  activity h fuel a _ ends := h.activity fuel a ends

/-- A source text is run. -/
theorem Lives.source (h : start.Lives m) (fuel : Nat) (text source : Text) : start.Lives (m.runSource fuel text source).2 :=
  Lives.lasting.runSource h fuel text source

/-- The callbacks of the ticks in wait are run. -/
theorem Lives.pumped (h : start.Lives m) (fuel : Nat) (ends : (m.pump fuel).EndsAt k) : start.Lives k :=
  Lives.lasting.pump fuel m k h ends

/-- Timers are run. -/
theorem Lives.looped (h : start.Lives m) (fuel span : Nat) (ends : (runLoop fuel span m).EndsAt k) : start.Lives k :=
  Lives.lasting.runLoop fuel span m k h ends

/-- Whatever comes about in the life of a machine, the machine is led to it by moves. -/
theorem Lives.precedes (h : start.Lives m) : start.Precedes m := by
  induction h with
  | start => exact .refl start
  | @hosted m h host plugins owners ih =>
    have owned : m.Precedes { m with owners := owners } := ⟨_, .owned m owners⟩
    exact ih.trans (owned.trans (precedes_withHost { m with owners := owners } plugins))
  | @activity m k h fuel a ends ih =>
    have moves := moving_activity a ⟨"", "", m⟩ _ _ (moves_run _ fuel)
    exact ih.trans ((moves m).moves.precedes ends)
  | beginning h fuel a asked performed ih =>
    exact ih.trans ((asked_precedes (moving_activity a) asked).trans (performed_precedes performed))
  | @ending m l k k' h fuel a t u j asked performed ends ih =>
    have begun := (asked_precedes (moving_activity a) asked).trans (performed_precedes performed)
    exact ih.trans (begun.trans ((run_moves j u k).precedes ends))

end Machine

/-! ## Files are imported once -/

/-- The files whose running begins were not marked before, and none of them begins to run twice. -/
theorem Machine.Leads.nodup {m k : Machine} {files : List Text} (h : m.Leads files k) :
    files.Nodup ∧ ∀ file ∈ files, file ∉ m.imported := by
  induction h with
  | opened _ _ ih => exact ih
  | back _ ih => exact ih
  | imports fresh read =>
    exact ⟨List.nodup_cons.mpr ⟨List.not_mem_nil, List.nodup_nil⟩, fun file mem => List.mem_singleton.mp mem ▸ fresh⟩
  | @trans m l k files more first second ih ih' =>
    -- what ran first was marked when the second part began
    have unmarked (file : Text) (mem : file ∈ more) : file ∉ files ∧ file ∉ m.imported := by
      have new := ih'.2 file mem
      rw [first.imported, List.mem_append] at new
      exact not_or.mp new
    refine ⟨List.nodup_append.mpr ⟨ih'.1, ih.1, fun file mem other mem' same => ?_⟩, fun file mem => ?_⟩
    · exact (unmarked file mem).1 (same ▸ mem')
    · obtain mem | mem := List.mem_append.mp mem
      · exact (unmarked file mem).2
      · exact ih.2 file mem
  | _ => exact ⟨List.nodup_nil, fun _ mem => absurd mem List.not_mem_nil⟩

namespace Eval

variable {α : Type} {F : Runner → Exec α} {n j i : Nat} {t u v : Task} {m k l : Machine} {file name : Text} {p : Program}

/-! ## Later parts -/

/-- A computation runs the part `u` at `k`, with fuel `j`, and that ends before it begins to run the part `v` at `l`, with
fuel `i`. Both are at some depth below the computation. -/
inductive EndsBefore (j : Nat) (u : Task) (k : Machine) (i : Nat) (v : Task) (l : Machine) :
    {α : Type} → (Runner → Exec α) → Nat → Machine → Prop where
  | apart {α : Type} {F : Runner → Exec α} {n : Nat} {m k' l' : Machine} {u' v' : Task}
    (before : AsksBefore F (run n) m u' k' v' l') (first : Performs (fun _ => True) n u' k' j u k)
    (second : Performs (fun _ => True) n v' l' i v l) : EndsBefore j u k i v l F n m
  | inside {α : Type} {F : Runner → Exec α} {n : Nat} {m q : Machine} {t : Task} (asked : Asks F (run (n + 1)) m t q)
    (rest : EndsBefore j u k i v l (fun rec => step n rec t) n q) : EndsBefore j u k i v l F (n + 1) m

/-- The part `u` is run at `k` with fuel `j`, and the machine is `l` at a later point: where a part begins in the midst
of that, where one begins behind it in the same run, or where the machine gets when the run has ended. -/
inductive Later (j : Nat) (u : Task) (k l : Machine) : Prop where
  | amid {t v : Task} {n i : Nat} {q : Machine} (pred : j = n + 1) (asked : Asks (fun rec => step n rec u) (run n) k t q)
    (performed : Performs (fun _ => True) n t q i v l)
  | behind {m : Machine} {n i : Nat} {v : Task} (a : Activity) (ends : EndsBefore j u k i v l (fun rec => a.run rec) n m)
  | after {m q m' : Machine} {n : Nat} {t : Task} (a : Activity) (asked : Asks (fun rec => a.run rec) (run n) m t q)
    (performed : Performs (fun _ => True) n t q j u k) (ends : (a.run (run n) m).EndsAt m') (lives : m'.Lives l)

/-- A file that is marked where a part ends is marked where a part begins behind it. -/
theorem EndsBefore.marked (before : EndsBefore j u k i v l F n m) (hF : Moving F)
    (ends : (run j u k).Ends fun q => file ∈ q.imported) : file ∈ l.imported := by
  induction before with
  | apart before first second => exact (performed_precedes second).imported (asked_later hF before (performed_ends first ends))
  | inside asked rest ih => exact ih (moving_step _ _)

/-! ## Imports -/

/-- An import that finds its file marked does nothing. -/
theorem imports_marked (mark : Mark) (marked : m.importKey name ∈ m.imported) :
    run (n + 1) (.stmt (.imports mark name)) m = .done (.value .null) m := by
  change andThen (importFile (run n) mark.line name) (fun _ => pure (Flow.value .null)) m = _
  rw [andThen, importFile_eq, if_pos marked]
  rfl

/-- An import of a file that is not marked and cannot be read, or holds no program, changes nothing. -/
theorem imports_unread (mark : Mark) {f : Fault} (fresh : m.importKey name ∉ m.imported)
    (unread : m.importProgram mark.line name = .error f) :
    run (n + 1) (.stmt (.imports mark name)) m = .failed f m := by
  change andThen (importFile (run n) mark.line name) (fun _ => pure (Flow.value .null)) m = _
  rw [andThen, importFile_eq, if_neg fresh, unread]
  rfl

/-- An import of a file that is not marked and holds a program marks it and runs the statements in the global frame. -/
theorem imports_read (rec : Runner) (mark : Mark) (fresh : m.importKey name ∉ m.imported)
    (read : m.importProgram mark.line name = .ok p) :
    step n rec (.stmt (.imports mark name)) m =
      (inScope m.scope.detach (program rec p) >>= fun _ => pure (Flow.value .null)) (m.marked name) := by
  change andThen (importFile rec mark.line name) (fun _ => pure (Flow.value .null)) m =
    andThen (inScope m.scope.detach (program rec p)) (fun _ => pure (Flow.value .null)) (m.marked name)
  rw [andThen, importFile_eq, if_neg fresh, read]
  change andThen (andThen (inScope m.scope.detach (program rec p)) fun _ => pure ()) _ (m.marked name) = _
  unfold andThen
  cases inScope m.scope.detach (program rec p) (m.marked name) <;> rfl

/-- What runs in an import is led to from where the file got marked. -/
theorem imports_moves {rec : Runner} (h : ∀ c, Runner.Moves c rec rec) (mark : Mark) (fresh : m.importKey name ∉ m.imported)
    (read : m.importProgram mark.line name = .ok p) :
    (step n rec (.stmt (.imports mark name)) m).Moves (m.marked name) := by
  rw [imports_read rec mark fresh read]
  have ran := inScope_moves (moves_program (h ⟨"", "", m⟩) p _) ⟨_, .detached (m.marked name)⟩ rfl
  exact (bind_moves ran fun _ k later same => (moves_pure _ k).after later same).moves

/-- A file whose running has begun is marked later. -/
theorem marked_later (mark : Mark) (fresh : k.importKey name ∉ k.imported)
    (read : k.importProgram mark.line name = .ok p) (later : Later (n + 1) (.stmt (.imports mark name)) k l) :
    k.importKey name ∈ l.imported := by
  have here : k.importKey name ∈ (k.marked name).imported := List.mem_cons_self
  have ends : (run (n + 1) (.stmt (.imports mark name)) k).Ends fun q => k.importKey name ∈ q.imported :=
    (imports_moves (fun c => moves_run c n) mark fresh read).passed (c := ⟨k.importKey name, "", k⟩) here
  cases later with
  | @amid t v n' i q pred asked performed =>
    cases pred
    -- the import is followed up to where the later part begins, by a crash there
    have crashing (c : Cut) : Runner.Moves c ((run n).crashingAt t q "") ((run n).crashingAt t q "") :=
      fun s => moves_uncut (crashingAt_moves n t q "" s)
    have led : (step n ((run n).crashingAt t q "") (.stmt (.imports mark name)) k).Moves (k.marked name) :=
      imports_moves crashing mark fresh read
    rw [show step n ((run n).crashingAt t q "") (.stmt (.imports mark name)) k = .crashed "" q from asked ""] at led
    exact (Machine.Precedes.trans led (performed_precedes performed)).imported here
  | behind a before => exact before.marked (moving_activity a) ends
  | @after m q m' n' t a asked performed finished lives =>
    -- the mark is still there where the whole run ends, and from there on
    have marked := asked_ends (moving_activity a) asked (performed_ends performed ends)
    have there : k.importKey name ∈ m'.imported := by
      generalize a.run (run n') m = r at marked finished
      cases r with
      | outOfFuel => exact finished.elim
      | _ => exact finished ▸ marked
    exact lives.precedes.imported there

/-- An import of a file that is marked yields null and does nothing. One of a file that cannot be read, or holds no
program, ends in a fault and changes nothing, so the file is not marked then. One of any other file marks it and runs its
statements, and from then on, in the midst of them or later in the life of the machine, every import of the file yields null
and does nothing. Marked are the files whose running began in the life of the machine, each once. -/
theorem imports_once (n : Nat) (mark : Mark) (name : Text) (m : Machine) :
    (m.importKey name ∈ m.imported → run (n + 1) (.stmt (.imports mark name)) m = .done (.value .null) m) ∧
    (∀ f, m.importKey name ∉ m.imported → m.importProgram mark.line name = .error f →
      run (n + 1) (.stmt (.imports mark name)) m = .failed f m) ∧
    (∀ p, m.importKey name ∉ m.imported → m.importProgram mark.line name = .ok p →
      run (n + 1) (.stmt (.imports mark name)) m =
        (inScope m.scope.detach (program (run n) p) >>= fun _ => pure (Flow.value .null)) (m.marked name) ∧
      ∀ l, Later (n + 1) (.stmt (.imports mark name)) m l →
        ∀ i other name', l.importKey name' = m.importKey name →
          run (i + 1) (.stmt (.imports other name')) l = .done (.value .null) l) ∧
    ∀ host maxDepth importDir, (Machine.initial host maxDepth importDir).Lives m →
      ∃ files, (Machine.initial host maxDepth importDir).Leads files m ∧ files.Nodup ∧ m.imported = files := by
  refine ⟨imports_marked mark, fun f fresh unread => imports_unread mark fresh unread, fun p fresh read =>
    ⟨imports_read (run n) mark fresh read, fun l later i other name' same => imports_marked other ?_⟩,
    fun host maxDepth importDir lives => ?_⟩
  · rw [same]
    exact marked_later mark fresh read later
  · obtain ⟨files, leads⟩ := lives.precedes
    exact ⟨files, leads, leads.nodup.1, by rw [leads.imported]; exact List.append_nil files⟩

end Eval

end ScriptEngine
