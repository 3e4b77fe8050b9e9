import ScriptEngine.Proofs.Performed
/-!
# Faults pass outward

A fault of a part ends every part around it in the same fault, up to a block with a handler that takes it. Nothing
takes an internal fault. Faults of callbacks that run while a script waits are logged and pass no further.
-/

namespace ScriptEngine

/-- A fault is another one, perhaps with its line set. -/
def Fault.Becomes (e f : Fault) : Prop := f = e.atLine f.line

namespace Fault

theorem becomes_refl (e : Fault) : e.Becomes e := by
  unfold Becomes atLine
  split <;> rfl

/-- A fault becomes itself, or, when its line is not known, itself at a line. -/
theorem Becomes.cases {e f : Fault} (h : e.Becomes f) : f = e ∨ e.line = 0 ∧ ∃ line, f = { e with line := line } := by
  unfold Becomes Fault.atLine at h
  split at h
  · next unknown => exact .inr ⟨unknown, f.line, h⟩
  · exact .inl h

theorem Becomes.unknown {e : Fault} (h : e.line = 0) (line : Nat) : e.Becomes { e with line := line } := by
  unfold Becomes Fault.atLine
  rw [if_pos h]

/-- Setting the line of a fault leaves all else. -/
theorem Becomes.atLine {e f : Fault} (h : e.Becomes f) (line : Nat) : e.Becomes (f.atLine line) := by
  unfold Fault.atLine
  split
  · next unknown =>
    rcases h.cases with rfl | ⟨he, line', rfl⟩
    · exact Becomes.unknown unknown line
    · exact Becomes.unknown he line
  · exact h

theorem Becomes.trans {e f g : Fault} (h : e.Becomes f) (k : f.Becomes g) : e.Becomes g := by
  rcases k.cases with rfl | ⟨hf, line, rfl⟩
  · exact h
  · rcases h.cases with rfl | ⟨he, line', rfl⟩
    · exact k
    · exact Becomes.unknown he line

theorem Becomes.kind {e f : Fault} (h : e.Becomes f) : f.kind = e.kind := by
  rcases h.cases with rfl | ⟨-, line, rfl⟩
  · rfl
  · rfl

theorem Becomes.category {e f : Fault} (h : e.Becomes f) : f.category = e.category := by
  rcases h.cases with rfl | ⟨-, line, rfl⟩
  · rfl
  · rfl
end Fault
/-- What links a run to one in which a part crashes in the place of a fault. -/
def Link.ofFault (m : Machine) (e : Fault) (why : Text) (stop : Machine) : Link :=
  { Link.from False m with escapes := e.Becomes, escapes_atLine := fun _ line h => h.atLine line, why, stop }

/-- An outcome that is a fault, perhaps with its line set. -/
def Outcome.FailsWith {α : Type} (e : Fault) : Outcome α → Prop
  | .failed f _ => e.Becomes f
  | _ => False

/-- A text whose run ends in a fault, perhaps with its line set. -/
def RunResult.FailsWith (e : Fault) : RunResult → Prop
  | .faults fs => ∃ f, fs = [f] ∧ e.Becomes f
  | _ => False

namespace Eval

open Exec

/-- Whether a part is no wait. Callbacks run in waits. -/
def Task.NoWait : Task → Prop
  | .sleep _ => False
  | _ => True

/-- A part lets a fault of a part inside it through: it is no wait, and it has no handler that takes the fault. -/
def Task.LetsThrough (e : Fault) : Task → Prop
  | .sleep _ => False
  | .stmt (.tries _ _ handlers) =>
    e.kind = .internal ∨ ∀ h ∈ handlers, h.category ≠ Fault.anyError ∧ h.category ≠ e.category
  | _ => True

/-- Everything but waits lets internal faults through. -/
theorem Task.NoWait.letsThrough {e : Fault} {t : Task} (h : t.NoWait) (internal : e.kind = .internal) :
    t.LetsThrough e := by
  cases t with
  | expr x => trivial
  | sleep span => exact h
  | stmt s =>
    cases s with
    | tries mark body handlers => exact .inl internal
    | _ => trivial

/-- What lets a fault through lets it through at a line. -/
theorem Task.LetsThrough.becomes {e f : Fault} {t : Task} (h : t.LetsThrough e) (becomes : e.Becomes f) :
    t.LetsThrough f := by
  cases t with
  | expr x => trivial
  | sleep span => exact h
  | stmt s =>
    cases s with
    | tries mark body handlers =>
      unfold LetsThrough at *
      rwa [becomes.kind, becomes.category]
    | _ => trivial

/-- No handler of a block takes a fault that the block lets through. -/
theorem Task.LetsThrough.letsPass {e : Fault} {t : Task} (h : t.LetsThrough e) (m : Machine) (why : Text)
    (stop : Machine) : t.LetsPass (Link.ofFault m e why stop) := by
  cases t with
  | expr x => trivial
  | sleep span => exact h.elim
  | stmt s =>
    cases s with
    | tries mark body handlers =>
      intro f becomes
      rcases h.becomes becomes with internal | others
      · left
        unfold Fault.catchable
        rw [internal]
        rfl
      · right
        refine List.find?_eq_none.mpr fun handler mem => ?_
        simpa using others handler mem
    | _ => trivial

/-- A computation ends in the fault of a part that it asks for, when it handles none of that kind. -/
theorem fails_of_asked {α : Type} {F : Runner → Exec α} {n : Nat} {m k k' : Machine} {u : Task} {e : Fault}
    (hF : ∀ why, Links (Link.ofFault m e why k) F) (asked : Asks F (run n) m u k)
    (failed : run n u k = .failed e k') : (F (run n) m).FailsWith e := by
  -- the crash that stands in the place of the fault is to differ from one that the computation may end in
  have differs : ∃ why, ∀ k, F (run n) m ≠ .crashed why k := by
    generalize F (run n) m = r
    cases r with
    | crashed why' k =>
      by_cases h : why' = ""
      · refine ⟨"x", fun k he => ?_⟩
        cases he
        exact absurd h (by decide)
      · refine ⟨"", fun k he => ?_⟩
        cases he
        exact h rfl
    | _ => exact ⟨"", fun _ he => nomatch he⟩
  obtain ⟨why, differs⟩ := differs
  have linked : Runner.Linked (Link.ofFault m e why k) (run n) ((run n).crashingAt u k why) := by
    refine linked_crashingAt n (fun _ _ _ => rfl) (fun _ _ => crashingAt_other _ _) fun κ ht hk => ?_
    have kept := linked_run n κ u ht k hk
    rw [failed] at kept ⊢
    rw [crashingAt_self]
    generalize other : Outcome.failed e k' = r at kept
    cases kept with
    | failed met =>
      cases other
      exact .escaped met e.becomes_refl
    | lost lost => exact lost.elim
    | _ => cases other
  have ends := hF why _ _ _ linked m ⟨⟨Nat.le_max_left _ _, rfl, False.elim⟩, rfl⟩
  rw [asked why] at ends
  generalize F (run n) m = r at ends differs
  generalize stop : Outcome.crashed why k = r' at ends
  cases ends with
  | escaped met escapes => exact escapes
  | crashed met =>
    cases stop
    exact absurd rfl (differs k)
  | lost lost => exact lost.elim
  | _ => cases stop

/-- A fault passes through the parts around it that let it through. -/
theorem fault_passes {n j : Nat} {t u : Task} {m k k' : Machine} {e : Fault}
    (performed : Performs (Task.LetsThrough e) n t m j u k) (failed : run j u k = .failed e k') :
    (run n t m).FailsWith e := by
  induction performed with
  | here n t m =>
    rw [failed]
    exact e.becomes_refl
  | @inside n j t u v m k l outer asked rest ih =>
    have inner := ih failed
    cases ends : run n u k with
    | failed f k' =>
      rw [ends] at inner
      have reached : (step n (run n) t m).FailsWith f :=
        fails_of_asked (fun why => links_step n t False.elim ((outer.becomes inner).letsPass m why k)) asked ends
      show (step n (run n) t m).FailsWith e
      generalize step n (run n) t m = r at reached
      cases r with
      | failed g m' => exact Fault.Becomes.trans inner reached
      | _ => exact reached.elim
    | _ =>
      rw [ends] at inner
      exact inner.elim

/-- So it passes through the statements of a source text. -/
theorem fault_passes_program {n j : Nat} {p : Program} {t u : Task} {m l k k' : Machine} {e : Fault}
    (asked : Asks (fun rec => program rec p) (run n) m t l)
    (performed : Performs (Task.LetsThrough e) n t l j u k) (failed : run j u k = .failed e k') :
    (program (run n) p m).FailsWith e := by
  have inner := fault_passes performed failed
  cases ends : run n t l with
  | failed f l' =>
    rw [ends] at inner
    have reached := fails_of_asked (fun _ => links_program p False.elim) asked ends
    generalize program (run n) p m = r at reached ⊢
    cases r with
    | failed g m' => exact Fault.Becomes.trans inner reached
    | _ => exact reached.elim
  | _ =>
    rw [ends] at inner
    exact inner.elim

theorem Performs.mono {around wider : Task → Prop} {n j : Nat} {t u : Task} {m k : Machine}
    (h : Performs around n t m j u k) (hw : ∀ t, around t → wider t) : Performs wider n t m j u k := by
  induction h with
  | here n t m => exact .here n t m
  | inside outer asked rest ih => exact .inside (hw _ outer) asked ih

/-- No handler runs for an internal fault of a block: its end is the end of the block with handlers. -/
theorem guarded_internal (n : Nat) (body : Block) (handlers : List Handler) {m m' : Machine} {e : Fault}
    (internal : e.kind = .internal) (failed : blockBody (run n) body m = .failed e m') :
    guarded (run n) body handlers m = .failed e m' := by
  have restores : (blockBody (run n) body m).Restores m :=
    (linked_blockBody (linked_run n) body False.elim m ⟨Link.meets_from False.elim, rfl⟩).restores
  rw [failed] at restores
  have unwound : unwinding (blockBody (run n) body) m = .failed e m' := by
    rw [unwinding, failed]
    dsimp only
    rw [← restores.1, Scope.unwind_length]
  show rescue _ _ m = _
  unfold rescue
  rw [unwound]
  dsimp only
  rw [show e.catchable = false by unfold Fault.catchable; rw [internal]; rfl]
  rfl

/-! ## Lines -/

theorem hoist_done (ss : List Stmt) (m : Machine) : ∃ m', hoist ss m = .done () m' := by
  induction ss generalizing m with
  | nil => exact ⟨m, rfl⟩
  | cons s ss ih =>
    cases s with
    | function mark name params result body => exact ih _
    | _ => exact ih m

/-- A fault of statements of the outermost level has a line when they have. -/
theorem line_of_programFrom {rec : Runner} {ss : List Stmt} (hs : ∀ s ∈ ss, 1 ≤ s.line) (last : Flow)
    (m : Machine) {m' : Machine} {f : Fault} (failed : programFrom rec last ss m = .failed f m') : 1 ≤ f.line := by
  induction ss generalizing last m with
  | nil => cases failed
  | cons s ss ih =>
    have rest := ih fun s mem => hs s (List.mem_cons_of_mem _ mem)
    unfold programFrom at failed
    cases ends : rec (.stmt s) m with
    | done flow k =>
      rw [ends] at failed
      cases flow with
      | returned v => cases failed
      | _ => exact rest _ _ failed
    | failed e k =>
      rw [ends] at failed
      cases failed
      unfold Fault.atLine
      split
      · exact hs s List.mem_cons_self
      · omega
    | _ =>
      rw [ends] at failed
      cases failed

/-- Every fault of a source text that was read has a line. -/
theorem line_of_program {rec : Runner} {c : Catalog} {text : Text} {m m' : Machine} {f : Fault}
    (failed : program rec (Program.parse c text).1 m = .failed f m') : 1 ≤ f.line := by
  obtain ⟨k, hoisted⟩ := hoist_done (Program.parse c text).1.body m
  have ran : andThen (hoist _) (fun _ => programFrom rec (.value .null) _) m = _ := failed
  unfold andThen at ran
  rw [hoisted] at ran
  exact line_of_programFrom (fun s hs => (Program.parse_promise c text s hs).line) _ _ ran

/-! ## Scripts -/

/-- A fault of any part that a run performs is the end of the run, and of the whole script, unless a block around it
has a handler that takes it, or a wait around it runs callbacks. Nothing handles an internal fault. Every fault that is
the end of a script has a line. -/
theorem faults_reach_the_outside (n : Nat) (m : Machine) :
    (∀ t j u k e k', Performs (Task.LetsThrough e) n t m j u k → run j u k = .failed e k' →
      (run n t m).FailsWith e) ∧
    (∀ t j u k e k', e.kind = .internal → Performs Task.NoWait n t m j u k → run j u k = .failed e k' →
      (run n t m).FailsWith e) ∧
    (∀ body handlers e m', e.kind = .internal → blockBody (run n) body m = .failed e m' →
      guarded (run n) body handlers m = .failed e m') ∧
    (∀ source p t l j u k e k', Asks (fun rec => program rec p) (run n) (m.begun source) t l →
      Performs (Task.LetsThrough e) n t l j u k → run j u k = .failed e k' →
      (m.runProgram n source p).1.FailsWith e) ∧
    (∀ source p t l j u k e k', e.kind = .internal → Asks (fun rec => program rec p) (run n) (m.begun source) t l →
      Performs Task.NoWait n t l j u k → run j u k = .failed e k' → (m.runProgram n source p).1.FailsWith e) ∧
    (∀ source c text fs, (m.runProgram n source (Program.parse c text).1).1 = .faults fs → ∀ f ∈ fs, 1 ≤ f.line) := by
  have script (source : Text) (p : Program) (e : Fault) (h : (program (run n) p (m.begun source)).FailsWith e) :
      (m.runProgram n source p).1.FailsWith e := by
    rw [Machine.runProgram_eq]
    generalize program (run n) p (m.begun source) = r at h
    cases r with
    | failed f k => exact ⟨f, rfl, h⟩
    | _ => exact h.elim
  refine ⟨fun _ _ _ _ _ _ performed => fault_passes performed, fun t j u k e k' internal performed => ?_,
    fun body handlers _ _ => guarded_internal _ body handlers, fun source p t l j u k e k' asked performed failed => ?_,
    fun source p t l j u k e k' internal asked performed failed => ?_, fun source c text fs ends f mem => ?_⟩
  · exact fault_passes (performed.mono fun _ noWait => noWait.letsThrough internal)
  · exact script source p e (fault_passes_program asked performed failed)
  · have through := performed.mono fun _ noWait => noWait.letsThrough internal
    exact script source p e (fault_passes_program asked through failed)
  · rw [Machine.runProgram_eq] at ends
    cases failed : program (run n) (Program.parse c text).1 (m.begun source) with
    | failed g k =>
      rw [failed] at ends
      cases ends
      rw [List.mem_singleton.mp mem]
      exact line_of_program failed
    | _ =>
      rw [failed] at ends
      exact nomatch ends

/-- The fault of a name that is not defined passes through the negation around it. -/
theorem faults_reach_the_outside_undefined :
    ∃ e, run 1 (.expr (.name ⟨"x", 1⟩ "x")) (Machine.initial (Host.initial default default) 10 "") =
        .failed e (Machine.initial (Host.initial default default) 10 "") ∧
      (run 2 (.expr (.unary ⟨"-", 1⟩ .negate (.name ⟨"x", 1⟩ "x")))
        (Machine.initial (Host.initial default default) 10 "")).FailsWith e :=
  ⟨_, rfl, (faults_reach_the_outside 2 (Machine.initial (Host.initial default default) 10 "")).1 _ 1 _ _ _ _
    (performs_operand 1 ⟨"-", 1⟩ .negate _ _ trivial) rfl⟩

end Eval

end ScriptEngine
