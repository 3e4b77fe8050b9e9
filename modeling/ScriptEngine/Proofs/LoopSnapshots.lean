import ScriptEngine.Proofs.FitAgain
import ScriptEngine.Proofs.MachineMoves
import ScriptEngine.Proofs.OrderedValues
import ScriptEngine.Proofs.WholeNumbers
/-!
# Loops over a container

A loop over a container takes down what it will visit before its body is run for the first time. So the body is run once for each
element that there was, and finds it in the loop variable, whatever it does to the container or to the variable. Only a round that
is interrupted, fails or leaves the loop puts an end to that.
-/

namespace ScriptEngine

/-! ## What is taken down -/

/-- What a loop over a container visits: the elements of an array, a queue or a list, the characters of a text, and the keys of an
object in rising order. The elements of a list of memory `s` are read as values that lie in memory `t`. -/
inductive Store.Visits (s t : Store) : Value → List Value → Prop
  | array (a : Nat) : Visits s t (.array a) (s.array a).cells.toList
  | queue (a : Nat) : Visits s t (.queue a) (s.queue a)
  | string (text : Text) : Visits s t (.string text) (text.chars.map fun c => .string (.ofChar c))
  | list {b buffer len : Nat} {items : List Value} (box : s.box b = .list buffer len)
      (read : List.Forall₂ (fun n v => t.Reads n.settle v) (s.items buffer len) items) : Visits s t (.json b) items
  | object {b a : Nat} {keys : List Text} (box : s.box b = .object a) (all : keys.Perm ((s.object a).map (·.1)))
      (rising : keys.Pairwise fun j k => k.before j = false) : Visits s t (.json b) (keys.map Value.string)

/-- A value is an array, a queue, a text, or a json value that is a list or an object. -/
def Store.Iterable (s : Store) : Value → Prop
  | .array _ | .queue _ | .string _ => True
  | .json b => (∃ buffer len, s.box b = .list buffer len) ∨ ∃ a, s.box b = .object a
  | _ => False

/-- A text that does not come before another is not less by its bytes. -/
theorem Text.before_eq_false_iff {j k : Text} : k.before j = false ↔
    (List.compareLex compare (j.bytes.map fun b => (b.toNat : Int)) (k.bytes.map fun b => (b.toNat : Int))).isLE = true := by
  unfold before
  rw [compareBytes_eq, Bool.eq_false_iff, ne_eq, beq_iff_eq, Ordering.isLE_iff_ne_gt]
  exact not_congr Std.OrientedCmp.gt_iff_lt.symm

namespace Eval

open StoreM

variable {s : Store}

/-- Texts are in a total order. -/
theorem not_before_total (j k : Text) : (!k.before j || !j.before k) = true := by
  rw [Bool.or_eq_true, Bool.not_eq_true', Bool.not_eq_true', Text.before_eq_false_iff, Text.before_eq_false_iff]
  rw [Ordering.isLE_iff_ne_gt, Ordering.isLE_iff_ne_gt]
  by_contra both
  rw [not_or, not_not, not_not, Std.OrientedCmp.gt_iff_lt] at both
  rw [both.1] at both
  cases both.2

theorem not_before_trans (i j k : Text) (first : (!j.before i) = true) (second : (!k.before j) = true) : (!k.before i) = true := by
  rw [Bool.not_eq_true', Text.before_eq_false_iff] at first second ⊢
  exact Std.TransCmp.isLE_trans first second

/-- The elements of a list are read one by one. -/
theorem does_mapM_ofNode (ns : List Node) :
    Does (fun _ => False) (fun vs t => List.Forall₂ (fun n v => t.Reads n.settle v) ns vs) (ns.mapM ofNode) s := by
  induction ns generalizing s with
  | nil => exact does_pure .nil
  | cons n ns ih =>
    rw [List.mapM_cons]
    refine does_bind (does_ofNode n) ?_
    intro v t _ read
    refine does_bind ih ?_
    intro vs u later reads
    exact does_pure (.cons (reads_later later read) reads)

/-- **What a loop visits is taken down at once.** That never fails, and nothing that was in memory is written to. -/
theorem visits_sequence {v : Value} (iterable : s.Iterable v) : Does (fun _ => False) (fun items t => s.Visits t v items) (sequence v) s := by
  refine does_get_bind ?_
  cases v with
  | array a => exact does_pure (.array a)
  | queue a => exact does_pure (.queue a)
  | string text => exact does_pure (.string text)
  | json b =>
    rcases iterable with ⟨buffer, len, box⟩ | ⟨a, box⟩
    · simp only [box]
      exact (does_mapM_ofNode _).mono fun items t _ read => .list box read
    · simp only [box]
      refine does_pure (.object box (List.mergeSort_perm ..) ?_)
      refine (List.pairwise_mergeSort not_before_trans not_before_total _).imp ?_
      intro j k notBefore
      simpa using notBefore
  | _ => exact iterable.elim

end Eval

/-! ## Rounds -/

/-- The machine in which the body of a loop begins: a new frame holds the loop variable. -/
def Machine.entered (item : Text) (v : Value) (m : Machine) : Machine :=
  let k := m.opened m.scope.top
  { k with store := { k.store with
      frames := k.store.frames.modify k.scope.top fun f => { f with bindings := setBinding item ⟨v, false, none, none⟩ f.bindings } } }

/-- An outcome behind a frame, which is popped unless there was a crash. -/
def Outcome.popped {α : Type} : Outcome α → Outcome α
  | .done a k => .done a k.popped
  | .failed f k => .failed f k.popped
  | r => r

namespace Eval

open Exec

variable {rec : Runner} {item : Text} {body : Block} {v w : Value} {m k : Machine}

/-- In the machine in which the body begins, the loop variable is bound to the value that is visited. -/
theorem bound_entered (item : Text) (v : Value) (m : Machine) : (m.entered item v).Bound item v := by
  have frame : (m.entered item v).store.frame m.store.frames.size = ⟨[(item, ⟨v, false, none, none⟩)], some m.scope.top⟩ := by
    show (((m.store.frames.push ⟨[], some m.scope.top⟩).modify m.store.frames.size _)[m.store.frames.size]?).getD default = _
    rw [Array.getElem?_modify, if_pos rfl, Array.getElem?_push_size]
    rfl
  refine ⟨m.store.frames.size, ⟨v, false, none, none⟩, ?_, rfl⟩
  show Store.lookupTo _ item (_ + 1) m.store.frames.size = _
  rw [Store.lookupTo, frame]
  simp

/-- The body of a loop is run in its own frame. -/
theorem inFrame_entered {α : Type} (x : Exec α) (item : Text) (v : Value) (m : Machine) :
    Exec.inFrame (do StoreM.define (← get).scope item v; x) m = (x (m.entered item v)).popped := by
  show Exec.within (fun k => k) Machine.popped x (m.entered item v) = _
  unfold Exec.within
  cases x (m.entered item v) with
  | done a k => rfl
  | failed f k => rfl
  | crashed why k => rfl
  | outOfFuel => rfl

/-- The body of a loop is run from some machines, one after the other, and lets the loop go on each time. No round is interrupted. Each
begins in a new frame, which is popped behind it. -/
inductive Rounds (rec : Runner) (item : Text) (body : Block) : List Machine → Machine → Machine → Prop
  | none (m : Machine) : Rounds rec item body [] m m
  | next {m k m' : Machine} {v : Value} {flow : Flow} {begun : List Machine} (quiet : m.host.interruption? = none)
      (ran : statements rec body.body (m.entered item v) = .done flow k) (goes : afterBody flow = Option.none)
      (later : Rounds rec item body begun k.popped m') : Rounds rec item body (m.entered item v :: begun) m m'

/-- How the round for a value ends a loop before its time: it is interrupted, leaves the loop or fails. -/
inductive Ends (rec : Runner) (item : Text) (body : Block) (v : Value) (m : Machine) : Outcome Flow → Prop
  | interrupted {why : Text} (asked : m.host.interruption? = some why) :
    Ends rec item body v m (.failed (Fault.ofClass .internal ("execution interrupted: " ++ why)) m)
  | broken {k : Machine} (quiet : m.host.interruption? = none) (ran : statements rec body.body (m.entered item v) = .done .broken k) :
    Ends rec item body v m (.done (.value .null) k.popped)
  | returned {k : Machine} {w : Value} (quiet : m.host.interruption? = none)
    (ran : statements rec body.body (m.entered item v) = .done (.returned w) k) :
    Ends rec item body v m (.done (.returned w) k.popped)
  | failed {k : Machine} {f : Fault} (quiet : m.host.interruption? = none)
    (ran : statements rec body.body (m.entered item v) = .failed f k) : Ends rec item body v m (.failed f k.popped)
  | crashed {k : Machine} {why : Text} (quiet : m.host.interruption? = none)
    (ran : statements rec body.body (m.entered item v) = .crashed why k) : Ends rec item body v m (.crashed why k)
  | outOfFuel (quiet : m.host.interruption? = none) (ran : statements rec body.body (m.entered item v) = .outOfFuel) :
    Ends rec item body v m .outOfFuel

/-- The rounds for values begin with the round for the first of them. -/
theorem eachRound_begins (rec : Runner) (item : Text) (body : Block) (v : Value) (rest : List Value) :
    eachRound rec item body (v :: rest) = (do
      Exec.checkInterrupt
      let flow ← Exec.inFrame do
        StoreM.define (← get).scope item v
        statements rec body.body
      match afterBody flow with
      | some f => pure f
      | none => eachRound rec item body rest) := rfl

/-- **One round.** It ends the loop, or the rounds for the other values follow. -/
theorem eachRound_cons (rec : Runner) (item : Text) (body : Block) (v : Value) (rest : List Value) (m : Machine) :
    Ends rec item body v m (eachRound rec item body (v :: rest) m) ∨
      ∃ flow k, m.host.interruption? = none ∧ statements rec body.body (m.entered item v) = .done flow k ∧ afterBody flow = none ∧
        eachRound rec item body (v :: rest) m = eachRound rec item body rest k.popped := by
  rw [eachRound_begins]
  cases asked : m.host.interruption? with
  | some why =>
    have stops : Exec.checkInterrupt m = .failed (Fault.ofClass .internal ("execution interrupted: " ++ why)) m := by
      rw [Exec.checkInterrupt, asked]
    left
    show Ends rec item body v m (Exec.andThen Exec.checkInterrupt _ m)
    rw [Exec.andThen, stops]
    exact .interrupted asked
  | none =>
    have quiet : Exec.checkInterrupt m = .done () m := by
      rw [Exec.checkInterrupt, asked]
    rw [Exec.bind_of_done quiet]
    have round := inFrame_entered (statements rec body.body) item v m
    cases ran : statements rec body.body (m.entered item v) with
    | done flow k =>
      rw [ran] at round
      rw [Exec.bind_of_done round]
      cases flow with
      | broken => exact .inl (.broken asked ran)
      | returned w => exact .inl (.returned asked ran)
      | value w => exact .inr ⟨.value w, k, rfl, rfl, rfl, rfl⟩
      | continued => exact .inr ⟨.continued, k, rfl, rfl, rfl, rfl⟩
    | failed f k =>
      left
      rw [ran] at round
      show Ends rec item body v m (Exec.andThen _ _ m)
      rw [Exec.andThen, round]
      exact .failed asked ran
    | crashed why k =>
      left
      rw [ran] at round
      show Ends rec item body v m (Exec.andThen _ _ m)
      rw [Exec.andThen, round]
      exact .crashed asked ran
    | outOfFuel =>
      left
      rw [ran] at round
      show Ends rec item body v m (Exec.andThen _ _ m)
      rw [Exec.andThen, round]
      exact .outOfFuel asked ran

/-- The loop variable holds a value. -/
def Holds (item : Text) (v : Value) (k : Machine) : Prop := ∀ line, nameValue line item k = .done v k

/-- How a loop that is to visit some values ends. The body is run once for each of them, in their order, and finds it in the loop
variable; or it is so for some of the values, and the round for the next one ends the loop. -/
inductive Visited (rec : Runner) (item : Text) (body : Block) (items : List Value) (m : Machine) : Outcome Flow → Prop
  | all {begun : List Machine} {m' : Machine} (rounds : Rounds rec item body begun m m') (held : List.Forall₂ (Holds item) items begun) :
    Visited rec item body items m (.done (.value .null) m')
  | some {seen unseen : List Value} {v : Value} {begun : List Machine} {m' : Machine} {r : Outcome Flow} (split : items = seen ++ v :: unseen)
    (rounds : Rounds rec item body begun m m') (held : List.Forall₂ (Holds item) seen begun) (ends : Ends rec item body v m' r) :
    Visited rec item body items m r

/-- **The rounds for values.** -/
theorem visited_eachRound (rec : Runner) (item : Text) (body : Block) (items : List Value) (m : Machine) :
    Visited rec item body items m (eachRound rec item body items m) := by
  induction items generalizing m with
  | nil => exact .all (.none m) .nil
  | cons v rest ih =>
    have holds : Holds item v (m.entered item v) := fun line => nameValue_of_bound line (bound_entered item v m)
    rcases eachRound_cons rec item body v rest m with ends | ⟨flow, k, quiet, ran, goes, same⟩
    · exact .some (List.nil_append _).symm (.none m) .nil ends
    · have visited := ih k.popped
      rw [← same] at visited
      generalize eachRound rec item body (v :: rest) m = r at visited
      cases visited with
      | all rounds held => exact .all (.next quiet ran goes rounds) (.cons holds held)
      | some split rounds held ends =>
        exact .some (congrArg (v :: ·) split) (.next quiet ran goes rounds) (.cons holds held) ends

/-! ## Loops over a container -/

/-- The machine on which the container of a loop is evaluated: the loop is recorded as being run. -/
def looping (line : Nat) (m : Machine) : Machine := { m with calls := ⟨"loop", "foreach", line⟩ :: m.calls }

/-- An outcome behind a loop, which is no longer recorded as being run unless there was a crash. -/
def behindLoop : Outcome Flow → Outcome Flow
  | .done f k => .done f { k with calls := k.calls.drop 1 }
  | .failed e k => .failed e { k with calls := k.calls.drop 1 }
  | r => r

/-- **A loop over a container visits what was there when it began.** When the container has been evaluated, all that the loop visits is
taken down, in memory `t`. If no round breaks, returns, fails or is interrupted, the body is run once for each of these values, in their
order and with the value in the loop variable, whatever the body does. Otherwise that is so up to the round that ends the loop. -/
theorem forEach_snapshot (rec : Runner) (fuel : Nat) {mark : Mark} {item : Text} {container : Expr} {body : Block} {m k : Machine}
    {v : Value} (evaluated : evaluate rec container (looping mark.line m) = .done v k) (iterable : k.store.Iterable v) :
    ∃ items t r, k.store.Visits t v items ∧ k.store.Later (fun _ => False) t ∧ Visited rec item body items { k with store := t } r ∧
      statement rec fuel (.forEach mark item container body) m = behindLoop r := by
  rcases visits_sequence iterable with ⟨items, t, run, later, visits⟩
  refine ⟨items, t, _, visits, later, visited_eachRound rec item body items { k with store := t }, ?_⟩
  have taken : (Exec.atLine mark.line (sequence v) : Exec (List Value)) k = .done items { k with store := t } := by
    unfold Exec.atLine
    rw [Exec.lift_ok run]
  have inside : (do
      let v ← evaluate rec container
      let items ← Exec.atLine mark.line (sequence v)
      eachRound rec item body items : Exec Flow) (looping mark.line m) = eachRound rec item body items { k with store := t } :=
    (Exec.bind_of_done evaluated).trans (Exec.bind_of_done taken)
  rw [← inside]
  show Exec.within (looping mark.line) (fun k => { k with calls := k.calls.drop 1 }) _ m = _
  unfold Exec.within
  split
  · rename_i ended
    exact (congrArg behindLoop ended).symm
  · rename_i ended
    exact (congrArg behindLoop ended).symm
  · rename_i ended
    exact (congrArg behindLoop ended).symm
  · rename_i ended
    exact (congrArg behindLoop ended).symm

/-- The body forgets the array that the loop is over, and changes the loop variable. The loop still visits both elements. -/
theorem forEach_snapshot_forgotten :
    let mark : Mark := ⟨"foreach", 1⟩
    let m : Machine := { Machine.initial (Host.initial default default) 10 "" with
      store := { Store.initial with
        arrays := #[⟨.int, false, .boxed #[.int 1, .int 2]⟩]
        frames := #[⟨[("a", ⟨.array 0, false, none, none⟩)], none⟩] } }
    let body : Block := ⟨mark, [.expr mark (.assign mark .set (.name mark "a") (.null mark)),
      .expr mark (.assign mark .set (.name mark "x") (.int mark 9))]⟩
    evaluate (run 3) (.name mark "a") (looping 1 m) = .done (.array 0) (looping 1 m) ∧ (looping 1 m).store.Iterable (.array 0) ∧
      ∃ t r, Visited (run 3) "x" body [.int 1, .int 2] { looping 1 m with store := t } r ∧
        statement (run 3) 3 (.forEach mark "x" (.name mark "a") body) m = behindLoop r := by
  intro mark m body
  have evaluated : evaluate (run 3) (.name mark "a") (looping 1 m) = .done (.array 0) (looping 1 m) := rfl
  have snapshot := @forEach_snapshot (run 3) 3 mark "x" (.name mark "a") body m (looping 1 m) (.array 0) evaluated trivial
  rcases snapshot with ⟨items, t, r, visits, -, visited, ran⟩
  cases visits
  exact ⟨evaluated, trivial, t, r, visited, ran⟩

end Eval

end ScriptEngine
