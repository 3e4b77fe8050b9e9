import Mathlib.Data.List.Nodup
import Mathlib.Tactic.SplitIfs
import ScriptEngine.Proofs.TrimmedTexts
import ScriptEngine.Timer
/-!
# The register of timers

What the callers of a scheduler, its workers, its tickers and the taker of its ticks do, in any order, is told as steps. A call
has the scheduler to itself and so is one step. Of a worker each thing that others can notice is a step of its own; it may be
overtaken between any two of them, and when it has the choice to go on or to leave it may do either. The functions that let time
pass and take ticks put these steps in one particular order.

Whatever the callers ask for, and however the workers are overtaken while they do it, each timer that runs has the one worker
that was not told to stop, and names and limit are kept. The workers' own steps change nothing that this rests on (`Kept`). The
calls change it in a few ways, by telling a worker to stop, by a new worker and by a new timer, and each of these keeps timers
and workers together (`Staffed`).
-/

namespace ScriptEngine.Scheduler

/-- One step of a scheduler to another, and the ticks that it posts, each with the number of its timer. -/
inductive Step (s : Scheduler) : List (Nat × Timer.Tick) → Scheduler → Prop where
  | start (name : Text) (period : Int) (callback : Option Value) (owner : Text) :
    Step s [] (s.startEvery name period callback owner).2
  | pause (name : Text) : Step s [] (s.pause name).2
  | resume (name : Text) : Step s [] (s.resume name).2
  | stop (name : Text) : Step s [] (s.stop name).2
  | stopOwner (owner : Text) : Step s [] (s.stopOwner owner).2
  | shut : Step s [] s.shut
  | later {time : Nat} (h : s.now ≤ time) : Step s [] { s with now := time }
  | ring {w : Nat} (due : (s.worker w).due ≤ s.now) : Step s [] (s.ring w)
  | load (w : Nat) : Step s [] (s.load w)
  | send {w fire : Nat} (offers : (s.worker w).stage = .offering fire) (room : s.queue.length < s.capacity) :
    Step s [((s.worker w).timer, (s.entry (s.worker w).timer).tick fire)] (s.send w)
  | hand {w : Nat} {t : Timer.Tick} {k : Scheduler} (handed : s.hand? w = some (t, k)) : Step s [((s.worker w).timer, t)] k
  | tally (w : Nat) : Step s [] (s.tally w)
  | leave (w : Nat) : Step s [] (s.leave w)
  | queueUp (w : Nat) : Step s [] (s.queueUp w)
  | take {t : Timer.Tick} {rest : List Timer.Tick} (queue : s.queue = t :: rest) : Step s [] { s with queue := rest }
  | drain : Step s [] s.drain.2

/-- Steps one after the other, and the ticks that they post. -/
inductive Runs (s : Scheduler) : List (Nat × Timer.Tick) → Scheduler → Prop where
  | refl : Runs s [] s
  | tail {k l : Scheduler} {p q : List (Nat × Timer.Tick)} (runs : Runs s p k) (step : Step k q l) : Runs s (p ++ q) l

variable {s k l : Scheduler} {p q : List (Nat × Timer.Tick)} {w : Nat}

theorem Step.runs (step : Step s p k) : Runs s p k := by
  simpa only [List.nil_append] using Runs.refl.tail step

theorem Runs.quiet (runs : Runs s p k) (step : Step k [] l) : Runs s p l := by
  simpa only [List.append_nil] using runs.tail step

theorem Runs.trans (first : Runs s p k) (second : Runs k q l) : Runs s (p ++ q) l := by
  induction second with
  | refl => rwa [List.append_nil]
  | tail _ step ih =>
    rw [← List.append_assoc]
    exact ih.tail step

/-! ## Workers that go as far as they can -/

theorem send_idle (idle : ∀ fire, (s.worker w).stage ≠ .offering fire) : s.send w = s := by
  cases stage : (s.worker w).stage with
  | offering fire => exact absurd stage (idle fire)
  | _ => simp only [send, stage]

theorem send_full (full : s.capacity ≤ s.queue.length) : s.send w = s := by
  cases stage : (s.worker w).stage with
  | offering fire => simp only [send, stage, if_neg (Nat.not_lt.mpr full)]
  | _ => simp only [send, stage]

/-- A worker posts what it can, or nothing. -/
theorem runs_send (s : Scheduler) (w : Nat) : ∃ posts, Runs s posts (s.send w) := by
  by_cases offers : ∃ fire, (s.worker w).stage = .offering fire
  · obtain ⟨fire, offers⟩ := offers
    by_cases room : s.queue.length < s.capacity
    · exact ⟨_, (Step.send offers room).runs⟩
    · rw [send_full (Nat.le_of_not_lt room)]
      exact ⟨_, .refl⟩
  · rw [send_idle fun fire offers' => offers ⟨fire, offers'⟩]
    exact ⟨_, .refl⟩

theorem runs_go (s : Scheduler) (w : Nat) : ∃ posts, Runs s posts (s.go w) := by
  obtain ⟨posts, sent⟩ := runs_send (s.load w) w
  exact ⟨_, (((Step.load w).runs.trans sent).quiet (.tally w)).quiet (.queueUp w)⟩

/-- The ticker that rings first is the ticker of a worker. -/
theorem due_of_nextDue? {due : Nat} (h : s.nextDue? = some (w, due)) : due = (s.worker w).due := by
  -- what the search through the timers keeps is that the best one so far goes with its own time
  unfold nextDue? at h
  refine List.foldlRecOn (motive := fun best => ∀ v d, best = some (v, d) → d = (s.worker v).due) s.timers _ ?_ ?_ w due h
  · exact fun _ _ none => nomatch none
  · intro best ih t _ v d found
    grind

theorem runs_step? {time : Nat} (h : s.step? time = some k) : ∃ posts, Runs s posts k := by
  unfold step? at h
  split at h
  · cases h
  · rename_i w due found
    obtain ⟨_, h⟩ := Option.ite_none_left_eq_some.mp h
    cases h
    -- time goes on to when the ticker is due, which may be past already
    have rung : Runs s [] ({ s with now := max s.now due }.ring w) :=
      (Step.later (Nat.le_max_left _ _)).runs.quiet (.ring (due_of_nextDue? found ▸ Nat.le_max_right _ _))
    obtain ⟨posts, gone⟩ := runs_go ({ s with now := max s.now due }.ring w) w
    exact ⟨_, rung.trans gone⟩

theorem runs_advanceTo (s : Scheduler) (time n : Nat) : ∃ posts, Runs s posts (s.advanceTo time n) := by
  induction n generalizing s with
  | zero => exact ⟨_, (Step.later (Nat.le_max_left _ _)).runs⟩
  | succ n ih =>
    unfold advanceTo
    split
    · rename_i k step
      obtain ⟨_, first⟩ := runs_step? step
      obtain ⟨_, others⟩ := ih k
      exact ⟨_, first.trans others⟩
    · exact ⟨_, (Step.later (Nat.le_max_left _ _)).runs⟩

/-- Time passes by the steps of tickers and workers. -/
theorem runs_advance (s : Scheduler) (span : Nat) : ∃ posts, Runs s posts (s.advance span) :=
  runs_advanceTo s _ _

/-- A tick is taken by the steps of its taker and of the workers that have waited for it. -/
theorem runs_take? {t : Timer.Tick} (h : s.take? = some (t, k)) : ∃ posts, Runs s posts k := by
  cases queue : s.queue with
  | nil =>
    cases blocked : s.blocked with
    | nil => simp only [take?, queue, blocked, reduceCtorEq] at h
    | cons w _ =>
      simp only [take?, queue, blocked] at h
      obtain ⟨⟨_, s'⟩, handed, same⟩ := Option.map_eq_some_iff.mp h
      cases same
      obtain ⟨_, gone⟩ := runs_go (s'.tally w) w
      exact ⟨_, ((Step.hand handed).runs.quiet (.tally w)).trans gone⟩
  | cons t' rest =>
    have taken := (Step.take queue).runs
    cases blocked : s.blocked with
    | nil =>
      have same : some (t', { s with queue := rest }) = some (t, k) := by
        rw [← h]
        simp only [take?, queue, blocked]
      cases same
      exact ⟨_, taken⟩
    | cons w _ =>
      have same : some (t', ({ s with queue := rest }.go w).go w) = some (t, k) := by
        rw [← h]
        simp only [take?, queue, blocked]
      cases same
      obtain ⟨_, first⟩ := runs_go { s with queue := rest } w
      obtain ⟨_, second⟩ := runs_go ({ s with queue := rest }.go w) w
      exact ⟨_, (taken.trans first).trans second⟩

/-- Closing is to shut the scheduler, and then each worker leaves. -/
theorem runs_close (s : Scheduler) : Runs s.shut [] s.close := by
  have each (ws : List Nat) (k : Scheduler) (runs : Runs s.shut [] k) :
      Runs s.shut [] (ws.foldl (fun s w => (s.tally w).leave w) k) := by
    induction ws generalizing k with
    | nil => exact runs
    | cons w ws ih => exact ih _ ((runs.quiet (.tally w)).quiet (.leave w))
  exact each _ _ .refl

end ScriptEngine.Scheduler

namespace ScriptEngine.Scheduler

/-! ## Timers and workers by number -/

variable {α : Type} {s : Scheduler} {a b v w : Nat}

/-! ## One timer or worker changed -/

theorem entry_of_size_le (h : s.entries.size ≤ a) : s.entry a = default := by
  rw [entry, Array.getElem?_eq_none h, Option.getD_none]

theorem worker_of_size_le (h : s.workers.size ≤ w) : s.worker w = default := by
  rw [worker, Array.getElem?_eq_none h, Option.getD_none]

theorem entry_withEntry (f : Timer → Timer) :
    (s.withEntry a f).entry b = if b = a ∧ b < s.entries.size then f (s.entry b) else s.entry b := by
  simp only [entry, withEntry, Array.getElem?_modify]
  by_cases inside : b < s.entries.size
  · simp only [Array.getElem?_eq_getElem inside, inside, and_true, eq_comm (a := b)]
    split_ifs <;> rfl
  · simp only [Array.getElem?_eq_none (Nat.le_of_not_lt inside), inside, and_false, if_false, Option.map_none, ite_self]

theorem worker_withWorker (f : Timer.Worker → Timer.Worker) :
    (s.withWorker w f).worker v = if v = w ∧ v < s.workers.size then f (s.worker v) else s.worker v := by
  simp only [worker, withWorker, Array.getElem?_modify]
  by_cases inside : v < s.workers.size
  · simp only [Array.getElem?_eq_getElem inside, inside, and_true, eq_comm (a := v)]
    split_ifs <;> rfl
  · simp only [Array.getElem?_eq_none (Nat.le_of_not_lt inside), inside, and_false, if_false, Option.map_none, ite_self]

/-- What a change to a timer leaves alone is the same for all timers. -/
theorem same_withEntry (g : Timer → α) {f : Timer → Timer} (same : ∀ t, g (f t) = g t) :
    g ((s.withEntry a f).entry b) = g (s.entry b) := by
  rw [entry_withEntry]
  split_ifs
  · exact same _
  · rfl

/-- What a change to a worker leaves alone is the same for all workers. -/
theorem same_withWorker (g : Timer.Worker → α) {f : Timer.Worker → Timer.Worker} (same : ∀ x, g (f x) = g x) :
    g ((s.withWorker w f).worker v) = g (s.worker v) := by
  rw [worker_withWorker]
  split_ifs
  · exact same _
  · rfl

@[simp] theorem entry_withWorker (f : Timer.Worker → Timer.Worker) : (s.withWorker w f).entry a = s.entry a := rfl

@[simp] theorem size_withEntry (f : Timer → Timer) : (s.withEntry a f).entries.size = s.entries.size :=
  Array.size_modify ..

@[simp] theorem size_withWorker (f : Timer.Worker → Timer.Worker) : (s.withWorker w f).workers.size = s.workers.size :=
  Array.size_modify ..

/-! ## A worker told to stop -/

theorem lt_of_stop (h : (s.entry a).stop = some w) : a < s.entries.size := by
  refine Nat.lt_of_not_le fun beyond => ?_
  rw [entry_of_size_le beyond] at h
  cases h

theorem entry_cancel : (s.cancel a).entry b = { s.entry b with stop := if b = a then none else (s.entry b).stop } := by
  by_cases same : b = a
  · subst same
    cases stop : (s.entry b).stop with
    | none =>
      simp only [cancel, stop, if_true]
      rw [← stop]
    | some w =>
      simp only [cancel, stop, if_true]
      rw [entry_withEntry, if_pos ⟨rfl, by exact lt_of_stop stop⟩]
      rfl
  · simp only [if_neg same]
    cases stop : (s.entry a).stop with
    | none => simp only [cancel, stop]
    | some w =>
      simp only [cancel, stop]
      rw [entry_withEntry, if_neg fun h => same h.1]
      rfl

theorem worker_cancel : (s.cancel a).worker v =
    if (s.entry a).stop = some v ∧ v < s.workers.size then { s.worker v with told := (s.worker v).told + 1 }
    else s.worker v := by
  cases stop : (s.entry a).stop with
  | none => simp only [cancel, stop, reduceCtorEq, false_and, if_false]
  | some w =>
    simp only [cancel, stop, Option.some.injEq, eq_comm (a := w)]
    exact worker_withWorker _

@[simp] theorem listed_cancel : (s.cancel a).listed = s.listed := by
  unfold cancel
  split <;> rfl

@[simp] theorem limit_cancel : (s.cancel a).limit = s.limit := by
  unfold cancel
  split <;> rfl

@[simp] theorem closed_cancel : (s.cancel a).closed = s.closed := by
  unfold cancel
  split <;> rfl

@[simp] theorem now_cancel : (s.cancel a).now = s.now := by
  unfold cancel
  split <;> rfl

@[simp] theorem entries_size_cancel : (s.cancel a).entries.size = s.entries.size := by
  unfold cancel
  split
  · rfl
  · exact size_withEntry _

@[simp] theorem workers_size_cancel : (s.cancel a).workers.size = s.workers.size := by
  unfold cancel
  split
  · rfl
  · exact size_withWorker _

/-! ## A new worker -/

theorem entry_spawn (known : a < s.entries.size) :
    (s.spawn a).entry b = { s.entry b with stop := if b = a then some s.workers.size else (s.entry b).stop } := by
  rw [spawn, entry_withEntry]
  by_cases same : b = a
  · subst same
    simp only [if_true]
    exact if_pos ⟨trivial, known⟩
  · simp only [same, false_and, if_false]
    rfl

theorem worker_push (x : Timer.Worker) (v : Nat) :
    ((s.workers.push x)[v]?).getD default = if v = s.workers.size then x else s.worker v := by
  rw [Array.getElem?_push, worker]
  split_ifs <;> rfl

theorem worker_spawn : (s.spawn a).worker v =
    if v = s.workers.size then ⟨a, 0, .waiting, s.now + (s.entry a).period, false⟩ else s.worker v :=
  worker_push _ v

@[simp] theorem workers_size_spawn : (s.spawn a).workers.size = s.workers.size + 1 := Array.size_push ..
@[simp] theorem entries_size_spawn : (s.spawn a).entries.size = s.entries.size := size_withEntry _

/-! ## A new timer -/

/-- A number that is put into its place is among the others, in some order. -/
theorem insert_perm (s : Scheduler) (a : Nat) (ns : List Nat) : (s.insert a ns).Perm (a :: ns) := by
  induction ns with
  | nil => exact .refl _
  | cons n ns ih =>
    rw [insert]
    split
    · exact .refl _
    · exact (ih.cons n).trans (.swap a n ns)

theorem register_listed (s : Scheduler) (t : Timer) : (s.register t).listed.Perm (s.entries.size :: s.listed) :=
  insert_perm _ _ _

theorem entry_register (t : Timer) : (s.register t).entry b =
    if b = s.entries.size then { t with stop := some s.workers.size } else s.entry b := by
  have pushed : ((s.entries.push t)[b]?).getD default = if b = s.entries.size then t else s.entry b := by
    rw [Array.getElem?_push, entry]
    split_ifs <;> rfl
  rw [register, entry_spawn (by rw [Array.size_push]; exact Nat.lt_succ_self _), entry]
  simp only [pushed]
  split_ifs <;> rfl

theorem worker_register (t : Timer) : (s.register t).worker v =
    if v = s.workers.size then ⟨s.entries.size, 0, .waiting, s.now + t.period, false⟩ else s.worker v := by
  have period : ({ s with entries := s.entries.push t }.entry s.entries.size).period = t.period := by
    rw [entry, Array.getElem?_push_size, Option.getD_some]
  rw [register, worker_spawn]
  exact period ▸ rfl

@[simp] theorem workers_size_register (t : Timer) : (s.register t).workers.size = s.workers.size + 1 := Array.size_push ..

@[simp] theorem entries_size_register (t : Timer) : (s.register t).entries.size = s.entries.size + 1 :=
  (entries_size_spawn ..).trans (Array.size_push ..)

end ScriptEngine.Scheduler

namespace ScriptEngine.Scheduler

variable {s k l : Scheduler} {posts : List (Nat × Timer.Tick)} {a b w : Nat} {name : Text}

/-! ## Timers and their workers -/

/-- The workers that were not told to stop are those that timers can tell to. -/
structure Staffed (s : Scheduler) : Prop where
  mine : ∀ a w, (s.entry a).stop = some w → w < s.workers.size ∧ (s.worker w).timer = a ∧ (s.worker w).told = 0
  heeded : ∀ w < s.workers.size, (s.worker w).told = 0 → (s.entry (s.worker w).timer).stop = some w
  once : ∀ w, (s.worker w).told ≤ 1
  present : ∀ w, (s.worker w).stage = .left → 0 < (s.worker w).told

theorem Staffed.cancel (staffed : Staffed s) (a : Nat) : Staffed (s.cancel a) where
  mine b w stop := by
    rw [entry_cancel] at stop
    have other : b ≠ a := by
      rintro rfl
      simp at stop
    have stop : (s.entry b).stop = some w := by simpa [other] using stop
    obtain ⟨inside, timer, told⟩ := staffed.mine b w stop
    have spared : (s.entry a).stop ≠ some w := fun h => other (timer.symm.trans (staffed.mine a w h).2.1)
    rw [workers_size_cancel, worker_cancel, if_neg fun h => spared h.1]
    exact ⟨inside, timer, told⟩
  heeded w inside told := by
    rw [workers_size_cancel] at inside
    rw [worker_cancel] at told ⊢
    split_ifs at told ⊢ with h
    -- a worker that is still not told is not the one that the timer could tell
    have stop := staffed.heeded w inside told
    have other : (s.worker w).timer ≠ a := by
      rintro rfl
      exact h ⟨stop, inside⟩
    simpa [entry_cancel, other] using stop
  once w := by
    rw [worker_cancel]
    split_ifs with h
    · exact Nat.le_of_eq (congrArg (· + 1) (staffed.mine a w h.1).2.2)
    · exact staffed.once w
  present w gone := by
    rw [worker_cancel] at gone ⊢
    split_ifs at gone ⊢ with h
    · exact Nat.succ_pos _
    · exact staffed.present w gone

theorem Staffed.spawn (staffed : Staffed s) (known : a < s.entries.size) (idle : (s.entry a).stop = none) :
    Staffed (s.spawn a) where
  mine b w stop := by
    rw [entry_spawn known] at stop
    rw [workers_size_spawn, worker_spawn]
    by_cases same : b = a
    · subst same
      obtain rfl : s.workers.size = w := by simpa using stop
      simp
    · obtain ⟨inside, held⟩ := staffed.mine b w (by simpa [same] using stop)
      rw [if_neg (Nat.ne_of_lt inside)]
      exact ⟨Nat.lt_succ_of_lt inside, held⟩
  heeded w inside told := by
    rw [workers_size_spawn] at inside
    rw [worker_spawn] at told ⊢
    split_ifs at told ⊢ with new
    · simp [entry_spawn known, new]
    · have stop := staffed.heeded w (by omega) told
      have other : (s.worker w).timer ≠ a := by
        rintro rfl
        exact nomatch idle.symm.trans stop
      simpa [entry_spawn known, other] using stop
  once w := by
    rw [worker_spawn]
    split_ifs
    · exact Nat.zero_le _
    · exact staffed.once w
  present w gone := by
    rw [worker_spawn] at gone ⊢
    split_ifs at gone ⊢
    exact staffed.present w gone

theorem Staffed.register (staffed : Staffed s) (t : Timer) : Staffed (s.register t) where
  mine b w stop := by
    rw [entry_register] at stop
    rw [workers_size_register, worker_register]
    by_cases new : b = s.entries.size
    · obtain rfl : s.workers.size = w := by simpa [new] using stop
      simp [new]
    · obtain ⟨inside, held⟩ := staffed.mine b w (by simpa [new] using stop)
      rw [if_neg (Nat.ne_of_lt inside)]
      exact ⟨Nat.lt_succ_of_lt inside, held⟩
  heeded w inside told := by
    rw [workers_size_register] at inside
    rw [worker_register] at told ⊢
    split_ifs at told ⊢ with new
    · simp [entry_register, new]
    · have stop := staffed.heeded w (by omega) told
      rwa [entry_register, if_neg (Nat.ne_of_lt (lt_of_stop stop))]
  once w := by
    rw [worker_register]
    split_ifs
    · exact Nat.zero_le _
    · exact staffed.once w
  present w gone := by
    rw [worker_register] at gone ⊢
    split_ifs at gone ⊢
    exact staffed.present w gone

/-- The register is no part of it. -/
theorem Staffed.beside (staffed : Staffed s) (entries : k.entries = s.entries) (workers : k.workers = s.workers) :
    Staffed k := by
  cases k
  cases entries
  cases workers
  exact ⟨staffed.mine, staffed.heeded, staffed.once, staffed.present⟩

theorem Staffed.withEntry {f : Timer → Timer} (staffed : Staffed s) (same : ∀ t, (f t).stop = t.stop) :
    Staffed (s.withEntry a f) where
  mine b w stop := staffed.mine b w ((same_withEntry Timer.stop same).symm.trans stop)
  heeded w inside told := (same_withEntry Timer.stop same).trans (staffed.heeded w inside told)
  once := staffed.once
  present := staffed.present

/-! ## What workers leave alone -/

/-- A scheduler whose timers and workers belong together as in another. -/
structure Kept (s k : Scheduler) : Prop where
  listed : k.listed = s.listed
  limit : k.limit = s.limit
  closed : k.closed = s.closed
  entries : k.entries.size = s.entries.size
  workers : k.workers.size = s.workers.size
  name : ∀ a, (k.entry a).name = (s.entry a).name
  paused : ∀ a, (k.entry a).paused = (s.entry a).paused
  stop : ∀ a, (k.entry a).stop = (s.entry a).stop
  timer : ∀ w, (k.worker w).timer = (s.worker w).timer
  told : ∀ w, (k.worker w).told = (s.worker w).told
  left : ∀ w, (k.worker w).stage = .left → (s.worker w).stage = .left ∨ 0 < (s.worker w).told

/-- The queue, the time and the log are no part of it. -/
theorem Kept.beside (entries : k.entries = s.entries) (workers : k.workers = s.workers) (listed : k.listed = s.listed)
    (limit : k.limit = s.limit) (closed : k.closed = s.closed) : Kept s k := by
  cases k
  cases entries
  cases workers
  exact ⟨listed, limit, closed, rfl, rfl, fun _ => rfl, fun _ => rfl, fun _ => rfl, fun _ => rfl, fun _ => rfl, fun _ => .inl⟩

theorem Kept.refl (s : Scheduler) : Kept s s := .beside rfl rfl rfl rfl rfl

theorem Kept.trans (first : Kept s k) (second : Kept k l) : Kept s l where
  listed := second.listed.trans first.listed
  limit := second.limit.trans first.limit
  closed := second.closed.trans first.closed
  entries := second.entries.trans first.entries
  workers := second.workers.trans first.workers
  name a := (second.name a).trans (first.name a)
  paused a := (second.paused a).trans (first.paused a)
  stop a := (second.stop a).trans (first.stop a)
  timer w := (second.timer w).trans (first.timer w)
  told w := (second.told w).trans (first.told w)
  left w gone := by
    rcases second.left w gone with gone | told
    · exact first.left w gone
    · exact .inr (first.told w ▸ told)

theorem Kept.withWorker {f : Timer.Worker → Timer.Worker} (timer : ∀ x, (f x).timer = x.timer) (told : ∀ x, (f x).told = x.told)
    (left : (f (s.worker w)).stage = .left → (s.worker w).stage = .left ∨ 0 < (s.worker w).told) : Kept s (s.withWorker w f) where
  listed := rfl
  limit := rfl
  closed := rfl
  entries := rfl
  workers := size_withWorker f
  name _ := rfl
  paused _ := rfl
  stop _ := rfl
  timer _ := same_withWorker Timer.Worker.timer timer
  told _ := same_withWorker Timer.Worker.told told
  left v gone := by
    rw [worker_withWorker] at gone
    split_ifs at gone with same
    · obtain ⟨rfl, -⟩ := same
      exact left gone
    · exact .inl gone

theorem Kept.withEntry {f : Timer → Timer} (name : ∀ t, (f t).name = t.name) (paused : ∀ t, (f t).paused = t.paused)
    (stop : ∀ t, (f t).stop = t.stop) : Kept s (s.withEntry a f) where
  listed := rfl
  limit := rfl
  closed := rfl
  entries := size_withEntry f
  workers := rfl
  name _ := same_withEntry Timer.name name
  paused _ := same_withEntry Timer.paused paused
  stop _ := same_withEntry Timer.stop stop
  timer _ := rfl
  told _ := rfl
  left _ := .inl

theorem kept_note (s : Scheduler) (message : Text) (attrs : List Log.Attr) : Kept s (s.note message attrs) :=
  .beside rfl rfl rfl rfl rfl

theorem kept_ring (s : Scheduler) (w : Nat) : Kept s (s.ring w) :=
  .withWorker (fun _ => rfl) (fun _ => rfl) .inl

theorem kept_load (s : Scheduler) (w : Nat) : Kept s (s.load w) := by
  unfold load
  dsimp only
  split
  · exact .withWorker (fun _ => rfl) (fun _ => rfl) fun h => nomatch h
  · exact .refl s

theorem kept_posted (s : Scheduler) (w : Nat) : Kept s (s.withWorker w fun x => { x with stage := .posted }) :=
  .withWorker (fun _ => rfl) (fun _ => rfl) fun h => nomatch h

theorem kept_send (s : Scheduler) (w : Nat) : Kept s (s.send w) := by
  unfold send
  dsimp only
  split
  · split
    · exact (kept_posted s w).trans (.beside rfl rfl rfl rfl rfl)
    · exact .refl s
  · exact .refl s

theorem kept_hand {t : Timer.Tick} (handed : s.hand? w = some (t, k)) : Kept s k := by
  unfold hand? at handed
  dsimp only at handed
  split at handed
  · obtain ⟨_, handed⟩ := Option.ite_none_right_eq_some.mp handed
    cases handed
    exact (kept_posted s w).trans (.beside rfl rfl rfl rfl rfl)
  · cases handed

theorem kept_tally (s : Scheduler) (w : Nat) : Kept s (s.tally w) := by
  unfold tally
  dsimp only
  split
  · have counted : Kept s (s.withEntry (s.worker w).timer fun t => { t with fires := t.fires + 1 }) :=
      .withEntry (fun _ => rfl) (fun _ => rfl) fun _ => rfl
    exact counted.trans (.withWorker (fun _ => rfl) (fun _ => rfl) fun h => nomatch h)
  · exact .refl s

theorem kept_leave (s : Scheduler) (w : Nat) : Kept s (s.leave w) := by
  unfold leave
  dsimp only
  split
  · rename_i may
    exact .withWorker (fun _ => rfl) (fun _ => rfl) fun _ => .inr (by simp_all)
  · exact .refl s

theorem kept_queueUp (s : Scheduler) (w : Nat) : Kept s (s.queueUp w) := by
  unfold queueUp
  split
  · split
    · exact .refl s
    · exact .beside rfl rfl rfl rfl rfl
  · exact .refl s

theorem Staffed.kept (staffed : Staffed s) (kept : Kept s k) : Staffed k where
  mine a w stop := by
    rw [kept.workers, kept.timer, kept.told]
    exact staffed.mine a w (kept.stop a ▸ stop)
  heeded w inside told := by
    rw [kept.timer, kept.stop]
    exact staffed.heeded w (kept.workers ▸ inside) (kept.told w ▸ told)
  once w := kept.told w ▸ staffed.once w
  present w gone := by
    rw [kept.told]
    exact (kept.left w gone).elim (staffed.present w) id

/-! ## Timers by name -/

theorem mem_of_number? (found : s.number? name = some a) : a ∈ s.listed ∧ (s.entry a).name = name :=
  ⟨List.mem_of_find?_eq_some found, by simpa using List.find?_some found⟩

theorem number?_eq_none : s.number? name = none ↔ ∀ a ∈ s.listed, (s.entry a).name ≠ name := by
  simp [number?]

/-- The register is in order, and the timers in it have their workers. -/
structure Sound (s : Scheduler) : Prop extends Staffed s where
  known : ∀ a ∈ s.listed, a < s.entries.size
  distinct : (s.listed.map fun a => (s.entry a).name).Nodup
  named : ∀ a ∈ s.listed, (s.entry a).name.trim = (s.entry a).name ∧ (s.entry a).name.isEmpty = false
  room : s.listed.length ≤ s.limit
  live : ∀ a ∈ s.listed, (s.entry a).stop.isSome = !(s.entry a).paused
  gone : ∀ a, a ∉ s.listed → (s.entry a).stop = none
  ended : s.closed = true → s.listed = []

theorem Sound.kept (sound : Sound s) (kept : Kept s k) : Sound k where
  toStaffed := sound.toStaffed.kept kept
  known := by simpa only [kept.listed, kept.entries] using sound.known
  distinct := by simpa only [kept.listed, kept.name] using sound.distinct
  named := by simpa only [kept.listed, kept.name] using sound.named
  room := by simpa only [kept.listed, kept.limit] using sound.room
  live := by simpa only [kept.listed, kept.stop, kept.paused] using sound.live
  gone := by simpa only [kept.listed, kept.stop] using sound.gone
  ended := by simpa only [kept.listed, kept.closed] using sound.ended

theorem sound_make (limit capacity : Int) : Sound (make limit capacity) where
  mine _ _ stop := nomatch stop
  heeded w inside := absurd inside (Nat.not_lt_zero w)
  once _ := Nat.zero_le _
  present _ gone := nomatch gone
  known _ listed := nomatch listed
  distinct := .nil
  named _ listed := nomatch listed
  room := Nat.zero_le _
  live _ listed := nomatch listed
  gone _ _ := rfl
  ended _ := rfl

/-! ## Calls -/

theorem entry_erase : (s.erase a).entry b = { s.entry b with stop := if b = a then none else (s.entry b).stop } :=
  entry_cancel

@[simp] theorem listed_erase : (s.erase a).listed = s.listed.filter (· ≠ a) := by
  simp only [erase, listed_cancel]

theorem Sound.erase (sound : Sound s) (a : Nat) : Sound (s.erase a) where
  toStaffed := (sound.toStaffed.cancel a).beside rfl rfl
  known b listed := by
    rw [listed_erase] at listed
    exact entries_size_cancel (s := s) ▸ sound.known b (List.mem_of_mem_filter listed)
  distinct := by
    simp only [listed_erase, entry_erase]
    exact sound.distinct.sublist (List.filter_sublist.map _)
  named b listed := by
    rw [listed_erase] at listed
    simpa only [entry_erase] using sound.named b (List.mem_of_mem_filter listed)
  room := by
    rw [listed_erase]
    exact (List.length_filter_le ..).trans (limit_cancel (s := s) ▸ sound.room)
  live b listed := by
    rw [listed_erase, List.mem_filter] at listed
    have other : b ≠ a := by simpa using listed.2
    simpa only [entry_erase, if_neg other] using sound.live b listed.1
  gone b unlisted := by
    rw [entry_erase]
    by_cases same : b = a
    · simp only [if_pos same]
    · simp only [if_neg same]
      exact sound.gone b fun listed => unlisted (by simp [listed, same])
  ended closed := by
    rw [listed_erase, sound.ended (closed_cancel (s := s) ▸ closed), List.filter_nil]

theorem Sound.erase_all (sound : Sound s) (ns : List Nat) : Sound (ns.foldl Scheduler.erase s) := by
  induction ns generalizing s with
  | nil => exact sound
  | cons n ns ih => exact ih (sound.erase n)

theorem listed_erase_all (ns : List Nat) : (ns.foldl Scheduler.erase s).listed = s.listed.filter (· ∉ ns) := by
  induction ns generalizing s with
  | nil => simp
  | cons n ns ih => simp [ih, List.filter_filter, Bool.and_comm]

theorem Sound.shut (sound : Sound s) : Sound s.shut where
  __ := sound.erase_all s.listed
  toStaffed := (sound.erase_all s.listed).toStaffed.beside rfl rfl
  ended _ := by
    rw [Scheduler.shut, listed_erase_all]
    simp

theorem Sound.stop (sound : Sound s) (name : Text) : Sound (s.stop name).2 := by
  unfold Scheduler.stop
  split
  · exact sound
  · exact (sound.erase _).kept (kept_note ..)

theorem Sound.stopOwner (sound : Sound s) (owner : Text) : Sound (s.stopOwner owner).2 := by
  unfold Scheduler.stopOwner
  dsimp only
  split
  · exact sound.erase_all _
  · exact (sound.erase_all _).kept (kept_note ..)

/-- A timer that can be found is changed, and its worker with it. -/
theorem Sound.changed (sound : Sound s) (staffed : Staffed k) (listed : k.listed = s.listed) (limit : k.limit = s.limit)
    (closed : k.closed = s.closed) (size : k.entries.size = s.entries.size) (name : ∀ b, (k.entry b).name = (s.entry b).name)
    (found : a ∈ s.listed) (own : (k.entry a).stop.isSome = !(k.entry a).paused)
    (others : ∀ b, b ≠ a → (k.entry b).stop = (s.entry b).stop ∧ (k.entry b).paused = (s.entry b).paused) : Sound k where
  toStaffed := staffed
  known := by simpa only [listed, size] using sound.known
  distinct := by simpa only [listed, name] using sound.distinct
  named := by simpa only [listed, name] using sound.named
  room := by simpa only [listed, limit] using sound.room
  live b mem := by
    by_cases same : b = a
    · exact same ▸ own
    · rw [(others b same).1, (others b same).2]
      exact sound.live b (listed ▸ mem)
  gone b unlisted := by
    rw [listed] at unlisted
    rw [(others b fun same => unlisted (same ▸ found)).1]
    exact sound.gone b unlisted
  ended := by simpa only [listed, closed] using sound.ended

theorem entry_paused (known : a < s.entries.size) :
    ((s.cancel a).withEntry a fun t => { t with paused := true }).entry b =
      if b = a then { s.entry b with paused := true, stop := none } else s.entry b := by
  rw [entry_withEntry, entries_size_cancel, entry_cancel]
  by_cases same : b = a
  · rw [if_pos ⟨same, same ▸ known⟩, if_pos same, if_pos same]
  · rw [if_neg fun h => same h.1, if_neg same, if_neg same]

theorem Sound.pause (sound : Sound s) (name : Text) : Sound (s.pause name).2 := by
  unfold Scheduler.pause
  split
  · exact sound
  rename_i a found
  split
  · exact sound
  have listed := (mem_of_number? found).1
  have known := sound.known a listed
  -- with its worker told and not yet paused the timer is live without one, so both changes are taken together
  have staffed := (sound.toStaffed.cancel a).withEntry (a := a) (f := fun t => { t with paused := true }) fun _ => rfl
  refine (sound.changed staffed (listed_cancel (s := s)) (limit_cancel (s := s)) (closed_cancel (s := s))
    ((size_withEntry _).trans entries_size_cancel) (fun b => ?_) listed ?_ fun b other => ?_).kept (kept_note ..)
  · rw [entry_paused known]
    split_ifs <;> rfl
  · rw [entry_paused known, if_pos rfl]
    rfl
  · rw [entry_paused known, if_neg other]
    exact ⟨rfl, rfl⟩

theorem entry_resumed (known : a < s.entries.size) :
    ((s.withEntry a fun t => { t with paused := false }).spawn a).entry b =
      if b = a then { s.entry b with paused := false, stop := some s.workers.size } else s.entry b := by
  rw [entry_spawn (by rwa [size_withEntry]), entry_withEntry]
  by_cases same : b = a
  · rw [if_pos ⟨same, same ▸ known⟩, if_pos same, if_pos same]
    rfl
  · rw [if_neg fun h => same h.1, if_neg same, if_neg same]

theorem Staffed.resumed (staffed : Staffed s) (known : a < s.entries.size) (idle : (s.entry a).stop = none) :
    Staffed ((s.withEntry a fun t => { t with paused := false }).spawn a) := by
  refine Staffed.spawn (staffed.withEntry fun _ => rfl) (by rwa [size_withEntry]) ?_
  rw [entry_withEntry, if_pos ⟨rfl, known⟩]
  exact idle

theorem Sound.resume (sound : Sound s) (name : Text) : Sound (s.resume name).2 := by
  unfold Scheduler.resume
  split
  · exact sound
  rename_i a found
  split
  · exact sound
  rename_i may
  have paused : (s.entry a).paused = true := by
    simp only [Bool.or_eq_true, Bool.not_eq_true', not_or, Bool.not_eq_false] at may
    exact may.1
  have listed := (mem_of_number? found).1
  have known := sound.known a listed
  have idle : (s.entry a).stop = none := by simpa [paused] using sound.live a listed
  refine (sound.changed (sound.toStaffed.resumed known idle) rfl rfl rfl (entries_size_spawn.trans (size_withEntry _))
    (fun b => ?_) listed ?_ fun b other => ?_).kept (kept_note ..)
  · rw [entry_resumed known]
    split_ifs <;> rfl
  · rw [entry_resumed known, if_pos rfl]
    rfl
  · rw [entry_resumed known, if_neg other]
    exact ⟨rfl, rfl⟩

/-! ## A new timer -/

theorem Sound.vacate (sound : Sound s) (name : Text) : Sound (s.vacate name) := by
  unfold Scheduler.vacate
  split
  · exact (sound.erase _).kept (kept_note ..)
  · exact sound

@[simp] theorem limit_vacate : (s.vacate name).limit = s.limit := by
  unfold Scheduler.vacate
  split
  · exact limit_cancel
  · rfl

@[simp] theorem closed_vacate : (s.vacate name).closed = s.closed := by
  unfold Scheduler.vacate
  split
  · exact closed_cancel
  · rfl

@[simp] theorem now_vacate : (s.vacate name).now = s.now := by
  unfold Scheduler.vacate
  split
  · exact now_cancel
  · rfl

/-- No timer of the name is left. -/
theorem Sound.vacant (sound : Sound s) (name : Text) : ∀ a ∈ (s.vacate name).listed, ((s.vacate name).entry a).name ≠ name := by
  unfold Scheduler.vacate
  split
  · rename_i a found
    obtain ⟨listed, rfl⟩ := mem_of_number? found
    intro b mem same
    have mem : b ∈ (s.erase a).listed := mem
    rw [listed_erase, List.mem_filter] at mem
    -- names are distinct, so no other timer has the name of the one that was stopped
    have same : ((s.erase a).entry b).name = (s.entry a).name := same
    rw [entry_erase] at same
    have one : b = a := List.inj_on_of_nodup_map sound.distinct mem.1 listed same
    simp [one] at mem
  · rename_i none
    exact number?_eq_none.mp none

/-- The limit is never in the way of a timer that takes the place of another. -/
theorem Sound.vacate_room (sound : Sound s) (found : s.number? name = some a) : (s.vacate name).count < s.limit := by
  have fewer : (s.erase a).listed.length < s.listed.length := by
    rw [listed_erase]
    exact List.length_filter_lt_length_iff_exists.mpr ⟨a, (mem_of_number? found).1, by simp⟩
  rw [Scheduler.vacate, found]
  exact Nat.lt_of_lt_of_le fewer sound.room

/-- What becomes of a start: it is refused at once, or the limit is in its way, or there is one more timer. -/
theorem startEvery_cases (s : Scheduler) (name : Text) (period : Int) (callback : Option Value) (owner : Text) :
    (∃ e, s.startEvery name period callback owner = (.error e, s)) ∨
    (s.limit ≤ (s.vacate name.trim).count ∧
      s.startEvery name period callback owner = (.error (.limit s.limit), s.vacate name.trim)) ∨
    ∃ c attrs, s.closed = false ∧ name.trim.isEmpty = false ∧ (s.vacate name.trim).count < s.limit ∧ 0 < period ∧
      callback = some c ∧ s.startEvery name period callback owner = (.ok (), ((s.vacate name.trim).register
        ⟨name.trim, period.toNat, c, owner, s.now, 0, false, none⟩).note "timer started" attrs) := by
  unfold startEvery
  dsimp only
  split
  · exact .inl ⟨_, rfl⟩
  rename_i blank
  split
  · exact .inl ⟨_, rfl⟩
  rename_i positive
  split
  · exact .inl ⟨_, rfl⟩
  · exact .inl ⟨_, rfl⟩
  rename_i c _
  split
  · exact .inl ⟨_, rfl⟩
  rename_i closed
  rw [limit_vacate, now_vacate]
  split
  · rename_i full
    exact .inr (.inl ⟨full, rfl⟩)
  · rename_i room
    exact .inr (.inr ⟨c, _, by simpa using closed, by simpa using blank, Nat.lt_of_not_le room, Int.lt_of_not_ge positive, rfl, rfl⟩)

theorem mem_register {t : Timer} : b ∈ (s.register t).listed ↔ b = s.entries.size ∨ b ∈ s.listed := by
  rw [(register_listed s t).mem_iff, List.mem_cons]

theorem Sound.register {t : Timer} (sound : Sound s) (open' : s.closed = false) (room : s.count < s.limit)
    (trimmed : t.name.trim = t.name) (some : t.name.isEmpty = false) (running : t.paused = false)
    (fresh : ∀ a ∈ s.listed, (s.entry a).name ≠ t.name) : Sound (s.register t) where
  toStaffed := sound.toStaffed.register t
  known b listed := by
    rw [entries_size_register]
    rcases mem_register.mp listed with rfl | listed
    · exact Nat.lt_succ_self _
    · exact Nat.lt_succ_of_lt (sound.known b listed)
  distinct := by
    have old : s.listed.map (fun a => ((s.register t).entry a).name) = s.listed.map fun a => (s.entry a).name := by
      refine List.map_congr_left fun a listed => ?_
      rw [entry_register, if_neg (Nat.ne_of_lt (sound.known a listed))]
    rw [((register_listed s t).map _).nodup_iff, List.map_cons, List.nodup_cons, old]
    refine ⟨?_, sound.distinct⟩
    rw [entry_register, if_pos rfl]
    simpa using fresh
  named b listed := by
    rw [entry_register]
    split_ifs with new
    · exact ⟨trimmed, some⟩
    · exact sound.named b ((mem_register.mp listed).resolve_left new)
  room := by
    rw [(register_listed s t).length_eq, List.length_cons]
    exact room
  live b listed := by
    rw [entry_register]
    split_ifs with new
    · rw [running]
      rfl
    · exact sound.live b ((mem_register.mp listed).resolve_left new)
  gone b unlisted := by
    obtain ⟨old, unlisted⟩ := not_or.mp (mt mem_register.mpr unlisted)
    rw [entry_register, if_neg old]
    exact sound.gone b unlisted
  ended closed := nomatch open'.symm.trans closed

theorem Sound.startEvery (sound : Sound s) (name : Text) (period : Int) (callback : Option Value) (owner : Text) :
    Sound (s.startEvery name period callback owner).2 := by
  rcases startEvery_cases s name period callback owner with ⟨_, same⟩ | ⟨_, same⟩ | ⟨_, _, open', some, room, _, _, same⟩
  · rw [same]
    exact sound
  · rw [same]
    exact sound.vacate _
  · rw [same]
    refine ((sound.vacate name.trim).register ?_ ?_ ?_ ?_ ?_ ?_).kept (kept_note ..)
    · rw [closed_vacate, open']
    · rw [limit_vacate]
      exact room
    · exact Text.trim_trim name
    · exact some
    · rfl
    · exact sound.vacant name.trim

/-! ## Any steps -/

/-- One step keeps the register sound. -/
theorem Sound.step (sound : Sound s) (step : Step s posts k) : Sound k := by
  cases step with
  | start name period callback owner => exact sound.startEvery name period callback owner
  | pause name => exact sound.pause name
  | resume name => exact sound.resume name
  | stop name => exact sound.stop name
  | stopOwner owner => exact sound.stopOwner owner
  | shut => exact sound.shut
  | later => exact sound.kept (.beside rfl rfl rfl rfl rfl)
  | ring => exact sound.kept (kept_ring ..)
  | load => exact sound.kept (kept_load ..)
  | send => exact sound.kept (kept_send ..)
  | hand handed => exact sound.kept (kept_hand handed)
  | tally => exact sound.kept (kept_tally ..)
  | leave => exact sound.kept (kept_leave ..)
  | queueUp => exact sound.kept (kept_queueUp ..)
  | take => exact sound.kept (.beside rfl rfl rfl rfl rfl)
  | drain => exact sound.kept (.beside rfl rfl rfl rfl rfl)

theorem Sound.runs (sound : Sound s) (runs : Runs s posts k) : Sound k := by
  induction runs with
  | refl => exact sound
  | tail _ step ih => exact ih.step step

/-! ## Starts and ends -/

/-- A start made a timer: it runs for the period, the callback and the owner that were asked for, in the place of any
other of its name. All other timers are what they were. -/
def Started (s : Scheduler) (name : Text) (period : Int) (callback : Option Value) (owner : Text) (k : Scheduler) : Prop :=
  ∃ t : Timer, t.name = name.trim ∧ (t.period : Int) = period ∧ callback = some t.callback ∧ t.owner = owner ∧
    t.created = s.now ∧ t.fires = 0 ∧ t.paused = false ∧ k.timers.Perm (t :: s.timers.filter fun u => u.name ≠ name.trim)

/-- There are no timers, and none is started or goes on. -/
structure Ended (s : Scheduler) : Prop where
  empty : s.timers = []
  start : ∀ name period callback owner, ∃ e, s.startEvery name period callback owner = (.error e, s)
  resume : ∀ name, s.resume name = (false, s)

/-- The timer of a name is stopped, and no other. -/
theorem Sound.timers_vacate (sound : Sound s) (name : Text) : (s.vacate name).timers = s.timers.filter fun u => u.name ≠ name := by
  unfold Scheduler.vacate
  split
  · rename_i a found
    obtain ⟨listed, rfl⟩ := mem_of_number? found
    have others : ∀ b ∈ s.listed, (b ≠ a ↔ (s.entry b).name ≠ (s.entry a).name) := fun b mem =>
      not_congr ⟨fun same => same ▸ rfl, fun same => List.inj_on_of_nodup_map sound.distinct mem listed same⟩
    change (s.erase a).timers = _
    rw [timers, timers, listed_erase, List.filter_map, List.filter_congr fun b mem => decide_eq_decide.mpr (others b mem)]
    refine List.map_congr_left fun b mem => ?_
    rw [entry_erase, if_neg ((others b (List.mem_of_mem_filter mem)).mpr (by simpa using List.of_mem_filter mem))]
  · rename_i none
    refine (List.filter_eq_self.mpr fun u mem => ?_).symm
    obtain ⟨a, listed, rfl⟩ := List.mem_map.mp mem
    exact decide_eq_true (number?_eq_none.mp none a listed)

theorem Sound.timers_register (sound : Sound s) (t : Timer) :
    (s.register t).timers.Perm ({ t with stop := some s.workers.size } :: s.timers) := by
  refine ((register_listed s t).map _).trans (.of_eq ?_)
  rw [List.map_cons, entry_register, if_pos rfl]
  refine congrArg _ (List.map_congr_left fun a listed => ?_)
  rw [entry_register, if_neg (Nat.ne_of_lt (sound.known a listed))]

theorem Sound.starts (sound : Sound s) {period : Int} {callback : Option Value} {owner : Text}
    (h : s.startEvery name period callback owner = (.ok (), k)) : Started s name period callback owner k := by
  rcases startEvery_cases s name period callback owner with ⟨_, same⟩ | ⟨_, same⟩ | ⟨c, _, _, _, _, positive, given, same⟩
  · cases same.symm.trans h
  · cases same.symm.trans h
  · cases same.symm.trans h
    have listed := (sound.vacate name.trim).timers_register ⟨name.trim, period.toNat, c, owner, s.now, 0, false, none⟩
    rw [sound.timers_vacate] at listed
    exact ⟨_, rfl, Int.toNat_of_nonneg (Int.le_of_lt positive), given, rfl, rfl, rfl, rfl, listed⟩

theorem Sound.ends (sound : Sound s) (closed : s.closed = true) : Ended s := by
  have none := sound.ended closed
  have unknown (name : Text) : s.number? name = Option.none := by rw [number?, none, List.find?_nil]
  refine ⟨by rw [timers, none, List.map_nil], fun name period callback owner => ?_, fun name => by rw [Scheduler.resume, unknown]⟩
  rcases startEvery_cases s name period callback owner with refused | ⟨_, same⟩ | ⟨_, _, open', _⟩
  · exact refused
  · rw [Scheduler.vacate, unknown] at same
    exact ⟨_, same⟩
  · cases open'.symm.trans closed

theorem erase_all_lasting (ns : List Nat) :
    (ns.foldl Scheduler.erase s).limit = s.limit ∧ (ns.foldl Scheduler.erase s).closed = s.closed := by
  induction ns generalizing s with
  | nil => exact ⟨rfl, rfl⟩
  | cons n ns ih => exact ⟨ih.1.trans limit_cancel, ih.2.trans closed_cancel⟩

theorem Kept.lasting (kept : Kept s k) : k.limit = s.limit ∧ (s.closed = true → k.closed = true) :=
  ⟨kept.limit, kept.closed.trans⟩

/-- The limit stays what it was, and what is closed stays closed. -/
theorem Step.lasting (step : Step s posts k) : k.limit = s.limit ∧ (s.closed = true → k.closed = true) := by
  cases step with
  | start name period callback owner =>
    rcases startEvery_cases s name period callback owner with ⟨_, same⟩ | ⟨_, same⟩ | ⟨_, _, _, _, _, _, _, same⟩ <;> rw [same]
    · exact ⟨rfl, id⟩
    · exact ⟨limit_vacate, closed_vacate.trans⟩
    · exact ⟨limit_vacate, closed_vacate.trans⟩
  | pause name =>
    unfold Scheduler.pause
    split
    · exact ⟨rfl, id⟩
    · split
      · exact ⟨rfl, id⟩
      · exact ⟨limit_cancel, closed_cancel.trans⟩
  | resume name =>
    unfold Scheduler.resume
    split
    · exact ⟨rfl, id⟩
    · split <;> exact ⟨rfl, id⟩
  | stop name =>
    unfold Scheduler.stop
    split
    · exact ⟨rfl, id⟩
    · exact ⟨limit_cancel, closed_cancel.trans⟩
  | stopOwner owner =>
    have last := erase_all_lasting (s := s) (s.listed.filter fun a => (s.entry a).owner = owner)
    unfold Scheduler.stopOwner
    dsimp only
    split
    · exact ⟨last.1, last.2.trans⟩
    · exact ⟨last.1, last.2.trans⟩
  | shut => exact ⟨(erase_all_lasting _).1, fun _ => rfl⟩
  | ring => exact (kept_ring ..).lasting
  | load => exact (kept_load ..).lasting
  | send => exact (kept_send ..).lasting
  | hand handed => exact (kept_hand handed).lasting
  | tally => exact (kept_tally ..).lasting
  | leave => exact (kept_leave ..).lasting
  | queueUp => exact (kept_queueUp ..).lasting
  | later | take | drain => exact ⟨rfl, id⟩

theorem Runs.lasting (runs : Runs s posts k) : k.limit = s.limit ∧ (s.closed = true → k.closed = true) := by
  induction runs with
  | refl => exact ⟨rfl, id⟩
  | tail _ step ih => exact ⟨step.lasting.1.trans ih.1, step.lasting.2 ∘ ih.2⟩

/-- What callers may rely on. A timer that is not paused has hold of a worker that it can tell to stop. -/
structure Orderly (s : Scheduler) : Prop where
  /-- There are no more timers than the limit allows. -/
  limited : s.count ≤ s.limit
  /-- No two timers have the same name. -/
  distinct : (s.timers.map Timer.name).Nodup
  /-- Names are trimmed and not blank. -/
  named : ∀ t ∈ s.timers, t.name.trim = t.name ∧ t.name.isEmpty = false
  /-- A timer can tell a worker to stop just when it is not paused, and this worker was not told yet. -/
  live : ∀ t ∈ s.timers, (t.stop.isSome = true ↔ t.paused = false) ∧ ∀ w, t.stop = some w → (s.worker w).told = 0
  /-- No worker is told to stop twice. -/
  once : ∀ w, (s.worker w).told ≤ 1
  /-- A timer that runs has one worker that was not told to stop. -/
  one : ∀ a ∈ s.listed, (s.entry a).paused = false →
    ∃! w, w < s.workers.size ∧ (s.worker w).timer = a ∧ (s.worker w).told = 0
  /-- A worker that was not told to stop is at work, for a timer that runs. -/
  working : ∀ w < s.workers.size, (s.worker w).told = 0 →
    (s.worker w).stage ≠ .left ∧ (s.worker w).timer ∈ s.listed ∧ (s.entry (s.worker w).timer).paused = false
  /-- A closed scheduler has no timers, and none is started or goes on. -/
  ended : s.closed = true → Ended s
  /-- Closing shuts the scheduler, and lets its workers leave then. -/
  closes : Runs s.shut [] s.close
  /-- From when it was shut, and whatever is done to it later, the scheduler is closed. -/
  shuts : ∀ posts k, Runs s.shut posts k → k.closed = true ∧ Ended k
  /-- A start that is not refused makes a timer. -/
  started : ∀ name period callback owner k, s.startEvery name period callback owner = (.ok (), k) →
    Started s name period callback owner k
  /-- A start that is refused changes nothing. -/
  refused : ∀ name period callback owner e k, s.startEvery name period callback owner = (.error e, k) → k = s
  /-- A start in the place of another timer is not refused. -/
  replaced : ∀ name period callback owner, (∃ t ∈ s.timers, t.name = name.trim) → 0 < period →
    callback ≠ none → callback ≠ some .null → (s.startEvery name period callback owner).1 = .ok ()

/-- A start that is refused changes nothing: the timer in its way was not stopped, as the limit is not in the way then. -/
theorem Sound.refused (sound : Sound s) {period : Int} {callback : Option Value} {owner : Text} {e : Timer.Refusal}
    (h : s.startEvery name period callback owner = (.error e, k)) : k = s := by
  rcases startEvery_cases s name period callback owner with ⟨_, same⟩ | ⟨full, same⟩ | ⟨_, _, _, _, _, _, _, same⟩
  · cases same.symm.trans h
    rfl
  · -- the limit is in the way only when there was no timer of the name, and then none was stopped
    cases same.symm.trans h
    cases found : s.number? name.trim with
    | none => rw [Scheduler.vacate, found]
    | some a => exact absurd full (Nat.not_le.mpr (sound.vacate_room found))
  · cases same.symm.trans h

theorem startEvery_accepted {period : Int} {c : Value} (open' : s.closed = false) (some : name.trim.isEmpty = false)
    (positive : 0 < period) (real : c ≠ .null) (room : (s.vacate name.trim).count < s.limit) (owner : Text) :
    (s.startEvery name period (.some c) owner).1 = .ok () := by
  unfold startEvery
  dsimp only
  rw [if_neg (by simp [some]), if_neg (Int.not_le.mpr positive)]
  split
  · rename_i null
    cases null
  · rename_i null
    exact absurd (Option.some.inj null) real
  · rw [if_neg (by simp [open']), if_neg (by rwa [limit_vacate, Nat.not_le])]

theorem number?_isSome (h : ∃ t ∈ s.timers, t.name = name) : ∃ a, s.number? name = some a := by
  obtain ⟨_, mem, named⟩ := h
  obtain ⟨a, listed, rfl⟩ := List.mem_map.mp mem
  cases found : s.number? name with
  | some b => exact ⟨b, rfl⟩
  | none => exact absurd named (number?_eq_none.mp found a listed)

theorem Sound.one (sound : Sound s) (listed : a ∈ s.listed) (running : (s.entry a).paused = false) :
    ∃! w, w < s.workers.size ∧ (s.worker w).timer = a ∧ (s.worker w).told = 0 := by
  -- any two such workers are the one that the timer can tell to stop
  obtain ⟨w, stop⟩ := Option.isSome_iff_exists.mp ((sound.live a listed).trans (by rw [running]; rfl))
  refine ⟨w, sound.mine a w stop, fun v ⟨inside, timer, told⟩ => ?_⟩
  exact Option.some.inj ((timer ▸ sound.heeded v inside told).symm.trans stop)

theorem Sound.working (sound : Sound s) (inside : w < s.workers.size) (told : (s.worker w).told = 0) :
    (s.worker w).stage ≠ .left ∧ (s.worker w).timer ∈ s.listed ∧ (s.entry (s.worker w).timer).paused = false := by
  have stop := sound.heeded w inside told
  have listed : (s.worker w).timer ∈ s.listed := by
    refine Decidable.byContradiction fun unlisted => ?_
    exact nomatch (sound.gone _ unlisted).symm.trans stop
  refine ⟨fun left => absurd told (Nat.ne_of_gt (sound.present w left)), listed, ?_⟩
  simpa [stop] using sound.live _ listed

theorem Sound.orderly (sound : Sound s) : Orderly s where
  limited := sound.room
  distinct := by
    rw [timers, List.map_map]
    exact sound.distinct
  named := List.forall_mem_map.mpr sound.named
  live := by
    refine List.forall_mem_map.mpr fun a listed => ⟨?_, fun w stop => (sound.mine a w stop).2.2⟩
    rw [sound.live a listed, Bool.not_eq_true']
  once := sound.once
  one _ listed running := sound.one listed running
  working _ inside told := sound.working inside told
  ended := sound.ends
  closes := runs_close s
  shuts _ _ runs := by
    have closed := runs.lasting.2 rfl
    exact ⟨closed, (sound.shut.runs runs).ends closed⟩
  started _ _ _ _ _ h := sound.starts h
  refused _ _ _ _ _ _ h := sound.refused h
  replaced name period callback owner taken positive given real := by
    obtain ⟨a, found⟩ := number?_isSome taken
    obtain ⟨listed, named⟩ := mem_of_number? found
    obtain ⟨c, rfl⟩ := Option.ne_none_iff_exists'.mp given
    have open' : s.closed = false := by
      refine Bool.eq_false_iff.mpr fun closed => ?_
      rw [sound.ended closed] at listed
      cases listed
    exact startEvery_accepted open' (named ▸ (sound.named a listed).2) positive (fun null => real (null ▸ rfl))
      (sound.vacate_room found) owner

/-- A scheduler is orderly after any steps, by the limit that it was made with. -/
theorem Runs.registry_orderly {limit capacity : Int} (runs : Runs (make limit capacity) posts s) :
    Orderly s ∧ s.limit = (make limit capacity).limit :=
  ⟨((sound_make limit capacity).runs runs).orderly, runs.lasting.1⟩

/-- A scheduler for one timer, which was paused and goes on. -/
def resumed : Scheduler := ((((make 1 0).startEvery " a " 5 (some (.bool true)) "").2.pause "a").2.resume "a").2

/-- The timer has a second worker then, and only this one was not told to stop. -/
theorem registry_orderly_resumed : Orderly resumed ∧ resumed.limit = 1 ∧ resumed.count = 1 ∧
    resumed.workers.toList.map (·.told) = [1, 0] := by
  have runs : Runs (make 1 0) [] resumed :=
    (((Step.start " a " 5 (some (.bool true)) "").runs).quiet (.pause "a")).quiet (.resume "a")
  obtain ⟨orderly, limit⟩ := runs.registry_orderly
  exact ⟨orderly, limit, by decide +kernel, by decide +kernel⟩

end ScriptEngine.Scheduler
