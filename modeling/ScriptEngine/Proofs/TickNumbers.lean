import Mathlib.Data.List.Range
import ScriptEngine.Proofs.TimerRegistry
/-!
# The numbers that ticks carry

A worker reads how many ticks of its timer were counted before it offers the next one, and counts its own tick after it has
posted it. So the count of a timer goes with the ticks that were posted, but for those that are still to be counted, and no
tick carries a number whose turn has not come.

A timer that was paused and goes on has a second worker, and the first may be overtaken between posting and counting. Then
both read the same count, and a number is posted twice and a later one left out. As long as no two workers of a timer are on
a tick at once, its ticks carry the numbers from one on.
-/

namespace ScriptEngine

/-- Whether a worker is on a tick. -/
def Timer.Stage.busy : Timer.Stage → Bool
  | .waiting | .left => false
  | .offering _ | .posted => true

namespace Scheduler

variable {s k l : Scheduler} {posts p q : List (Nat × Timer.Tick)} {a b v w fire : Nat} {name : Text}

/-! ## What is counted -/

/-- The numbers that the ticks of a timer carry, in the order in which they were posted. -/
def firesOf (a : Nat) (posts : List (Nat × Timer.Tick)) : List Nat := (posts.filter fun t => t.1 = a).map fun t => t.2.fire

theorem firesOf_concat (a b : Nat) (p : List (Nat × Timer.Tick)) (t : Timer.Tick) :
    firesOf a (p ++ [(b, t)]) = firesOf a p ++ if b = a then [t.fire] else [] := by
  rw [firesOf, List.filter_append, List.map_append, firesOf, List.filter_singleton]
  by_cases mine : b = a
  · simp [mine]
  · simp [mine]

/-- Whether a worker has a tick of a timer to count. -/
def owes (s : Scheduler) (a w : Nat) : Bool := (s.worker w).timer = a && (s.worker w).stage = .posted

/-- How many ticks of a timer were posted and not counted yet. -/
def uncounted (s : Scheduler) (a : Nat) : Nat := (List.range s.workers.size).countP (s.owes a)

theorem lt_of_stage (h : (s.worker w).stage ≠ .waiting) : w < s.workers.size := by
  refine Nat.lt_of_not_le fun beyond => h ?_
  rw [worker_of_size_le beyond]
  rfl

/-- A count over numbers is the same when they agree, and none is added that counts. -/
theorem countP_range_eq {f g : Nat → Bool} {n m : Nat} (more : n ≤ m) (same : ∀ v, v < n → g v = f v)
    (none : ∀ v, n ≤ v → g v = false) : (List.range m).countP g = (List.range n).countP f := by
  obtain ⟨d, rfl⟩ := Nat.exists_eq_add_of_le more
  have front : (List.range n).countP g = (List.range n).countP f :=
    List.countP_congr fun v mem => by rw [same v (List.mem_range.mp mem)]
  have back : ((List.range d).map (n + ·)).countP g = 0 := by
    refine List.countP_eq_zero.mpr fun v mem => ?_
    obtain ⟨i, _, rfl⟩ := List.mem_map.mp mem
    simp [none]
  rw [List.range_add, List.countP_append, front, back]
  rfl

/-- A count over numbers changes with the one number that it takes in or leaves out. -/
theorem countP_range_change {f g : Nat → Bool} {n w : Nat} (inside : w < n) (others : ∀ v, v ≠ w → g v = f v) :
    (List.range n).countP f + (g w).toNat = (List.range n).countP g + (f w).toNat := by
  induction n with
  | zero => exact absurd inside (Nat.not_lt_zero w)
  | succ n ih =>
    have last (h : Nat → Bool) : (List.range (n + 1)).countP h = (List.range n).countP h + (h n).toNat := by
      rw [List.range_succ, List.countP_append, List.countP_singleton]
      cases h n <;> rfl
    rw [last, last]
    rcases Nat.lt_succ_iff_lt_or_eq.mp inside with before | rfl
    · rw [others n (Nat.ne_of_gt before), Nat.add_right_comm, ih before, Nat.add_right_comm]
    · have same : (List.range w).countP g = (List.range w).countP f :=
        List.countP_congr fun v mem => by rw [others v (Nat.ne_of_lt (List.mem_range.mp mem))]
      rw [same, Nat.add_right_comm]

/-! ## Steps that leave ticks alone -/

/-- A scheduler with other timers and workers beside those of another, and all ticks where they were. -/
structure Grown (s k : Scheduler) : Prop where
  fires : ∀ a, (k.entry a).fires = (s.entry a).fires
  entries : s.entries.size ≤ k.entries.size
  workers : s.workers.size ≤ k.workers.size
  stage : ∀ w, (k.worker w).stage = (s.worker w).stage
  timer : ∀ w, w < s.workers.size → (k.worker w).timer = (s.worker w).timer
  known : ∀ w, s.workers.size ≤ w → w < k.workers.size → (k.worker w).timer < k.entries.size

/-- The queue, the time and the register are no part of it. -/
theorem Grown.beside (entries : k.entries = s.entries) (workers : k.workers = s.workers) : Grown s k := by
  cases k
  cases entries
  cases workers
  exact ⟨fun _ => rfl, Nat.le_refl _, Nat.le_refl _, fun _ => rfl, fun _ _ => rfl,
    fun _ above below => absurd below (Nat.not_lt.mpr above)⟩

theorem Grown.refl (s : Scheduler) : Grown s s := .beside rfl rfl

theorem Grown.trans (first : Grown s k) (second : Grown k l) : Grown s l where
  fires a := (second.fires a).trans (first.fires a)
  entries := first.entries.trans second.entries
  workers := first.workers.trans second.workers
  stage w := (second.stage w).trans (first.stage w)
  timer w inside := (second.timer w (Nat.lt_of_lt_of_le inside first.workers)).trans (first.timer w inside)
  known w above below := by
    by_cases middle : w < k.workers.size
    · rw [second.timer w middle]
      exact Nat.lt_of_lt_of_le (first.known w above middle) second.entries
    · exact second.known w (Nat.le_of_not_lt middle) below

theorem Grown.withEntry {f : Timer → Timer} (same : ∀ t, (f t).fires = t.fires) : Grown s (s.withEntry a f) where
  fires _ := same_withEntry Timer.fires same
  entries := Nat.le_of_eq (size_withEntry f).symm
  workers := Nat.le_refl _
  stage _ := rfl
  timer _ _ := rfl
  known _ above below := absurd below (Nat.not_lt.mpr above)

theorem Grown.withWorker {f : Timer.Worker → Timer.Worker} (timer : ∀ x, (f x).timer = x.timer)
    (stage : ∀ x, (f x).stage = x.stage) : Grown s (s.withWorker w f) where
  fires _ := rfl
  entries := Nat.le_refl _
  workers := Nat.le_of_eq (size_withWorker f).symm
  stage _ := same_withWorker Timer.Worker.stage stage
  timer _ _ := same_withWorker Timer.Worker.timer timer
  known _ above below := absurd (size_withWorker (s := s) f ▸ below) (Nat.not_lt.mpr above)

theorem Grown.cancel (s : Scheduler) (a : Nat) : Grown s (s.cancel a) where
  fires b := by rw [entry_cancel]
  entries := Nat.le_of_eq entries_size_cancel.symm
  workers := Nat.le_of_eq workers_size_cancel.symm
  stage w := by
    rw [worker_cancel]
    split_ifs <;> rfl
  timer w _ := by
    rw [worker_cancel]
    split_ifs <;> rfl
  known w above below := absurd (workers_size_cancel (s := s) ▸ below) (Nat.not_lt.mpr above)

theorem Grown.spawn (known : a < s.entries.size) : Grown s (s.spawn a) where
  fires b := by rw [entry_spawn known]
  entries := Nat.le_of_eq entries_size_spawn.symm
  workers := workers_size_spawn (s := s) ▸ Nat.le_succ _
  stage w := by
    rw [worker_spawn]
    split_ifs with new
    · rw [worker_of_size_le (Nat.le_of_eq new.symm)]
      rfl
    · rfl
  timer w inside := by rw [worker_spawn, if_neg (Nat.ne_of_lt inside)]
  known w above below := by
    rw [workers_size_spawn] at below
    obtain rfl : w = s.workers.size := Nat.le_antisymm (Nat.lt_succ_iff.mp below) above
    rw [worker_spawn, if_pos rfl, entries_size_spawn]
    exact known

theorem Grown.register {t : Timer} (new : t.fires = 0) : Grown s (s.register t) where
  fires b := by
    rw [entry_register]
    split_ifs with last
    · rw [entry_of_size_le (Nat.le_of_eq last.symm)]
      exact new
    · rfl
  entries := entries_size_register (s := s) t ▸ Nat.le_succ _
  workers := workers_size_register (s := s) t ▸ Nat.le_succ _
  stage w := by
    rw [worker_register]
    split_ifs with last
    · rw [worker_of_size_le (Nat.le_of_eq last.symm)]
      rfl
    · rfl
  timer w inside := by rw [worker_register, if_neg (Nat.ne_of_lt inside)]
  known w above below := by
    rw [workers_size_register] at below
    obtain rfl : w = s.workers.size := Nat.le_antisymm (Nat.lt_succ_iff.mp below) above
    rw [worker_register, if_pos rfl, entries_size_register]
    exact Nat.lt_succ_self _

theorem Grown.note (grown : Grown s k) (message : Text) (attrs : List Log.Attr) : Grown s (k.note message attrs) :=
  grown.trans (.beside rfl rfl)

theorem Grown.erase (s : Scheduler) (a : Nat) : Grown s (s.erase a) := (Grown.cancel s a).trans (.beside rfl rfl)

theorem Grown.erase_all (s : Scheduler) (ns : List Nat) : Grown s (ns.foldl Scheduler.erase s) := by
  induction ns generalizing s with
  | nil => exact .refl s
  | cons n ns ih => exact (Grown.erase s n).trans (ih _)

theorem Grown.vacate (s : Scheduler) (name : Text) : Grown s (s.vacate name) := by
  unfold Scheduler.vacate
  split
  · exact (Grown.erase ..).note ..
  · exact .refl s

theorem Grown.pause (s : Scheduler) (name : Text) : Grown s (s.pause name).2 := by
  unfold Scheduler.pause
  split
  · exact .refl s
  split
  · exact .refl s
  · refine Grown.note ?_ ..
    exact (Grown.cancel s _).trans (.withEntry fun _ => rfl)

theorem Grown.resume (sound : Sound s) (name : Text) : Grown s (s.resume name).2 := by
  unfold Scheduler.resume
  split
  · exact .refl s
  rename_i a found
  split
  · exact .refl s
  · have known := sound.known a (mem_of_number? found).1
    have woken : Grown s (s.withEntry a fun t => { t with paused := false }) := .withEntry fun _ => rfl
    exact (woken.trans (.spawn (by rwa [size_withEntry]))).note ..

theorem Grown.stop (s : Scheduler) (name : Text) : Grown s (s.stop name).2 := by
  unfold Scheduler.stop
  split
  · exact .refl s
  · exact (Grown.erase ..).note ..

theorem Grown.stopOwner (s : Scheduler) (owner : Text) : Grown s (s.stopOwner owner).2 := by
  unfold Scheduler.stopOwner
  dsimp only
  split
  · exact .erase_all ..
  · exact (Grown.erase_all ..).note ..

theorem Grown.startEvery (s : Scheduler) (name : Text) (period : Int) (callback : Option Value) (owner : Text) :
    Grown s (s.startEvery name period callback owner).2 := by
  rcases startEvery_cases s name period callback owner with ⟨_, same⟩ | ⟨_, same⟩ | ⟨_, _, _, _, _, _, _, same⟩ <;> rw [same]
  · exact .refl s
  · exact .vacate ..
  · exact ((Grown.vacate ..).trans (.register rfl)).note ..

/-! ## Steps of one worker -/

/-- One worker has gone on to another stage. -/
structure Moved (s k : Scheduler) (w : Nat) (stage : Timer.Stage) : Prop where
  inside : w < s.workers.size
  entries : k.entries.size = s.entries.size
  workers : k.workers.size = s.workers.size
  timer : ∀ v, (k.worker v).timer = (s.worker v).timer
  own : (k.worker w).stage = stage
  others : ∀ v, v ≠ w → (k.worker v).stage = (s.worker v).stage

theorem Moved.withWorker {f : Timer.Worker → Timer.Worker} {stage : Timer.Stage} (inside : w < s.workers.size)
    (timer : ∀ x, (f x).timer = x.timer) (own : (f (s.worker w)).stage = stage) : Moved s (s.withWorker w f) w stage where
  inside := inside
  entries := rfl
  workers := size_withWorker f
  timer _ := same_withWorker Timer.Worker.timer timer
  own := by
    rw [worker_withWorker, if_pos ⟨rfl, inside⟩]
    exact own
  others v other := by rw [worker_withWorker, if_neg fun h => other h.1]

/-- Offers are as before, unless it is an offer that the worker goes on to. -/
theorem Moved.offers {stage : Timer.Stage} (moved : Moved s k w stage) (none : ∀ n, stage ≠ .offering n)
    (offers : (k.worker v).stage = .offering fire) : v ≠ w ∧ (s.worker v).stage = .offering fire := by
  have other : v ≠ w := by
    rintro rfl
    exact none fire (moved.own.symm.trans offers)
  exact ⟨other, (moved.others v other).symm.trans offers⟩

/-- What a step means for the numbers that ticks carry. -/
inductive Turn (s : Scheduler) : List (Nat × Timer.Tick) → Scheduler → Prop where
  | grown {k : Scheduler} (grown : Grown s k) : Turn s [] k
  | loads {k : Scheduler} {w : Nat} (was : (s.worker w).stage = .waiting) (fires : ∀ a, (k.entry a).fires = (s.entry a).fires)
    (moved : Moved s k w (.offering ((s.entry (s.worker w).timer).fires + 1))) : Turn s [] k
  | posts {k : Scheduler} {w fire : Nat} {t : Timer.Tick} (was : (s.worker w).stage = .offering fire)
    (fires : ∀ a, (k.entry a).fires = (s.entry a).fires) (moved : Moved s k w .posted) (number : t.fire = fire) :
    Turn s [((s.worker w).timer, t)] k
  | counts {k : Scheduler} {w : Nat} (was : (s.worker w).stage = .posted)
    (fires : ∀ a, (k.entry a).fires =
      (s.entry a).fires + if a = (s.worker w).timer ∧ a < s.entries.size then 1 else 0)
    (moved : Moved s k w .waiting) : Turn s [] k
  | leaves {k : Scheduler} {w : Nat} (was : (s.worker w).stage ≠ .posted) (fires : ∀ a, (k.entry a).fires = (s.entry a).fires)
    (moved : Moved s k w .left) : Turn s [] k

theorem Moved.beside {stage : Timer.Stage} (moved : Moved s k w stage) (entries : l.entries = k.entries)
    (workers : l.workers = k.workers) : Moved s l w stage := by
  cases l
  cases entries
  cases workers
  exact ⟨moved.inside, moved.entries, moved.workers, moved.timer, moved.own, moved.others⟩

theorem turn_load (s : Scheduler) (w : Nat) : Turn s [] (s.load w) := by
  unfold load
  dsimp only
  split
  · rename_i ready
    obtain ⟨was, rang⟩ : (s.worker w).stage = .waiting ∧ (s.worker w).rang = true := by simpa using ready
    have inside : w < s.workers.size := by
      refine Nat.lt_of_not_le fun beyond => ?_
      rw [worker_of_size_le beyond] at rang
      cases rang
    exact .loads was (fun _ => rfl) (.withWorker inside (fun _ => rfl) rfl)
  · exact .grown (.refl s)

theorem moved_posted (offers : (s.worker w).stage = .offering fire) :
    Moved s (s.withWorker w fun x => { x with stage := .posted }) w .posted :=
  .withWorker (lt_of_stage (by rw [offers]; exact nofun)) (fun _ => rfl) rfl

theorem turn_send (offers : (s.worker w).stage = .offering fire) (room : s.queue.length < s.capacity) :
    Turn s [((s.worker w).timer, (s.entry (s.worker w).timer).tick fire)] (s.send w) := by
  have sent : s.send w = { s.withWorker w (fun x => { x with stage := .posted }) with
      queue := s.queue ++ [(s.entry (s.worker w).timer).tick fire], blocked := s.blocked.filter (· ≠ w) } := by
    unfold send
    simp only [offers, if_pos room]
  rw [sent]
  exact .posts offers (fun _ => rfl) ((moved_posted offers).beside rfl rfl) rfl

theorem turn_hand {t : Timer.Tick} (handed : s.hand? w = some (t, k)) : Turn s [((s.worker w).timer, t)] k := by
  unfold hand? at handed
  dsimp only at handed
  split at handed
  · rename_i fire offers
    obtain ⟨_, handed⟩ := Option.ite_none_right_eq_some.mp handed
    cases handed
    exact .posts offers (fun _ => rfl) ((moved_posted offers).beside rfl rfl) rfl
  · cases handed

theorem turn_tally (s : Scheduler) (w : Nat) : Turn s [] (s.tally w) := by
  unfold tally
  dsimp only
  split
  · rename_i was
    have inside : w < s.workers.size := lt_of_stage (by rw [was]; exact nofun)
    refine .counts was (fun a => ?_) ?_
    · rw [entry_withWorker, entry_withEntry]
      split_ifs <;> rfl
    · have moved := Moved.withWorker (s := s.withEntry (s.worker w).timer fun t => { t with fires := t.fires + 1 })
        (w := w) (f := fun x => { x with stage := .waiting }) inside (fun _ => rfl) rfl
      exact { moved with entries := moved.entries.trans (size_withEntry _) }
  · exact .grown (.refl s)

theorem turn_leave (s : Scheduler) (w : Nat) : Turn s [] (s.leave w) := by
  unfold leave
  dsimp only
  split
  · rename_i may
    obtain ⟨told, was⟩ : 0 < (s.worker w).told ∧ (s.worker w).stage ≠ .posted := by simpa using may
    have inside : w < s.workers.size := by
      refine Nat.lt_of_not_le fun beyond => ?_
      rw [worker_of_size_le beyond] at told
      cases told
    exact .leaves was (fun _ => rfl) (.withWorker inside (fun _ => rfl) rfl)
  · exact .grown (.refl s)

/-- The steps, as what they mean for the numbers. -/
theorem Step.turn (sound : Sound s) (step : Step s posts k) : Turn s posts k := by
  cases step with
  | start name period callback owner => exact .grown (.startEvery ..)
  | pause name => exact .grown (.pause ..)
  | resume name => exact .grown (.resume sound name)
  | stop name => exact .grown (.stop ..)
  | stopOwner owner => exact .grown (.stopOwner ..)
  | shut => exact .grown ((Grown.erase_all ..).trans (.beside rfl rfl))
  | ring => exact .grown (.withWorker (fun _ => rfl) fun _ => rfl)
  | load w => exact turn_load s w
  | send offers room => exact turn_send offers room
  | hand handed => exact turn_hand handed
  | tally w => exact turn_tally s w
  | leave w => exact turn_leave s w
  | queueUp w =>
    unfold Scheduler.queueUp
    split
    · split
      · exact .grown (.refl s)
      · exact .grown (.beside rfl rfl)
    · exact .grown (.refl s)
  | later | take | drain => exact .grown (.beside rfl rfl)

/-! ## The numbers of all ticks -/

/-- The counts go with the ticks that were posted, and no number is offered or posted before its turn. -/
structure Numbered (posts : List (Nat × Timer.Tick)) (s : Scheduler) : Prop where
  known : ∀ w < s.workers.size, (s.worker w).timer < s.entries.size
  counted : ∀ a, (firesOf a posts).length = (s.entry a).fires + s.uncounted a
  offered : ∀ w fire, (s.worker w).stage = .offering fire → 1 ≤ fire ∧ fire ≤ (s.entry (s.worker w).timer).fires + 1
  posted : ∀ a i fire, (firesOf a posts)[i]? = some fire → 1 ≤ fire ∧ fire ≤ i + 1

theorem numbered_make (limit capacity : Int) : Numbered [] (make limit capacity) where
  known w inside := absurd inside (Nat.not_lt_zero w)
  counted _ := rfl
  offered _ _ offers := nomatch offers
  posted _ _ _ posted := nomatch posted

theorem uncounted_grown (grown : Grown s k) (a : Nat) : k.uncounted a = s.uncounted a := by
  refine countP_range_eq grown.workers (fun v inside => ?_) fun v beyond => ?_
  · rw [owes, owes, grown.timer v inside, grown.stage]
  · rw [owes, grown.stage, worker_of_size_le beyond]
    exact Bool.and_false _

theorem owes_eq_false (other : (s.worker w).stage ≠ .posted) (a : Nat) : s.owes a w = false := by
  simp [owes, other]

theorem owes_eq (posted : (s.worker w).stage = .posted) (a : Nat) : s.owes a w = decide ((s.worker w).timer = a) := by
  simp [owes, posted]

theorem uncounted_moved {stage : Timer.Stage} (moved : Moved s k w stage) (a : Nat) :
    s.uncounted a + (k.owes a w).toNat = k.uncounted a + (s.owes a w).toNat := by
  rw [uncounted, uncounted, moved.workers]
  exact countP_range_change moved.inside fun v other => by rw [owes, owes, moved.timer, moved.others v other]

theorem uncounted_same {stage : Timer.Stage} (moved : Moved s k w stage) (was : (s.worker w).stage ≠ .posted)
    (now : stage ≠ .posted) (a : Nat) : k.uncounted a = s.uncounted a := by
  have change := uncounted_moved moved a
  rw [owes_eq_false was, owes_eq_false (moved.own ▸ now)] at change
  exact change.symm

theorem uncounted_more (moved : Moved s k w .posted) (was : (s.worker w).stage ≠ .posted) (a : Nat) :
    k.uncounted a = s.uncounted a + (decide ((s.worker w).timer = a)).toNat := by
  have change := uncounted_moved moved a
  rw [owes_eq_false was, owes_eq moved.own, moved.timer] at change
  exact change.symm

theorem uncounted_less {stage : Timer.Stage} (moved : Moved s k w stage) (was : (s.worker w).stage = .posted)
    (now : stage ≠ .posted) (a : Nat) : s.uncounted a = k.uncounted a + (decide ((s.worker w).timer = a)).toNat := by
  have change := uncounted_moved moved a
  rw [owes_eq was, owes_eq_false (moved.own ▸ now)] at change
  exact change

/-- A worker goes on without a post. -/
theorem Numbered.quiet {stage : Timer.Stage} (numbered : Numbered p s) (moved : Moved s k w stage)
    (counted : ∀ a, (k.entry a).fires + k.uncounted a = (s.entry a).fires + s.uncounted a)
    (more : ∀ a, (s.entry a).fires ≤ (k.entry a).fires)
    (offers : ∀ fire, stage = .offering fire → 1 ≤ fire ∧ fire ≤ (k.entry (s.worker w).timer).fires + 1) : Numbered p k where
  known v inside := by
    rw [moved.timer, moved.entries]
    exact numbered.known v (moved.workers ▸ inside)
  counted a := (numbered.counted a).trans (counted a).symm
  offered v fire offering := by
    rw [moved.timer]
    by_cases same : v = w
    · subst same
      exact offers fire (moved.own.symm.trans offering)
    · obtain ⟨positive, most⟩ := numbered.offered v fire ((moved.others v same).symm.trans offering)
      exact ⟨positive, most.trans (Nat.succ_le_succ (more _))⟩
  posted := numbered.posted

/-- A worker posts the tick that it offers. -/
theorem Numbered.post (numbered : Numbered p s) (was : (s.worker w).stage = .offering fire)
    (fires : ∀ a, (k.entry a).fires = (s.entry a).fires) (moved : Moved s k w .posted) (t : Timer.Tick) (number : t.fire = fire) :
    Numbered (p ++ [((s.worker w).timer, t)]) k where
  known v inside := by
    rw [moved.timer, moved.entries]
    exact numbered.known v (moved.workers ▸ inside)
  counted a := by
    have before := numbered.counted a
    have more := uncounted_more moved (by rw [was]; exact nofun) a
    rw [firesOf_concat, List.length_append, fires, more]
    by_cases mine : (s.worker w).timer = a
    · simp only [mine, decide_true, Bool.toNat_true, if_true, List.length_singleton]
      omega
    · simp only [mine, decide_false, Bool.toNat_false, if_false, List.length_nil]
      omega
  offered v number' offering := by
    rw [moved.timer, fires]
    exact numbered.offered v number' (moved.offers nofun offering).2
  posted a i number' at_i := by
    rw [firesOf_concat] at at_i
    split_ifs at at_i with mine
    · by_cases old : i < (firesOf a p).length
      · rw [List.getElem?_append_left old] at at_i
        exact numbered.posted a i number' at_i
      · -- the new one: it was read from a count that is not above the number of posts
        rw [List.getElem?_append_right (Nat.le_of_not_lt old), List.getElem?_singleton] at at_i
        split_ifs at at_i with last
        obtain rfl := Option.some.inj at_i
        obtain ⟨positive, most⟩ := numbered.offered w fire was
        have counted := numbered.counted a
        rw [mine] at most
        omega
    · rw [List.append_nil] at at_i
      exact numbered.posted a i number' at_i

theorem Numbered.turn (numbered : Numbered p s) (turn : Turn s q k) : Numbered (p ++ q) k := by
  cases turn with
  | grown grown =>
    rw [List.append_nil]
    refine ⟨fun w inside => ?_, fun a => ?_, fun w fire offering => ?_, numbered.posted⟩
    · by_cases old : w < s.workers.size
      · rw [grown.timer w old]
        exact Nat.lt_of_lt_of_le (numbered.known w old) grown.entries
      · exact grown.known w (Nat.le_of_not_lt old) inside
    · rw [grown.fires, uncounted_grown grown]
      exact numbered.counted a
    · rw [grown.stage] at offering
      rw [grown.timer w (lt_of_stage (by rw [offering]; exact nofun)), grown.fires]
      exact numbered.offered w fire offering
  | loads was fires moved =>
    rw [List.append_nil]
    refine numbered.quiet moved (fun a => ?_) (fun a => Nat.le_of_eq (fires a).symm) fun fire offering => ?_
    · rw [fires, uncounted_same moved (by rw [was]; exact nofun) nofun]
    · cases offering
      rw [fires]
      exact ⟨Nat.succ_pos _, Nat.le_refl _⟩
  | posts was fires moved number => exact numbered.post was fires moved _ number
  | @counts _ w was fires moved =>
    rw [List.append_nil]
    refine numbered.quiet moved (fun a => ?_) (fun a => ?_) nofun
    · -- the tick goes from those still to be counted over to the count
      have known := numbered.known w moved.inside
      rw [fires, uncounted_less moved was nofun a]
      by_cases mine : (s.worker w).timer = a
      · subst mine
        simp only [decide_true, Bool.toNat_true, known, and_self, if_true]
        omega
      · simp only [mine, Ne.symm mine, decide_false, Bool.toNat_false, false_and, if_false]
        omega
    · rw [fires]
      exact Nat.le_add_right _ _
  | leaves was fires moved =>
    rw [List.append_nil]
    refine numbered.quiet moved (fun a => ?_) (fun a => Nat.le_of_eq (fires a).symm) nofun
    rw [fires, uncounted_same moved was nofun]

theorem Runs.numbered {limit capacity : Int} (runs : Runs (make limit capacity) posts s) : Numbered posts s := by
  induction runs with
  | refl => exact numbered_make ..
  | tail before step ih => exact ih.turn (step.turn ((sound_make ..).runs before))

/-! ## One worker on a tick at a time -/

/-- No two workers of a timer are on a tick. -/
def Alone (a : Nat) (s : Scheduler) : Prop := ∀ v w, (s.worker v).timer = a → (s.worker w).timer = a →
  (s.worker v).stage.busy = true → (s.worker w).stage.busy = true → v = w

theorem lt_of_busy (h : (s.worker w).stage.busy = true) : w < s.workers.size :=
  lt_of_stage fun waiting => by simp [waiting, Timer.Stage.busy] at h

/-- A timer that never went on after a pause has one worker, which is alone. -/
theorem alone_of_single (single : ∀ v < s.workers.size, ∀ w < s.workers.size, (s.worker v).timer = a → (s.worker w).timer = a →
    v = w) : Alone a s :=
  fun v w mine yours busy busy' => single v (lt_of_busy busy) w (lt_of_busy busy') mine yours

/-- The ticks of a timer carry the numbers from one on, and the next one is on offer if any. -/
structure InTurn (a : Nat) (posts : List (Nat × Timer.Tick)) (s : Scheduler) : Prop where
  posted : firesOf a posts = List.range' 1 (firesOf a posts).length
  offered : ∀ w fire, (s.worker w).timer = a → (s.worker w).stage = .offering fire → fire = (firesOf a posts).length + 1

/-- When the only worker on a tick has read the count, nothing is left to count. -/
theorem Alone.uncounted (alone : Alone a s) (mine : (s.worker w).timer = a) (offers : (s.worker w).stage = .offering fire) :
    s.uncounted a = 0 := by
  refine List.countP_eq_zero.mpr fun v _ owes => ?_
  obtain ⟨timer, posted⟩ : (s.worker v).timer = a ∧ (s.worker v).stage = .posted := by simpa [Scheduler.owes] using owes
  obtain rfl := alone v w timer mine (by rw [posted]; rfl) (by rw [offers]; rfl)
  exact nomatch posted.symm.trans offers

theorem InTurn.quiet {stage : Timer.Stage} (inTurn : InTurn a p s) (moved : Moved s k w stage)
    (none : ∀ n, stage ≠ .offering n) : InTurn a p k where
  posted := inTurn.posted
  offered v fire mine offers := inTurn.offered v fire (moved.timer v ▸ mine) (moved.offers none offers).2

/-- A worker posts the tick that it offers, and no other worker of its timer has one to offer. -/
theorem InTurn.post {t : Timer.Tick} (inTurn : InTurn a p s) (alone : Alone a s) (was : (s.worker w).stage = .offering fire)
    (moved : Moved s k w .posted) (number : t.fire = fire) : InTurn a (p ++ [((s.worker w).timer, t)]) k := by
  by_cases mine : (s.worker w).timer = a
  · have next := inTurn.offered w fire mine was
    have posted : firesOf a (p ++ [((s.worker w).timer, t)]) = firesOf a p ++ [fire] := by
      rw [firesOf_concat, if_pos mine, number]
    refine ⟨?_, fun v n yours offers => ?_⟩
    · rw [posted, List.length_append, List.length_singleton, List.range'_concat, ← inTurn.posted, next, Nat.one_mul, Nat.add_comm 1]
    · -- another offer of the timer would now be one behind, but there is none
      obtain ⟨other, offers⟩ := moved.offers nofun offers
      exact absurd (alone v w (moved.timer v ▸ yours) mine (by rw [offers]; rfl) (by rw [was]; rfl)) other
  · have same : firesOf a (p ++ [((s.worker w).timer, t)]) = firesOf a p := by
      rw [firesOf_concat, if_neg mine, List.append_nil]
    refine ⟨by rw [same]; exact inTurn.posted, fun v n yours offers => ?_⟩
    rw [same]
    exact inTurn.offered v n (moved.timer v ▸ yours) (moved.offers nofun offers).2

theorem InTurn.turn (inTurn : InTurn a p s) (numbered : Numbered p s) (before : Alone a s) (after : Alone a k)
    (turn : Turn s q k) : InTurn a (p ++ q) k := by
  cases turn with
  | grown grown =>
    rw [List.append_nil]
    refine ⟨inTurn.posted, fun w fire mine offers => ?_⟩
    rw [grown.stage] at offers
    rw [grown.timer w (lt_of_stage (by rw [offers]; exact nofun))] at mine
    exact inTurn.offered w fire mine offers
  | @loads _ w was fires moved =>
    rw [List.append_nil]
    refine ⟨inTurn.posted, fun v fire mine offers => ?_⟩
    by_cases same : v = w
    · -- no other worker is on a tick behind the step, so the count that was read is the number of posts
      subst same
      have none := after.uncounted mine offers
      rw [uncounted_same moved (by rw [was]; exact nofun) nofun] at none
      rw [moved.own] at offers
      rw [moved.timer] at mine
      obtain rfl := Timer.Stage.offering.inj offers
      rw [numbered.counted a, none, mine]
    · rw [moved.others v same] at offers
      exact inTurn.offered v fire (moved.timer v ▸ mine) offers
  | posts was fires moved number => exact inTurn.post before was moved number
  | counts was fires moved =>
    rw [List.append_nil]
    exact inTurn.quiet moved nofun
  | leaves was fires moved =>
    rw [List.append_nil]
    exact inTurn.quiet moved nofun

/-- Steps one after the other, and all of them between schedulers that are in a set. -/
inductive RunsIn (P : Scheduler → Prop) (s : Scheduler) : List (Nat × Timer.Tick) → Scheduler → Prop where
  | refl (h : P s) : RunsIn P s [] s
  | tail {k l : Scheduler} {p q : List (Nat × Timer.Tick)} (runs : RunsIn P s p k) (step : Step k q l) (h : P l) :
    RunsIn P s (p ++ q) l

theorem RunsIn.runs {P : Scheduler → Prop} (runs : RunsIn P s p k) : Runs s p k := by
  induction runs with
  | refl => exact .refl
  | tail _ step _ ih => exact ih.tail step

theorem RunsIn.holds {P : Scheduler → Prop} (runs : RunsIn P s p k) : P k := by
  cases runs with
  | refl h => exact h
  | tail _ _ h => exact h

theorem RunsIn.inTurn {limit capacity : Int} (runs : RunsIn (Alone a) (make limit capacity) posts s) : InTurn a posts s := by
  induction runs with
  | refl => exact ⟨rfl, fun _ _ _ offers => nomatch offers⟩
  | tail before step after ih =>
    exact ih.turn before.runs.numbered before.holds after (step.turn ((sound_make ..).runs before.runs))

/-- The numbers of the ticks of a timer, after any steps. Its count is the number of its posts but for those that a worker has
still to count; no tick comes before its turn; and if no two workers of the timer were ever on a tick at once, the ticks carry
the numbers from one on. -/
theorem Runs.posts_numbered {limit capacity : Int} (runs : Runs (make limit capacity) posts s) (a : Nat) :
    (firesOf a posts).length = (s.entry a).fires + s.uncounted a ∧
    ((∀ w, (s.worker w).timer = a → (s.worker w).stage ≠ .posted) → (s.entry a).fires = (firesOf a posts).length) ∧
    (∀ i fire, (firesOf a posts)[i]? = some fire → 1 ≤ fire ∧ fire ≤ i + 1) ∧
    (RunsIn (Alone a) (make limit capacity) posts s → firesOf a posts = List.range' 1 (firesOf a posts).length) := by
  have numbered := runs.numbered
  refine ⟨numbered.counted a, fun settled => ?_, numbered.posted a, fun alone => alone.inTurn.posted⟩
  have none : s.uncounted a = 0 := List.countP_eq_zero.mpr fun w _ owes => by
    obtain ⟨timer, posted⟩ : (s.worker w).timer = a ∧ (s.worker w).stage = .posted := by simpa [Scheduler.owes] using owes
    exact settled w timer posted
  rw [numbered.counted a, none]
  rfl

/-! ## A worker that is overtaken -/

/-- A worker whose ticker rings posts a tick, and has yet to count it. -/
def round (s : Scheduler) (w : Nat) : Scheduler := ((s.ring w).load w).send w

theorem runs_round (due : (s.worker w).due ≤ s.now) (timer : (((s.ring w).load w).worker w).timer = a)
    (offers : (((s.ring w).load w).worker w).stage = .offering fire)
    (room : ((s.ring w).load w).queue.length < ((s.ring w).load w).capacity) :
    ∃ t : Timer.Tick, t.fire = fire ∧ Runs s [(a, t)] (s.round w) :=
  ⟨_, rfl, timer ▸ ((Step.ring due).runs.quiet (.load w)).trans (Step.send offers room).runs⟩

/-- A timer whose first ticker is about to ring. -/
def started : Scheduler := { ((make 1 3).startEvery "t" 1 (some (.bool true)) "").2 with now := 1 }

/-- The worker of a timer that was only started is alone, so its first tick carries the first number. -/
theorem posts_numbered_started : ∃ posts, firesOf 0 posts = [1] ∧ RunsIn (Alone 0) (make 1 3) posts (started.round 0) ∧
    (firesOf 0 posts).length = ((started.round 0).entry 0).fires + (started.round 0).uncounted 0 := by
  have begun : RunsIn (Alone 0) (make 1 3) [] started :=
    ((RunsIn.refl (alone_of_single (by decide +kernel))).tail (.start "t" 1 (some (.bool true)) "")
      (alone_of_single (by decide +kernel))).tail (Step.later (by decide +kernel)) (alone_of_single (by decide +kernel))
  have loaded := (begun.tail (Step.ring (w := 0) (by decide +kernel)) (alone_of_single (by decide +kernel))).tail (.load 0)
    (alone_of_single (by decide +kernel))
  have offers : (((started.ring 0).load 0).worker 0).stage = .offering 1 := by decide +kernel
  have sent := loaded.tail (.send offers (by decide +kernel)) (l := started.round 0) (alone_of_single (by decide +kernel))
  obtain ⟨counted, -, -, numbers⟩ := sent.runs.posts_numbered 0
  exact ⟨_, (numbers sent).trans (by decide +kernel), sent, counted⟩

/-- Its worker has posted a tick and not counted it when the timer is paused and goes on, and the next ticker is about to ring. -/
def overtaken : Scheduler := { (((started.round 0).pause "t").2.resume "t").2 with now := 2 }

/-- The second worker has posted a tick, both count theirs, and its ticker is about to ring again. -/
def settled : Scheduler := { ((overtaken.round 1).tally 0).tally 1 with now := 3 }

/-- The first number is posted twice and the second is left out. -/
theorem repeated_post : ∃ posts s, Runs (make 1 3) posts s ∧ firesOf 0 posts = [1, 1, 3] := by
  have begun : Runs (make 1 3) [] started :=
    (Step.start "t" 1 (some (.bool true)) "").runs.quiet (.later (by decide +kernel))
  obtain ⟨t, first, posts⟩ : ∃ t : Timer.Tick, t.fire = 1 ∧ Runs started [(0, t)] (started.round 0) :=
    runs_round (by decide +kernel) (by decide +kernel) (by decide +kernel) (by decide +kernel)
  have again : Runs (started.round 0) [] overtaken :=
    ((Step.pause "t").runs.quiet (.resume "t")).quiet (.later (by decide +kernel))
  obtain ⟨t', second, posts'⟩ : ∃ t : Timer.Tick, t.fire = 1 ∧ Runs overtaken [(0, t)] (overtaken.round 1) :=
    runs_round (by decide +kernel) (by decide +kernel) (by decide +kernel) (by decide +kernel)
  have counted : Runs (overtaken.round 1) [] settled :=
    ((Step.tally 0).runs.quiet (.tally 1)).quiet (.later (by decide +kernel))
  obtain ⟨t'', third, posts''⟩ : ∃ t : Timer.Tick, t.fire = 3 ∧ Runs settled [(0, t)] (settled.round 1) :=
    runs_round (by decide +kernel) (by decide +kernel) (by decide +kernel) (by decide +kernel)
  refine ⟨_, _, ((((begun.trans posts).trans again).trans posts').trans counted).trans posts'', ?_⟩
  simp [firesOf, first, second, third]

end Scheduler

end ScriptEngine
