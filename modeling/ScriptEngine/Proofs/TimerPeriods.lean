import ScriptEngine.Eval
import ScriptEngine.Proofs.PlaceWrites
import ScriptEngine.Proofs.PathWrites
import ScriptEngine.Proofs.PreparedArguments
import ScriptEngine.Proofs.TimerRegistry
/-!
# Periods of timers and spans of sleep

A timer keeps the period that it was started with as long as it lives, through pauses and all else. Scripts give and are told periods
in milliseconds, and the scheduler has them in nanoseconds within 64 bits. What does not fit 64 bits is cut, so the period that is
told is the one that was given up to 9223372036854 milliseconds, some 292 years, and another one beyond.
-/

namespace ScriptEngine

namespace Scheduler

variable {s k l : Scheduler} {posts : List (Nat × Timer.Tick)} {a b w : Nat} {name owner : Text}

/-! ## Timers keep their periods -/

/-- The timers of a scheduler are there in another, with their names and periods. -/
structure Keeps (s k : Scheduler) : Prop where
  size : s.entries.size ≤ k.entries.size
  name : ∀ a < s.entries.size, (k.entry a).name = (s.entry a).name
  period : ∀ a < s.entries.size, (k.entry a).period = (s.entry a).period

/-- Timers are all that counts. -/
theorem Keeps.beside (entries : k.entries = s.entries) : Keeps s k := by
  have same (a : Nat) : k.entry a = s.entry a := by rw [entry, entry, entries]
  exact ⟨Nat.le_of_eq (congrArg Array.size entries).symm, fun a _ => by rw [same], fun a _ => by rw [same]⟩

theorem Keeps.refl (s : Scheduler) : Keeps s s := .beside rfl

theorem Keeps.trans (first : Keeps s k) (second : Keeps k l) : Keeps s l where
  size := first.size.trans second.size
  name a known := (second.name a (Nat.lt_of_lt_of_le known first.size)).trans (first.name a known)
  period a known := (second.period a (Nat.lt_of_lt_of_le known first.size)).trans (first.period a known)

theorem keeps_withEntry {f : Timer → Timer} (name : ∀ t, (f t).name = t.name) (period : ∀ t, (f t).period = t.period) :
    Keeps s (s.withEntry a f) where
  size := Nat.le_of_eq (size_withEntry f).symm
  name _ _ := same_withEntry Timer.name name
  period _ _ := same_withEntry Timer.period period

theorem keeps_cancel (s : Scheduler) (a : Nat) : Keeps s (s.cancel a) where
  size := Nat.le_of_eq entries_size_cancel.symm
  name _ _ := by rw [entry_cancel]
  period _ _ := by rw [entry_cancel]

theorem keeps_erase (s : Scheduler) (a : Nat) : Keeps s (s.erase a) := (keeps_cancel s a).trans (.beside rfl)

theorem keeps_erase_all (s : Scheduler) (ns : List Nat) : Keeps s (ns.foldl erase s) := by
  induction ns generalizing s with
  | nil => exact .refl s
  | cons n ns ih => exact (keeps_erase s n).trans (ih _)

theorem keeps_spawn (s : Scheduler) (a : Nat) : Keeps s (s.spawn a) := by
  have workers : Keeps s { s with workers := s.workers.push ⟨a, 0, .waiting, s.now + (s.entry a).period, false⟩ } := .beside rfl
  exact workers.trans (keeps_withEntry (fun _ => rfl) fun _ => rfl)

theorem keeps_register (s : Scheduler) (t : Timer) : Keeps s (s.register t) where
  size := by
    rw [entries_size_register]
    exact Nat.le_succ _
  name a known := by rw [entry_register, if_neg (Nat.ne_of_lt known)]
  period a known := by rw [entry_register, if_neg (Nat.ne_of_lt known)]

theorem keeps_vacate (s : Scheduler) (name : Text) : Keeps s (s.vacate name) := by
  unfold vacate
  split
  · exact (keeps_erase s _).trans (.beside rfl)
  · exact .refl s

theorem entries_load (s : Scheduler) (w : Nat) : (s.load w).entries = s.entries := by
  unfold load
  dsimp only
  split <;> rfl

theorem entries_send (s : Scheduler) (w : Nat) : (s.send w).entries = s.entries := by
  unfold send
  dsimp only
  split
  · split <;> rfl
  · rfl

theorem entries_leave (s : Scheduler) (w : Nat) : (s.leave w).entries = s.entries := by
  unfold leave
  dsimp only
  split <;> rfl

theorem entries_queueUp (s : Scheduler) (w : Nat) : (s.queueUp w).entries = s.entries := by
  unfold queueUp
  split
  · split <;> rfl
  · rfl

/-- Whatever a step does, timers keep their names and periods. -/
theorem Step.keeps (step : Step s posts k) : Keeps s k := by
  cases step with
  | start name period callback owner =>
    rcases startEvery_cases s name period callback owner with ⟨_, same⟩ | ⟨_, same⟩ | ⟨_, _, _, _, _, _, _, same⟩
    · rw [same]
      exact .refl s
    · rw [same]
      exact keeps_vacate s _
    · rw [same]
      exact ((keeps_vacate s _).trans (keeps_register _ _)).trans (.beside rfl)
  | pause name =>
    unfold Scheduler.pause
    split
    · exact .refl s
    · split
      · exact .refl s
      · rename_i a _ _
        have paused : Keeps (s.cancel a) ((s.cancel a).withEntry a fun t => { t with paused := true }) :=
          keeps_withEntry (fun _ => rfl) fun _ => rfl
        exact ((keeps_cancel s a).trans paused).trans (.beside rfl)
  | resume name =>
    unfold Scheduler.resume
    split
    · exact .refl s
    · split
      · exact .refl s
      · rename_i a _ _
        have going : Keeps s (s.withEntry a fun t => { t with paused := false }) := keeps_withEntry (fun _ => rfl) fun _ => rfl
        exact (going.trans (keeps_spawn _ _)).trans (.beside rfl)
  | stop name =>
    unfold Scheduler.stop
    split
    · exact .refl s
    · exact (keeps_erase s _).trans (.beside rfl)
  | stopOwner owner =>
    unfold Scheduler.stopOwner
    dsimp only
    split
    · exact keeps_erase_all s _
    · exact (keeps_erase_all s _).trans (.beside rfl)
  | shut => exact (keeps_erase_all s _).trans (.beside rfl)
  | tally w =>
    unfold Scheduler.tally
    dsimp only
    split
    · have counted : Keeps s (s.withEntry (s.worker w).timer fun t => { t with fires := t.fires + 1 }) :=
        keeps_withEntry (fun _ => rfl) fun _ => rfl
      exact counted.trans (.beside rfl)
    · exact .refl s
  | hand handed =>
    unfold hand? at handed
    dsimp only at handed
    split at handed
    · obtain ⟨_, handed⟩ := Option.ite_none_right_eq_some.mp handed
      cases handed
      exact .beside rfl
    · cases handed
  | load => exact .beside (entries_load ..)
  | send => exact .beside (entries_send ..)
  | leave => exact .beside (entries_leave ..)
  | queueUp => exact .beside (entries_queueUp ..)
  | later | ring | take | drain => exact .beside rfl

theorem Runs.keeps (runs : Runs s posts k) : Keeps s k := by
  induction runs with
  | refl => exact .refl s
  | tail _ step ih => exact ih.trans step.keeps

/-! ## Timers by name -/

theorem Sound.number?_entry (sound : Sound s) (listed : a ∈ s.listed) : s.number? (s.entry a).name = some a := by
  obtain ⟨b, found⟩ := number?_isSome (s := s) ⟨s.entry a, List.mem_map_of_mem listed, rfl⟩
  obtain ⟨mem, same⟩ := mem_of_number? found
  exact List.inj_on_of_nodup_map sound.distinct mem listed same ▸ found

theorem number?_eq_of_names (listed : k.listed = s.listed) (names : ∀ a, (k.entry a).name = (s.entry a).name) :
    k.number? name = s.number? name := by
  simp only [number?, listed, names]

theorem number?_pause (s : Scheduler) (other : Text) : (s.pause other).2.number? name = s.number? name := by
  unfold Scheduler.pause
  split
  · rfl
  · split
    · rfl
    · refine number?_eq_of_names listed_cancel fun b => ?_
      refine (same_withEntry (f := fun t => { t with paused := true }) Timer.name fun _ => rfl).trans ?_
      rw [entry_cancel]

theorem name_spawn (s : Scheduler) (a b : Nat) : ((s.spawn a).entry b).name = (s.entry b).name := by
  rw [spawn, entry_withEntry]
  split_ifs <;> rfl

theorem number?_resume (s : Scheduler) (other : Text) : (s.resume other).2.number? name = s.number? name := by
  unfold Scheduler.resume
  split
  · rfl
  · split
    · rfl
    · refine number?_eq_of_names rfl fun b => (name_spawn _ _ b).trans ?_
      exact same_withEntry Timer.name fun _ => rfl

/-- A timer that was started is found by its name, with its period. -/
theorem Sound.started (sound : Sound s) {period : Int} {callback : Option Value}
    (started : s.startEvery name period callback owner = (.ok (), k)) :
    0 < period ∧ ∃ a < k.entries.size, k.number? name.trim = some a ∧ (k.entry a).period = period.toNat := by
  have sound' : Sound k := by
    have kept := sound.startEvery name period callback owner
    rwa [started] at kept
  rcases startEvery_cases s name period callback owner with ⟨_, same⟩ | ⟨_, same⟩ | ⟨c, attrs, _, _, _, positive, _, same⟩
  · cases same.symm.trans started
  · cases same.symm.trans started
  · let t : Timer := ⟨name.trim, period.toNat, c, owner, s.now, 0, false, none⟩
    obtain rfl : k = ((s.vacate name.trim).register t).note "timer started" attrs :=
      (congrArg Prod.snd (same.symm.trans started)).symm
    have new : (((s.vacate name.trim).register t).note "timer started" attrs).entry (s.vacate name.trim).entries.size =
        { t with stop := some (s.vacate name.trim).workers.size } := (entry_register t).trans (if_pos rfl)
    have listed : (s.vacate name.trim).entries.size ∈ (((s.vacate name.trim).register t).note "timer started" attrs).listed :=
      mem_register.mpr (.inl rfl)
    refine ⟨positive, _, sound'.known _ listed, ?_, congrArg Timer.period new⟩
    have found := sound'.number?_entry listed
    rwa [congrArg Timer.name new] at found

end Scheduler

/-! ## Timers of a machine -/

namespace Host

@[simp] theorem timers_log (h : Host) (r : Log.Record) : (h.log r).timers = h.timers := by
  unfold log
  dsimp only
  split <;> rfl

theorem timers_logTimers (h : Host) : h.logTimers.timers = h.timers.drain.2 := by
  have each (records : List Log.Record) (h : Host) : (records.foldl log h).timers = h.timers := by
    induction records generalizing h with
    | nil => rfl
    | cons r records ih => exact (ih _).trans (timers_log h r)
  exact each ..

end Host

theorem Exec.onTimers_eq {α : Type} {f : Scheduler → α × Scheduler} {a : α} {m : Machine} {s : Scheduler}
    (same : f m.host.timers = (a, s)) : onTimers f m = .done a { m with host := { m.host with timers := s }.logTimers } := by
  unfold onTimers
  rw [same]

theorem Exec.onTimers_done {α : Type} {f : Scheduler → α × Scheduler} {a : α} {m k : Machine} (done : onTimers f m = .done a k) :
    ∃ s, f m.host.timers = (a, s) ∧ k.host.timers = s.drain.2 := by
  cases done
  exact ⟨_, rfl, Host.timers_logTimers _⟩

/-- Whole numbers are prepared as ones of 64 bits. -/
theorem Signature.prepareOne_long {u : Value} {n : Int64} (whole : u.toInt64? = some n) (of name : Text) (s : Store) :
    (prepareOne of (required name .long) u).run.run s = (.ok (.long n), s) := by
  cases u with
  | byte b =>
    cases whole
    rfl
  | int i =>
    cases whole
    rfl
  | long i =>
    cases whole
    rfl
  | _ => cases whole

/-- Arguments of which the first is prepared by itself. -/
theorem Signature.prepareAll_cons_ok {name : Text} {p : Param} {ps : List Param} {u a : Value} {args vs : List Value} {s t : Store}
    (one : (prepareOne name p u).run.run s = (.ok a, s))
    (all : (prepareAll name (p :: ps) (u :: args)).run.run s = (.ok vs, t)) :
    ∃ ws, vs = a :: ws ∧ (prepareAll name ps args).run.run s = (.ok ws, t) := by
  obtain ⟨w, t', first, rest⟩ := run_bind_ok all
  obtain ⟨ws, u', others, last⟩ := run_bind_ok rest
  cases one.symm.trans first
  cases last
  exact ⟨ws, rfl, others⟩

namespace ThreadOp

variable {m k l : Machine} {u v : Value} {rest : List Value} {name : Text} {sleep : Nat → Exec Unit}

theorem timerName_done {t : Text} (done : timerName ⟨.string name :: rest⟩ m = .done t k) :
    t = name.trim ∧ k = m ∧ name.trim.isEmpty = false := by
  unfold timerName at done
  obtain ⟨given, m', read, done⟩ := Exec.done_bind done
  cases read
  dsimp only at done
  split at done
  · cases done
  · rename_i named
    cases done
    exact ⟨rfl, rfl, Bool.eq_false_iff.mpr named⟩

theorem timerName_eq (named : name.trim.isEmpty = false) : timerName ⟨.string name :: rest⟩ m = .done name.trim m := by
  unfold timerName
  refine (Exec.bind_of_done (show Args.text ⟨.string name :: rest⟩ 0 m = .done name m from rfl)).trans ?_
  dsimp only
  rw [named]
  rfl

theorem checkCallback_done {r : Unit} (done : checkCallback v m = .done r k) : k = m := by
  unfold checkCallback at done
  split at done
  · split at done
    · cases done
    · cases done
      rfl
  · cases done
    rfl
  · obtain ⟨_, _, _, done⟩ := Exec.done_bind done
    cases done

theorem textOr_done {args : Args} {i : Nat} {fallback t : Text} (done : args.textOr i fallback m = .done t k) : k = m := by
  unfold Args.textOr at done
  generalize args.value i = given at done
  cases given <;> exact (Outcome.done.inj done).2.symm

theorem startTimer_done {p : Int64} (done : startTimer ⟨.string name :: .long p :: rest⟩ m = .done v k) :
    name.trim.isEmpty = false ∧ 0 < p.toInt ∧ ∃ callback owner s,
      m.host.timers.start name.trim p.toInt callback owner = (.ok (), s) ∧ k.host.timers = s.drain.2 := by
  unfold startTimer at done
  obtain ⟨t, m₁, read, done₁⟩ := Exec.done_bind done
  obtain ⟨rfl, rfl, named⟩ := timerName_done read
  dsimp only at done₁
  obtain ⟨_, m₂, checked, done₂⟩ := Exec.done_bind done₁
  obtain rfl := checkCallback_done checked
  split at done₂
  · cases done₂
  rename_i positive
  obtain ⟨_, m₃, here, done₃⟩ := Exec.done_bind done₂
  cases here
  obtain ⟨owner, m₄, owned, done₄⟩ := Exec.done_bind done₃
  obtain rfl := textOr_done owned
  obtain ⟨r, m₅, started, done₅⟩ := Exec.done_bind done₄
  split at done₅
  · cases done₅
  obtain ⟨_, m₆, logged, done₆⟩ := Exec.done_bind done₅
  cases done₆
  cases logged
  obtain ⟨s, same, held⟩ := Exec.onTimers_done started
  exact ⟨named, Int.not_le.mp positive, _, owner, s, same, (Host.timers_log ..).trans held⟩

theorem act_eq (named : name.trim.isEmpty = false) (f : Scheduler → Text → Bool × Scheduler) :
    act ⟨.string name :: rest⟩ f m = .done (.bool (f m.host.timers name.trim).1)
      { m with host := { m.host with timers := (f m.host.timers name.trim).2 }.logTimers } := by
  unfold act
  exact Exec.bind_of_done (timerName_eq named)

/-- What is done to the timer of a name. -/
theorem act_done {f : Scheduler → Text → Bool × Scheduler} (done : act ⟨.string name :: rest⟩ f m = .done v k) :
    k.host.timers = (f m.host.timers name.trim).2.drain.2 := by
  unfold act at done
  obtain ⟨t, m₁, read, done₁⟩ := Exec.done_bind done
  obtain ⟨rfl, rfl, -⟩ := timerName_done read
  obtain ⟨b, m₂, changed, done₂⟩ := Exec.done_bind done₁
  cases done₂
  obtain ⟨s, same, held⟩ := Exec.onTimers_done changed
  rw [held, same]

/-! ## Calls -/

theorem call_start_done {p : Int64} (whole : u.toInt64? = some p)
    (done : Builtin.call sleep "thread.timerstart" (.string name :: u :: rest) m = .done v k) :
    name.trim.isEmpty = false ∧ 0 < p.toInt ∧ ∃ callback owner s,
      m.host.timers.start name.trim p.toInt callback owner = (.ok (), s) ∧ k.host.timers = s.drain.2 := by
  have called := (congrFun (Builtin.call_eq sleep (.thread .start) _) m).symm.trans done
  obtain ⟨args, m₁, lifted, ran⟩ := Exec.done_bind called
  obtain ⟨s, prepared, rfl⟩ := Exec.done_lift lifted
  unfold Signature.prepare at prepared
  split at prepared
  · cases prepared
  obtain ⟨args, rfl, others⟩ := Signature.prepareAll_cons_ok rfl prepared
  obtain ⟨args, rfl, -⟩ := Signature.prepareAll_cons_ok (Signature.prepareOne_long whole ..) others
  have started := startTimer_done ran
  exact started

theorem prepare_name (of : Text) (result : Kind) (s : Store) :
    (Signature.prepare ⟨of, result, [Signature.required "name" .string]⟩ [.string name]).run.run s = (.ok [.string name], s) :=
  rfl

theorem call_start (sleep : Nat → Exec Unit) {p : Int64} {c : Text} {s : Scheduler} (named : name.trim.isEmpty = false)
    (callback : c.trim.isEmpty = false) (asked : 0 < p.toInt)
    (started : m.host.timers.start name.trim p.toInt (some (.string c)) m.host.source = (.ok (), s)) :
    ∃ k, Builtin.call sleep "thread.timerstart" [.string name, .long p, .string c] m = .done (.string name.trim) k ∧
      k.host.timers = s.drain.2 := by
  have checked : checkCallback (.string c) m = .done () m := by
    show (if c.trim.isEmpty = true then _ else _ : Exec Unit) m = _
    rw [callback]
    rfl
  have ran : ∃ k, startTimer ⟨[.string name, .long p, .string c, .null]⟩ m = .done (.string name.trim) k ∧
      k.host.timers = s.drain.2 := by
    unfold startTimer
    rw [Exec.bind_of_done (timerName_eq named)]
    show ∃ k, (checkCallback (.string c) >>= _ : Exec Value) m = _ ∧ _
    rw [Exec.bind_of_done checked]
    show ∃ k, (if p.toInt ≤ 0 then _ else _ : Exec Value) m = _ ∧ _
    rw [if_neg (Int.not_le.mpr asked)]
    show ∃ k, (Exec.host >>= _ : Exec Value) m = _ ∧ _
    have owned : Args.textOr ⟨[.string name, .long p, .string c, .null]⟩ 3 m.host.source m = .done m.host.source m := rfl
    rw [Exec.bind_of_done (show Exec.host m = .done m.host m from rfl), Exec.bind_of_done owned]
    have begun := Exec.onTimers_eq (f := fun ts => ts.start name.trim p.toInt (some (.string c)) m.host.source) started
    show ∃ k, (Exec.onTimers (fun ts => ts.start name.trim p.toInt (some (.string c)) m.host.source) >>= _ : Exec Value) m = _ ∧ _
    rw [Exec.bind_of_done begun]
    exact ⟨_, rfl, (Host.timers_log ..).trans (Host.timers_logTimers _)⟩
  obtain ⟨k, ran, held⟩ := ran
  exact ⟨k, (Builtin.call_of_prepared sleep (.thread .start) (s := m.store) rfl).trans ran, held⟩

theorem call_pause (sleep : Nat → Exec Unit) (m : Machine) (named : name.trim.isEmpty = false) :
    ∃ l, Builtin.call sleep "thread.timerpause" [.string name] m = .done (.bool (m.host.timers.pause name.trim).1) l :=
  ⟨_, (Builtin.call_of_prepared sleep (.thread .pause) (prepare_name ..)).trans (act_eq named _)⟩

theorem call_resume (sleep : Nat → Exec Unit) (m : Machine) (named : name.trim.isEmpty = false) :
    ∃ l, Builtin.call sleep "thread.timerresume" [.string name] m = .done (.bool (m.host.timers.resume name.trim).1) l :=
  ⟨_, (Builtin.call_of_prepared sleep (.thread .resume) (prepare_name ..)).trans (act_eq named _)⟩

theorem call_pause_done (done : Builtin.call sleep "thread.timerpause" [.string name] m = .done v k) :
    k.host.timers = (m.host.timers.pause name.trim).2.drain.2 :=
  act_done ((Builtin.call_of_prepared sleep (.thread .pause) (prepare_name ..)).symm.trans done)

theorem call_resume_done (done : Builtin.call sleep "thread.timerresume" [.string name] m = .done v k) :
    k.host.timers = (m.host.timers.resume name.trim).2.drain.2 :=
  act_done ((Builtin.call_of_prepared sleep (.thread .resume) (prepare_name ..)).symm.trans done)

/-- The nanoseconds that a number of milliseconds is turned into. -/
def nanos (millis : Int64) : Int := Duration.wrap (millis.toInt * Duration.millisecond)

/-- The most milliseconds whose nanoseconds fit 64 bits. -/
def longest : Int := 9223372036854

theorem nanos_eq_iff {p : Int64} (positive : 0 ≤ p.toInt) : nanos p = p.toInt * 1000000 ↔ p.toInt ≤ longest := by
  unfold nanos Duration.wrap Duration.millisecond longest
  constructor
  · intro same
    have bound : (Int64.ofInt (p.toInt * 1000000)).toInt ≤ 9223372036854775807 := Int64.toInt_le _
    omega
  · intro fits
    exact Int64.toInt_ofInt_of_le (by omega) (by omega)

/-- The period that is told of a timer. -/
def told (p : Int64) : Int64 := Int64.ofNat ((nanos p).toNat / 1000000)

theorem toInt_told {p : Int64} (positive : 0 < nanos p) : (told p).toInt = nanos p / 1000000 := by
  have bound : nanos p ≤ 9223372036854775807 := Int64.toInt_le _
  unfold told
  rw [Int64.toInt_ofNat_of_lt (by omega)]
  omega

theorem told_eq_iff {p : Int64} (positive : 0 < nanos p) (asked : 0 < p.toInt) : told p = p ↔ p.toInt ≤ longest := by
  rw [← Int64.toInt_inj, toInt_told positive]
  constructor
  · intro same
    have bound : nanos p ≤ 9223372036854775807 := Int64.toInt_le _
    unfold longest
    omega
  · intro fits
    rw [(nanos_eq_iff (Int.le_of_lt asked)).mpr fits]
    omega

theorem call_period (named : name.trim.isEmpty = false) :
    Builtin.call sleep "thread.timergetperiod" [.string name] m =
      .done (.long ((m.host.timers.find? name.trim).elim (-1) fun t => Int64.ofNat (t.period / 1000000))) m := by
  refine (Builtin.call_of_prepared sleep (.thread .period) (prepare_name ..)).trans ?_
  show ask ⟨[.string name]⟩ (fun t => .long (t.elim (-1) fun t => Int64.ofNat (t.period / 1000000))) m = _
  unfold ask
  rw [Exec.bind_of_done (timerName_eq named)]
  rfl

/-- A whole number at a path of a json value is read as it is. -/
theorem call_getLong {b : Nat} {path : Text} {n : Int64} (reads : m.store.pathGet? (m.store.box b) path = some (.int n)) :
    Builtin.call sleep "json.getlong" [.json b, .string path] m = .done (.long n) m := by
  have prepared : (Signature.prepare (Builtin.signature (.json .getLong)) [.json b, .string path]).run.run m.store =
      (.ok [.json b, .string path, .null], m.store) := rfl
  refine (Builtin.call_of_prepared sleep (.json .getLong) prepared).trans ?_
  have found : JsonOp.found ⟨[.json b, .string path, .null]⟩ m = .done (some (.int n)) m := reads ▸ rfl
  show JsonOp.typed .long ⟨[.json b, .string path, .null]⟩ m = _
  unfold JsonOp.typed
  have read : (liftM (StoreM.ofNode (.int n)) : Exec Value) m = .done (.ofInt64 n) m := rfl
  refine (Exec.bind_of_done found).trans ((Exec.bind_of_done read).trans ?_)
  obtain ⟨i, same, whole⟩ | same := Value.ofInt64_cases n
  · rw [same, ← whole]
    rfl
  · rw [same]
    rfl

/-- What is told of a timer is put into a fresh json value. -/
theorem call_info (sleep : Nat → Exec Unit) {t : Timer} (named : name.trim.isEmpty = false)
    (found : m.host.timers.find? name.trim = some t) :
    ∃ b k, Builtin.call sleep "thread.timergetinfo" [.string name] m = .done (.json b) k ∧
      Builtin.call sleep "json.getlong" [.json b, .string "period"] k = .done (.long (Int64.ofNat (t.period / 1000000))) k := by
  have same : Builtin.call sleep "thread.timergetinfo" [.string name] m = newJson (timerJson m.host m.store t) m := by
    refine (Builtin.call_of_prepared sleep (.thread .info) (prepare_name ..)).trans ?_
    show (timerName ⟨[.string name]⟩ >>= _ : Exec Value) m = _
    rw [Exec.bind_of_done (timerName_eq named), Exec.run_get_bind, found]
  refine ⟨m.store.boxes.size, _, same.trans rfl, call_getLong ?_⟩
  have parsed : Path.parse "period" = .ok [.key "period"] := by decide +kernel
  rw [Store.pathGet?_of_parse parsed]
  show Store.follow? _ ((m.store.boxes.push (.object m.store.objects.size))[m.store.boxes.size]?.getD .null) [.key "period"] = _
  rw [Array.getElem?_push_size]
  show (Json.lookup "period" ((m.store.objects.push _)[m.store.objects.size]?.getD [])).bind some = _
  rw [Array.getElem?_push_size]
  rfl

/-- A span is slept unless it is negative. -/
theorem call_sleep {n : Int64} (whole : u.toInt64? = some n) : Builtin.call sleep "thread.sleep" [u] m =
    (if n.toInt < 0 then throw (Fault.raised Fault.validationError ("sleep duration must not be negative (got " ++ toString n.toInt ++ ")"))
      else do
        sleep (nanos n).toNat
        pure .null : Exec Value) m := by
  have prepared : (Signature.prepare (Builtin.signature (.thread .sleep)) [u]).run.run m.store = (.ok [.long n], m.store) := by
    show (Signature.prepareOne "thread.sleep" (Signature.required "millis" .long) u >>= _ : StoreM (List Value)).run.run m.store = _
    rw [ExceptT.run_bind, StateT.run_bind, Signature.prepareOne_long whole]
    rfl
  refine (Builtin.call_of_prepared sleep (.thread .sleep) prepared).trans ?_
  by_cases negative : n.toInt < 0
  · rw [if_pos negative]
    show (if n.toInt < 0 then _ else _ : Exec Value) m = _
    rw [if_pos negative]
    rfl
  · rw [if_neg negative]
    show (if n.toInt < 0 then _ else _ : Exec Value) m = _
    rw [if_neg negative]
    rfl

end ThreadOp

/-- What happens on a machine while the timer of a name is neither stopped nor replaced. Any timers are paused and go on, time passes,
and whatever else is done leaves the name to its timer. -/
inductive Machine.Spares (sleep : Nat → Exec Unit) (name : Text) (k : Machine) : Machine → Prop where
  | refl : Spares sleep name k k
  | pause {l l' : Machine} {other : Text} {v : Value} (spares : Spares sleep name k l)
    (done : Builtin.call sleep "thread.timerpause" [.string other] l = .done v l') : Spares sleep name k l'
  | resume {l l' : Machine} {other : Text} {v : Value} (spares : Spares sleep name k l)
    (done : Builtin.call sleep "thread.timerresume" [.string other] l = .done v l') : Spares sleep name k l'
  | pass {l l' : Machine} {posts : List (Nat × Timer.Tick)} (spares : Spares sleep name k l)
    (runs : Scheduler.Runs l.host.timers posts l'.host.timers)
    (same : l'.host.timers.number? name.trim = l.host.timers.number? name.trim) : Spares sleep name k l'

theorem Machine.Spares.keeps {sleep : Nat → Exec Unit} {name : Text} {k l : Machine} (spares : Spares sleep name k l) :
    l.host.timers.number? name.trim = k.host.timers.number? name.trim ∧ Scheduler.Keeps k.host.timers l.host.timers := by
  induction spares with
  | refl => exact ⟨rfl, .refl _⟩
  | pause _ done ih =>
    rw [ThreadOp.call_pause_done done]
    exact ⟨(Scheduler.number?_pause ..).trans ih.1, (ih.2.trans (Scheduler.Step.pause _).keeps).trans Scheduler.Step.drain.keeps⟩
  | resume _ done ih =>
    rw [ThreadOp.call_resume_done done]
    exact ⟨(Scheduler.number?_resume ..).trans ih.1, (ih.2.trans (Scheduler.Step.resume _).keeps).trans Scheduler.Step.drain.keeps⟩
  | pass _ runs same ih => exact ⟨same.trans ih.1, ih.2.trans runs.keeps⟩

namespace ThreadOp

variable {m k l : Machine} {u v : Value} {rest : List Value} {name : Text} {sleep : Nat → Exec Unit}

/-- The period that is told of a timer, however it was paused and went on. -/
theorem call_period_of_spares {limit capacity : Int} {posts : List (Nat × Timer.Tick)} {p : Int64}
    (runs : Scheduler.Runs (.make limit capacity) posts m.host.timers) (whole : u.toInt64? = some p)
    (started : Builtin.call sleep "thread.timerstart" (.string name :: u :: rest) m = .done v k)
    (spares : Machine.Spares sleep name k l) :
    0 < p.toInt ∧ 0 < nanos p ∧ Builtin.call sleep "thread.timergetperiod" [.string name] l = .done (.long (told p)) l ∧
      ∃ b l', Builtin.call sleep "thread.timergetinfo" [.string name] l = .done (.json b) l' ∧
        Builtin.call sleep "json.getlong" [.json b, .string "period"] l' = .done (.long (told p)) l' := by
  obtain ⟨named, asked, callback, owner, s, same, held⟩ := call_start_done whole started
  obtain ⟨positive, a, known, found, lasts⟩ := ((Scheduler.sound_make limit capacity).runs runs).started same
  obtain ⟨number, keeps⟩ := spares.keeps
  have kept : (l.host.timers.entry a).period = (nanos p).toNat := by
    rw [keeps.period a (held ▸ known), held]
    exact lasts
  have there : l.host.timers.find? name.trim = some (l.host.timers.entry a) := by
    rw [Text.trim_trim] at found
    have found' : k.host.timers.number? name.trim = some a := held ▸ found
    rw [Scheduler.find?, number, found']
    rfl
  refine ⟨asked, positive, ?_, ?_⟩
  · rw [call_period named, there]
    show Outcome.done (Value.long (Int64.ofNat ((l.host.timers.entry a).period / 1000000))) l = _
    rw [kept]
    rfl
  · have info := call_info sleep named there
    rwa [kept] at info

/-- **Periods and spans.** The period that is told of a timer, however it was paused and went on, is the one that it was started with
if this is at most 9223372036854 milliseconds, and another one otherwise. To sleep some milliseconds is to sleep as many nanoseconds
as that, within the same bound. -/
theorem period_reported {limit capacity : Int} {posts : List (Nat × Timer.Tick)} {p : Int64}
    (runs : Scheduler.Runs (.make limit capacity) posts m.host.timers) (whole : u.toInt64? = some p)
    (started : Builtin.call sleep "thread.timerstart" (.string name :: u :: rest) m = .done v k)
    (spares : Machine.Spares sleep name k l) :
    (∃ q : Int64, Builtin.call sleep "thread.timergetperiod" [.string name] l = .done (.long q) l ∧
      (∃ b l', Builtin.call sleep "thread.timergetinfo" [.string name] l = .done (.json b) l' ∧
        Builtin.call sleep "json.getlong" [.json b, .string "period"] l' = .done (.long q) l') ∧
      q.toInt = nanos p / 1000000 ∧ (q = p ↔ p.toInt ≤ longest)) ∧
    ∀ (m : Machine) (u : Value) (n : Int64), u.toInt64? = some n →
      (n.toInt < 0 → ∃ f, Builtin.call sleep "thread.sleep" [u] m = .failed f m) ∧
      (0 ≤ n.toInt → Builtin.call sleep "thread.sleep" [u] m = (do sleep (nanos n).toNat; pure .null : Exec Value) m ∧
        ((nanos n).toNat = n.toInt * 1000000 ↔ n.toInt ≤ longest)) := by
  constructor
  · obtain ⟨asked, positive, period, info⟩ := call_period_of_spares runs whole started spares
    exact ⟨told p, period, info, toInt_told positive, told_eq_iff positive asked⟩
  · intro m u n whole
    rw [call_sleep whole]
    refine ⟨fun negative => ⟨_, by rw [if_pos negative]; rfl⟩, fun accepted => ⟨by rw [if_neg (Int.not_lt.mpr accepted)], ?_⟩⟩
    have bound : nanos n ≤ 9223372036854775807 := Int64.toInt_le _
    constructor
    · intro same
      unfold longest
      omega
    · intro fits
      have exact := (nanos_eq_iff accepted).mpr fits
      omega

/-- A machine that has run nothing yet. -/
def fresh : Machine := Machine.initial (Host.initial default default) 10 ""

theorem call_start_fresh (sleep : Nat → Exec Unit) {p : Int64} (asked : 0 < p.toInt)
    (accepted : (fresh.host.timers.start "t" p.toInt (some (.string "tick")) "").1 = .ok ()) :
    ∃ k, Builtin.call sleep "thread.timerstart" [.string " t", .long p, .string "tick"] fresh = .done (.string "t") k ∧
      k.host.timers = (fresh.host.timers.start "t" p.toInt (some (.string "tick")) "").2.drain.2 := by
  have trimmed : Text.trim " t" = "t" := by decide +kernel
  exact trimmed ▸ call_start sleep (by decide +kernel) (by decide +kernel) asked (trimmed ▸ Prod.ext accepted rfl)

/-- The longest period that is told as it is, of a timer that was paused and goes on. -/
theorem period_reported_longest :
    let sleep : Nat → Exec Unit := fun _ => pure ()
    ∃ k l l', Builtin.call sleep "thread.timerstart" [.string " t", .long 9223372036854, .string "tick"] fresh = .done (.string "t") k ∧
      Builtin.call sleep "thread.timerpause" [.string "t"] k = .done (.bool true) l ∧
      Builtin.call sleep "thread.timerresume" [.string "t "] l = .done (.bool true) l' ∧
      Builtin.call sleep "thread.timergetperiod" [.string " t"] l' = .done (.long 9223372036854) l' := by
  intro sleep
  obtain ⟨k, started, held⟩ := call_start_fresh sleep (by decide : 0 < (9223372036854 : Int64).toInt) (by decide +kernel)
  obtain ⟨l, paused⟩ : ∃ l, Builtin.call sleep "thread.timerpause" [.string "t"] k = .done (.bool true) l := by
    obtain ⟨l, paused⟩ := call_pause sleep k (by decide +kernel : Text.isEmpty (Text.trim "t") = false)
    rw [held] at paused
    exact ⟨l, paused.trans (congrArg (Outcome.done · l) (congrArg Value.bool (by decide +kernel)))⟩
  obtain ⟨l', resumed⟩ : ∃ l', Builtin.call sleep "thread.timerresume" [.string "t "] l = .done (.bool true) l' := by
    obtain ⟨l', resumed⟩ := call_resume sleep l (by decide +kernel : Text.isEmpty (Text.trim "t ") = false)
    rw [call_pause_done paused, held] at resumed
    exact ⟨l', resumed.trans (congrArg (Outcome.done · l') (congrArg Value.bool (by decide +kernel)))⟩
  obtain ⟨⟨q, period, -, -, same⟩, -⟩ := period_reported .refl rfl started ((Machine.Spares.refl.pause paused).resume resumed)
  refine ⟨k, l, l', started, paused, resumed, ?_⟩
  rw [period, same.mpr (by decide)]

/-- A period beyond the bound is accepted and told as nothing, and a sleep as long is one of less than a millisecond. -/
theorem period_lost :
    (∃ k, Builtin.call (fun _ => pure ()) "thread.timerstart" [.string " t", .long 18446744073710, .string "tick"] fresh =
        .done (.string "t") k ∧
      Builtin.call (fun _ => pure ()) "thread.timergetperiod" [.string " t"] k = .done (.long 0) k) ∧
    ∀ sleep : Nat → Exec Unit,
      Builtin.call sleep "thread.sleep" [.long 18446744073710] fresh = (do sleep 448384; pure .null : Exec Value) fresh := by
  constructor
  · obtain ⟨k, started, -⟩ := call_start_fresh (fun _ => pure ()) (by decide : 0 < (18446744073710 : Int64).toInt) (by decide +kernel)
    obtain ⟨-, -, period, -⟩ := call_period_of_spares .refl rfl started .refl
    have nothing : told 18446744073710 = 0 := by decide +kernel
    exact ⟨k, started, nothing ▸ period⟩
  · intro sleep
    rw [call_sleep rfl, if_neg (by decide)]
    have little : (nanos 18446744073710).toNat = 448384 := by decide +kernel
    rw [little]

end ThreadOp

end ScriptEngine
