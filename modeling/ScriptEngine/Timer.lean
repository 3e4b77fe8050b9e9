import ScriptEngine.Log
import ScriptEngine.Value
/-!
# Timers

A timer has a name and posts a tick every period. Ticks wait in a queue of limited length until they are taken.

A worker posts the ticks of a timer, one after the other. Its ticker rings every period and keeps at most one ring; the
worker reads how many ticks of the timer were counted, offers the next one to the queue, and counts it once it is posted.
Each of these is a step of its own. A timer that is paused tells its worker to stop, and gets a new worker when it goes on.
A worker looks whether it was told to stop only while it waits for its ticker or for a place in the queue.

Time is a number of nanoseconds from when the scheduler was made, and passes only when the scheduler is told so. Workers
go on as far as they can whenever time passes or a tick is taken.
-/

namespace ScriptEngine

/-- A timer. -/
structure Timer where
  name : Text
  /-- The period in nanoseconds. -/
  period : Nat
  callback : Value
  owner : Text
  created : Nat
  /-- How many of its ticks were counted. -/
  fires : Nat
  paused : Bool
  /-- The number of the worker that it can tell to stop. -/
  stop : Option Nat
deriving Inhabited

/-- One firing of a timer. -/
structure Timer.Tick where
  name : Text
  callback : Value
  owner : Text
  fire : Nat
deriving Inhabited

/-- The tick of a timer that carries a number. -/
def Timer.tick (t : Timer) (fire : Nat) : Timer.Tick := ⟨t.name, t.callback, t.owner, fire⟩

/-- Where a worker is in its round. -/
inductive Timer.Stage where
  /-- It waits for its ticker. -/
  | waiting
  /-- It offers the tick with a number. -/
  | offering (fire : Nat)
  /-- It has posted a tick and not counted it yet. -/
  | posted
  /-- It has left for good. -/
  | left
deriving DecidableEq, Inhabited

/-- What posts the ticks of a timer. -/
structure Timer.Worker where
  /-- The number of the timer. -/
  timer : Nat
  /-- How often it was told to stop. -/
  told : Nat
  stage : Timer.Stage
  /-- When its ticker rings next. -/
  due : Nat
  /-- Whether its ticker keeps a ring. -/
  rang : Bool
deriving Inhabited

/-- Why a timer cannot be started. -/
inductive Timer.Refusal where
  | closed
  | limit (max : Nat)
  | noName
  | badPeriod
  | noCallback
deriving DecidableEq

/-- The wording of a refusal. -/
def Timer.Refusal.message : Timer.Refusal → Text
  | closed => "timer scheduler is closed"
  | limit max => "too many active timers (limit " ++ toString max ++ ")"
  | noName => "timer name must not be blank"
  | badPeriod => "period must be positive"
  | noCallback => "timer callback is required"

/-- The timers and their workers, and the ticks in wait. Timers and workers are numbered in the order in which they came
up; none is ever forgotten, as a worker may go on after its timer was stopped. -/
structure Scheduler where
  entries : Array Timer
  /-- The numbers of the timers that can be found by name, in rising order of names. -/
  listed : List Nat
  workers : Array Timer.Worker
  queue : List Timer.Tick
  /-- The numbers of the workers that wait for a place in the queue, longest first. -/
  blocked : List Nat
  closed : Bool
  limit : Nat
  capacity : Nat
  now : Nat
  /-- What was done, for the log; latest first. -/
  events : List Log.Record
deriving Inhabited

namespace Scheduler

/-- The limits that hold when no others are given. -/
def defaultLimit : Nat := 32
/-- The length of the queue when no other is given. -/
def defaultCapacity : Nat := 64

/-- A scheduler without timers. A limit that is not positive and a negative length of the queue give
way to the defaults. -/
def make (limit capacity : Int) : Scheduler where
  entries := #[]
  listed := []
  workers := #[]
  queue := []
  blocked := []
  closed := false
  limit := if limit > 0 then limit.toNat else defaultLimit
  capacity := if capacity ≥ 0 then capacity.toNat else defaultCapacity
  now := 0
  events := []

/-- The timer with a number. -/
def entry (s : Scheduler) (a : Nat) : Timer := (s.entries[a]?).getD default

/-- The worker with a number. -/
def worker (s : Scheduler) (w : Nat) : Timer.Worker := (s.workers[w]?).getD default

/-- Changes a timer. -/
def withEntry (s : Scheduler) (a : Nat) (f : Timer → Timer) : Scheduler := { s with entries := s.entries.modify a f }

/-- Changes a worker. -/
def withWorker (s : Scheduler) (w : Nat) (f : Timer.Worker → Timer.Worker) : Scheduler :=
  { s with workers := s.workers.modify w f }

/-- The timers that can be found by name, in rising order of names. -/
def timers (s : Scheduler) : List Timer := s.listed.map s.entry

/-- The number of the timer with a name. -/
def number? (s : Scheduler) (name : Text) : Option Nat := s.listed.find? fun a => (s.entry a).name = name

/-- The timer with a name. -/
def find? (s : Scheduler) (name : Text) : Option Timer := (s.number? name).map s.entry

/-- The number of timers, paused ones included. -/
def count (s : Scheduler) : Nat := s.listed.length

/-- The number of timers that are not paused. -/
def running (s : Scheduler) : Nat := (s.timers.filter fun t => !t.paused).length

/-- Notes an event for the log. -/
def note (s : Scheduler) (message : Text) (attrs : List Log.Attr) : Scheduler :=
  { s with events := ⟨.debug, message, attrs⟩ :: s.events }

/-- The events noted so far, and the scheduler without them. -/
def drain (s : Scheduler) : List Log.Record × Scheduler :=
  (s.events.reverse, { s with events := [] })

/-! ## The life of timers -/

/-- Gives a timer a new worker. -/
def spawn (s : Scheduler) (a : Nat) : Scheduler :=
  let w := s.workers.size
  { s with workers := s.workers.push ⟨a, 0, .waiting, s.now + (s.entry a).period, false⟩ }.withEntry a
    fun t => { t with stop := some w }

/-- Tells the worker of a timer to stop, if the timer runs. -/
def cancel (s : Scheduler) (a : Nat) : Scheduler :=
  match (s.entry a).stop with
  | none => s
  | some w =>
    { s.withWorker w (fun x => { x with told := x.told + 1 }) with blocked := s.blocked.filter (· ≠ w) }.withEntry a
      fun t => { t with stop := none }

/-- Stops a timer; it cannot be found any more. -/
def erase (s : Scheduler) (a : Nat) : Scheduler :=
  let s := s.cancel a
  { s with listed := s.listed.filter (· ≠ a) }

/-- Numbers with one more, at the place of its timer's name. -/
def insert (s : Scheduler) (a : Nat) : List Nat → List Nat
  | [] => [a]
  | b :: rest => if (s.entry a).name.before (s.entry b).name then a :: b :: rest else b :: insert s a rest

/-- Adds a timer that cannot be found yet, and gives it a worker. -/
def register (s : Scheduler) (t : Timer) : Scheduler :=
  let a := s.entries.size
  let s := { s with entries := s.entries.push t }
  { s with listed := s.insert a s.listed }.spawn a

/-- Stops the timer of a name, if there is one, so that another can take its place. -/
def vacate (s : Scheduler) (name : Text) : Scheduler :=
  match s.number? name with
  | some a => (s.erase a).note "timer replaced" [("timer", .text name)]
  | none => s

/-- Starts a timer in the place of any other of its name. The period is in nanoseconds. -/
def startEvery (s : Scheduler) (name : Text) (period : Int) (callback : Option Value)
    (owner : Text) : Except Timer.Refusal Unit × Scheduler :=
  let name := name.trim
  if name.isEmpty then (.error .noName, s)
  else if period ≤ 0 then (.error .badPeriod, s)
  else match callback with
    | none | some .null => (.error .noCallback, s)
    | some callback =>
      if s.closed then (.error .closed, s)
      else
        let s := s.vacate name
        if s.limit ≤ s.count then (.error (.limit s.limit), s)
        else
          (.ok (), (s.register ⟨name, period.toNat, callback, owner, s.now, 0, false, none⟩).note "timer started"
            [("timer", .text name), ("period", .span period), ("owner", .text owner)])

/-- Starts a timer whose period is in milliseconds. -/
def start (s : Scheduler) (name : Text) (periodMillis : Int) (callback : Option Value)
    (owner : Text) : Except Timer.Refusal Unit × Scheduler :=
  s.startEvery name (Duration.wrap (periodMillis * Duration.millisecond)) callback owner

/-- Pauses a timer; `false` when there is none of the name that runs. -/
def pause (s : Scheduler) (name : Text) : Bool × Scheduler :=
  match s.number? name with
  | none => (false, s)
  | some a =>
    if (s.entry a).paused then (false, s)
    else
      (true, ((s.cancel a).withEntry a fun t => { t with paused := true }).note "timer paused"
        [("timer", .text name)])

/-- Lets a paused timer go on; `false` when there is none of the name. -/
def resume (s : Scheduler) (name : Text) : Bool × Scheduler :=
  match s.number? name with
  | none => (false, s)
  | some a =>
    if !(s.entry a).paused || s.closed then (false, s)
    else
      (true, ((s.withEntry a fun t => { t with paused := false }).spawn a).note "timer resumed"
        [("timer", .text name)])

/-- Stops a timer and forgets it; `false` when there is none of the name. -/
def stop (s : Scheduler) (name : Text) : Bool × Scheduler :=
  match s.number? name with
  | none => (false, s)
  | some a =>
    (true, (s.erase a).note "timer stopped" [("timer", .text name), ("fires", .int (s.entry a).fires)])

/-- Stops all timers of an owner and tells how many there were. -/
def stopOwner (s : Scheduler) (owner : Text) : Nat × Scheduler :=
  let mine := s.listed.filter fun a => (s.entry a).owner = owner
  let s := mine.foldl erase s
  (mine.length, if mine.isEmpty then s
    else s.note "owner timers stopped" [("owner", .text owner), ("count", .int mine.length)])

/-- Stops all timers; none can be started any more. -/
def shut (s : Scheduler) : Scheduler := { s.listed.foldl erase s with closed := true }

/-! ## The steps of workers -/

/-- The ticker of a worker rings. -/
def ring (s : Scheduler) (w : Nat) : Scheduler :=
  s.withWorker w fun x => { x with due := x.due + (s.entry x.timer).period, rang := true }

/-- A worker whose ticker rang reads how many ticks were counted, and has the next one to offer. -/
def load (s : Scheduler) (w : Nat) : Scheduler :=
  let x := s.worker w
  if x.stage = .waiting && x.rang then
    s.withWorker w fun x => { x with stage := .offering ((s.entry x.timer).fires + 1), rang := false }
  else s

/-- A worker posts the tick that it offers when the queue has a place. -/
def send (s : Scheduler) (w : Nat) : Scheduler :=
  let x := s.worker w
  match x.stage with
  | .offering fire =>
    if s.queue.length < s.capacity then
      { s.withWorker w (fun x => { x with stage := .posted }) with
        queue := s.queue ++ [(s.entry x.timer).tick fire], blocked := s.blocked.filter (· ≠ w) }
    else s
  | _ => s

/-- A worker hands over the tick that it offers to who takes it; so it goes when the queue has no places at all. -/
def hand? (s : Scheduler) (w : Nat) : Option (Timer.Tick × Scheduler) :=
  let x := s.worker w
  match x.stage with
  | .offering fire =>
    if s.capacity = 0 then
      some ((s.entry x.timer).tick fire,
        { s.withWorker w (fun x => { x with stage := .posted }) with blocked := s.blocked.filter (· ≠ w) })
    else none
  | _ => none

/-- A worker counts the tick that it posted, and waits for its ticker again. -/
def tally (s : Scheduler) (w : Nat) : Scheduler :=
  let x := s.worker w
  if x.stage = .posted then
    (s.withEntry x.timer fun t => { t with fires := t.fires + 1 }).withWorker w fun x => { x with stage := .waiting }
  else s

/-- A worker that was told to stop leaves, unless it has a tick to count. -/
def leave (s : Scheduler) (w : Nat) : Scheduler :=
  let x := s.worker w
  if x.told > 0 && x.stage ≠ .posted then s.withWorker w fun x => { x with stage := .left } else s

/-- Stops all timers for good and waits for their workers to leave; ticks in the queue stay. -/
def close (s : Scheduler) : Scheduler :=
  let s := s.shut
  (List.range s.workers.size).foldl (fun s w => (s.tally w).leave w) s

/-! ## Time -/

/-- A worker that offers a tick in vain waits for a place behind the others that do. -/
def queueUp (s : Scheduler) (w : Nat) : Scheduler :=
  match (s.worker w).stage with
  | .offering _ => if w ∈ s.blocked then s else { s with blocked := s.blocked ++ [w] }
  | _ => s

/-- A worker goes on as far as it can. -/
def go (s : Scheduler) (w : Nat) : Scheduler := (((s.load w).send w).tally w).queueUp w

/-- The worker whose ticker rings first, and when. -/
def nextDue? (s : Scheduler) : Option (Nat × Nat) :=
  s.timers.foldl (fun best t =>
    match t.stop, best with
    | none, _ => best
    | some w, none => some (w, (s.worker w).due)
    | some w, some (_, b) => if (s.worker w).due < b then some (w, (s.worker w).due) else best) none

/-- Lets the first ticker that is due up to a time ring; `none` when there is none. -/
def step? (s : Scheduler) (time : Nat) : Option Scheduler :=
  match s.nextDue? with
  | none => none
  | some (w, due) => if time < due then none else some (({ s with now := max s.now due }.ring w).go w)

/-- Lets time pass up to a time, in at most `n` steps. -/
def advanceTo (s : Scheduler) (time : Nat) : Nat → Scheduler
  | 0 => { s with now := max s.now time }
  | n + 1 =>
    match s.step? time with
    | some s => advanceTo s time n
    | none => { s with now := max s.now time }

/-- The number of ticks that timers post within a span. -/
def ticksWithin (s : Scheduler) (span : Nat) : Nat :=
  (s.timers.map fun t => span / max t.period 1 + 1).foldr (· + ·) 0

/-- Lets a span of time pass. -/
def advance (s : Scheduler) (span : Nat) : Scheduler :=
  s.advanceTo (s.now + span) (s.ticksWithin span)

/-- Takes the next tick. The worker that waited longest for a place in the queue has one then, or hands its tick over when
there are no places. -/
def take? (s : Scheduler) : Option (Timer.Tick × Scheduler) :=
  match s.queue, s.blocked with
  | t :: rest, [] => some (t, { s with queue := rest })
  | t :: rest, w :: _ => some (t, ({ s with queue := rest }.go w).go w)
  | [], [] => none
  | [], w :: _ => (s.hand? w).map fun (t, s) => (t, (s.tally w).go w)

/-- Waits for the next tick; `none` when no timer runs. -/
def await? (s : Scheduler) : Option (Timer.Tick × Scheduler) :=
  match s.take? with
  | some r => some r
  | none =>
    match s.nextDue? with
    | none => none
    | some (_, due) => (s.advance (due - s.now)).take?

end Scheduler

end ScriptEngine
