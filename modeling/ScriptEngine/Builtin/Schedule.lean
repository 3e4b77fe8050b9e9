import ScriptEngine.Builtin
import ScriptEngine.Builtin.Arguments
/-!
# Builtins on timers
-/

namespace ScriptEngine

namespace ThreadOp

/-- The name of a timer, which must not be blank. -/
def timerName (args : Args) : Exec Text := do
  let name := (← args.text 0).trim
  if name.isEmpty then
    throw (Fault.raised Fault.validationError "timer name cannot be blank")
  pure name

/-- Checks that a value can be a callback. -/
def checkCallback (v : Value) : Exec Unit := do
  match v with
  | .string t =>
    if t.trim.isEmpty then
      throw (Fault.raised Fault.validationError "timer callback cannot be blank")
  | .function _ => pure ()
  | v =>
    throw (Fault.wrongType
      ("timer callback must be a function or its name, got " ++ (← Exec.kindOf v).name))

/-- Starts a timer. -/
def startTimer (args : Args) : Exec Value := do
  let name ← timerName args
  let callback := args.value 2
  checkCallback callback
  let period := args.int 1
  if period ≤ 0 then
    throw (Fault.raised Fault.validationError
      ("period must be positive (got " ++ toString period ++ ")"))
  let owner ← args.textOr 3 (← Exec.host).source
  match ← Exec.onTimers (·.start name period (some callback) owner) with
  | .error r => throw (Fault.raised Fault.validationError r.message)
  | .ok () =>
    Exec.log .debug "timer started"
      [("timer", .text name), ("period", .int period), ("owner", .text owner)]
    pure (.string name)

/-- What json data tells of a timer. -/
def timerJson (h : Host) (s : Store) (t : Timer) : Json :=
  let created := h.wallClock.millis + (t.created / 1000000 : Nat)
  .object [("callback", .text (s.inspect t.callback)), ("createdAt", .int (Int64.ofInt created)),
    ("fireCount", .int (Int64.ofNat t.fires)), ("name", .text t.name), ("paused", .bool t.paused),
    ("period", .int (Int64.ofNat (t.period / 1000000))), ("source", .text t.owner),
    ("uptime", .int (Int64.ofInt (h.clock.millis - created)))]

/-- A fresh json value with a tree. -/
def newJson (j : Json) : Exec Value := Exec.onStore do StoreM.newBox (← StoreM.ofTree j)

/-- Asks the timers something about a name. -/
def ask (args : Args) (f : Option Timer → Value) : Exec Value := do
  let name ← timerName args
  pure (f ((← Exec.host).timers.find? name))

/-- Does something to the timer of a name. -/
def act (args : Args) (f : Scheduler → Text → Bool × Scheduler) : Exec Value := do
  let name ← timerName args
  pure (.bool (← Exec.onTimers fun s => f s name))

/-- Runs an operation. `sleep` lets a number of nanoseconds pass. -/
def run (sleep : Nat → Exec Unit) (op : ThreadOp) (args : Args) : Exec Value := do
  match op with
  | .start => startTimer args
  | .stop => act args Scheduler.stop
  | .pause => act args Scheduler.pause
  | .resume => act args Scheduler.resume
  | .isRunning => ask args fun t => .bool (t.any fun t => !t.paused)
  | .isPaused => ask args fun t => .bool (t.any Timer.paused)
  | .period => ask args fun t => .long (t.elim (-1) fun t => Int64.ofNat (t.period / 1000000))
  | .fireCount => ask args fun t => .long (t.elim (-1) fun t => Int64.ofNat t.fires)
  | .info =>
    let name ← timerName args
    let m ← get
    match m.host.timers.find? name with
    | none => pure .null
    | some t => newJson (timerJson m.host m.store t)
  | .list =>
    let m ← get
    newJson (.list (m.host.timers.timers.map (timerJson m.host m.store)))
  | .stopOwner =>
    let owner ← args.textOr 0 (← Exec.host).source
    pure (.int (Int32.ofNat (← Exec.onTimers (·.stopOwner owner))))
  | .count => do pure (.long (Int64.ofNat (← Exec.host).timers.count))
  | .sleep =>
    let span := args.int 0
    if span < 0 then
      throw (Fault.raised Fault.validationError
        ("sleep duration must not be negative (got " ++ toString span ++ ")"))
    sleep (Duration.wrap (span * Duration.millisecond)).toNat
    pure .null

end ThreadOp

end ScriptEngine
