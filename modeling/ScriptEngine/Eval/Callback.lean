import ScriptEngine.Eval.Call
/-!
# Timer callbacks

The callback of a timer is a function or the name of one. It runs outside of whatever is being run when
its tick is taken: in the global frame, with the variables of the timer's owner around it. A fault in a
callback is logged and ends only the callback.
-/

namespace ScriptEngine.Eval

/-- The function that a callback stands for. -/
def resolveCallback (v : Value) : Exec FunctionData := do
  let m ← get
  match v with
  | .function a => pure (m.store.function a)
  | .string t =>
    let name := t.trim.lower
    match m.store.lookup? m.scope name with
    | none => throw (Fault.badName ("undefined function '" ++ name ++ "'"))
    | some (_, b) =>
      match b.value with
      | .function a => pure (m.store.function a)
      | w =>
        throw (Fault.wrongType
          ("'" ++ t ++ "' is not a function, got " ++ (m.store.kindOf w).name))
  | v =>
    throw (Fault.wrongType
      ("timer callback must be a function, got " ++ (m.store.kindOf v).name))

/-- The name of a callback in the log. -/
def callbackLabel (s : Store) : Value → Text
  | .function a => (s.function a).name
  | v => s.inspect v

variable (rec : Runner)

/-- Defines variables in the top frame. -/
def defineAll (vars : List (Text × Value)) : Exec Unit := do
  let scope := (← get).scope
  for (name, v) in vars do
    Exec.onStore (StoreM.define scope name v)

/-- Runs the callback of a tick; it may fail. -/
def callbackOf (t : Timer.Tick) : Exec Unit := do
  let m ← get
  Exec.inScope m.scope.detach do
    let f ← resolveCallback t.callback
    let scope ← StoreM.pushFrom (← get).scope (some f.frame)
    Exec.popping scope do
      defineAll ((m.owners.lookup t.owner).getD [])
      let args := if f.params.isEmpty then [] else [Value.string t.name]
      let _ ← apply rec f scope.top args [] 0

/-- Runs the callback of a tick and logs its fault. -/
def runTick (t : Timer.Tick) : Exec Unit :=
  tryCatch (callbackOf rec t) fun f => do
    let label := callbackLabel (← get).store t.callback
    Exec.log .error ("Error executing timer callback '" ++ label ++ "' for timer '" ++ t.name ++ "': "
        ++ f.message)
      [("timer", .text t.name), ("fire", .int t.fire), ("owner", .text t.owner),
        ("line", .int f.line)]

/-- Takes the next tick, if there is one. -/
def takeTick : Exec (Option Timer.Tick) :=
  Exec.onTimers fun s =>
    match s.take? with
    | some (t, s) => (some t, s)
    | none => (none, s)

/-- Lets time pass up to the next tick of a timer, but not beyond a time. -/
def passTime (time : Nat) : Exec Unit :=
  Exec.onTimers fun s =>
    let next := match s.nextDue? with
      | some (_, due) => min due time
      | none => time
    ((), s.advance (next - s.now))

/-- One round of waiting: ends when the time has come, and else runs a callback or lets time pass. -/
def waitRound (time : Nat) : Exec (Option Unit) := do
  let h ← Exec.host
  if time ≤ h.timers.now then pure (some ())
  else
    Exec.checkInterrupt
    match ← takeTick with
    | some t =>
      runTick rec t
      pure none
    | none =>
      passTime (match h.deadline with
        | some d => min d time
        | none => time)
      pure none

/-- Lets time pass up to a time and runs callbacks meanwhile. `fuel` bounds the rounds. -/
def waitUntil (fuel : Nat) (time : Nat) : Exec Unit := rounds (waitRound rec time) fuel

/-- Runs the callbacks of at most `n` ticks in wait, and tells how many there were. -/
def pumpUpTo : Nat → Nat → Exec Nat
  | 0, done => pure done
  | n + 1, done => do
    match ← takeTick with
    | some t =>
      runTick rec t
      pumpUpTo n (done + 1)
    | none => pure done

/-- Runs the callbacks of the ticks in wait. -/
def pump : Exec Nat := do pumpUpTo rec (← Exec.host).timers.queue.length 0

end ScriptEngine.Eval
