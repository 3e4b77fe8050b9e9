import ScriptEngine.Host
import ScriptEngine.Store.Path
import ScriptEngine.Store.Scope
/-!
# The machine that runs scripts

A machine has memory, the scope in use, a record of what is being run, and the world around it. A
computation ends with a result, ends in a fault, crashes, or runs out of fuel before it ends; a fault leaves
the machine as it was when the fault arose. A script can handle faults, but nothing handles a crash: it takes
down all that is being run.
-/

namespace ScriptEngine

/-- An entry of the record of what is being run. -/
structure CallEntry where
  kind : Text
  name : Text
  line : Nat
deriving Inhabited

/-- The state of a run. -/
structure Machine where
  store : Store
  scope : Scope
  host : Host
  /-- The number of calls being run. -/
  depth : Nat
  /-- What is being run, innermost first. -/
  calls : List CallEntry
  /-- The paths of the files that were imported. -/
  imported : List Text
  /-- The variables that callbacks of an owner's timers see. -/
  owners : List (Text × List (Text × Value))
  maxDepth : Nat
  importDir : Text

/-- The machine with its top frame popped. -/
def Machine.popped (m : Machine) : Machine := { m with scope := m.scope.popped }

theorem Machine.popped_of_add {m : Machine} {e : Scope} {a : Nat} (top : m.scope = e.add a) : m.popped = { m with scope := e } := by
  rw [popped, top, Scope.popped_add]

/-- How a computation ends. -/
inductive Outcome (α : Type) where
  | done (result : α) (m : Machine)
  | failed (f : Fault) (m : Machine)
  | crashed (why : Text) (m : Machine)
  | outOfFuel

/-- A computation on a machine. -/
def Exec (α : Type) : Type := Machine → Outcome α

namespace Exec

variable {α β : Type}

/-- The computation that only gives a result. -/
@[inline]
def result (a : α) : Exec α := fun m => .done a m

/-- One computation after another; a fault or a crash ends both. -/
@[inline]
def andThen (x : Exec α) (f : α → Exec β) : Exec β := fun m =>
  match x m with
  | .done a m => f a m
  | .failed e m => .failed e m
  | .crashed why m => .crashed why m
  | .outOfFuel => .outOfFuel

instance : Monad Exec where
  pure := result
  bind := andThen

/-- The computation that ends in a fault. -/
@[inline]
def fail (f : Fault) : Exec α := fun m => .failed f m

/-- The computation that crashes. -/
def crash (why : Text) : Exec α := fun m => .crashed why m

/-- A computation, and another in the place of its fault. -/
@[inline]
def rescue (x : Exec α) (handle : Fault → Exec α) : Exec α := fun m =>
  match x m with
  | .failed e m => handle e m
  | r => r

instance : MonadExcept Fault Exec where
  throw := fail
  tryCatch := rescue

instance : MonadStateOf Machine Exec where
  get := fun m => .done m m
  set := fun m _ => .done () m
  modifyGet := fun f m => let (a, m) := f m; .done a m

/-- The computation that needs more fuel than there is. -/
def noFuel : Exec α := fun _ => .outOfFuel

/-- A computation on memory. -/
@[inline]
def onStore (x : StoreM α) : Exec α := fun m =>
  let s := m.store
  let m := { m with store := default }
  match x s with
  | (.ok a, s) => .done a { m with store := s }
  | (.error e, s) => .failed e { m with store := s }

instance : MonadLift StoreM Exec := ⟨onStore⟩

/-- A computation between changes of the machine; the second is made after a fault as well. -/
@[inline]
def within (before after : Machine → Machine) (x : Exec α) : Exec α := fun m =>
  match x (before m) with
  | .done a m => .done a (after m)
  | .failed e m => .failed e (after m)
  | .crashed why m => .crashed why m
  | .outOfFuel => .outOfFuel

/-- A computation with its fault, if any, at a line. -/
@[inline]
def atLine (line : Nat) (x : Exec α) : Exec α := fun m =>
  match x m with
  | .failed e m => .failed (e.atLine line) m
  | r => r

/-- Runs a computation with another scope. -/
@[inline]
def inScope (scope : Scope) (x : Exec α) : Exec α := fun m =>
  let old := m.scope
  within (fun m => { m with scope := scope }) (fun m => { m with scope := old }) x m

/-- Runs a computation in a scope whose top frame is popped behind it. -/
@[inline]
def popping (scope : Scope) (x : Exec α) : Exec α := within (fun m => { m with scope := scope }) Machine.popped x

/-- Runs a computation in a fresh frame inside the top one. -/
@[inline]
def inFrame (x : Exec α) : Exec α := do
  let scope ← onStore (StoreM.push (← get).scope)
  popping scope x

/-- Runs a computation; behind a fault the scope is cut back to the frames that were there before. -/
@[inline]
def unwinding (x : Exec α) : Exec α := fun m =>
  let mark := m.scope.length
  match x m with
  | .failed e m => .failed e { m with scope := m.scope.unwind mark }
  | r => r

/-- Runs a computation that is recorded as being run. -/
@[inline]
def recorded (kind name : Text) (line : Nat) (x : Exec α) : Exec α :=
  within (fun m => { m with calls := ⟨kind, name, line⟩ :: m.calls })
    (fun m => { m with calls := m.calls.drop 1 }) x

/-- Changes the world around. -/
@[inline]
def onHost (f : Host → Host) : Exec Unit := fun m => .done () { m with host := f m.host }

/-- The world around. -/
@[inline]
def host : Exec Host := fun m => .done m.host m

/-- The memory. -/
@[inline]
def store : Exec Store := fun m => .done m.store m

/-- A random number. -/
def random : Exec UInt64 := fun m =>
  let (n, h) := m.host.random
  .done n { m with host := h }

/-- Writes a record to the log. -/
def log (level : Log.Level) (message : Text) (attrs : List Log.Attr) : Exec Unit :=
  onHost (·.log ⟨level, message, attrs⟩)

/-- Changes the timers and writes what was done to the log. -/
def onTimers (f : Scheduler → α × Scheduler) : Exec α := fun m =>
  let (a, timers) := f m.host.timers
  .done a { m with host := { m.host with timers := timers }.logTimers }

/-- Ends in a fault when the script must stop. -/
def checkInterrupt : Exec Unit := fun m =>
  match m.host.interruption? with
  | some why => .failed (Fault.ofClass .internal ("execution interrupted: " ++ why)) m
  | none => .done () m

/-- The kind of a value. -/
def kindOf (v : Value) : Exec Kind := fun m => .done (m.store.kindOf v) m

/-- The text of a value. -/
def inspect (v : Value) : Exec Text := fun m => .done (m.store.inspect v) m

/-- The result of a check. -/
def ofExcept (r : Except Fault α) : Exec α := fun m =>
  match r with
  | .ok a => .done a m
  | .error f => .failed f m

end Exec

end ScriptEngine
