import ScriptEngine.Builtin
import ScriptEngine.Builtin.Arguments
import ScriptEngine.Date.Template
/-!
# Builtins on dates
-/

namespace ScriptEngine

namespace DateOp

/-- The date that a text shows, by a template if one is given. Without a zone it is in the one given. -/
def read (text : Text) (template : Option Text) (here : Zone) : Except Fault Date :=
  match template with
  | none =>
    match Date.readIn? here text with
    | some d => .ok d
    | none => .error (Fault.raised Fault.parseError ("invalid date " ++ text.quoted))
  | some template =>
    match Template.parse? template text here with
    | some d => .ok d
    | none =>
      .error (Fault.raised Fault.parseError
        ("date " ++ text.quoted ++ " does not match " ++ template.quoted))

/-- Runs an operation. -/
def run (op : DateOp) (args : Args) : Exec Value := do
  match op with
  | .now => do pure (.date (← Exec.host).clock)
  | .format =>
    let d ← args.date 0
    pure (.string (Template.format (← args.textOr 1 "%Y-%m-%d %H:%M:%S") d))
  | .parse =>
    let here := (← Exec.store).platform.zone
    let template ← if args.isNull 1 then pure none else some <$> args.text 1
    pure (.date (← Exec.ofExcept (read (← args.text 0) template here)))
  | .addDays => do pure (.date ((← args.date 0).addDays (args.int 1)))
  | .diffDays =>
    let first ← args.date 0
    pure (.long (Int64.ofInt (first.daysBetween (← args.date 1))))
  | .toMillis => do pure (.long (Int64.ofInt (← args.date 0).millis))

end DateOp

end ScriptEngine
