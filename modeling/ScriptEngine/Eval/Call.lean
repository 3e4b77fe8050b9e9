import ScriptEngine.Eval.Declare
/-!
# Calls of script functions

A function runs in a fresh frame inside the one it was declared in. Arguments are given by position or
by name; those left out take their defaults, which may use the parameters before them.
-/

namespace ScriptEngine.Eval

/-- The fault of arguments that do not fit a function. -/
def badArguments (message : Text) : Fault :=
  { Fault.raised Fault.validationError message with detail := Fault.Detail.arityMismatch.label }

/-- Puts named arguments at the places of their parameters. -/
def placeNamed (f : FunctionData) :
    List (Text × Value) → List (Option Value) → Except Fault (List (Option Value))
  | [], bound => .ok bound
  | (name, v) :: rest, bound =>
    match f.params.findIdx? fun p => p.name = name with
    | none => .error (badArguments (f.name ++ " has no parameter " ++ name.quoted))
    | some i =>
      if (bound[i]?).join.isSome then
        .error (badArguments (f.name ++ " parameter " ++ name.quoted ++ " given twice"))
      else placeNamed f rest (bound.set i (some v))

/-- The argument of each parameter, if it was given. -/
def bindArguments (f : FunctionData) (args : List Value) (names : List Text) :
    Except Fault (List (Option Value)) :=
  let n := f.params.length
  if n < args.length then
    .error (badArguments (f.name ++ " takes at most " ++ toString n ++ " arguments, got "
      ++ toString args.length))
  else if names.isEmpty then
    .ok (args.map some ++ List.replicate (n - args.length) none)
  else placeNamed f (names.zip args) (List.replicate n none)

variable (rec : Runner)

/-- Defines the parameters of a function in the top frame. -/
def bindParams (f : FunctionData) : List (Param × Option Value) → Exec Unit
  | [] => pure ()
  | (p, given) :: rest => do
    let v ← match given, p.fallback with
      | some v, _ => pure v
      | none, some e => evaluate rec e
      | none, none =>
        throw (badArguments (f.name ++ " missing mandatory parameter " ++ p.name.quoted))
    let shape ← match p.type with
      | some t => shapeOf rec t
      | none => pure none
    let kind := (p.type.map TypeSpec.kind).getD .any
    let scope := (← get).scope
    tryCatch (Exec.onStore (declareAs scope p.name kind shape v false)) fun e =>
      throw (if e.kind = .type then
          Fault.wrongType (f.name ++ " parameter " ++ p.name.quoted ++ ": " ++ e.message)
        else e)
    bindParams f rest

/-- The value that the body of a function gives, made to fit the declared result. -/
def resultOf (f : FunctionData) (line : Nat) (flow : Flow) : Exec Value := do
  let v := match flow with
    | .returned v => v
    | _ => .null
  match f.result with
  | none => pure v
  | some t =>
    let kind ← Exec.kindOf v
    tryCatch (Exec.onStore (StoreM.coerce v t.kind)) fun _ =>
      throw ((Fault.wrongType ("function " ++ f.name ++ " must return " ++ t.kind.name ++ ", got "
        ++ kind.name)).atLine line)

/-- Calls a function in a frame inside `outer`. -/
def apply (f : FunctionData) (outer : Nat) (args : List Value) (names : List Text) (line : Nat) :
    Exec Value := do
  let m ← get
  if m.maxDepth ≤ m.depth then
    throw ((Fault.raised Fault.anyError ("maximum call depth " ++ toString m.maxDepth
      ++ " exceeded calling " ++ f.name)).atLine line)
  let bound ← Exec.atLine line (Exec.ofExcept (bindArguments f args names))
  Exec.within (fun m => { m with depth := m.depth + 1 }) (fun m => { m with depth := m.depth - 1 })
    (Exec.recorded "call" f.name line do
      let scope ← StoreM.pushFrom (← get).scope (some outer)
      Exec.popping scope do
        Exec.atLine line (bindParams rec f (f.params.zip bound))
        let flow ← statements rec f.body.body
        resultOf f line flow)

end ScriptEngine.Eval
