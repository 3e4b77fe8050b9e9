import ScriptEngine.Builtin.Dispatch
import ScriptEngine.Eval.Callback
import ScriptEngine.Eval.Member
import ScriptEngine.Eval.Operator
/-!
# Running expressions
-/

namespace ScriptEngine.Eval

variable (rec : Runner)

/-- The value of a name. -/
def nameValue (line : Nat) (name : Text) : Exec Value := do
  Exec.atLine line (StoreM.valueOf (← get).scope name)

/-- The truth value of an operand of a logical operator. -/
def logicalOperand (op : BinaryOp) (e : Expr) : Exec Bool := do
  match ← evaluate rec e with
  | .bool b => pure b
  | v =>
    throw ((Fault.wrongType ("operator " ++ op.symbol ++ " needs bool operands, got "
      ++ (← Exec.kindOf v).name)).atLine e.line)

/-- The truth value of the condition of a branch or loop. -/
def condition (e : Expr) : Exec Bool := do
  match ← evaluate rec e with
  | .bool b => pure b
  | v =>
    throw ((Fault.wrongType ("condition must be bool, got " ++ (← Exec.kindOf v).name)).atLine e.line)

/-- Gives a name a new value; a name that is defined nowhere becomes a global variable. -/
def assignName (name : Text) (v : Value) : Exec Value := do
  let m ← get
  if (m.store.lookup? m.scope name).isNone then
    StoreM.defineGlobal m.scope name v
    pure v
  else
    StoreM.assign m.scope name v
    StoreM.valueOf m.scope name

/-- The new value of a target: the value of an expression, joined with the current value if the
assignment has an operator. -/
def newValue (op : AssignOp) (current : Exec Value) (e : Expr) : Exec Value := do
  match op.operator? with
  | none => evaluate rec e
  | some o =>
    let old ← current
    let v ← evaluate rec e
    binary o old v

/-- Runs an assignment. -/
def assignment (op : AssignOp) (target value : Expr) : Exec Value := do
  match target with
  | .name mark name => do
    let v ← newValue rec op (nameValue mark.line name) value
    assignName name v
  | .index _ container key => do
    let c ← evaluate rec container
    let k ← evaluate rec key
    let v ← newValue rec op (readIndex c k) value
    writeIndex c k v
    pure v
  | .member mark base path => do
    let v ← newValue rec op (readMember mark.line base path) value
    writeMember mark.line base path v
    readMember mark.line base path
  | t => throw (Fault.wrongType ("cannot assign to " ++ t.render))

/-- Runs a step by one and gives the value before it. -/
def stepping (op : StepOp) (target : Expr) : Exec Value := do
  let operator := match op with
    | .increment => BinaryOp.add
    | .decrement => BinaryOp.sub
  match target with
  | .name mark name => do
    let old ← nameValue mark.line name
    let _ ← assignName name (← binary operator old (.int 1))
    pure old
  | .index _ container key => do
    let c ← evaluate rec container
    let k ← evaluate rec key
    let old ← readIndex c k
    writeIndex c k (← binary operator old (.int 1))
    pure old
  | .member mark base path => do
    let old ← readMember mark.line base path
    writeMember mark.line base path (← binary operator old (.int 1))
    pure old
  | t => throw (Fault.wrongType ("cannot apply " ++ op.symbol ++ " to " ++ t.render))

/-- Calls a builtin and checks the kind of its result. -/
def builtinCall (line : Nat) (name : Text) (args : List Value) (result : Text) : Exec Value := do
  let v ← tryCatch (Builtin.call (fun span => rec (.sleep span)) name args) fun f => do
    if f.kind = .internal && isPluginName name then
      Exec.log .warn "unknown plugin" [("name", .text name), ("line", .int line)]
    throw (f.atLine line)
  if result.isEmpty || v.isNull then pure v
  else
    let kind ← Exec.kindOf v
    match Kind.ofName? result with
    | some declared =>
      if kind.assignable declared then pure v
      else
        throw ((Fault.ofClass .internal ("builtin " ++ name ++ " returned " ++ kind.name
          ++ ", declared " ++ result)).atLine line)
    | none => pure v

/-- Calls a script function by name. -/
def functionCall (line : Nat) (name : Text) (args : List Expr) (names : List Text) :
    Exec Value := do
  let m ← get
  match m.store.lookup? m.scope name with
  | none => throw ((Fault.badName ("undefined function '" ++ name ++ "'")).atLine line)
  | some (_, b) =>
    match b.value with
    | .function a => do
      let f := m.store.function a
      let vs ← evaluateAll rec args
      apply rec f f.frame vs names line
    | v =>
      throw ((Fault.wrongType ("'" ++ name ++ "' is not a function, got "
        ++ (m.store.kindOf v).name)).atLine line)

/-- The entries of an object literal; the later of two values for one key stays. -/
def objectEntries : List (Text × Expr) → List (Text × Node) → Exec (List (Text × Node))
  | [], done => pure done
  | (k, e) :: rest, done => do
    let v ← evaluate rec e
    let n ← StoreM.toNode v
    objectEntries rest (Json.insert k n done)

/-- The value of an expression. -/
def expression : Expr → Exec Value
  | .name mark name => nameValue mark.line name
  | .int _ n => pure (.int n)
  | .long _ n => pure (.long n)
  | .double _ x => pure (.double x)
  | .string _ t => pure (.string t)
  | .date _ d => StoreM.look fun s => .date (d.shownIn s.platform.zone)
  | .bool _ b => pure (.bool b)
  | .null _ => pure .null
  | .array _ es => do StoreM.newArrayOf (← evaluateAll rec es)
  | .object _ ps => do
    let entries ← objectEntries rec ps []
    let o ← StoreM.newObject entries
    StoreM.newBox (← StoreM.normalize o)
  | .unary _ op e => do unary op (← evaluate rec e)
  | .binary _ .and l r => do
    if ← logicalOperand rec .and l then
      let b ← logicalOperand rec .and r
      pure (.bool b)
    else pure (.bool false)
  | .binary _ .or l r => do
    if ← logicalOperand rec .or l then pure (.bool true)
    else
      let b ← logicalOperand rec .or r
      pure (.bool b)
  | .binary _ op l r => do
    let a ← evaluate rec l
    let b ← evaluate rec r
    binary op a b
  | .assign _ op target value => assignment rec op target value
  | .step _ op target => stepping rec op target
  | .index _ container key => do
    let c ← evaluate rec container
    let k ← evaluate rec key
    readIndex c k
  | .length _ e => do lengthOf (← evaluate rec e)
  | .member mark base path => readMember mark.line base path
  | .call mark name args names isBuiltin result =>
    if isBuiltin then do
      let vs ← evaluateAll rec args
      builtinCall rec mark.line name vs result
    else functionCall rec mark.line name args names
  | .typeOf _ e => do
    let v ← evaluate rec e
    pure (.string (← Exec.kindOf v).name)

end ScriptEngine.Eval
