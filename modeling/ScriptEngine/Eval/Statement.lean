import ScriptEngine.Eval.Expression
import ScriptEngine.Program.Parser
/-!
# Running statements
-/

namespace ScriptEngine.Eval

variable (rec : Runner)

/-- Defines a function in the top frame. -/
def defineFunction (name : Text) (params : List Param) (result : Option TypeSpec) (body : Block) :
    Exec Unit := do
  let scope := (← get).scope
  let f ← StoreM.newFunction ⟨name, params, result, body, scope.top⟩
  StoreM.define scope name f

/-- Defines the functions among some statements. -/
def hoist : List Stmt → Exec Unit
  | [] => pure ()
  | .function _ name params result body :: rest => do
    defineFunction name params result body
    hoist rest
  | _ :: rest => hoist rest

/-- Statements of the outermost level one after the other; a signal to end a loop ends nothing
there. -/
def programFrom (last : Flow) : List Stmt → Exec Flow
  | [] => pure last
  | s :: rest => fun m =>
    match rec (.stmt s) m with
    | .done (.returned v) m => .done (.value v) m
    | .done f m => programFrom f rest m
    | .failed e m => .failed (e.atLine s.line) m
    | .crashed why m => .crashed why m
    | .outOfFuel => .outOfFuel

/-- Statements of the outermost level are one statement and, unless that returns, the statements after it. -/
theorem programFrom_cons (last : Flow) (s : Stmt) (rest : List Stmt) :
    programFrom rec last (s :: rest) =
      Exec.atLine (α := Flow) s.line (rec (.stmt s)) >>= fun flow =>
        match flow with
        | .returned v => pure (.value v)
        | f => programFrom rec f rest := by
  funext m
  show programFrom rec last (s :: rest) m = Exec.andThen (Exec.atLine (α := Flow) s.line (rec (.stmt s))) _ m
  rw [programFrom]
  unfold Exec.andThen Exec.atLine
  dsimp only
  cases rec (.stmt s) m with
  | done flow l => cases flow <;> rfl
  | _ => rfl

/-- The statements of a source text. -/
def program (p : Program) : Exec Flow := do
  hoist p.body
  programFrom rec (.value .null) p.body

/-! ## Loops -/

/-- What the body of a loop left behind makes of the loop: its end, or nothing. -/
def afterBody : Flow → Option Flow
  | .broken => some (.value .null)
  | .returned v => some (.returned v)
  | _ => none

/-- One round of a loop that tests before its body. -/
def testedRound (test update : Option Expr) (body : Block) : Exec (Option Flow) := do
  Exec.checkInterrupt
  let goes ← match test with
    | some e => condition rec e
    | none => pure true
  if !goes then pure (some (.value .null))
  else
    match afterBody (← blockBody rec body) with
    | some f => pure (some f)
    | none =>
      match update with
      | some e => do
        let _ ← evaluate rec e
        pure none
      | none => pure none

/-- One round of a loop that tests after its body. -/
def testingRound (body : Block) (test : Expr) : Exec (Option Flow) := do
  Exec.checkInterrupt
  match afterBody (← blockBody rec body) with
  | some f => pure (some f)
  | none => do
    if ← condition rec test then pure none else pure (some (.value .null))

/-- The rounds of a loop over values. -/
def eachRound (item : Text) (body : Block) : List Value → Exec Flow
  | [] => pure (.value .null)
  | v :: rest => do
    Exec.checkInterrupt
    let flow ← Exec.inFrame do
      StoreM.define (← get).scope item v
      statements rec body.body
    match afterBody flow with
    | some f => pure f
    | none => eachRound item body rest

/-! ## Exceptions -/

/-- The handler that takes a fault. -/
def handlerFor? (handlers : List Handler) (f : Fault) : Option Handler :=
  handlers.find? fun h => h.category = Fault.anyError || h.category = f.category

/-- Runs the handler of a fault with the message in its variable. -/
def handle (h : Handler) (f : Fault) : Exec Flow :=
  Exec.inFrame do
    match h.caught with
    | some name => StoreM.define (← get).scope name (.string f.message)
    | none => pure ()
    statements rec h.body.body

/-- Runs a block, and a handler for its fault if there is one that takes it. -/
def guarded (body : Block) (handlers : List Handler) : Exec Flow :=
  tryCatch (Exec.unwinding (blockBody rec body)) fun f =>
    if !f.catchable then throw f
    else match handlerFor? handlers f with
      | some h => handle rec h f
      | none => throw f

/-- The message of a raised exception: the argument of a standard category, and all arguments of
another. -/
def raisedMessage (s : Store) (category : Text) (args : List Value) : Text :=
  if Fault.isStandardCategory category then
    match args with
    | v :: _ => if v.isNull then category ++ " raised with no message" else s.inspect v
    | [] => category ++ " raised with no message"
  else category ++ ": " ++ Text.join ", " (args.map s.inspect)

/-! ## Imports -/

/-- The fault of a file that cannot be imported. -/
def cannotImport (category path why : Text) : Fault :=
  Fault.raised category ("cannot import " ++ path ++ ": " ++ why)

/-- Runs another source file in the global frame; each file runs once. -/
def importFile (line : Nat) (name : Text) : Exec Unit := do
  let m ← get
  let path := if FileName.isAbsolute name then name else FileName.join [m.importDir, name]
  let key := FileName.clean (m.host.files.absolute path)
  if m.imported.contains key then pure ()
  else
    let content ← Exec.atLine line (Exec.ofExcept (match m.host.files.read path with
      | .ok c => .ok c
      | .error t =>
        let verb := if t = .isDirectory then "read " else "open "
        .error (cannotImport (if t = .notFound then Fault.notFoundError else Fault.ioError) name
          (verb ++ path ++ ": " ++ t.message))))
    if !content.isValid then
      throw ((cannotImport Fault.parseError name "not valid UTF-8").atLine line)
    match Program.parse ⟨Builtin.registry, m.host.plugins.registry⟩ content with
    | (_, f :: _) =>
      throw { f with message := f.message ++ " (in " ++ name ++ " line " ++ toString f.line ++ ")",
                     line := line }
    | (p, []) =>
      modify fun m => { m with imported := key :: m.imported }
      Exec.log .debug "import" [("path", .text path)]
      let _ ← Exec.inScope m.scope.detach (program rec p)

/-! ## Statements -/

/-- What a statement leaves behind. `fuel` bounds the rounds of a loop. -/
def statement (fuel : Nat) : Stmt → Exec Flow
  | .declare mark name type value constant => do
    declaration rec mark.line name type value constant
    pure (.value .null)
  | .typedef .. => pure (.value .null)
  | .returns _ none => pure (.returned .null)
  | .returns _ (some e) => do
    let v ← evaluate rec e
    pure (.returned v)
  | .expr _ e => do
    let v ← evaluate rec e
    pure (.value v)
  | .function _ name params result body => do
    defineFunction name params result body
    pure (.value .null)
  | .block b => Exec.recorded "block" "" b.mark.line (blockBody rec b)
  | .cond _ test yes no => do
    if ← condition rec test then rec (.stmt yes)
    else match no with
      | some s => rec (.stmt s)
      | none => pure (.value .null)
  | .whileLoop mark test body =>
    Exec.recorded "loop" "while" mark.line (rounds (testedRound rec (some test) none body) fuel)
  | .doLoop mark body test =>
    Exec.recorded "loop" "do" mark.line (rounds (testingRound rec body test) fuel)
  | .forLoop mark init test update body =>
    Exec.recorded "loop" "for" mark.line (Exec.inFrame do
      match init with
      | some s => do
        let _ ← rec (.stmt s)
      | none => pure ()
      rounds (testedRound rec test update body) fuel)
  | .forEach mark item container body =>
    Exec.recorded "loop" "foreach" mark.line do
      let v ← evaluate rec container
      let items ← Exec.atLine mark.line (sequence v)
      eachRound rec item body items
  | .breaks _ => pure .broken
  | .continues _ => pure .continued
  | .print _ e => do
    let v ← evaluate rec e
    let t ← Exec.inspect v
    Exec.onHost fun h => { h with output := (t ++ "\n") :: h.output }
    pure (.value .null)
  | .call _ e => do
    let _ ← evaluate rec e
    pure (.value .null)
  | .tries mark body handlers => Exec.recorded "try" "" mark.line (guarded rec body handlers)
  | .raise mark category args => do
    let vs ← evaluateAll rec args
    let category := category.upper
    throw ((Fault.raised category (raisedMessage (← get).store category vs)).atLine mark.line)
  | .imports mark path => do
    importFile rec mark.line path
    pure (.value .null)

end ScriptEngine.Eval
