import ScriptEngine.Eval
/-!
# Constructs put computations together

Every construct of the language puts the computations of its parts together in a few ways: one after the other, in a frame of
their own, with handlers of faults. A relation between computations that goes along with these ways holds between the runs of
a construct when it holds between the runs of its parts. It is a congruence.
-/

namespace ScriptEngine.Eval

open Exec

/-- How a fault of a builtin is passed on: with the line of the call, and a warning when there is no such plugin. -/
def report (name : Text) (line : Nat) (f : Fault) : Exec Value := do
  if f.kind = .internal && isPluginName name then
    Exec.log .warn "unknown plugin" [("name", .text name), ("line", .int line)]
  throw (f.atLine line)

/-- A relation between computations that goes along with how expressions and declarations are put together. What runs no part of a
program is related to itself. -/
structure Congruence (R : (α : Type) → Exec α → Exec α → Prop) : Prop where
  gives : ∀ {α : Type} (a : α), R α (pure a) (pure a)
  fails : ∀ {α : Type} (f : Fault), R α (throw f) (throw f)
  next : ∀ {α β : Type} {x x' : Exec α} {f f' : α → Exec β}, R α x x' → (∀ a, R β (f a) (f' a)) → R β (x >>= f) (x' >>= f')
  line : ∀ {α : Type} (line : Nat) {x x' : Exec α}, R α x x' → R α (atLine line x) (atLine line x')
  kind : ∀ v, R Kind (kindOf v) (kindOf v)
  name : ∀ line name, R Value (nameValue line name) (nameValue line name)
  rename : ∀ name v, R Value (assignName name v) (assignName name v)
  member : ∀ line base path, R Value (readMember line base path) (readMember line base path)
  remember : ∀ line base path v, R Unit (writeMember line base path v) (writeMember line base path v)
  index : ∀ c k, R Value (liftM (readIndex c k)) (liftM (readIndex c k))
  reindex : ∀ c k v, R Unit (liftM (writeIndex c k v)) (liftM (writeIndex c k v))
  one : ∀ op v, R Value (liftM (unary op v)) (liftM (unary op v))
  two : ∀ op a b, R Value (liftM (binary op a b)) (liftM (binary op a b))
  length : ∀ v, R Value (liftM (lengthOf v)) (liftM (lengthOf v))
  array : ∀ vs, R Value (liftM (StoreM.newArrayOf vs)) (liftM (StoreM.newArrayOf vs))
  sized : ∀ name dims v, R Value (liftM (initialArray name dims v)) (liftM (initialArray name dims v))
  queue : R Value (liftM (StoreM.newQueue [])) (liftM (StoreM.newQueue []))
  date : ∀ d : Date, R Value (liftM (StoreM.look fun s => .date (d.shownIn s.platform.zone)))
    (liftM (StoreM.look fun s => .date (d.shownIn s.platform.zone)))
  declares : ∀ line name kind shape v constant, R Unit (do atLine line (liftM (declareAs (← get).scope name kind shape v constant)))
    (do atLine line (liftM (declareAs (← get).scope name kind shape v constant)))
  binds : ∀ name kind shape v (reworded : Fault → Fault) {x x' : Exec Unit}, R Unit x x' → R Unit
    (do let m ← get; tryCatch (onStore (declareAs m.scope name kind shape v false)) (fun e => throw (reworded e)); x)
    (do let m ← get; tryCatch (onStore (declareAs m.scope name kind shape v false)) (fun e => throw (reworded e)); x')

namespace Congruence

variable {R : (α : Type) → Exec α → Exec α → Prop} {rec rec' : Runner} (c : Congruence R)
  (h : ∀ e, R Value (evaluate rec e) (evaluate rec' e))

include c

/-! ## Declarations -/

include h in
theorem evaluateAll (es : List Expr) : R _ (evaluateAll rec es) (evaluateAll rec' es) := by
  induction es with
  | nil => exact c.gives []
  | cons e es ih => exact c.next (h e) fun v => c.next ih fun vs => c.gives (v :: vs)

mutual

theorem shapeOf (h : ∀ e, R Value (evaluate rec e) (evaluate rec' e)) : (t : TypeSpec) → R _ (shapeOf rec t) (shapeOf rec' t)
  | .mk _ name isArray _ sorted fields => by
    unfold Eval.shapeOf
    extract_lets wrap
    split
    · exact c.gives _
    split
    · cases fields with
      | none => exact c.gives _
      | some fs => exact c.next (fieldShapes h fs) fun _ => c.gives _
    · exact c.gives _

theorem fieldShapes (h : ∀ e, R Value (evaluate rec e) (evaluate rec' e)) : (fs : List FieldSpec) → R _ (fieldShapes rec fs) (fieldShapes rec' fs)
  | [] => c.gives []
  | f :: fs => by
    unfold Eval.fieldShapes
    exact c.next (fieldShape h f) fun _ => c.next (fieldShapes h fs) fun _ => c.gives _

theorem fieldShape (h : ∀ e, R Value (evaluate rec e) (evaluate rec' e)) : (f : FieldSpec) → R _ (fieldShape rec f) (fieldShape rec' f)
  | .mk name type mandatory maxLength fallback => by
    unfold Eval.fieldShape
    refine c.next (shapeOf h type) fun inner => ?_
    cases fallback with
    | none => exact c.gives _
    | some e => exact c.next (h e) fun _ => c.gives _

end

include h in
theorem dimensions (ds : List (Option Expr)) : R _ (dimensions rec ds) (dimensions rec' ds) := by
  induction ds with
  | nil => exact c.gives []
  | cons d ds ih =>
    cases d with
    | none => exact c.next ih fun _ => c.gives _
    | some e =>
      refine c.next (h e) fun v => ?_
      cases v.toInt64? with
      | none => exact c.next (c.kind v) fun _ => c.fails _
      | some n =>
        dsimp only
        split
        · exact c.next (c.fails _) fun _ => c.next ih fun _ => c.gives _
        · exact c.next ih fun _ => c.gives _

include h in
theorem declaration (line : Nat) (name : Text) (type : Option TypeSpec) (value : Option Expr) (constant : Bool) :
    R _ (declaration rec line name type value constant) (declaration rec' line name type value constant) := by
  unfold Eval.declaration
  extract_lets define define'
  have defined (v : Value) : R _ (define v) (define' v) := by
    cases type with
    | none => exact c.declares line name .any none v constant
    | some t =>
      refine c.next (c.line line (c.shapeOf h t)) fun shape => ?_
      split
      · refine c.next (c.dimensions h t.dims) fun dims => c.next (c.sized t.name dims v) fun a => ?_
        exact c.next (c.kind a) fun kind => c.declares line name kind shape a constant
      · split
        · exact c.next c.queue fun v => c.declares line name t.kind shape v constant
        · exact c.next (c.gives v) fun v => c.declares line name t.kind shape v constant
  clear_value define define'
  cases value with
  | none => exact c.next (c.gives _) defined
  | some e => exact c.next (h e) defined

include h in
/-- The parameters of a function. -/
theorem bindParams (f : FunctionData) (ps : List (Param × Option Value)) : R _ (bindParams rec f ps) (bindParams rec' f ps) := by
  induction ps with
  | nil => exact c.gives _
  | cons p ps ih =>
    obtain ⟨⟨name, type, fallback⟩, given⟩ := p
    unfold Eval.bindParams
    extract_lets kind define define'
    have defined (v : Value) : R _ (define v) (define' v) := by
      cases type with
      | none => exact c.next (c.gives none) fun shape => c.binds name kind shape v _ ih
      | some t => exact c.next (c.shapeOf h t) fun shape => c.binds name kind shape v _ ih
    clear_value define define'
    cases given with
    | some v => exact c.next (c.gives v) defined
    | none =>
      cases fallback with
      | some e => exact c.next (h e) defined
      | none => exact c.next (c.fails _) defined

/-! ## Expressions -/

include h in
theorem logicalOperand (op : BinaryOp) (e : Expr) : R _ (logicalOperand rec op e) (logicalOperand rec' op e) := by
  refine c.next (h e) fun v => ?_
  cases v with
  | bool b => exact c.gives b
  | _ => exact c.next (c.kind _) fun _ => c.fails _

include h in
theorem condition (e : Expr) : R _ (condition rec e) (condition rec' e) := by
  refine c.next (h e) fun v => ?_
  cases v with
  | bool b => exact c.gives b
  | _ => exact c.next (c.kind _) fun _ => c.fails _

include h in
theorem newValue (op : AssignOp) {current : Exec Value} (hc : R _ current current) (e : Expr) :
    R _ (newValue rec op current e) (newValue rec' op current e) := by
  unfold Eval.newValue
  cases op.operator? with
  | none => exact h e
  | some o => exact c.next hc fun old => c.next (h e) fun v => c.two o old v

include h in
theorem assignment (op : AssignOp) (target value : Expr) : R _ (assignment rec op target value) (assignment rec' op target value) := by
  cases target with
  | name mark name => exact c.next (c.newValue h op (c.name mark.line name) value) fun v => c.rename name v
  | index mark container key =>
    refine c.next (h container) fun k => c.next (h key) fun i => ?_
    exact c.next (c.newValue h op (c.index k i) value) fun v => c.next (c.reindex k i v) fun _ => c.gives v
  | member mark base path =>
    refine c.next (c.newValue h op (c.member mark.line base path) value) fun v => ?_
    exact c.next (c.remember mark.line base path v) fun _ => c.member mark.line base path
  | _ => exact c.fails _

include h in
theorem stepping (op : StepOp) (target : Expr) : R _ (stepping rec op target) (stepping rec' op target) := by
  unfold Eval.stepping
  extract_lets operator
  have stepped (old : Value) : R _ (liftM (binary operator old (.int 1)) : Exec Value) (liftM (binary operator old (.int 1))) :=
    c.two operator old (.int 1)
  cases target with
  | name mark name =>
    exact c.next (c.name mark.line name) fun old => c.next (stepped old) fun v => c.next (c.rename name v) fun _ => c.gives old
  | index mark container key =>
    refine c.next (h container) fun k => c.next (h key) fun i => c.next (c.index k i) fun old => ?_
    exact c.next (stepped old) fun v => c.next (c.reindex k i v) fun _ => c.gives old
  | member mark base path =>
    refine c.next (c.member mark.line base path) fun old => c.next (stepped old) fun v => ?_
    exact c.next (c.remember mark.line base path v) fun _ => c.gives old
  | _ => exact c.fails _

/-- An object is put together of its entries, when each is stored so. -/
theorem objectOf (h : ∀ e, R Value (evaluate rec e) (evaluate rec' e)) (node : ∀ v, R Node (liftM (StoreM.toNode v)) (liftM (StoreM.toNode v)))
    (object : ∀ es, R Node (liftM (StoreM.newObject es)) (liftM (StoreM.newObject es)))
    (normal : ∀ n, R Node (liftM (StoreM.normalize n)) (liftM (StoreM.normalize n)))
    (box : ∀ n, R Value (liftM (StoreM.newBox n)) (liftM (StoreM.newBox n))) (mark : Mark) (ps : List (Text × Expr)) :
    R _ (expression rec (.object mark ps)) (expression rec' (.object mark ps)) := by
  have entries (done : List (Text × Node)) : R _ (objectEntries rec ps done) (objectEntries rec' ps done) := by
    induction ps generalizing done with
    | nil => exact c.gives done
    | cons p ps ih => exact c.next (h p.2) fun v => c.next (node v) fun n => ih _
  exact c.next (entries []) fun es => c.next (object es) fun o => c.next (normal o) fun n => box n

/-- What a builtin does, when it does so where it does not wait. -/
theorem builtinRun {sleep sleep' : Nat → Exec Unit} (hs : ∀ span, R Unit (sleep span) (sleep' span)) {b : Builtin} {args : Args}
    (awake : b ≠ .thread .sleep → R Value (b.run sleep args) (b.run sleep args)) : R _ (b.run sleep args) (b.run sleep' args) := by
  by_cases waits : b = .thread .sleep
  · subst waits
    show R _ (ThreadOp.run sleep .sleep args) (ThreadOp.run sleep' .sleep args)
    unfold ThreadOp.run
    dsimp only
    split
    · exact c.next (c.fails _) fun _ => c.next (hs _) fun _ => c.gives _
    · exact c.next (hs _) fun _ => c.gives _
  · rw [Builtin.run_awake waits sleep' sleep]
    exact awake waits

/-- A call of a builtin in a program, when its faults are reported so. -/
theorem builtinCall {line : Nat} {name : Text} {args : List Value} (result : Text)
    (reported : R _ (tryCatch (Builtin.call (fun span => rec (.sleep span)) name args) (report name line))
      (tryCatch (Builtin.call (fun span => rec' (.sleep span)) name args) (report name line))) :
    R _ (builtinCall rec line name args result) (builtinCall rec' line name args result) := by
  refine c.next reported fun v => ?_
  split
  · exact c.gives v
  refine c.next (c.kind v) fun kind => ?_
  cases Kind.ofName? result with
  | none => exact c.gives v
  | some declared =>
    dsimp only
    split
    · exact c.gives v
    · exact c.fails _

include h in
/-- Every expression, when objects and calls are. -/
theorem expression {e : Expr} (object : ∀ mark ps, R _ (expression rec (.object mark ps)) (expression rec' (.object mark ps)))
    (builtins : ∀ mark name args names result, e = .call mark name args names true result → ∀ vs,
      R _ (Eval.builtinCall rec mark.line name vs result) (Eval.builtinCall rec' mark.line name vs result))
    (functions : ∀ line name args names, R _ (functionCall rec line name args names) (functionCall rec' line name args names)) :
    R _ (expression rec e) (expression rec' e) := by
  cases e with
  | name mark name => exact c.name mark.line name
  | array mark es => exact c.next (c.evaluateAll h es) fun vs => c.array vs
  | object mark ps => exact object mark ps
  | unary mark op e => exact c.next (h e) fun v => c.one op v
  | binary mark op l r =>
    have both : R _ (do let a ← evaluate rec l; let b ← evaluate rec r; binary op a b)
        (do let a ← evaluate rec' l; let b ← evaluate rec' r; binary op a b) :=
      c.next (h l) fun a => c.next (h r) fun b => c.two op a b
    cases op with
    | and =>
      refine c.next (c.logicalOperand h .and l) fun a => ?_
      cases a with
      | true => exact c.next (c.logicalOperand h .and r) fun b => c.gives _
      | false => exact c.gives _
    | or =>
      refine c.next (c.logicalOperand h .or l) fun a => ?_
      cases a with
      | true => exact c.gives _
      | false => exact c.next (c.logicalOperand h .or r) fun b => c.gives _
    | _ => exact both
  | assign mark op target value => exact c.assignment h op target value
  | step mark op target => exact c.stepping h op target
  | index mark container key => exact c.next (h container) fun k => c.next (h key) fun i => c.index k i
  | length mark e => exact c.next (h e) fun v => c.length v
  | member mark base path => exact c.member mark.line base path
  | call mark name args names isBuiltin result =>
    cases isBuiltin with
    | true => exact c.next (c.evaluateAll h args) fun vs => builtins mark name args names result rfl vs
    | false => exact functions mark.line name args names
  | typeOf mark e => exact c.next (h e) fun v => c.next (c.kind v) fun _ => c.gives _
  | date mark d => exact c.date d
  | _ => exact c.gives _

end Congruence

/-- What is the same does the same. -/
theorem eq_constructs : Congruence fun _ x x' => x = x' where
  gives _ := rfl
  fails _ := rfl
  next hx hf := by rw [hx, funext hf]
  line _ _ _ hx := by rw [hx]
  kind _ := rfl
  name _ _ := rfl
  rename _ _ := rfl
  member _ _ _ := rfl
  remember _ _ _ _ := rfl
  index _ _ := rfl
  reindex _ _ _ := rfl
  one _ _ := rfl
  two _ _ _ := rfl
  length _ := rfl
  array _ := rfl
  sized _ _ _ := rfl
  queue := rfl
  date _ := rfl
  declares _ _ _ _ _ _ := rfl
  binds _ _ _ _ _ _ _ rest := by rw [rest]

/-- A congruence that goes along with how statements are put together, too. -/
structure FullCongruence (R : (α : Type) → Exec α → Exec α → Prop) : Prop extends Congruence R where
  stops : ∀ {α : Type}, R α noFuel noFuel
  catches : ∀ {α : Type} {x x' : Exec α} {f f' : Fault → Exec α}, R α x x' → (∀ e, R α (f e) (f' e)) →
    R α (tryCatch x f) (tryCatch x' f')
  logs : ∀ level message attrs, R Unit (Exec.log level message attrs) (Exec.log level message attrs)
  result : ∀ f line flow, R Value (resultOf f line flow) (resultOf f line flow)
  unwinds : ∀ {x x' : Exec Flow}, R Flow x x' → R Flow (unwinding x) (unwinding x')
  framed : ∀ {x x' : Exec Flow}, R Flow x x' → R Flow (inFrame x) (inFrame x')
  records : ∀ (kind name : Text) (line : Nat) {x x' : Exec Flow}, R Flow x x' → R Flow (recorded kind name line x) (recorded kind name line x')
  checks : R Unit checkInterrupt checkInterrupt
  times : ∀ {α : Type} (f : Scheduler → α × Scheduler), R α (onTimers f) (onTimers f)
  looks : ∀ {α : Type} {f f' : Host → Exec α}, (∀ w, R α (f w) (f' w)) → R α (host >>= f) (host >>= f')
  items : ∀ v, R (List Value) (liftM (sequence v)) (liftM (sequence v))
  shows : ∀ v, R Text (inspect v) (inspect v)
  prints : ∀ t : Text, R Unit (onHost fun h => { h with output := (t ++ "\n") :: h.output })
    (onHost fun h => { h with output := (t ++ "\n") :: h.output })
  raises : ∀ f : Store → Fault, R Flow (do throw (f (← get).store)) (do throw (f (← get).store))
  defines : ∀ name v {x x' : Exec Flow}, R Flow x x' → R Flow (do StoreM.define (← get).scope name v; x) (do StoreM.define (← get).scope name v; x')

namespace FullCongruence

variable {R : (α : Type) → Exec α → Exec α → Prop} {rec rec' : Runner} (c : FullCongruence R)

include c

/-- Faults of builtins are reported. -/
theorem reports {x x' : Exec Value} (hx : R _ x x') (name : Text) (line : Nat) :
    R _ (tryCatch x (report name line)) (tryCatch x' (report name line)) := by
  refine c.catches hx fun f => ?_
  unfold report
  split
  · exact c.next (c.logs _ _ _) fun _ => c.fails _
  · exact c.fails _

theorem rounds {α : Type} {round round' : Exec (Option α)} (h : R _ round round') (n : Nat) : R _ (rounds round n) (rounds round' n) := by
  induction n with
  | zero => exact c.stops
  | succ n ih =>
    rw [rounds_succ, rounds_succ]
    refine c.next h fun o => ?_
    cases o with
    | some a => exact c.gives a
    | none => exact ih

theorem waitUntil (ticks : ∀ t, R _ (runTick rec t) (runTick rec' t)) (fuel time : Nat) :
    R _ (waitUntil rec fuel time) (waitUntil rec' fuel time) := by
  refine c.rounds (c.looks fun w => ?_) fuel
  split
  · exact c.gives _
  refine c.next c.checks fun _ => c.next (c.times _) fun tick => ?_
  cases tick with
  | some t => exact c.next (ticks t) fun _ => c.gives _
  | none => exact c.next (c.times _) fun _ => c.gives _

variable (hs : ∀ s, R Flow (rec (.stmt s)) (rec' (.stmt s)))

/-! ## Lists of statements -/

include hs in
theorem statements (ss : List Stmt) : R _ (statements rec ss) (statements rec' ss) := by
  suffices lists : ∀ last, R _ (statementsFrom rec last ss) (statementsFrom rec' last ss) from lists _
  induction ss with
  | nil => exact fun last => c.gives last
  | cons s rest ih =>
    intro last
    rw [statementsFrom_cons, statementsFrom_cons]
    refine c.next (c.line s.line (hs s)) fun flow => ?_
    cases flow.isSignal with
    | true => exact c.gives flow
    | false => exact ih flow

include hs in
theorem blockBody (b : Block) : R _ (blockBody rec b) (blockBody rec' b) := c.framed (c.statements hs b.body)

include hs in
/-- The body of a function. -/
theorem called (h : ∀ e, R Value (evaluate rec e) (evaluate rec' e)) (f : FunctionData) (line : Nat) (ps : List (Param × Option Value)) : R _
    (do
      atLine line (bindParams rec f ps)
      let flow ← Eval.statements rec f.body.body
      resultOf f line flow)
    (do
      atLine line (bindParams rec' f ps)
      let flow ← Eval.statements rec' f.body.body
      resultOf f line flow) :=
  c.next (c.line line (c.bindParams h f ps)) fun _ => c.next (c.statements hs f.body.body) fun flow => c.result f line flow

include hs in
/-- The statements of a source text. -/
theorem program (defines : ∀ name params result body, R _ (defineFunction name params result body) (defineFunction name params result body))
    (p : Program) : R _ (program rec p) (program rec' p) := by
  have hoists (ss : List Stmt) : R _ (hoist ss) (hoist ss) := by
    induction ss with
    | nil => exact c.gives _
    | cons s ss ih =>
      cases s with
      | function mark name params result body => exact c.next (defines name params result body) fun _ => ih
      | _ => exact ih
  have lists (ss : List Stmt) (last : Flow) : R _ (programFrom rec last ss) (programFrom rec' last ss) := by
    induction ss generalizing last with
    | nil => exact c.gives last
    | cons s rest ih =>
      rw [programFrom_cons, programFrom_cons]
      refine c.next (c.line s.line (hs s)) fun flow => ?_
      cases flow with
      | returned v => exact c.gives _
      | _ => exact ih _
  exact c.next (hoists p.body) fun _ => lists p.body _

/-! ## Statements -/

variable (h : ∀ e, R Value (evaluate rec e) (evaluate rec' e))

include hs h in
theorem testedRound (test update : Option Expr) (body : Block) :
    R _ (testedRound rec test update body) (testedRound rec' test update body) := by
  unfold Eval.testedRound
  refine c.next c.checks fun _ => ?_
  extract_lets round round'
  have rounds (goes : Bool) : R _ (round goes) (round' goes) := by
    unfold round round'
    split
    · exact c.gives _
    refine c.next (c.blockBody hs body) fun flow => ?_
    cases afterBody flow with
    | some ending => exact c.gives _
    | none =>
      cases update with
      | some e => exact c.next (h e) fun _ => c.gives _
      | none => exact c.gives _
  clear_value round round'
  cases test with
  | some e => exact c.next (c.condition h e) rounds
  | none => exact c.next (c.gives true) rounds

include hs h in
theorem testingRound (body : Block) (test : Expr) : R _ (testingRound rec body test) (testingRound rec' body test) := by
  refine c.next c.checks fun _ => c.next (c.blockBody hs body) fun flow => ?_
  cases afterBody flow with
  | some ending => exact c.gives _
  | none =>
    refine c.next (c.condition h test) fun goes => ?_
    cases goes with
    | true => exact c.gives _
    | false => exact c.gives _

include hs in
theorem eachRound (item : Text) (body : Block) (items : List Value) : R _ (eachRound rec item body items) (eachRound rec' item body items) := by
  induction items with
  | nil => exact c.gives _
  | cons v rest ih =>
    refine c.next c.checks fun _ => c.next (c.framed (c.defines item v (c.statements hs body.body))) fun flow => ?_
    cases afterBody flow with
    | some ending => exact c.gives _
    | none => exact ih

include hs in
theorem guarded (body : Block) (handlers : List Handler) : R _ (guarded rec body handlers) (guarded rec' body handlers) := by
  refine c.catches (c.unwinds (c.blockBody hs body)) fun f => ?_
  split
  · exact c.fails f
  cases handlerFor? handlers f with
  | none => exact c.fails f
  | some handler =>
    obtain ⟨mark, category, caught, body⟩ := handler
    refine c.framed ?_
    cases caught with
    | some name => exact c.defines name _ (c.statements hs body.body)
    | none => exact c.statements hs body.body

include hs h in
/-- Every statement, when definitions of functions and imports are. -/
theorem statement (defines : ∀ name params result body, R _ (defineFunction name params result body) (defineFunction name params result body))
    (imports : ∀ line name, R _ (importFile rec line name) (importFile rec' line name)) (fuel : Nat) (s : Stmt) :
    R _ (statement rec fuel s) (statement rec' fuel s) := by
  cases s with
  | declare mark name type value constant => exact c.next (c.declaration h mark.line name type value constant) fun _ => c.gives _
  | typedef mark name type => exact c.gives _
  | returns mark value =>
    cases value with
    | none => exact c.gives _
    | some e => exact c.next (h e) fun v => c.gives _
  | expr mark e => exact c.next (h e) fun v => c.gives _
  | function mark name params result body => exact c.next (defines name params result body) fun _ => c.gives _
  | block b => exact c.records _ _ _ (c.blockBody hs b)
  | cond mark test yes no =>
    refine c.next (c.condition h test) fun goes => ?_
    cases goes with
    | true => exact hs yes
    | false =>
      cases no with
      | none => exact c.gives _
      | some no => exact hs no
  | whileLoop mark test body => exact c.records _ _ _ (c.rounds (c.testedRound hs h (some test) none body) fuel)
  | doLoop mark body test => exact c.records _ _ _ (c.rounds (c.testingRound hs h body test) fuel)
  | forLoop mark init test update body =>
    have looped := c.rounds (c.testedRound hs h test update body) fuel
    refine c.records _ _ _ (c.framed ?_)
    cases init with
    | none => exact looped
    | some s => exact c.next (hs s) fun _ => looped
  | forEach mark item container body =>
    refine c.records _ _ _ (c.next (h container) fun v => ?_)
    exact c.next (c.line mark.line (c.items v)) fun items => c.eachRound hs item body items
  | breaks mark => exact c.gives _
  | continues mark => exact c.gives _
  | print mark e => exact c.next (h e) fun v => c.next (c.shows v) fun t => c.next (c.prints t) fun _ => c.gives _
  | call mark e => exact c.next (h e) fun _ => c.gives _
  | tries mark body handlers => exact c.records _ _ _ (c.guarded hs body handlers)
  | raise mark category args =>
    exact c.next (c.evaluateAll h args) fun vs =>
      c.raises fun s => (Fault.raised category.upper (raisedMessage s category.upper vs)).atLine mark.line
  | imports mark path => exact c.next (imports mark.line path) fun _ => c.gives _

end FullCongruence

end ScriptEngine.Eval
