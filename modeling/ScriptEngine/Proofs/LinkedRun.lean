import ScriptEngine.Proofs.Constructs
import ScriptEngine.Proofs.Linked
import ScriptEngine.Proofs.ParserPromises
/-!
# Every construct links runs

When two runners are linked on the parts inside a part of a program, they are linked on the part. The exceptions are
the constructs that handle faults: a block with handlers, and waiting, during which callbacks of timers run whose
faults are logged.
-/

namespace ScriptEngine

/-- Whether what a statement left behind ends a loop or one of its rounds. -/
def Flow.endsLoop : Flow → Bool
  | .broken | .continued => true
  | _ => false

namespace Eval

open Exec

/-- What is promised of a statement: it ends a loop or a round only when it is loose. -/
def FlowPromise (loose : Bool) (flow : Flow) : Prop := flow.endsLoop = true → loose = true

/-- What is promised of running a part of a program. -/
def Task.Promise : (t : Task) → t.Result → Prop
  | .expr _, _ => True
  | .stmt s, flow => FlowPromise s.loose flow
  | .sleep _, _ => True

/-- Whether no function inside a part has a loose body. -/
def Task.tight : Task → Bool
  | .stmt s => s.tight
  | _ => true

/-- Runners that are linked on every part of a program, and on tight ones when machines are sound. -/
def Runner.Linked (L : Link) (rec rec' : Runner) : Prop :=
  ∀ κ t, (L.checked → t.tight = true) → Exec.Linked L κ t.Promise (rec t) (rec' t)

variable {L : Link} {κ : Machine.Context} {rec rec' : Runner}

/-! ## Parts, rounds and lists of statements -/

theorem same_evaluate (h : Runner.Linked L rec rec') (e : Expr) :
    Same L κ (evaluate rec e) (evaluate rec' e) := h κ (.expr e) fun _ => rfl

/-- Repeating linked rounds gives linked computations. -/
theorem linked_rounds {α : Type} {promise : α → Prop} {round round' : Exec (Option α)}
    (h : Exec.Linked L κ (fun r => ∀ a, r = some a → promise a) round round') (n : Nat) :
    Exec.Linked L κ promise (rounds round n) (rounds round' n) := by
  induction n with
  | zero => exact fun _ _ => .outOfFuel
  | succ n ih =>
    rw [rounds_succ, rounds_succ]
    refine linked_bind h fun r kept => ?_
    cases r with
    | some a => exact linked_pure (kept a rfl)
    | none => exact ih

/-- Statements one after the other end a loop only when one of them is loose. -/
theorem linked_statementsFrom (h : Runner.Linked L rec rec') (ss : List Stmt) (last : Flow)
    (hl : last.endsLoop = false) (ht : L.checked → ss.all Stmt.tight = true) :
    Exec.Linked L κ (FlowPromise (ss.any Stmt.loose)) (statementsFrom rec last ss)
      (statementsFrom rec' last ss) := by
  induction ss generalizing last with
  | nil => exact linked_pure fun he => absurd he (Bool.eq_false_iff.mp hl)
  | cons s rest ih =>
    have tight : L.checked → s.tight = true ∧ rest.all Stmt.tight = true := fun hc => by
      have all := ht hc
      rwa [List.all_cons, Bool.and_eq_true] at all
    rw [statementsFrom_cons, statementsFrom_cons]
    refine linked_bind (linked_atLine s.line (h κ (.stmt s) fun hc => (tight hc).1)) fun flow kept => ?_
    have weaker {loose : Bool} {flow : Flow} (kept : FlowPromise loose flow) (less : loose = true → (s :: rest).any Stmt.loose = true) :
        FlowPromise ((s :: rest).any Stmt.loose) flow := fun he => less (kept he)
    cases signal : flow.isSignal with
    | true => exact linked_pure (weaker kept fun loose => by rw [List.any_cons, loose]; rfl)
    | false =>
      refine (ih flow ?_ fun hc => (tight hc).2).mono fun _ kept =>
        weaker kept fun loose => by rw [List.any_cons, loose, Bool.or_true]
      cases flow with
      | value v => rfl
      | _ => cases signal

/-- The statements of a block end a loop only when the block is loose. -/
theorem linked_statements (h : Runner.Linked L rec rec') (b : Block) (ht : L.checked → b.tight = true) :
    Exec.Linked L κ (FlowPromise b.loose) (statements rec b.body) (statements rec' b.body) := by
  rw [Block.loose_eq]
  exact linked_statementsFrom h b.body _ rfl fun hc => Block.tight_eq b ▸ ht hc

/-- So do they in a frame of their own. -/
theorem linked_blockBody (h : Runner.Linked L rec rec') (b : Block) (ht : L.checked → b.tight = true) :
    Exec.Linked L κ (FlowPromise b.loose) (blockBody rec b) (blockBody rec' b) :=
  linked_inFrame fun _ => linked_statements h b ht

/-! ## Expressions and declarations -/

theorem local_nameValue {p : Plugins} (line : Nat) (name : Text) : Local p (nameValue line name) :=
  local_bind local_get fun _ => local_atLine line (local_lift (leaves_valueOf _ name))

/-- Giving a name a new value runs no part of a program. -/
theorem local_assignName {p : Plugins} (name : Text) (v : Value) : Local p (assignName name v) := by
  unfold assignName
  refine local_bind local_get fun m => ?_
  split
  · exact local_bind (local_lift (lexical_defineGlobal _ name v)) fun _ => local_pure v
  · exact local_bind (local_lift (lexical_assign _ name v)) fun _ => local_lift (leaves_valueOf _ name)

theorem local_memberBase {p : Plugins} (base : Text) (path : List Text) : Local p (memberBase base path) := by
  unfold memberBase
  refine local_bind local_get fun m => local_bind (local_lift (leaves_valueOf _ base)) fun v => ?_
  cases v with
  | json b => exact local_pure b
  | _ => exact local_bind (local_kindOf _) fun _ => local_throw _

/-- Reading a member runs no part of a program. -/
theorem local_readMember {p : Plugins} (line : Nat) (base : Text) (path : List Text) :
    Local p (readMember line base path) := by
  unfold readMember
  refine local_atLine line (local_bind (local_memberBase base path) fun b => local_bind local_get fun m => ?_)
  refine local_bind (local_ofExcept _) fun found => ?_
  cases found with
  | none => exact local_pure _
  | some n => exact local_lift (StoreM.code_ofNode n).lexical

/-- Writing a member runs no part of a program. -/
theorem local_writeMember {p : Plugins} (line : Nat) (base : Text) (path : List Text) (v : Value) :
    Local p (writeMember line base path v) := by
  unfold writeMember
  refine local_atLine line (local_bind (local_memberBase base path) fun b => local_bind local_get fun m => ?_)
  extract_lets shape written
  have local_written (root : Node) : Local p (written root) := by
    refine local_bind (local_lift (StoreM.code_toNode v).lexical) fun n => ?_
    extract_lets checked
    have local_checked (u : PUnit) : Local p (checked u) := by
      unfold checked
      cases shape with
      | none => exact local_pure _
      | some shape =>
        refine local_bind (local_lift (StoreM.code_newBox root).lexical) fun fresh => ?_
        refine local_bind (local_lift (StoreM.code_conform shape fresh).lexical) fun w => ?_
        exact local_bind (local_lift (StoreM.code_toNode w).lexical) fun n =>
          local_lift (StoreM.code_setBox b n).lexical
    clear_value checked
    cases root with
    | object a => exact local_bind (local_lift (code_setBelow base path n 0 path a).lexical) local_checked
    | _ => exact local_bind (local_throw _) local_checked
  clear_value written
  cases shape with
  | none => exact local_bind (local_pure _) local_written
  | some _ => exact local_bind (local_lift (StoreM.code_clone _).lexical) local_written

/-- Giving a parameter its value in the top frame is local. -/
theorem local_declareParam {p : Plugins} (scope : Scope) (name : Text) (kind : Kind) (shape : Option Shape)
    (v : Value) (reworded : Fault → Fault) :
    Local p (tryCatch (onStore (declareAs scope name kind shape v false)) fun e => throw (reworded e)) :=
  local_tryCatch (local_onStore (lexical_declareAs scope name kind shape v false)) fun _ => local_throw _

/-- Links go along with how expressions and declarations are put together. -/
theorem same_constructs (L : Link) (κ : Machine.Context) : Congruence fun _ x x' => Same L κ x x' where
  gives := same_pure
  fails := linked_throw
  next := linked_same_bind
  line line _ _ hx := linked_atLine line hx
  kind v := same_of_local fun _ => local_kindOf v
  name line name := same_of_local fun _ => local_nameValue line name
  rename name v := same_of_local fun _ => local_assignName name v
  member line base path := same_of_local fun _ => local_readMember line base path
  remember line base path v := same_of_local fun _ => local_writeMember line base path v
  index c k := same_lift (code_readIndex c k).functions
  reindex c k v := same_lift (code_writeIndex c k v).functions
  one op v := same_lift (code_unary op v).functions
  two op a b := same_lift (code_binary op a b).functions
  length v := same_lift (code_lengthOf v).functions
  array vs := same_lift (StoreM.code_newArrayOf vs).functions
  sized name dims v := same_lift (code_initialArray name dims v).functions
  queue := same_lift (StoreM.code_newQueue []).functions
  date _ := same_of_local fun _ => local_look _
  declares line name kind shape v constant := linked_same_bind linked_get.same fun _ =>
    linked_atLine line (same_lift (lexical_declareAs _ name kind shape v constant).functions_of_lexical)
  binds _ _ _ _ _ _ _ rest := linked_same_bind linked_get.same fun _ =>
    linked_same_bind (same_of_local fun _ => local_declareParam _ _ _ _ _ _) fun _ => rest

theorem same_condition (h : Runner.Linked L rec rec') (e : Expr) : Same L κ (condition rec e) (condition rec' e) :=
  (same_constructs L κ).condition (same_evaluate h) e

/-! ## Calls of script functions -/

/-- The value that a function gives is found without running any part of a program. -/
theorem local_resultOf {p : Plugins} (f : FunctionData) (line : Nat) (flow : Flow) :
    Local p (resultOf f line flow) := by
  unfold resultOf
  extract_lets v
  split
  · exact local_pure v
  · refine local_bind (local_kindOf v) fun kind => ?_
    exact local_tryCatch (local_onStore (StoreM.code_coerce v _).lexical) fun _ => local_throw _

/-- A call links runs: it goes one call deeper only when that is not too deep. -/
theorem same_apply (h : Runner.Linked L rec rec') (f : FunctionData) (outer : Nat) (args : List Value)
    (names : List Text) (line : Nat) (hf : L.checked → f.body.closed = true) :
    Same L κ (apply rec f outer args names line) (apply rec' f outer args names line) := by
  have tight : L.checked → f.body.tight = true := fun hc => by
    have closed := hf hc
    rw [Block.closed, Bool.and_eq_true] at closed
    exact closed.2
  unfold apply
  refine linked_bind linked_get fun m hm => ?_
  obtain ⟨met, rfl⟩ := hm
  split
  · exact linked_throw_bind _ _ _
  rename_i room
  have deeper : m.context.depth < L.limit :=
    Nat.lt_of_lt_of_le (Nat.lt_of_not_le room) (met.maxDepth ▸ L.maxDepth_le)
  refine linked_same_bind (linked_atLine line (same_of_local fun _ => local_ofExcept _)) fun bound => ?_
  refine linked_deeper deeper (linked_recorded _ _ _ fun calls => ?_)
  refine linked_opened fun scope => ?_
  refine linked_same_bind (linked_atLine line ((same_constructs L _).bindParams (same_evaluate h) f _)) fun _ => ?_
  exact linked_same_bind (linked_statements h f.body tight).same fun flow =>
    same_of_local fun _ => local_resultOf f line flow

/-- A call by name links runs. -/
theorem same_functionCall (h : Runner.Linked L rec rec') (line : Nat) (name : Text) (args : List Expr)
    (names : List Text) :
    Same L κ (functionCall rec line name args names) (functionCall rec' line name args names) := by
  unfold functionCall
  refine linked_bind linked_get fun m hm => ?_
  cases m.store.lookup? m.scope name with
  | none => exact linked_throw _
  | some found =>
    obtain ⟨a, b⟩ := found
    dsimp only
    cases b.value with
    | function a =>
      exact linked_same_bind ((same_constructs L κ).evaluateAll (same_evaluate h) args) fun vs =>
        same_apply h _ _ vs names line fun hc => (hm.sound hc).functions.function a
    | _ => exact linked_throw _

/-! ## Calls of builtins -/

/-- A call of a plugin is linked to itself: memory stays closed. -/
theorem same_callPlugin (p : Plugin) (args : List Value) (hp : L.checked → p.KeepsClosed) :
    Same L κ (Builtin.callPlugin p args) (Builtin.callPlugin p args) := by
  unfold Builtin.callPlugin
  refine linked_same_bind (same_lift (StoreM.code_prepare _ _).functions) fun args => ?_
  refine linked_bind linked_get fun m hm => ?_
  have stored : Same L κ (modify fun m' => { m' with store := (p.run args m.store).2 } : Exec PUnit)
      (modify fun m' => { m' with store := (p.run args m.store).2 }) := by
    intro m' hm'
    refine .done ⟨⟨hm'.depth, hm'.maxDepth, fun hc => ⟨?_, (hm'.sound hc).plugins⟩⟩, hm'.context⟩ trivial
    exact hp hc args m.store (hm.sound hc).functions
  refine linked_same_bind stored fun _ => ?_
  cases (p.run args m.store).1 with
  | ok v => exact same_pure _
  | error e => exact linked_throw _

theorem same_call {sleep sleep' : Nat → Exec Unit} (hs : ∀ span, Same L κ (sleep span) (sleep' span))
    (name : Text) (args : List Value) :
    Same L κ (Builtin.call sleep name args) (Builtin.call sleep' name args) := by
  unfold Builtin.call
  dsimp only
  split
  · have host_met : Exec.Linked L κ (fun h => L.checked → h.plugins.KeepClosed) Exec.host Exec.host :=
      fun m hm => .done hm fun hc => (hm.sound hc).plugins
    refine linked_bind host_met fun w hw => ?_
    cases found : w.plugins.find? name.lower with
    | none => exact linked_throw _
    | some p => exact same_callPlugin p args fun hc => hw hc p (List.mem_of_find?_eq_some found)
  · cases Builtin.find? name.lower with
    | none => exact linked_throw _
    | some b =>
      exact linked_same_bind (same_lift (StoreM.code_prepare _ _).functions) fun vs =>
        (same_constructs L κ).builtinRun hs fun awake => same_of_local (Builtin.local_run awake sleep ⟨vs⟩)

/-- A call of a builtin in a program links runs; a fault gets the line of the call and nothing else. -/
theorem same_builtinCall (h : Runner.Linked L rec rec') (line : Nat) (name : Text) (args : List Value)
    (result : Text) :
    Same L κ (builtinCall rec line name args result) (builtinCall rec' line name args result) := by
  have warned (f : Fault) (p : Plugins) : Local p (report name line f) := by
    unfold report
    grind
  refine (same_constructs L κ).builtinCall result (linked_tryCatch (same_call (fun span => h κ (.sleep span) fun _ => rfl) name args)
    (fun f => same_of_local (warned f)) fun f m escapes hm => ?_)
  have ends := warned f _ m rfl
  have fault : ∃ m', report name line f m = .failed (f.atLine line) m' := by
    unfold report
    split
    · exact ⟨_, rfl⟩
    · exact ⟨_, rfl⟩
  obtain ⟨m', fault⟩ := fault
  rw [fault] at ends
  exact ⟨_, m', fault, L.escapes_atLine f line escapes, hm.beside ends⟩

/-- Every expression links runs. -/
theorem same_expression (h : Runner.Linked L rec rec') (e : Expr) : Same L κ (expression rec e) (expression rec' e) := by
  have along := same_constructs L κ
  have objects := along.objectOf (same_evaluate h) (fun v => same_lift (StoreM.code_toNode v).functions)
    (fun es => same_lift (StoreM.code_newObject es).functions) (fun n => same_lift (StoreM.code_normalize n).functions)
    fun n => same_lift (StoreM.code_newBox n).functions
  exact along.expression (same_evaluate h) objects
    (fun mark name _ _ result _ vs => same_builtinCall h mark.line name vs result) (same_functionCall h)

/-! ## Source texts -/

/-- A new function keeps memory closed when its body is. -/
theorem same_newFunction (f : FunctionData) (hf : L.checked → f.body.closed = true) :
    Same L κ (StoreM.newFunction f : Exec Value) (StoreM.newFunction f) := by
  intro m hm
  refine .done ⟨⟨hm.depth, hm.maxDepth, fun hc => ⟨fun g hg => ?_, (hm.sound hc).plugins⟩⟩, hm.context⟩ trivial
  rcases Array.mem_push.mp hg with old | rfl
  · exact (hm.sound hc).functions g old
  · exact hf hc

theorem same_defineFunction (name : Text) (params : List Param) (result : Option TypeSpec) (body : Block)
    (hb : L.checked → body.closed = true) :
    Same L κ (defineFunction name params result body) (defineFunction name params result body) :=
  linked_same_bind linked_get.same fun _ => linked_same_bind (same_newFunction _ hb) fun f =>
    same_lift (lexical_define _ name f).functions_of_lexical

/-- Defining the functions among tight statements keeps memory closed. -/
theorem same_hoist (ss : List Stmt) (ht : L.checked → ss.all Stmt.tight = true) :
    Same L κ (hoist ss) (hoist ss) := by
  induction ss with
  | nil => exact same_pure _
  | cons s ss ih =>
    have tight : L.checked → s.tight = true ∧ ss.all Stmt.tight = true := fun hc => by
      have all := ht hc
      rwa [List.all_cons, Bool.and_eq_true] at all
    have rest := ih fun hc => (tight hc).2
    cases s with
    | function mark name params result body =>
      have closed : L.checked → body.closed = true := fun hc => by
        have body_tight := (tight hc).1
        rwa [Stmt.tight] at body_tight
      exact linked_same_bind (same_defineFunction name params result body closed) fun _ => rest
    | _ => exact rest

/-- What is promised of statements of the outermost level: they leave a value behind, when none is loose. -/
def ProgramPromise (last : Flow) (ss : List Stmt) (flow : Flow) : Prop :=
  last.isSignal = false → ss.any Stmt.loose = false → flow.isSignal = false

/-- Statements of the outermost level link runs. -/
theorem linked_programFrom (h : Runner.Linked L rec rec') (last : Flow) (ss : List Stmt)
    (ht : L.checked → ss.all Stmt.tight = true) :
    Exec.Linked L κ (ProgramPromise last ss) (programFrom rec last ss) (programFrom rec' last ss) := by
  induction ss generalizing last with
  | nil => exact linked_pure fun hl _ => hl
  | cons s rest ih =>
    have tight : L.checked → s.tight = true ∧ rest.all Stmt.tight = true := fun hc => by
      have all := ht hc
      rwa [List.all_cons, Bool.and_eq_true] at all
    have firm : (s :: rest).any Stmt.loose = false → s.loose = false ∧ rest.any Stmt.loose = false :=
      fun hf => by rwa [List.any_cons, Bool.or_eq_false_iff] at hf
    rw [programFrom_cons, programFrom_cons]
    refine linked_bind (linked_atLine s.line (h κ (.stmt s) fun hc => (tight hc).1)) fun flow kept => ?_
    have after (hl : s.loose = false → flow.isSignal = false) :
        Exec.Linked L κ (ProgramPromise last (s :: rest)) (programFrom rec flow rest) (programFrom rec' flow rest) :=
      (ih flow fun hc => (tight hc).2).mono fun _ kept _ hf => kept (hl (firm hf).1) (firm hf).2
    have ends : s.loose = false → flow.endsLoop = false := fun hs =>
      Bool.eq_false_iff.mpr fun he => absurd (kept he) (Bool.eq_false_iff.mp hs)
    cases flow with
    | value v => exact after fun _ => rfl
    | returned v => exact linked_pure fun _ _ => rfl
    | broken | continued => exact after fun hs => nomatch ends hs

/-- A source text links runs. -/
theorem linked_program (h : Runner.Linked L rec rec') (p : Program)
    (ht : L.checked → p.body.all Stmt.tight = true) :
    Exec.Linked L κ (ProgramPromise (.value .null) p.body) (program rec p) (program rec' p) :=
  linked_same_bind (same_hoist p.body ht) fun _ => linked_programFrom h _ p.body ht

/-- Every source text that is read is tight. -/
theorem tight_parse (c : Catalog) (source : Text) : (Program.parse c source).1.body.all Stmt.tight = true :=
  List.all_eq_true.mpr fun s hs => (Program.parse_promise c source s hs).tight

/-- So none of its statements is loose. -/
theorem firm_parse (c : Catalog) (source : Text) : (Program.parse c source).1.body.any Stmt.loose = false :=
  List.any_eq_false.mpr fun s hs =>
    Bool.eq_false_iff.mp ((Program.parse_promise c source s hs).loose rfl)

/-- An import links runs. -/
theorem same_importFile (h : Runner.Linked L rec rec') (line : Nat) (name : Text) :
    Same L κ (importFile rec line name) (importFile rec' line name) := by
  unfold importFile
  refine linked_same_bind linked_get.same fun m => ?_
  extract_lets path key
  split
  · exact same_pure _
  refine linked_same_bind (linked_atLine line (same_of_local fun _ => local_ofExcept _)) fun content => ?_
  extract_lets read read'
  have same_read (u : PUnit) : Same L κ (read u) (read' u) := by
    unfold read read'
    have tight := tight_parse ⟨Builtin.registry, m.host.plugins.registry⟩ content
    generalize Program.parse _ content = parsed at tight ⊢
    obtain ⟨p, fs⟩ := parsed
    cases fs with
    | cons f fs => exact linked_throw _
    | nil =>
      have imported : Same L κ (modify fun m => { m with imported := key :: m.imported } : Exec PUnit)
          (modify fun m => { m with imported := key :: m.imported }) := fun m' hm' =>
        .done ⟨⟨hm'.depth, hm'.maxDepth, fun hc => ⟨(hm'.sound hc).functions, (hm'.sound hc).plugins⟩⟩,
          hm'.context⟩ trivial
      refine linked_same_bind imported fun _ => ?_
      refine linked_same_bind (same_of_local fun _ => local_log _ _ _) fun _ => ?_
      exact linked_same_bind (linked_inScope _ (linked_program h p fun _ => tight)).same fun _ => same_pure _
  clear_value read read'
  split
  · exact linked_throw_bind _ _ _
  · exact same_read _

/-! ## Callbacks of timers -/

/-- The function that a callback stands for has no loose loop control in its body. -/
theorem linked_resolveCallback (v : Value) :
    Exec.Linked L κ (fun f => L.checked → f.body.closed = true) (resolveCallback v) (resolveCallback v) := by
  unfold resolveCallback
  refine linked_bind linked_get fun m hm => ?_
  have stored (a : Nat) : L.checked → (m.store.function a).body.closed = true :=
    fun hc => (hm.sound hc).functions.function a
  cases v with
  | function a => exact linked_pure (stored a)
  | string t =>
    dsimp only
    cases m.store.lookup? m.scope t.trim.lower with
    | none => exact linked_throw _
    | some found =>
      obtain ⟨b, binding⟩ := found
      dsimp only
      cases binding.value with
      | function a => exact linked_pure (stored a)
      | _ => exact linked_throw _
  | _ => exact linked_throw _

theorem local_defineAll {p : Plugins} (vars : List (Text × Value)) : Local p (defineAll vars) := by
  refine local_bind local_get fun m => ?_
  extract_lets scope
  refine local_bind ?_ fun _ => local_pure _
  induction vars with
  | nil => exact local_pure _
  | cons v vars ih =>
    rw [List.forIn_cons, bind_assoc]
    exact local_bind (local_onStore (lexical_define scope v.1 v.2)) fun _ => ih

/-- The callback of a tick links runs. -/
theorem same_callbackOf (h : Runner.Linked L rec rec') (t : Timer.Tick) :
    Same L κ (callbackOf rec t) (callbackOf rec' t) := by
  refine linked_same_bind linked_get.same fun m => linked_inScope _ ?_
  refine linked_bind (linked_resolveCallback t.callback) fun f hf => ?_
  refine linked_opened fun scope => ?_
  refine linked_same_bind (same_of_local fun _ => local_defineAll _) fun _ => ?_
  exact linked_same_bind (same_apply h f _ _ _ _ hf) fun _ => same_pure _

/-- A tick links runs in which no fault escapes: those of its callback are logged. -/
theorem same_runTick (h : Runner.Linked L rec rec') (hn : ∀ f, ¬ L.escapes f) (t : Timer.Tick) :
    Same L κ (runTick rec t) (runTick rec' t) :=
  linked_tryCatch (same_callbackOf h t)
    (fun _ => linked_same_bind linked_get.same fun _ => same_of_local fun _ => local_log _ _ _)
    fun f _ escapes _ => absurd escapes (hn f)

theorem same_takeTick : Same L κ takeTick takeTick := same_of_local fun _ => local_onTimers _

theorem same_waitUntil (h : Runner.Linked L rec rec') (hn : ∀ f, ¬ L.escapes f) (fuel time : Nat) :
    Same L κ (waitUntil rec fuel time) (waitUntil rec' fuel time) := by
  have round : Same L κ (waitRound rec time) (waitRound rec' time) := by
    refine linked_same_bind (same_of_local fun _ => local_host) fun w => ?_
    split
    · exact same_pure _
    refine linked_same_bind (same_of_local fun _ => local_checkInterrupt) fun _ => ?_
    refine linked_same_bind same_takeTick fun tick => ?_
    cases tick with
    | some t => exact linked_same_bind (same_runTick h hn t) fun _ => same_pure _
    | none => exact linked_same_bind (same_of_local fun _ => local_onTimers _) fun _ => same_pure _
  exact linked_rounds (round.mono fun _ _ _ _ => trivial) fuel

/-! ## Statements -/

/-- What the body of a loop makes of the loop ends no loop around it. -/
theorem endsLoop_afterBody {flow after : Flow} (h : afterBody flow = some after) : after.endsLoop = false := by
  cases flow with
  | value v => exact nomatch h
  | returned v => exact Option.some.inj h ▸ rfl
  | broken => exact Option.some.inj h ▸ rfl
  | continued => exact nomatch h

/-- The promise of one round of a loop: what it makes of the loop ends no loop around it. -/
def RoundPromise (r : Option Flow) : Prop := ∀ flow, r = some flow → flow.endsLoop = false

theorem linked_testedRound (h : Runner.Linked L rec rec') (test update : Option Expr) (body : Block)
    (ht : L.checked → body.tight = true) :
    Exec.Linked L κ RoundPromise (testedRound rec test update body) (testedRound rec' test update body) := by
  unfold testedRound
  refine linked_same_bind (same_of_local fun _ => local_checkInterrupt) fun _ => ?_
  extract_lets round round'
  have linked_round (goes : Bool) : Exec.Linked L κ RoundPromise (round goes) (round' goes) := by
    unfold round round'
    split
    · exact linked_pure fun _ he => Option.some.inj he ▸ rfl
    refine linked_same_bind (linked_blockBody h body ht).same fun flow => ?_
    cases after : afterBody flow with
    | some ending => exact linked_pure fun _ he => Option.some.inj he ▸ endsLoop_afterBody after
    | none =>
      cases update with
      | some e => exact linked_same_bind (same_evaluate h e) fun _ => linked_pure fun _ he => nomatch he
      | none => exact linked_pure fun _ he => nomatch he
  clear_value round round'
  cases test with
  | some e => exact linked_same_bind (same_condition h e) linked_round
  | none => exact linked_same_bind (same_pure true) linked_round

theorem linked_testingRound (h : Runner.Linked L rec rec') (body : Block) (test : Expr)
    (ht : L.checked → body.tight = true) :
    Exec.Linked L κ RoundPromise (testingRound rec body test) (testingRound rec' body test) := by
  refine linked_same_bind (same_of_local fun _ => local_checkInterrupt) fun _ => ?_
  refine linked_same_bind (linked_blockBody h body ht).same fun flow => ?_
  cases after : afterBody flow with
  | some ending => exact linked_pure fun _ he => Option.some.inj he ▸ endsLoop_afterBody after
  | none =>
    refine linked_same_bind (same_condition h test) fun goes => ?_
    cases goes with
    | true => exact linked_pure fun _ he => nomatch he
    | false => exact linked_pure fun _ he => Option.some.inj he ▸ rfl

/-- A loop over values ends no loop around it. -/
theorem linked_eachRound (h : Runner.Linked L rec rec') (item : Text) (body : Block) (items : List Value)
    (ht : L.checked → body.tight = true) :
    Exec.Linked L κ (fun flow => flow.endsLoop = false) (eachRound rec item body items)
      (eachRound rec' item body items) := by
  induction items with
  | nil => exact linked_pure rfl
  | cons v rest ih =>
    refine linked_same_bind (same_of_local fun _ => local_checkInterrupt) fun _ => ?_
    have inner (scope : Scope) : Same L { κ with scope := scope }
        (do StoreM.define (← get).scope item v; statements rec body.body)
        (do StoreM.define (← get).scope item v; statements rec' body.body) :=
      linked_same_bind linked_get.same fun _ => linked_same_bind (same_lift (lexical_define _ item v).functions_of_lexical) fun _ =>
        (linked_statements h body ht).same
    refine linked_same_bind (linked_inFrame inner) fun flow => ?_
    cases after : afterBody flow with
    | some ending => exact linked_pure (endsLoop_afterBody after)
    | none => exact ih

/-- A handler links runs. -/
theorem linked_handle (h : Runner.Linked L rec rec') (handler : Handler) (f : Fault)
    (ht : L.checked → handler.body.tight = true) :
    Exec.Linked L κ (FlowPromise handler.body.loose) (handle rec handler f) (handle rec' handler f) := by
  obtain ⟨mark, category, caught, body⟩ := handler
  refine linked_inFrame fun scope => ?_
  cases caught with
  | some name =>
    exact linked_same_bind linked_get.same fun _ =>
      linked_same_bind (same_lift (lexical_define _ name _).functions_of_lexical) fun _ => linked_statements h body ht
  | none => exact linked_statements h body ht

/-- A block with handlers links runs when no handler takes a fault that escapes. -/
theorem linked_guarded (h : Runner.Linked L rec rec') (body : Block) (handlers : List Handler)
    (hb : L.checked → body.tight = true) (hh : L.checked → Handler.tightAll handlers = true)
    (he : ∀ f, L.escapes f → f.catchable = false ∨ handlerFor? handlers f = none) :
    Exec.Linked L κ (FlowPromise (body.loose || Handler.looseAny handlers)) (guarded rec body handlers)
      (guarded rec' body handlers) := by
  refine linked_tryCatch (linked_unwinding ((linked_blockBody h body hb).mono fun flow kept hs => ?_)) (fun f => ?_) fun f m hf hm => ?_
  · rw [kept hs, Bool.true_or]
  · split
    · exact linked_throw f
    cases found : handlerFor? handlers f with
    | none => exact linked_throw f
    | some handler =>
      have mem : handler ∈ handlers := List.mem_of_find?_eq_some found
      have tight : L.checked → handler.body.tight = true := fun hc =>
        List.all_eq_true.mp (Handler.tightAll_eq handlers ▸ hh hc) handler mem
      refine (linked_handle h handler f tight).mono fun flow kept hs => ?_
      rw [Handler.looseAny_eq, List.any_eq_true.mpr ⟨handler, mem, kept hs⟩, Bool.or_true]
  · refine ⟨f, m, ?_, hf, hm⟩
    rcases he f hf with caught | caught
    · rw [caught]
      rfl
    · rw [caught]
      split
      · rfl
      · rfl

/-- Whether no fault that escapes is handled by a part itself: no handler of a block takes it, and no wait logs
it. -/
def Task.LetsPass (L : Link) : Task → Prop
  | .stmt (.tries _ _ handlers) => ∀ f, L.escapes f → f.catchable = false ∨ handlerFor? handlers f = none
  | .sleep _ => ∀ f, ¬ L.escapes f
  | _ => True

/-- With no fault that escapes, every part lets all of them pass. -/
theorem Task.letsPass_of_none (t : Task) (hn : ∀ f, ¬ L.escapes f) : t.LetsPass L := by
  cases t with
  | expr e => trivial
  | sleep span => exact hn
  | stmt s =>
    cases s with
    | tries mark body handlers => exact fun f hf => absurd hf (hn f)
    | _ => trivial

/-- A result that ends no loop is as promised of every statement. -/
theorem flowPromise_of_firm {loose : Bool} {flow : Flow} (h : flow.endsLoop = false) : FlowPromise loose flow :=
  fun he => absurd he (Bool.eq_false_iff.mp h)

/-- Every statement links runs when it lets the faults pass that escape. -/
theorem linked_statement (h : Runner.Linked L rec rec') (fuel : Nat) (s : Stmt)
    (ht : L.checked → s.tight = true) (hp : (Task.stmt s).LetsPass L) :
    Exec.Linked L κ (FlowPromise s.loose) (statement rec fuel s) (statement rec' fuel s) := by
  have firm (flow : Flow) (hf : flow.endsLoop = false) :
      Exec.Linked L κ (FlowPromise s.loose) (pure flow) (pure flow) := linked_pure (flowPromise_of_firm hf)
  cases s with
  | declare mark name type value constant =>
    exact linked_same_bind ((same_constructs L κ).declaration (same_evaluate h) mark.line name type value constant) fun _ => firm _ rfl
  | typedef mark name type => exact firm _ rfl
  | returns mark value =>
    cases value with
    | none => exact firm _ rfl
    | some e => exact linked_same_bind (same_evaluate h e) fun v => firm _ rfl
  | expr mark e => exact linked_same_bind (same_evaluate h e) fun v => firm _ rfl
  | function mark name params result body =>
    have closed : L.checked → body.closed = true := fun hc => by
      have body_tight := ht hc
      rwa [Stmt.tight] at body_tight
    exact linked_same_bind (same_defineFunction name params result body closed) fun _ => firm _ rfl
  | block b =>
    refine linked_recorded _ _ _ fun calls => ?_
    rw [Stmt.loose]
    exact linked_blockBody h b fun hc => by
      have tight := ht hc
      rwa [Stmt.tight] at tight
  | cond mark test yes no =>
    have tight : L.checked → yes.tight = true ∧ Stmt.tightOpt no = true := fun hc => by
      have both := ht hc
      rwa [Stmt.tight, Bool.and_eq_true] at both
    refine linked_same_bind (same_condition h test) fun goes => ?_
    cases goes with
    | true =>
      refine (h κ (.stmt yes) fun hc => (tight hc).1).mono fun flow kept he => ?_
      rw [Stmt.loose, kept he, Bool.true_or]
    | false =>
      cases no with
      | none => exact firm _ rfl
      | some no =>
        refine (h κ (.stmt no) fun hc => (tight hc).2).mono fun flow kept he => ?_
        rw [Stmt.loose, Stmt.looseOpt, kept he, Bool.or_true]
  | whileLoop mark test body =>
    have tight : L.checked → body.tight = true := fun hc => by
      have body_tight := ht hc
      rwa [Stmt.tight] at body_tight
    refine linked_recorded _ _ _ fun calls => ?_
    exact (linked_rounds (linked_testedRound h (some test) none body tight) fuel).mono fun _ =>
      flowPromise_of_firm
  | doLoop mark body test =>
    have tight : L.checked → body.tight = true := fun hc => by
      have body_tight := ht hc
      rwa [Stmt.tight] at body_tight
    refine linked_recorded _ _ _ fun calls => ?_
    exact (linked_rounds (linked_testingRound h body test tight) fuel).mono fun _ => flowPromise_of_firm
  | forLoop mark init test update body =>
    have tight : L.checked → Stmt.tightOpt init = true ∧ body.tight = true := fun hc => by
      have both := ht hc
      rwa [Stmt.tight, Bool.and_eq_true] at both
    refine linked_recorded _ _ _ fun calls => linked_inFrame fun scope => ?_
    have looped : Exec.Linked L { κ with calls := calls, scope := scope }
        (FlowPromise (Stmt.forLoop mark init test update body).loose)
        (rounds (testedRound rec test update body) fuel) (rounds (testedRound rec' test update body) fuel) :=
      (linked_rounds (linked_testedRound h test update body fun hc => (tight hc).2) fuel).mono fun _ =>
        flowPromise_of_firm
    cases init with
    | none => exact looped
    | some s => exact linked_same_bind (h _ (.stmt s) fun hc => (tight hc).1).same fun _ => looped
  | forEach mark item container body =>
    have tight : L.checked → body.tight = true := fun hc => by
      have body_tight := ht hc
      rwa [Stmt.tight] at body_tight
    refine linked_recorded _ _ _ fun calls => ?_
    refine linked_same_bind (same_evaluate h container) fun v => ?_
    refine linked_same_bind (linked_atLine _ (same_lift (code_sequence v).functions)) fun items => ?_
    exact (linked_eachRound h item body items tight).mono fun _ => flowPromise_of_firm
  | breaks mark => exact linked_pure fun _ => rfl
  | continues mark => exact linked_pure fun _ => rfl
  | print mark e =>
    refine linked_same_bind (same_evaluate h e) fun v => ?_
    refine linked_same_bind (same_of_local fun _ => local_inspect v) fun t => ?_
    exact linked_same_bind (same_of_local fun _ => local_onHost fun _ hp => hp) fun _ => firm _ rfl
  | call mark e => exact linked_same_bind (same_evaluate h e) fun _ => firm _ rfl
  | tries mark body handlers =>
    have tight : L.checked → body.tight = true ∧ Handler.tightAll handlers = true := fun hc => by
      have both := ht hc
      rwa [Stmt.tight, Bool.and_eq_true] at both
    refine linked_recorded _ _ _ fun calls => ?_
    rw [Stmt.loose]
    exact linked_guarded h body handlers (fun hc => (tight hc).1) (fun hc => (tight hc).2) hp
  | raise mark category args =>
    refine linked_same_bind ((same_constructs L κ).evaluateAll (same_evaluate h) args) fun vs => ?_
    exact linked_same_bind linked_get.same fun _ => linked_throw _
  | imports mark path => exact linked_same_bind (same_importFile h mark.line path) fun _ => firm _ rfl

/-! ## Runs -/

/-- One level of running a part links what the levels below link, when the part lets the faults pass that
escape. -/
theorem linked_step (h : Runner.Linked L rec rec') (fuel : Nat) (t : Task) (ht : L.checked → t.tight = true)
    (hp : t.LetsPass L) : Exec.Linked L κ t.Promise (step fuel rec t) (step fuel rec' t) := by
  cases t with
  | expr e => exact same_expression h e
  | stmt s => exact linked_statement h fuel s ht hp
  | sleep span =>
    exact linked_same_bind (same_of_local fun _ => local_host) fun _ => same_waitUntil h hp fuel _

/-- Runs are linked to themselves when no fault escapes: there is nothing that a part does not let pass. -/
theorem linked_run_strict (hn : ∀ f, ¬ L.escapes f) (fuel : Nat) : Runner.Linked L (run fuel) (run fuel) := by
  induction fuel with
  | zero => exact fun _ _ _ _ _ => .outOfFuel
  | succ fuel ih =>
    exact fun κ t ht => linked_step ih fuel t ht (t.letsPass_of_none hn)

/-- Every run is linked to itself. -/
theorem linked_run (fuel : Nat) : Runner.Linked L (run fuel) (run fuel) := by
  intro κ t ht m hm
  have strict : Runner.Linked L.strict (run fuel) (run fuel) := linked_run_strict (fun _ hf => hf) fuel
  exact (strict κ t ht m ⟨⟨hm.depth, hm.maxDepth, hm.sound⟩, hm.context⟩).of_strict

end Eval

end ScriptEngine
