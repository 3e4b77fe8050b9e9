import ScriptEngine.Proofs.Constructs
import ScriptEngine.Proofs.Blind
/-!
# Lexical scope

What a script function does depends on the frame that it was declared in, on the global frame and on memory, but not on
the frames that are in use where it is called. Every construct of the language does the same in two scopes with the same
top and global frames, and a call opens its frame inside the captured one. Only the record of what is being run shows
where a call comes from.
-/

namespace ScriptEngine

namespace Eval

open Exec

/-- Runners that do the same with every part of a program, in machines near each other. -/
def Runner.Alike (why : Text) (rec rec' : Runner) : Prop := ∀ t, Exec.Alike true why (rec t) (rec' t)

section Constructs

variable {why : Text} {near : Bool} {rec rec' : Runner}

/-! ## Definitions, names and members -/

/-- Names are defined in the top frame. -/
theorem define_congr {e e' : Scope} (top : e'.top = e.top) (name : Text) (v : Value) :
    StoreM.define e' name v = StoreM.define e name v := by
  unfold StoreM.define
  rw [top]

/-- Defining a name is alike where the top frame is the same. -/
theorem alike_define {m m' : Machine} (aside : m.Aside true m') (name : Text) (v : Value) :
    Exec.Alike near why (liftM (StoreM.define m.scope name v)) (liftM (StoreM.define m'.scope name v)) := by
  rw [define_congr aside.top_eq]
  exact alike_lift _

/-- Names are declared in the top frame. -/
theorem declareAs_congr {e e' : Scope} (top : e'.top = e.top) (name : Text) (kind : Kind) (shape : Option Shape)
    (v : Value) (constant : Bool) : declareAs e' name kind shape v constant = declareAs e name kind shape v constant := by
  unfold declareAs declareKind StoreM.defineShaped StoreM.defineTyped StoreM.defineConst StoreM.define
  rw [top]

/-- Declaring a name is alike where the top frame is the same. -/
theorem alike_declareAs {m m' : Machine} (aside : m.Aside true m') (name : Text) (kind : Kind) (shape : Option Shape)
    (v : Value) (constant : Bool) :
    Exec.Alike near why (liftM (declareAs m.scope name kind shape v constant))
      (liftM (declareAs m'.scope name kind shape v constant)) := by
  rw [declareAs_congr aside.top_eq]
  exact alike_lift _

theorem alike_valueOf {m m' : Machine} (aside : m.Aside true m') (name : Text) :
    Exec.Alike near why (liftM (StoreM.valueOf m.scope name)) (liftM (StoreM.valueOf m'.scope name)) := by
  have same : StoreM.valueOf m'.scope name = StoreM.valueOf m.scope name := by
    unfold StoreM.valueOf Store.lookup?
    rw [aside.top_eq]
  rw [same]
  exact alike_lift _

theorem alike_nameValue (line : Nat) (name : Text) : Exec.Alike true why (nameValue line name) (nameValue line name) :=
  alike_get_bind fun _ _ aside => alike_atLine line (alike_valueOf aside name)

/-- A name is assigned to where it is found from the top frame, and else in the global frame. -/
theorem alike_assignName (name : Text) (v : Value) : Exec.Alike true why (assignName name v) (assignName name v) := by
  unfold assignName
  refine alike_get_bind fun m m' aside => ?_
  rw [aside.lookup_eq]
  split
  · have same : StoreM.defineGlobal m'.scope name v = StoreM.defineGlobal m.scope name v := by
      unfold StoreM.defineGlobal
      rw [aside.global_eq]
    rw [same]
    exact alike_bind (alike_lift _) fun _ => alike_pure v
  · have same : StoreM.assign m'.scope name v = StoreM.assign m.scope name v := by
      unfold StoreM.assign Store.lookup?
      rw [aside.top_eq]
    rw [same]
    exact alike_bind (alike_lift _) fun _ => alike_valueOf aside name

theorem alike_memberBase (base : Text) (path : List Text) :
    Exec.Alike true why (memberBase base path) (memberBase base path) := by
  unfold memberBase
  refine alike_get_bind fun m m' aside => alike_bind (alike_valueOf aside base) fun v => ?_
  split
  · exact alike_pure _
  · exact alike_bind (alike_kindOf _) fun _ => alike_throw _

theorem alike_readMember (line : Nat) (base : Text) (path : List Text) :
    Exec.Alike true why (readMember line base path) (readMember line base path) := by
  unfold readMember
  refine alike_atLine line (alike_bind (alike_memberBase base path) fun b => alike_get_bind fun m m' aside => ?_)
  rw [aside.store_eq]
  refine alike_bind (alike_ofExcept _) fun found => ?_
  split
  · exact alike_lift _
  · exact alike_pure _

theorem alike_writeMember (line : Nat) (base : Text) (path : List Text) (v : Value) :
    Exec.Alike true why (writeMember line base path v) (writeMember line base path v) := by
  unfold writeMember
  refine alike_atLine line (alike_bind (alike_memberBase base path) fun b => alike_get_bind fun m m' aside => ?_)
  rw [aside.lookup_eq, aside.store_eq]
  extract_lets shape written
  refine alike_of_blind ?_
  have blind_written (root : Node) : Blind (written root) := by
    refine blind_bind (blind_lift _) fun n => ?_
    extract_lets checked
    have blind_checked (u : PUnit) : Blind (checked u) := by
      unfold checked
      cases shape with
      | none => exact blind_pure _
      | some shape =>
        refine blind_bind (blind_lift _) fun fresh => blind_bind (blind_lift _) fun w => ?_
        exact blind_bind (blind_lift _) fun n => blind_lift _
    clear_value checked
    cases root with
    | object a => exact blind_bind (blind_lift _) blind_checked
    | _ => exact blind_bind (blind_throw _) blind_checked
  clear_value written
  cases shape with
  | none => exact blind_bind (blind_pure _) blind_written
  | some _ => exact blind_bind (blind_lift _) blind_written

/-- The value that a function gives is found without a look at scopes. -/
theorem blind_resultOf (f : FunctionData) (line : Nat) (flow : Flow) : Blind (resultOf f line flow) := by
  unfold resultOf
  extract_lets v
  split
  · exact blind_pure v
  · exact blind_bind (blind_kindOf v) fun kind => blind_tryCatch (blind_onStore _) fun _ => blind_throw _

/-- A function is defined in the top frame, which it captures. -/
theorem alike_defineFunction (name : Text) (params : List Param) (result : Option TypeSpec) (body : Block) :
    Exec.Alike true why (defineFunction name params result body) (defineFunction name params result body) := by
  unfold defineFunction
  refine alike_get_bind fun m m' aside => ?_
  dsimp only
  rw [aside.top_eq]
  exact alike_bind (alike_lift _) fun f => alike_define aside name f

/-- Likeness goes along with every construct. -/
theorem alike_constructs (why : Text) : FullCongruence fun _ x x' => Exec.Alike true why x x' where
  gives := alike_pure
  fails := alike_throw
  next := alike_bind
  line line _ _ hx := alike_atLine line hx
  catches := alike_tryCatch
  logs level message attrs := alike_of_blind (blind_log level message attrs)
  kind := alike_kindOf
  name := alike_nameValue
  rename := alike_assignName
  member := alike_readMember
  remember := alike_writeMember
  index _ _ := alike_lift _
  reindex _ _ _ := alike_lift _
  one _ _ := alike_lift _
  two _ _ _ := alike_lift _
  length _ := alike_lift _
  array _ := alike_lift _
  sized _ _ _ := alike_lift _
  queue := alike_lift _
  date _ := alike_lift _
  declares line name kind shape v constant :=
    alike_get_bind fun _ _ aside => alike_atLine line (alike_declareAs aside name kind shape v constant)
  binds name kind shape v _ _ _ rest := alike_get_bind fun _ _ aside =>
    alike_bind (alike_tryCatch (alike_declareAs aside name kind shape v false) fun _ => alike_throw _) fun _ => rest
  stops _ _ _ := .outOfFuel
  result f line flow := alike_of_blind (blind_resultOf f line flow)
  unwinds := alike_unwinding
  framed := alike_inFrame
  records kind name line _ _ hx := alike_recorded kind name line hx
  checks := alike_of_blind blind_checkInterrupt
  times _ := alike_of_blind (blind_onTimers _)
  looks := alike_bind (alike_of_blind blind_host)
  items _ := alike_lift _
  shows v := alike_of_blind (blind_inspect v)
  prints _ := alike_of_blind (blind_onHost _)
  raises f := alike_get_bind fun m m' aside => by
    rw [aside.store_eq]
    exact alike_throw _
  defines name v _ _ rest := alike_get_bind fun _ _ aside => alike_bind (alike_define aside name v) fun _ => rest

/-! ## Calls of script functions -/

/-- A call is alike from any scopes with the same global frame: its body runs in a frame inside the captured one. -/
theorem alike_apply (h : Runner.Alike why rec rec') (f : FunctionData) (outer : Nat) (args : List Value)
    (names : List Text) (line : Nat) :
    Exec.Alike near why (apply rec f outer args names line) (apply rec' f outer args names line) := by
  unfold apply
  refine alike_get_bind fun m m' aside => ?_
  obtain ⟨e, calls, -, -⟩ := aside
  rw [show (m.elsewhere e calls).maxDepth = m.maxDepth from rfl, show (m.elsewhere e calls).depth = m.depth from rfl]
  split
  · exact alike_throw_bind _ _ _
  refine alike_bind (alike_atLine line (alike_ofExcept _)) fun bound => ?_
  refine alike_within (alike_recorded _ _ _ ?_) (fun _ => ⟨rfl, rfl⟩) ?_ ?_
  · exact alike_opened (fun _ _ _ => rfl) fun _ _ _ =>
      (alike_constructs why).called (fun s => h (.stmt s)) (fun e => h (.expr e)) f line _
  all_goals
    rintro n _ ⟨e, calls, global, top⟩
    exact .mk e calls global top

/-- A call by name is alike. -/
theorem alike_functionCall (h : Runner.Alike why rec rec') (line : Nat) (name : Text) (args : List Expr)
    (names : List Text) :
    Exec.Alike true why (functionCall rec line name args names) (functionCall rec' line name args names) := by
  unfold functionCall
  refine alike_get_bind fun m m' aside => ?_
  rw [aside.lookup_eq, aside.store_eq]
  split
  · exact alike_throw _
  · split
    · exact alike_bind ((alike_constructs why).evaluateAll (fun e => h (.expr e)) args) fun vs => alike_apply h _ _ vs names line
    · exact alike_throw _

/-! ## Calls of builtins -/

/-- The variables in sight are those of the top frame and the frames around it. -/
theorem alike_visibleVariables : Exec.Alike true why DebugOp.visibleVariables DebugOp.visibleVariables := by
  unfold DebugOp.visibleVariables
  refine alike_get_bind fun m m' aside => ?_
  have visible : m'.store.visible m'.scope = m.store.visible m.scope := by
    rw [Store.visible, aside.store_eq, aside.top_eq]
    rfl
  rw [visible]
  exact alike_lift _

theorem alike_callPlugin (p : Plugin) (args : List Value) :
    Exec.Alike near why (Builtin.callPlugin p args) (Builtin.callPlugin p args) := by
  unfold Builtin.callPlugin
  refine alike_bind (alike_lift _) fun args => alike_get_bind fun m m' aside => ?_
  rw [aside.store_eq]
  have stored : Exec.Alike near why (modify fun n => { n with store := (p.run args m.store).2 } : Exec PUnit)
      (modify fun n => { n with store := (p.run args m.store).2 }) := by
    rintro n _ ⟨e, calls, global, top⟩
    exact .done (.mk e calls global top) rfl rfl
  refine alike_bind stored fun _ => ?_
  cases (p.run args m.store).1 with
  | ok v => exact alike_pure _
  | error e => exact alike_throw _

/-- A builtin is alike that neither waits nor shows the record. -/
theorem alike_builtinRun {b : Builtin} (awake : b ≠ .thread .sleep) (silent : b ≠ .debug .stack) (sleep : Nat → Exec Unit)
    (args : Args) : Exec.Alike true why (b.run sleep args) (b.run sleep args) := by
  cases b with
  | thread op => exact alike_of_blind (ThreadOp.blind_run args fun same => awake (congrArg _ same))
  | debug op =>
    by_cases shows : op = .vars
    · subst shows
      exact alike_visibleVariables
    · exact alike_of_blind (DebugOp.blind_run args shows fun stack => silent (congrArg _ stack))
  | json op => exact alike_of_blind (JsonOp.blind_run op args)
  | array op => exact alike_of_blind (ArrayOp.blind_run op args)
  | queue op => exact alike_of_blind (QueueOp.blind_run op args)
  | date op => exact alike_of_blind (DateOp.blind_run op args)
  | math op => exact alike_of_blind (MathOp.blind_run op args)
  | crypto op => exact alike_of_blind (CryptoOp.blind_run op args)
  | mail op => exact alike_of_blind (MailOp.blind_run op args)
  | socket op => exact alike_of_blind (SocketOp.blind_run op args)
  | file op => exact alike_of_blind (FileOp.blind_run op args)
  | http op => exact alike_of_blind (HttpOp.blind_run op args)
  | image op => exact alike_of_blind (ImageOp.blind_run op args)
  | system op => exact alike_of_blind (SystemOp.blind_run op args)
  | str op => exact alike_of_blind (StrOp.blind_run op args)

/-- The name of the builtin that shows the record of what is being run. -/
def recordName : Text := "debug.stack"

/-- Only the name of a builtin leads to it. -/
theorem name_of_find? {name : Text} {b : Builtin} (found : Builtin.find? name = some b) : b.signature.name = name := by
  obtain ⟨before, after, table, -⟩ := List.lookup_eq_some_iff.mp found
  have mem : (name, b) ∈ Builtin.table := by
    rw [table]
    exact List.mem_append_right _ (List.mem_cons_self ..)
  obtain ⟨c, -, same⟩ := List.mem_map.mp mem
  cases same
  rfl

theorem alike_call {sleep sleep' : Nat → Exec Unit} (hs : ∀ span, Exec.Alike true why (sleep span) (sleep' span))
    {name : Text} (silent : name.lower ≠ recordName) (args : List Value) :
    Exec.Alike true why (Builtin.call sleep name args) (Builtin.call sleep' name args) := by
  unfold Builtin.call
  dsimp only
  split
  · refine alike_bind (alike_of_blind blind_host) fun h => ?_
    split
    · exact alike_callPlugin _ args
    · exact alike_throw _
  · split
    · rename_i b found
      refine alike_bind (alike_lift _) fun vs => (alike_constructs why).builtinRun hs fun awake => ?_
      refine alike_builtinRun awake (fun stack => silent ?_) sleep ⟨vs⟩
      rw [← name_of_find? found, stack]
      rfl
    · exact alike_throw _

/-! ## Expressions -/

/-- Whether an expression is a call of the builtin that shows the record of what is being run. -/
def showsRecord : Expr → Bool
  | .call _ name _ _ isBuiltin _ => isBuiltin && name.lower = recordName
  | _ => false

/-! ## Source texts -/

/-- An import runs in the global frame. -/
theorem alike_importFile (h : Runner.Alike why rec rec') (line : Nat) (name : Text) :
    Exec.Alike true why (importFile rec line name) (importFile rec' line name) := by
  unfold importFile
  refine alike_get_bind fun m m' aside => ?_
  rw [aside.imported_eq, aside.importDir_eq, aside.host_eq, aside.detach_eq]
  extract_lets path key
  split
  · exact alike_pure _
  refine alike_bind (alike_atLine line (alike_ofExcept _)) fun content => ?_
  extract_lets read read'
  have alike_read (u : PUnit) : Exec.Alike true why (read u) (read' u) := by
    unfold read read'
    split
    · exact alike_throw _
    · rename_i p _
      have imported : Exec.Alike true why (modify fun m => { m with imported := key :: m.imported } : Exec PUnit)
          (modify fun m => { m with imported := key :: m.imported }) := by
        rintro n _ ⟨e, calls, global, top⟩
        exact .done (.mk e calls global top) rfl rfl
      refine alike_bind imported fun _ => alike_bind (alike_of_blind (blind_log _ _ _)) fun _ => ?_
      exact alike_bind (alike_inScope ((alike_constructs why).program (fun s => h (.stmt s)) alike_defineFunction p) rfl rfl) fun _ => alike_pure _
  clear_value read read'
  split
  · exact alike_throw_bind _ _ _
  · exact alike_read _

/-! ## Callbacks of timers -/

theorem alike_resolveCallback (v : Value) : Exec.Alike true why (resolveCallback v) (resolveCallback v) := by
  unfold resolveCallback
  refine alike_get_bind fun m m' aside => ?_
  rw [aside.store_eq]
  cases v with
  | function a => exact alike_pure _
  | string t =>
    dsimp only
    rw [← aside.store_eq, aside.lookup_eq, aside.store_eq]
    split
    · exact alike_throw _
    · split
      · exact alike_pure _
      · exact alike_throw _
  | _ => exact alike_throw _

theorem alike_defineAll (vars : List (Text × Value)) : Exec.Alike true why (defineAll vars) (defineAll vars) := by
  unfold defineAll
  refine alike_get_bind fun m m' aside => ?_
  simp only [define_congr aside.top_eq]
  refine alike_of_blind ?_
  refine blind_bind ?_ fun _ => blind_pure _
  induction vars with
  | nil => exact blind_pure _
  | cons v vars ih =>
    rw [List.forIn_cons, bind_assoc]
    exact blind_bind (blind_onStore _) fun _ => ih

/-- The callback of a tick runs in the global frame, with a frame inside the captured one around it. -/
theorem alike_callbackOf (h : Runner.Alike why rec rec') (t : Timer.Tick) :
    Exec.Alike true why (callbackOf rec t) (callbackOf rec' t) := by
  unfold callbackOf
  refine alike_get_bind fun m m' aside => ?_
  rw [aside.detach_eq, aside.owners_eq]
  refine alike_inScope ?_ rfl rfl
  refine alike_bind (alike_resolveCallback t.callback) fun f => ?_
  refine alike_opened (fun _ _ _ => rfl) fun e e' top => ?_
  rw [top]
  refine alike_bind (alike_defineAll _) fun _ => ?_
  exact alike_bind (alike_apply h f _ _ _ _) fun _ => alike_pure _

theorem alike_log (level : Log.Level) (message : Text) (attrs : List Log.Attr) :
    Exec.Alike near why (Exec.log level message attrs) (Exec.log level message attrs) :=
  alike_of_blind (blind_log level message attrs)

theorem alike_runTick (h : Runner.Alike why rec rec') (t : Timer.Tick) :
    Exec.Alike true why (runTick rec t) (runTick rec' t) := by
  refine alike_tryCatch (alike_callbackOf h t) fun f => alike_get_bind fun m m' aside => ?_
  rw [aside.store_eq]
  exact alike_log _ _ _

/-! ## Runs -/

/-- Whether a part is a call of the builtin that shows the record of what is being run. -/
def Task.showsRecord : Task → Bool
  | .expr e => Eval.showsRecord e
  | _ => false

/-- One level of running a part is alike when the levels below are, and the part does not show the record. -/
theorem alike_step (h : Runner.Alike why rec rec') (fuel : Nat) {t : Task} (silent : t.showsRecord = false) :
    Exec.Alike true why (step fuel rec t) (step fuel rec' t) := by
  have along := alike_constructs why
  have parts (e : Expr) : Exec.Alike true why (evaluate rec e) (evaluate rec' e) := h (.expr e)
  cases t with
  | expr e =>
    have objects := along.objectOf parts (fun _ => alike_lift _) (fun _ => alike_lift _) (fun _ => alike_lift _) fun _ => alike_lift _
    refine along.expression parts objects (fun mark name args names result call vs => ?_) (alike_functionCall h)
    subst call
    have silent : name.lower ≠ recordName := by simpa [Task.showsRecord, showsRecord] using silent
    exact along.builtinCall result (along.reports (alike_call (fun span => h (.sleep span)) silent vs) name mark.line)
  | stmt s => exact along.statement (fun s => h (.stmt s)) parts alike_defineFunction (alike_importFile h) fuel s
  | sleep span => exact along.looks fun w => along.waitUntil (alike_runTick h) fuel _

end Constructs

/-- The arguments of a part that is a call. -/
def Task.arguments : Task → List Expr
  | .expr (.call _ _ args _ _ _) => args
  | _ => []

/-- Runs a part of a program, but crashes where the record of what is being run would be shown. -/
def runSilenced (why : Text) : Nat → Runner
  | 0 => fun _ => Exec.noFuel
  | fuel + 1 => fun t =>
    if t.showsRecord then do
      let _ ← evaluateAll (runSilenced why fuel) t.arguments
      Exec.crash why
    else step fuel (runSilenced why fuel) t

/-- All runs are alike, up to the place where the record would be shown. -/
theorem alike_run (why : Text) (fuel : Nat) : Runner.Alike why (run fuel) (runSilenced why fuel) := by
  induction fuel with
  | zero => exact fun _ _ _ _ => .outOfFuel
  | succ fuel ih =>
    intro t
    unfold run runSilenced
    split
    · rename_i shows
      cases t with
      | expr e =>
        cases e with
        | call mark name args names isBuiltin result =>
          have builtin : isBuiltin = true := (Bool.and_eq_true_iff.mp shows).1
          subst builtin
          exact alike_bind ((alike_constructs why).evaluateAll (fun e => ih (.expr e)) args) fun vs => alike_stopped _
        | _ => cases shows
      | _ => cases shows
    · rename_i silent
      exact alike_step ih fuel (Bool.eq_false_iff.mpr silent)

/-- Runs that are alike, of which the second is not stopped, have the same outcome but for frames and record. -/
theorem elsewhere_eq_of_alike {α : Type} {near : Bool} {why : Text} {u u' : Scope} {r r' : Outcome α}
    (h : Outcome.Alike near why u u' r r') (goes : ∀ n, r' ≠ .crashed why n) (e : Scope) (calls : List CallEntry) :
    r.elsewhere e calls = r'.elsewhere e calls := by
  cases h with
  | done aside | failed aside =>
    cases aside
    rfl
  | crashed | outOfFuel => rfl
  | stopped => exact absurd rfl (goes _)

/-- A call of a function does the same whatever frames are in use where it is made, as long as the global frame is the
same: it has the same outcome, but for the frames in use and the record of what is being run, and leaves memory and the
world around in the same state. The record may differ too, if the call does not come to show it. -/
theorem apply_lexical {why : Text} {fuel : Nat} {f : FunctionData} {outer : Nat} {args : List Value} {names : List Text}
    {line : Nat} {m : Machine} {e : Scope} {calls : List CallEntry} (global : e.global = m.scope.global)
    (silent : ∀ n, apply (runSilenced why fuel) f outer args names line m ≠ .crashed why n) :
    (apply (run fuel) f outer args names line (m.elsewhere e calls)).elsewhere m.scope m.calls =
      (apply (run fuel) f outer args names line m).elsewhere m.scope m.calls := by
  have alike : Exec.Alike false why (apply (run fuel) f outer args names line)
      (apply (runSilenced why fuel) f outer args names line) :=
    alike_apply (alike_run why fuel) f outer args names line
  have back : (m.elsewhere e calls).Aside false m := .mk m.scope m.calls global.symm nofun
  rw [elsewhere_eq_of_alike (alike _ _ back) silent, elsewhere_eq_of_alike (alike m m (.refl m)) silent]

/-- A function that gives a global variable gives it also where another variable hides it from the call. -/
theorem apply_lexical_hidden :
    let mark : Mark := ⟨"return", 1⟩
    let f : FunctionData := ⟨"f", [], none, .mk mark [.returns mark (some (.name mark "x"))], 0⟩
    let m : Machine := { Machine.initial (Host.initial default default) 10 "" with
      store := { Store.initial with
        frames := #[⟨[("x", ⟨.int 1, false, none, none⟩)], none⟩, ⟨[("x", ⟨.int 2, false, none, none⟩)], some 0⟩] } }
    ∃ n n', apply (run 3) f f.frame [] [] 1 m = .done (.int 1) n ∧
      apply (run 3) f f.frame [] [] 1 (m.elsewhere ⟨[1], 0⟩ [⟨"block", "", 1⟩]) = .done (.int 1) n' ∧
      n'.store.frames = n.store.frames := by
  intro mark f m
  obtain ⟨n, here⟩ : ∃ n, apply (run 3) f f.frame [] [] 1 m = .done (.int 1) n := ⟨_, rfl⟩
  obtain ⟨k, goes⟩ : ∃ k, apply (runSilenced "shown" 3) f f.frame [] [] 1 m = .done (.int 1) k := ⟨_, rfl⟩
  have silent (n : Machine) : apply (runSilenced "shown" 3) f f.frame [] [] 1 m ≠ .crashed "shown" n := by
    rw [goes]
    exact nofun
  have same : (apply (run 3) f f.frame [] [] 1 (m.elsewhere ⟨[1], 0⟩ [⟨"block", "", 1⟩])).elsewhere m.scope m.calls = _ :=
    apply_lexical rfl silent
  rw [here] at same
  generalize apply (run 3) f f.frame [] [] 1 (m.elsewhere ⟨[1], 0⟩ [⟨"block", "", 1⟩]) = r at same ⊢
  cases r with
  | done v n' =>
    obtain ⟨rfl, machines⟩ := Outcome.done.inj same
    have frames := congrArg (fun k : Machine => k.store.frames) machines
    exact ⟨n, n', here, rfl, frames⟩
  | _ => cases same

end Eval

end ScriptEngine
