import ScriptEngine.Proofs.MachineLives
import ScriptEngine.Proofs.SafeBuiltins
/-!
# Runs of scripts make up no address

Whatever part of a program is run, the machine goes on from whole memory to whole memory, along a course of containers that
are made and written to. Plugins are functions of the host, of which as much is asked. So it is at every end of a run, and
at every point in the midst of it.
-/

namespace ScriptEngine

variable {s t : Store} {α β : Type}

/-- A function of the host is careful when it leads along a course from whole memory to whole memory. -/
def Plugin.Careful (f : Plugin) : Prop := ∀ args s, s.Whole → s.Course (f.run args s).2 ∧ (f.run args s).2.Whole

/-- All plugins are careful. -/
def Plugins.Careful (p : Plugins) : Prop := ∀ f ∈ p.entries, f.Careful

namespace Exec

/-- From machines with given plugins a computation leads along a course of whole memory, and keeps the plugins. -/
def Keeps [Addressed α] (p : Plugins) (x : Exec α) (s : Store) : Prop := Guards (fun m => m.host.plugins = p) x s

variable [Addressed α] [Addressed β] {p : Plugins}

/-! ## Putting computations together -/

@[grind ←]
theorem keeps_pure {a : α} (valid : Valid s a) : Keeps p (pure a) s := guards_pure valid

@[grind ←]
theorem keeps_throw (f : Fault) : Keeps p (throw f : Exec α) s := guards_throw f

omit [Addressed α] in
@[grind ←]
theorem keeps_throw_bind (e : Fault) (f : α → Exec β) : Keeps p ((throw e : Exec α) >>= f) s := keeps_throw (α := β) e

@[grind ←]
theorem keeps_bind {x : Exec α} {f : α → Exec β} (hx : Keeps p x s) (hf : ∀ a t, s.Grew t → Valid t a → Keeps p (f a) t) :
    Keeps p (x >>= f) s := guards_bind hx hf

theorem keeps_get_bind {f : Machine → Exec β} (hf : ∀ m, m.store = s → s.Whole → m.host.plugins = p → Keeps p (f m) s) :
    Keeps p (get >>= f) s := guards_get_bind hf

/-- What gives no address outside keeps memory whole, too. -/
theorem Keeps.plain {x : Exec α} (hx : Keeps p x s) : @Keeps α .plain p x s := by
  intro m here whole plugins
  have ends := hx m here whole plugins
  generalize x m = r at ends
  cases r with
  | done a k => exact ⟨ends.1, ends.2.1, ends.2.2.1, trivial⟩
  | _ => exact ends

/-- A safe computation that is local keeps the plugins. -/
theorem keeps_of_local {x : Exec α} (safe : ∀ s, Safe x s) (hx : ∀ p, Local p x) : Keeps p x s := by
  intro m here whole plugins
  have safe := safe s m here whole trivial
  have ends := hx p m plugins
  generalize x m = r at safe ends
  cases r with
  | done a k => exact ⟨safe.1, safe.2.1, ends.plugins.trans plugins, safe.2.2.2⟩
  | failed f k => exact ⟨safe.1, safe.2.1, ends.plugins.trans plugins⟩
  | crashed why k => exact ⟨safe.1, safe.2.1, ends.plugins.trans plugins⟩
  | outOfFuel => trivial

@[grind ←]
theorem keeps_lift {x : StoreM α} (hx : StoreM.Safe x s) : Keeps p (liftM x : Exec α) s := by
  intro m here whole plugins
  have safe := safe_onStore hx m here whole trivial
  have same : (onStore x m).Ends fun k => k.host.plugins = p := by
    unfold onStore
    dsimp only
    generalize x m.store = r
    obtain ⟨r, t⟩ := r
    cases r <;> exact plugins
  change (onStore x m).Guarded _ s
  generalize onStore x m = r at safe same
  cases r with
  | done a k => exact ⟨safe.1, safe.2.1, same, safe.2.2.2⟩
  | failed f k => exact ⟨safe.1, safe.2.1, same⟩
  | crashed why k => exact ⟨safe.1, safe.2.1, same⟩
  | outOfFuel => trivial

@[grind ←]
theorem keeps_kindOf (v : Value) : Keeps p (kindOf v) s := guards_kindOf v

/-- A computation between changes of the machine that concern neither memory nor the plugins. -/
theorem keeps_within {x : Exec α} {before after : Machine → Machine} (hx : Keeps p x s)
    (hb : ∀ m, (before m).store = m.store ∧ (before m).host.plugins = m.host.plugins)
    (ha : ∀ m, (after m).store = m.store ∧ (after m).host.plugins = m.host.plugins) : Keeps p (within before after x) s := by
  intro m here whole plugins
  have inner := hx (before m) ((hb m).1.trans here) whole ((hb m).2.trans plugins)
  unfold within
  generalize x (before m) = r at inner
  cases r with
  | done a k =>
    obtain ⟨course, whole', plugins', valid⟩ := inner
    change s.Course (after k).store ∧ (after k).store.Whole ∧ (after k).host.plugins = p ∧ Valid (after k).store a
    rw [(ha k).1, (ha k).2]
    exact ⟨course, whole', plugins', valid⟩
  | failed f k =>
    obtain ⟨course, whole', plugins'⟩ := inner
    change s.Course (after k).store ∧ (after k).store.Whole ∧ (after k).host.plugins = p
    rw [(ha k).1, (ha k).2]
    exact ⟨course, whole', plugins'⟩
  | crashed why k => exact inner
  | outOfFuel => trivial

@[grind ←]
theorem keeps_inScope {x : Exec α} (scope : Scope) (hx : Keeps p x s) : Keeps p (inScope scope x) s := by
  intro m
  have inner : Keeps p (within (fun m => { m with scope := scope }) (fun k => { k with scope := m.scope }) x) s :=
    keeps_within hx (fun _ => ⟨rfl, rfl⟩) fun _ => ⟨rfl, rfl⟩
  exact inner m

@[grind ←]
theorem keeps_popping {x : Exec α} (scope : Scope) (hx : Keeps p x s) : Keeps p (popping scope x) s :=
  keeps_within hx (fun _ => ⟨rfl, rfl⟩) fun _ => ⟨rfl, rfl⟩

@[grind ←]
theorem keeps_unwinding {x : Exec α} (hx : Keeps p x s) : Keeps p (unwinding x) s := by
  intro m here whole plugins
  have inner := hx m here whole plugins
  unfold unwinding
  dsimp only
  generalize x m = r at inner
  cases r with
  | _ => exact inner

@[grind ←]
theorem keeps_inFrame {x : Exec α} (hx : ∀ t, Keeps p x t) : Keeps p (inFrame x) s :=
  keeps_get_bind fun _ _ _ _ => keeps_bind (keeps_lift (StoreM.safe_push _)) fun scope t _ _ => keeps_popping scope (hx t)

@[grind ←]
theorem keeps_recorded {x : Exec α} (kind name : Text) (line : Nat) (hx : Keeps p x s) : Keeps p (recorded kind name line x) s :=
  keeps_within hx (fun _ => ⟨rfl, rfl⟩) fun _ => ⟨rfl, rfl⟩

@[grind ←]
theorem keeps_tryCatch {x : Exec α} {f : Fault → Exec α} (hx : Keeps p x s) (hf : ∀ e t, s.Grew t → Keeps p (f e) t) :
    Keeps p (tryCatch x f) s := guards_tryCatch hx hf

@[grind ←]
theorem keeps_atLine {x : Exec α} (line : Nat) (hx : Keeps p x s) : Keeps p (atLine line x) s := guards_atLine line hx

end Exec

namespace Eval

open Exec

/-- Runners that keep memory whole, and the plugins. -/
def Runner.Keeps (p : Plugins) (rec : Runner) : Prop := ∀ t s, Exec.Keeps p (rec t) s

section Constructs

variable {p : Plugins} {rec : Runner}

/-! ## Names and members -/

theorem safe_nameValue (line : Nat) (name : Text) (s : Store) : Exec.Safe (nameValue line name) s :=
  safe_get_bind fun _ _ _ => safe_atLine line (safe_lift (StoreM.safe_valueOf _ name))

theorem safe_assignName (name : Text) (v : Value) (s : Store) : Exec.Safe (assignName name v) s := by
  refine safe_get_bind fun m _ _ => ?_
  split <;> grind

theorem safe_memberBase (base : Text) (path : List Text) (s : Store) : Exec.Safe (memberBase base path) s := by
  refine safe_get_bind fun m _ _ => safe_bind (safe_lift (StoreM.safe_valueOf _ base)) fun v t _ _ => ?_
  cases v with
  | json b => exact safe_pure trivial
  | _ => exact safe_bind (safe_kindOf _) fun _ _ _ _ => safe_throw _

/-- What the names of a member lead to in valid data is valid. -/
theorem valid_followMember {base : Text} {path names : List Text} {done : Nat} {n m : Node} (whole : s.Whole) (there : Valid s n)
    (found : followMember base path s done names n = .ok (some m)) : Valid s m := by
  induction names generalizing done n with
  | nil =>
    cases found
    exact there
  | cons name rest ih =>
    cases n with
    | object a =>
      unfold followMember at found
      dsimp only at found
      split at found
      · cases found
      · exact ih (valid_getD (valid_lookup (valid_object whole a) _)) found
    | _ => cases found

theorem safe_readMember (line : Nat) (base : Text) (path : List Text) (s : Store) : Exec.Safe (readMember line base path) s := by
  refine safe_atLine line (safe_bind (safe_memberBase base path s) fun b t _ _ => safe_get_bind fun m here whole => ?_)
  subst here
  refine safe_bind (safe_ofExcept (r := followMember base path m.store 0 path (m.store.box b)) fun found same n lies => ?_)
    fun found u _ there => ?_
  · subst lies
    exact valid_followMember whole (valid_box whole b) same
  · cases found with
    | none => exact safe_pure trivial
    | some n => exact safe_lift (StoreM.safe_ofNode (there n rfl))

theorem safe_writeMember (line : Nat) (base : Text) (path : List Text) (v : Value) (s : Store) :
    Exec.Safe (writeMember line base path v) s := by
  refine safe_atLine line (safe_bind (safe_memberBase base path s) fun b t _ _ => safe_get_bind fun m here whole => ?_)
  subst here
  extract_lets shape written
  have safe_written (root : Node) (u : Store) (there : Valid u root) : Exec.Safe (written root) u := by
    refine safe_bind (safe_lift (StoreM.safe_toNode v)) fun n w grew hn => ?_
    extract_lets checked
    have safe_checked (x : PUnit) (w' : Store) (there : Valid w' root) : Exec.Safe (checked x) w' := by
      unfold checked
      cases shape with
      | none => exact safe_pure trivial
      | some shape =>
        refine safe_bind (safe_lift (StoreM.safe_newBox there)) fun fresh _ _ _ => ?_
        refine safe_bind (safe_lift (StoreM.safe_conform shape fresh)) fun w _ _ _ => ?_
        exact safe_bind (safe_lift (StoreM.safe_toNode w)) fun n _ _ hn => safe_lift (StoreM.safe_setBox hn)
    clear_value checked
    cases root with
    | object a =>
      exact safe_bind (safe_lift (safe_setBelow base path 0 path a hn)) fun x w' more _ =>
        safe_checked x w' (Addressed.valid_grew (grew.trans more) there)
    | _ => exact safe_throw_bind _ _
  clear_value written
  cases shape with
  | none => exact safe_bind (safe_pure (valid_box whole b)) fun root u _ there => safe_written root u there
  | some _ => exact safe_bind (safe_lift (StoreM.safe_clone (valid_box whole b))) fun root u _ there => safe_written root u there

theorem safe_resultOf (f : FunctionData) (line : Nat) (flow : Flow) (s : Store) : Exec.Safe (resultOf f line flow) s := by
  unfold resultOf
  extract_lets v
  split
  · exact safe_pure trivial
  · refine safe_bind (safe_kindOf v) fun kind t _ _ => ?_
    exact safe_tryCatch (safe_onStore (StoreM.safe_coerce v _)) fun _ _ _ => safe_throw _

theorem keeps_defineFunction (name : Text) (params : List Param) (result : Option TypeSpec) (body : Block) :
    Exec.Keeps p (defineFunction name params result body) s :=
  keeps_get_bind fun _ _ _ _ => keeps_bind (keeps_lift (StoreM.safe_newFunction _)) fun f _ _ _ =>
    keeps_lift (StoreM.safe_define _ name f)

/-! ## Every construct -/

/-- Being kept whole goes along with every construct. -/
theorem keeps_constructs (p : Plugins) : FullCongruence fun α x _ => ∀ s, @Exec.Keeps α .plain p x s where
  gives _ _ := keeps_pure trivial
  fails f _ := keeps_throw f
  next hx hf s := keeps_bind (hx s) fun a t _ _ => hf a t
  line line _ _ hx s := keeps_atLine line (hx s)
  catches hx hf s := keeps_tryCatch (hx s) fun e t _ => hf e t
  logs _ _ _ _ := keeps_of_local (fun _ => safe_log _ _ _) fun _ => local_log _ _ _
  kind v _ := keeps_kindOf v
  name line name _ := keeps_of_local (safe_nameValue line name) fun _ => local_nameValue line name
  rename name v _ := keeps_of_local (safe_assignName name v) fun _ => local_assignName name v
  member line base path _ := keeps_of_local (safe_readMember line base path) fun _ => local_readMember line base path
  remember line base path v _ := keeps_of_local (safe_writeMember line base path v) fun _ => local_writeMember line base path v
  index c k _ := keeps_lift (safe_readIndex c k)
  reindex c k v _ := keeps_lift (safe_writeIndex c k v)
  one op v _ := keeps_lift (safe_unary op v)
  two op a b _ := keeps_lift (safe_binary op a b)
  length v _ := keeps_lift (safe_lengthOf v)
  array vs _ := keeps_lift (StoreM.safe_newArrayOf vs)
  sized name dims v _ := keeps_lift (safe_initialArray name dims v)
  queue _ := keeps_lift (StoreM.safe_newQueue [])
  date _ _ := keeps_lift (StoreM.safe_get_bind fun _ => StoreM.safe_pure trivial)
  declares line name kind shape v constant _ :=
    keeps_get_bind fun _ _ _ _ => keeps_atLine line (keeps_lift (safe_declareAs _ name kind shape v constant))
  binds _ _ _ _ _ _ _ rest _ := keeps_get_bind fun _ _ _ _ =>
    keeps_bind (keeps_tryCatch (keeps_lift (safe_declareAs _ _ _ _ _ _)) fun _ _ _ => keeps_throw _) fun _ t _ _ => rest t
  stops _ _ _ _ _ := trivial
  result f line flow _ := keeps_of_local (safe_resultOf f line flow) fun _ => local_resultOf f line flow
  unwinds hx s := keeps_unwinding (hx s)
  framed hx _ := keeps_inFrame hx
  records kind name line _ _ hx s := keeps_recorded kind name line (hx s)
  checks _ := keeps_of_local (fun _ => safe_checkInterrupt) fun _ => local_checkInterrupt
  times f _ := keeps_of_local (fun _ => safe_onTimers f) fun _ => local_onTimers f
  looks rest s := guards_host_bind fun m _ => rest m.host s
  items v _ := (keeps_lift (safe_sequence v)).plain
  shows v _ := keeps_of_local (fun _ => safe_inspect v) fun _ => local_inspect v
  prints _ _ := keeps_of_local (fun _ => safe_onHost _) fun _ => local_onHost fun _ hp => hp
  raises _ _ := keeps_get_bind fun _ _ _ _ => keeps_throw _
  defines name v _ _ rest _ := keeps_get_bind fun _ _ _ _ => keeps_bind (keeps_lift (StoreM.safe_define _ name v)) fun _ t _ _ => rest t

/-! ## Calls of script functions -/

theorem keeps_evaluateAll (h : Runner.Keeps p rec) (es : List Expr) : Exec.Keeps p (evaluateAll rec es) s := by
  induction es generalizing s with
  | nil => exact keeps_pure nofun
  | cons e es ih => exact keeps_bind (h (.expr e) s) fun v _ _ _ => keeps_bind ih fun vs _ _ _ => keeps_pure fun _ _ => trivial

theorem keeps_apply (h : Runner.Keeps p rec) (f : FunctionData) (outer : Nat) (args : List Value) (names : List Text) (line : Nat) :
    Exec.Keeps p (apply rec f outer args names line) s := by
  refine keeps_get_bind fun m _ _ _ => ?_
  split
  · exact keeps_throw_bind _ _
  have bound : Exec.Keeps p (atLine line (Exec.ofExcept (bindArguments f args names))) s :=
    keeps_of_local (fun s => safe_atLine line (safe_ofExcept fun _ _ _ _ _ _ => trivial))
      fun _ => local_atLine line (local_ofExcept _)
  refine keeps_bind bound fun bound t _ _ => keeps_within (keeps_recorded _ _ _ ?_) (fun _ => ⟨rfl, rfl⟩) fun _ => ⟨rfl, rfl⟩
  refine keeps_get_bind fun m _ _ _ => keeps_bind (keeps_lift (StoreM.safe_pushFrom _ _)) fun scope u _ _ => keeps_popping scope ?_
  exact @FullCongruence.called _ rec rec (keeps_constructs p) (fun s => h (.stmt s)) (fun e => h (.expr e)) f line _ u

/-- A call by name. -/
theorem keeps_functionCall (h : Runner.Keeps p rec) (line : Nat) (name : Text) (args : List Expr) (names : List Text) :
    Exec.Keeps p (functionCall rec line name args names) s := by
  refine keeps_get_bind fun m _ _ _ => ?_
  cases m.store.lookup? m.scope name with
  | none => exact keeps_throw _
  | some found =>
    obtain ⟨a, b⟩ := found
    dsimp only
    cases b.value with
    | function a => exact keeps_bind (keeps_evaluateAll h args) fun vs _ _ _ => keeps_apply h _ _ vs names line
    | _ => exact keeps_throw _

/-! ## Calls of builtins -/

/-- A careful plugin keeps memory whole. -/
theorem keeps_callPlugin {f : Plugin} (careful : f.Careful) (args : List Value) : Exec.Keeps p (Builtin.callPlugin f args) s := by
  refine keeps_bind (keeps_lift (StoreM.safe_prepare f.signature args)) fun vs t _ _ => keeps_get_bind fun m here _ _ => ?_
  subst here
  have stored : Exec.Keeps p (modify fun m' => { m' with store := (f.run vs m.store).2 } : Exec PUnit) m.store := by
    intro k here whole plugins
    obtain ⟨course, whole'⟩ := careful vs m.store whole
    exact ⟨course, whole', plugins, trivial⟩
  refine keeps_bind stored fun _ u _ _ => ?_
  cases (f.run vs m.store).1 with
  | ok v => exact keeps_pure trivial
  | error e => exact keeps_throw _

/-- A call of a builtin or plugin by name. -/
theorem keeps_call (careful : p.Careful) {sleep : Nat → Exec Unit} (hs : ∀ span s, Exec.Keeps p (sleep span) s) (name : Text)
    (args : List Value) : Exec.Keeps p (Builtin.call sleep name args) s := by
  unfold Builtin.call
  dsimp only
  split
  · refine guards_host_bind fun m plugins => ?_
    cases found : m.host.plugins.find? name.lower with
    | none => exact keeps_throw _
    | some f => exact keeps_callPlugin (careful f (plugins ▸ List.mem_of_find?_eq_some found)) args
  · cases Builtin.find? name.lower with
    | none => exact keeps_throw _
    | some b =>
      refine keeps_bind (keeps_lift (StoreM.safe_prepare _ _)) fun vs t _ _ => ?_
      exact @Congruence.builtinRun _ (keeps_constructs p).toCongruence sleep sleep hs b ⟨vs⟩
        (fun awake _ => keeps_of_local (Builtin.safe_run awake sleep _) (Builtin.local_run awake sleep _)) t

/-- The entries of an object are put together of data in memory. -/
theorem keeps_objectEntries (h : Runner.Keeps p rec) (ps : List (Text × Expr)) {done : List (Text × Node)} (there : Valid s done) :
    Exec.Keeps p (objectEntries rec ps done) s := by
  induction ps generalizing s done with
  | nil => exact keeps_pure there
  | cons entry ps ih =>
    refine keeps_bind (h (.expr entry.2) s) fun v t grew _ => keeps_bind (keeps_lift (StoreM.safe_toNode v)) fun n u more hn => ?_
    exact ih (valid_insert (Addressed.valid_grew (grew.trans more) there) hn entry.1)

/-- An object is made of data in memory. -/
theorem keeps_object (h : Runner.Keeps p rec) {mark : Mark} (ps : List (Text × Expr)) :
    Exec.Keeps p (expression rec (.object mark ps)) s := by
  refine keeps_bind (keeps_objectEntries h ps fun _ he => absurd he List.not_mem_nil) fun entries _ _ there => ?_
  refine keeps_bind (keeps_lift (StoreM.safe_newObject there)) fun o _ _ ho => ?_
  exact keeps_bind (keeps_lift (StoreM.safe_normalize ho)) fun n _ _ hn => keeps_lift (StoreM.safe_newBox hn)

/-! ## Source texts -/

/-- The statements of a source text keep memory whole. -/
theorem keeps_program (h : Runner.Keeps p rec) (prog : Program) : Exec.Keeps p (program rec prog) s :=
  @FullCongruence.program _ rec rec (keeps_constructs p) (fun s => h (.stmt s))
    (fun name params result body _ => keeps_defineFunction name params result body) prog s

/-- An import keeps memory whole. -/
theorem keeps_importFile (h : Runner.Keeps p rec) (line : Nat) (name : Text) : Exec.Keeps p (importFile rec line name) s := by
  intro m here whole plugins
  rw [importFile_eq]
  by_cases fresh : m.importKey name ∈ m.imported
  · rw [if_pos fresh]
    exact keeps_pure (p := p) trivial m here whole plugins
  rw [if_neg fresh]
  cases m.importProgram line name with
  | error f => exact keeps_throw (p := p) (α := Unit) f m here whole plugins
  | ok prog =>
    have ran : Exec.Keeps p (inScope m.scope.detach (program rec prog) >>= fun _ => pure ()) s :=
      keeps_bind (keeps_inScope _ (keeps_program h prog)) fun _ _ _ _ => keeps_pure trivial
    exact ran (m.marked name) here whole ((plugins_log m.host _).trans plugins)

/-! ## Callbacks of timers -/

theorem safe_defineAll (vars : List (Text × Value)) (s : Store) : Exec.Safe (defineAll vars) s := by
  refine safe_get_bind fun m here whole => ?_
  extract_lets scope
  refine safe_bind ?_ fun _ _ _ _ => safe_pure trivial
  clear_value scope
  clear here whole
  induction vars generalizing s with
  | nil => exact safe_pure trivial
  | cons v vars ih =>
    rw [List.forIn_cons, bind_assoc]
    refine safe_bind (safe_onStore (StoreM.safe_define scope v.1 v.2)) fun _ t _ _ => ?_
    rw [pure_bind]
    exact ih t

theorem keeps_resolveCallback (v : Value) : Exec.Keeps p (resolveCallback v) s := by
  intro m here whole plugins
  rcases resolveCallback_ends v m with ⟨a, found⟩ | ⟨f, missing⟩
  · rw [found]
    exact keeps_pure (p := p) trivial m here whole plugins
  · rw [missing]
    exact keeps_throw (p := p) (α := FunctionData) f m here whole plugins

theorem keeps_callbackOf (h : Runner.Keeps p rec) (t : Timer.Tick) : Exec.Keeps p (callbackOf rec t) s := by
  refine keeps_get_bind fun m _ _ _ => keeps_inScope _ ?_
  refine keeps_bind (keeps_resolveCallback t.callback) fun f _ _ _ => keeps_get_bind fun _ _ _ _ => ?_
  refine keeps_bind (keeps_lift (StoreM.safe_pushFrom _ _)) fun scope _ _ _ => keeps_popping scope ?_
  refine keeps_bind (keeps_of_local (safe_defineAll _) fun _ => local_defineAll _) fun _ _ _ _ => ?_
  exact keeps_bind (keeps_apply h f _ _ _ _) fun _ _ _ _ => keeps_pure trivial

/-- A tick keeps memory whole: the faults of its callback are logged. -/
theorem keeps_runTick (h : Runner.Keeps p rec) (t : Timer.Tick) : Exec.Keeps p (runTick rec t) s :=
  keeps_tryCatch (keeps_callbackOf h t) fun _ _ _ => keeps_get_bind fun _ _ _ _ =>
    keeps_of_local (fun _ => safe_log _ _ _) fun _ => local_log _ _ _

/-! ## Runs -/

/-- One level of running a part keeps memory whole when the levels below do. -/
theorem keeps_step (careful : p.Careful) (h : Runner.Keeps p rec) (fuel : Nat) (t : Task) : Exec.Keeps p (step fuel rec t) s := by
  have along := keeps_constructs p
  have parts (e : Expr) (s : Store) : Exec.Keeps p (evaluate rec e) s := h (.expr e) s
  cases t with
  | expr e =>
    have builtins (mark : Mark) (name : Text) (result : Text) (vs : List Value) (s : Store) :
        Exec.Keeps p (builtinCall rec mark.line name vs result) s :=
      @Congruence.builtinCall _ rec rec along.toCongruence mark.line name vs result
        (@FullCongruence.reports _ along _ (Builtin.call (fun span => rec (.sleep span)) name vs)
          (fun _ => keeps_call careful (fun span => h (.sleep span)) name vs) name mark.line) s
    exact @Congruence.expression _ rec rec along.toCongruence parts e (fun _ ps _ => keeps_object h ps)
      (fun mark name _ _ result _ => builtins mark name result) (fun line name args names _ => keeps_functionCall h line name args names) s
  | stmt stmt =>
    exact @FullCongruence.statement _ rec rec along (fun s => h (.stmt s)) parts
      (fun name params result body _ => keeps_defineFunction name params result body)
      (fun line name _ => keeps_importFile h line name) fuel stmt s
  | sleep span => exact guards_host_bind fun _ _ => @FullCongruence.waitUntil _ rec rec along (fun t _ => keeps_runTick h t) fuel _ s

end Constructs

/-- Every run keeps memory whole. -/
theorem keeps_run {p : Plugins} (careful : p.Careful) (fuel : Nat) : Runner.Keeps p (run fuel) := by
  induction fuel with
  | zero => exact fun _ _ _ _ _ _ => trivial
  | succ fuel ih => exact fun t _ => keeps_step careful ih fuel t

/-- What a machine is made to do from outside keeps memory whole. -/
theorem keeps_activity {p : Plugins} {rec : Runner} (h : Runner.Keeps p rec) (a : Activity) : Exec.Keeps p (a.run rec) s := by
  cases a with
  | script prog => exact keeps_bind (keeps_program h prog) fun _ _ _ _ => keeps_pure trivial
  | callback t => exact keeps_runTick h t

end Eval

/-! ## The points of a run -/

/-- Memory of a machine comes about along a course, and is whole. The plugins are the same. -/
structure Machine.Onward (m k : Machine) : Prop where
  course : m.store.Course k.store
  whole : k.store.Whole
  plugins : k.host.plugins = m.host.plugins

theorem Machine.Onward.trans {m l k : Machine} (h : m.Onward l) (h' : l.Onward k) : m.Onward k :=
  ⟨h.course.trans h'.course, h'.whole, h'.plugins.trans h.plugins⟩

/-- Where a computation ends that keeps memory whole. -/
theorem Outcome.Guarded.onward [Addressed α] {m k : Machine} {r : Outcome α}
    (h : r.Guarded (fun k => k.host.plugins = m.host.plugins) m.store) (ends : r.EndsAt k) : m.Onward k := by
  cases r with
  | done a l =>
    obtain rfl : l = k := ends
    exact ⟨h.1, h.2.1, h.2.2.1⟩
  | failed f l =>
    obtain rfl : l = k := ends
    exact ⟨h.1, h.2.1, h.2.2⟩
  | crashed why l =>
    obtain rfl : l = k := ends
    exact ⟨h.1, h.2.1, h.2.2⟩
  | outOfFuel => exact ends.elim

namespace Eval

open Exec

variable {m k : Machine} {u : Task} {n j : Nat}

/-- A crash in the place of a part leaves memory as it is, so it keeps it whole. -/
theorem keeps_crashingAt {p : Plugins} {rec : Runner} (h : Runner.Keeps p rec) (u : Task) (k : Machine) (why : Text) :
    Runner.Keeps p (rec.crashingAt u k why) := by
  intro t s m here whole plugins
  by_cases same : t = u ∧ m = k
  · obtain ⟨rfl, rfl⟩ := same
    subst here
    rw [crashingAt_self]
    exact ⟨.refl, whole, plugins⟩
  · rw [crashingAt_other _ _ same]
    exact h t s m here whole plugins

/-- A computation that keeps memory whole when all parts that it runs do. -/
def Keeping (F : Runner → Exec α) : Prop :=
  ∀ p rec s, p.Careful → Runner.Keeps p rec → Exec.Keeps p (F rec) s

theorem keeping_step (fuel : Nat) (t : Task) : Keeping fun rec => step fuel rec t := fun _ _ _ careful h => keeps_step careful h fuel t

theorem keeping_activity (a : Activity) : Keeping fun rec => a.run rec := fun _ _ _ _ h => keeps_activity h a

/-- Where a computation asks for a part, memory is whole, and there was a course to it. -/
theorem asked_onward {F : Runner → Exec α} {rec : Runner} (careful : m.host.plugins.Careful) (hF : Keeping F)
    (hrec : Runner.Keeps m.host.plugins rec) (whole : m.store.Whole) (asked : Asks F rec m u k) : m.Onward k := by
  have ends := hF _ _ _ careful (keeps_crashingAt hrec u k "") m rfl whole rfl
  exact ends.onward (show (F _ m).EndsAt k by rw [asked ""]; rfl)

/-- So it is at every part that a run performs. -/
theorem performed_onward {around : Task → Prop} {t : Task} (careful : m.host.plugins.Careful) (whole : m.store.Whole)
    (performed : Performs around n t m j u k) : m.Onward k := by
  induction performed with
  | here n t m => exact ⟨.refl, whole, rfl⟩
  | @inside n j t u v m k l outer asked rest ih =>
    have first : m.Onward k := asked_onward careful (keeping_step n t) (keeps_run careful n) whole asked
    exact first.trans (ih (first.plugins ▸ careful) first.whole)

end Eval

/-! ## What a host does -/

namespace Machine

variable {start m k : Machine}

/-- What a machine is made to do keeps memory whole. -/
theorem activity_onward (careful : m.host.plugins.Careful) (whole : m.store.Whole) {fuel : Nat} {a : Eval.Activity}
    (ends : (a.run (Eval.run fuel) m).EndsAt k) : m.Onward k :=
  (Eval.keeps_activity (Eval.keeps_run careful fuel) a m rfl whole rfl).onward ends

/-- What a machine goes through keeps memory whole, and memory comes about along a course. -/
theorem Lives.onward (h : start.Lives m) (careful : start.host.plugins.Careful) (whole : start.store.Whole) : start.Onward m := by
  -- the plugins are those from the start, so they are careful wherever a run begins
  have careful_at {l : Machine} (h : start.Onward l) : l.host.plugins.Careful := h.plugins ▸ careful
  have inside {l l' k : Machine} {fuel j : Nat} {a : Eval.Activity} {t u : Eval.Task} (h : start.Onward l)
      (asked : Eval.Asks (fun rec => a.run rec) (Eval.run fuel) l t l')
      (performed : Eval.Performs (fun _ => True) fuel t l' j u k) : start.Onward k := by
    have first := h.trans (Eval.asked_onward (careful_at h) (Eval.keeping_activity a) (Eval.keeps_run (careful_at h) fuel) h.whole asked)
    exact first.trans (Eval.performed_onward (careful_at first) first.whole performed)
  induction h with
  | start => exact ⟨.refl, whole, rfl⟩
  | hosted _ host plugins owners ih => exact ⟨ih.course, ih.whole, plugins.trans ih.plugins⟩
  | activity _ fuel a ends ih => exact ih.trans (activity_onward (careful_at ih) ih.whole ends)
  | beginning _ fuel a asked performed ih => exact inside ih asked performed
  | @ending _ _ k _ _ fuel a _ u j asked performed ends ih =>
    have begun := inside ih asked performed
    exact begun.trans ((Eval.keeps_run (careful_at begun) j u k.store k rfl begun.whole rfl).onward ends)

end Machine

end ScriptEngine
