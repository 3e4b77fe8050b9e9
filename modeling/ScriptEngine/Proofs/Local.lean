import ScriptEngine.Builtin.Dispatch
import ScriptEngine.Proofs.CodeMemory
/-!
# What builtins leave alone

A builtin changes data in memory and the world around. It changes no function, opens and closes no scope, calls
no script function, and neither adds nor takes away a plugin. What is in frames counts as data. A call by name comes to the
builtin of that name, run on the arguments that were prepared for it.
-/

namespace ScriptEngine

/-- Two machines that differ in data and the world around only. -/
structure Machine.Beside (m m' : Machine) : Prop where
  scope : m'.scope = m.scope
  calls : m'.calls = m.calls
  depth : m'.depth = m.depth
  maxDepth : m'.maxDepth = m.maxDepth
  imported : m'.imported = m.imported
  owners : m'.owners = m.owners
  importDir : m'.importDir = m.importDir
  lexical : m'.store.lexical = m.store.lexical
  plugins : m'.host.plugins = m.host.plugins

/-- Every machine is beside itself. -/
theorem Machine.Beside.refl (m : Machine) : m.Beside m := ⟨rfl, rfl, rfl, rfl, rfl, rfl, rfl, rfl, rfl⟩

/-- Machines beside each other have the same functions. -/
theorem Machine.Beside.functions {m m' : Machine} (h : m.Beside m') : m'.store.functions = m.store.functions :=
  congrArg Prod.fst h.lexical

/-- A machine beside one beside another is beside the other. -/
theorem Machine.Beside.trans {m₁ m₂ m₃ : Machine} (h : m₁.Beside m₂) (k : m₂.Beside m₃) : m₁.Beside m₃ where
  scope := k.scope.trans h.scope
  calls := k.calls.trans h.calls
  depth := k.depth.trans h.depth
  maxDepth := k.maxDepth.trans h.maxDepth
  imported := k.imported.trans h.imported
  owners := k.owners.trans h.owners
  importDir := k.importDir.trans h.importDir
  lexical := k.lexical.trans h.lexical
  plugins := k.plugins.trans h.plugins

/-- Something holds of the machine that a computation ends in. -/
def Outcome.Ends {α : Type} (P : Machine → Prop) : Outcome α → Prop
  | .done _ m | .failed _ m | .crashed _ m => P m
  | .outOfFuel => True

/-- What ends beside a machine that is beside another ends beside the other. -/
theorem Outcome.Ends.after {α : Type} {r : Outcome α} {m m' : Machine} (h : r.Ends m'.Beside)
    (k : m.Beside m') : r.Ends m.Beside := by
  cases r with
  | outOfFuel => trivial
  | _ => exact k.trans h

/-- Whether a computation ended with a result. -/
def Outcome.isDone {α : Type} : Outcome α → Bool
  | .done .. => true
  | _ => false

theorem Outcome.isDone_iff {α : Type} {r : Outcome α} : r.isDone = true ↔ ∃ a m, r = .done a m := by
  cases r <;> simp [isDone]

/-- The result of a computation that ended with one. -/
def Outcome.result? {α : Type} : Outcome α → Option α
  | .done a _ => some a
  | _ => none

theorem Outcome.done_of_result? {α : Type} {r : Outcome α} {a : α} (h : r.result? = some a) : ∃ m, r = .done a m := by
  cases r with
  | done b m => cases h; exact ⟨m, rfl⟩
  | _ => cases h

namespace Exec

variable {α β : Type} {p : Plugins}

/-- Computations one after the other can be grouped at will. -/
instance : LawfulMonad Exec :=
  LawfulMonad.mk' _
    (fun x => funext fun m => by
      show andThen x result m = x m
      unfold andThen
      cases x m <;> rfl)
    (fun _ _ => rfl)
    (fun x f g => funext fun m => by
      show andThen (andThen x f) g m = andThen x (fun a => andThen (f a) g) m
      simp only [andThen]
      cases x m <;> rfl)

/-- What is done first is gone on with. -/
theorem bind_of_done {x : Exec α} {f : α → Exec β} {a : α} {m m' : Machine} (run : x m = .done a m') : (x >>= f) m = f a m' := by
  change andThen x f m = _
  rw [andThen, run]

/-- A computation on memory that gives a result. -/
theorem lift_ok {x : StoreM α} {a : α} {m : Machine} {s : Store} (run : x.run.run m.store = (.ok a, s)) :
    (liftM x : Exec α) m = .done a { m with store := s } := by
  change onStore x m = _
  unfold onStore
  dsimp only
  rw [show x m.store = (.ok a, s) from run]

/-- A computation on memory that ends in a fault. -/
theorem lift_error {x : StoreM α} {f : Fault} {m : Machine} {s : Store} (run : x.run.run m.store = (.error f, s)) :
    (liftM x : Exec α) m = .failed f { m with store := s } := by
  change onStore x m = _
  unfold onStore
  dsimp only
  rw [show x m.store = (.error f, s) from run]

/-- What ends in a fault is not gone on with. -/
theorem bind_of_failed {x : Exec α} {f : α → Exec β} {e : Fault} {m m' : Machine} (run : x m = .failed e m') :
    (x >>= f) m = .failed e m' := by
  change andThen x f m = _
  rw [andThen, run]

theorem run_get_bind (f : Machine → Exec β) {m : Machine} : (get >>= f) m = f m m := rfl

/-- A computation ends in a machine beside the one it began in, when that has the given plugins. The plugins are
fixed so that a computation may put a world back that it looked at before. -/
def Local (p : Plugins) (x : Exec α) : Prop := ∀ m, m.host.plugins = p → (x m).Ends m.Beside

/-! ## Putting local computations together -/

@[grind ←]
theorem local_pure (a : α) : Local p (pure a) := fun m _ => .refl m

@[grind ←]
theorem local_throw (f : Fault) : Local p (throw f : Exec α) := fun m _ => .refl m

@[grind ←]
theorem local_crash (why : Text) : Local p (crash why : Exec α) := fun m _ => .refl m

@[grind ←]
theorem local_get : Local p (get : Exec Machine) := fun m _ => .refl m

@[grind ←]
theorem local_host : Local p host := fun m _ => .refl m

@[grind ←]
theorem local_store : Local p store := fun m _ => .refl m

/-- Two local computations are local one after the other. -/
@[grind ←]
theorem local_bind {x : Exec α} {f : α → Exec β} (hx : Local p x) (hf : ∀ a, Local p (f a)) :
    Local p (x >>= f) := by
  intro m hm
  have first := hx m hm
  show (andThen x f m).Ends m.Beside
  unfold andThen
  cases hr : x m with
  | done a m' =>
    rw [hr] at first
    exact (hf a m' (first.plugins.trans hm)).after first
  | outOfFuel => trivial
  | _ => rw [hr] at first; exact first

@[grind ←]
theorem local_map (f : α → β) {x : Exec α} (hx : Local p x) : Local p (f <$> x) := by
  rw [map_eq_pure_bind]
  exact local_bind hx fun a => local_pure (f a)

/-- A computation that begins with a look at the world around is local when it is for every world with the
plugins. -/
theorem local_host_bind {f : Host → Exec β} (hf : ∀ h, h.plugins = p → Local p (f h)) :
    Local p (host >>= f) := fun m hm => hf m.host hm m hm

/-- A local computation is local with a local handler. -/
@[grind ←]
theorem local_tryCatch {x : Exec α} {f : Fault → Exec α} (hx : Local p x) (hf : ∀ e, Local p (f e)) :
    Local p (tryCatch x f) := by
  intro m hm
  have first := hx m hm
  show (rescue x f m).Ends m.Beside
  unfold rescue
  cases hr : x m with
  | failed e m' =>
    rw [hr] at first
    exact (hf e m' (first.plugins.trans hm)).after first
  | outOfFuel => trivial
  | _ => rw [hr] at first; exact first

/-- A local computation is local with the line of its fault set. -/
@[grind ←]
theorem local_atLine {x : Exec α} (line : Nat) (hx : Local p x) : Local p (atLine line x) := by
  intro m hm
  have first := hx m hm
  unfold atLine
  cases hr : x m with
  | outOfFuel => trivial
  | _ => rw [hr] at first; exact first

/-- A computation on memory that leaves functions alone, and how frames lie in each other, is local. -/
@[grind ←]
theorem local_onStore {x : StoreM α} (hx : StoreM.Leaves Store.lexical x) : Local p (onStore x) := by
  intro m _
  have kept := hx m.store
  unfold onStore
  obtain ⟨r, s, hr⟩ : ∃ r s, x m.store = (r, s) := ⟨_, _, rfl⟩
  have kept : s.lexical = m.store.lexical := by
    have same : (x.run.run m.store).2 = s := congrArg Prod.snd hr
    rw [← kept, same]
  dsimp only
  rw [hr]
  cases r <;> exact ⟨rfl, rfl, rfl, rfl, rfl, rfl, rfl, kept, rfl⟩

/-- Such a computation on memory is local where it stands among others. -/
@[grind ←]
theorem local_lift {x : StoreM α} (hx : StoreM.Leaves Store.lexical x) :
    Local p (liftM x : Exec α) := local_onStore hx

/-- A change of the world around that keeps the plugins is local. -/
@[grind ←]
theorem local_onHost {f : Host → Host} (hf : ∀ h, h.plugins = p → (f h).plugins = p) :
    Local p (onHost f) :=
  fun m hm => ⟨rfl, rfl, rfl, rfl, rfl, rfl, rfl, rfl, (hf m.host hm).trans hm.symm⟩

@[grind ←]
theorem local_look (f : Store → α) : Local p (liftM (StoreM.look f)) := fun m _ => .refl m

@[grind ←]
theorem local_kindOf (v : Value) : Local p (kindOf v) := fun m _ => .refl m

@[grind ←]
theorem local_inspect (v : Value) : Local p (inspect v) := fun m _ => .refl m

@[grind ←]
theorem local_ofExcept (r : Except Fault α) : Local p (ofExcept r) := by
  cases r <;> exact fun m _ => .refl m

/-- Taking a random number changes nothing but the source of random numbers. -/
theorem random_seed (h : Host) : ∃ seed, h.random.2 = { h with seed := seed } := ⟨_, rfl⟩

@[grind ←]
theorem local_random : Local p random := by
  intro m _
  obtain ⟨seed, moved⟩ := random_seed m.host
  unfold random
  generalize m.host.random = r at moved
  obtain ⟨n, h⟩ := r
  subst moved
  exact ⟨rfl, rfl, rfl, rfl, rfl, rfl, rfl, rfl, rfl⟩

@[grind ←]
theorem local_checkInterrupt : Local p checkInterrupt := by
  intro m _
  unfold checkInterrupt
  split <;> exact .refl m

/-- Writing to the log keeps the plugins. -/
theorem plugins_log (h : Host) (r : Log.Record) : (h.log r).plugins = h.plugins := by
  unfold Host.log
  dsimp only
  split <;> rfl

/-- Writing what timers did to the log keeps the plugins. -/
theorem plugins_logTimers (h : Host) : h.logTimers.plugins = h.plugins := by
  have all : ∀ (events : List Log.Record) (g : Host), (events.foldl Host.log g).plugins = g.plugins := by
    intro events
    induction events with
    | nil => exact fun _ => rfl
    | cons e events ih => exact fun g => (ih (g.log e)).trans (plugins_log g e)
  exact all _ _

@[grind ←]
theorem local_log (level : Log.Level) (message : Text) (attrs : List Log.Attr) :
    Local p (log level message attrs) := local_onHost fun h hp => (plugins_log h _).trans hp

@[grind ←]
theorem local_onTimers (f : Scheduler → α × Scheduler) : Local p (onTimers f) :=
  fun _ _ => ⟨rfl, rfl, rfl, rfl, rfl, rfl, rfl, rfl, plugins_logTimers _⟩

/-- One computation for every item of a list is local when each of them is. -/
@[grind ←]
theorem local_mapM {f : α → Exec β} (hf : ∀ a, Local p (f a)) (l : List α) : Local p (l.mapM f) := by
  induction l with
  | nil => exact local_pure _
  | cons a l ih =>
    rw [List.mapM_cons]
    exact local_bind (hf a) fun _ => local_bind ih fun _ => local_pure _

@[grind ←]
theorem local_forM {f : α → Exec PUnit} (hf : ∀ a, Local p (f a)) (l : List α) : Local p (l.forM f) := by
  induction l with
  | nil => exact local_pure _
  | cons a l ih => exact local_bind (hf a) fun _ => ih

@[grind ←]
theorem local_anyM {f : α → Exec Bool} (hf : ∀ a, Local p (f a)) (l : List α) : Local p (l.anyM f) := by
  induction l with
  | nil => exact local_pure _
  | cons a l ih =>
    rw [List.anyM]
    exact local_bind (hf a) fun b => by cases b <;> grind

end Exec

/-! ## Arguments -/

namespace Args

open Exec

variable {p : Plugins}

@[grind ←]
theorem local_textOr (a : Args) (i : Nat) (fallback : Text) : Local p (a.textOr i fallback) := by
  unfold textOr
  split <;> grind

@[grind ←]
theorem local_text (a : Args) (i : Nat) : Local p (a.text i) := local_textOr a i _

@[grind ←]
theorem local_node (a : Args) (i : Nat) : Local p (a.node i) := by
  unfold node
  split <;> grind

@[grind ←]
theorem local_array (a : Args) (i : Nat) : Local p (a.array i) := by
  unfold array
  split <;> grind

@[grind ←]
theorem local_date (a : Args) (i : Nat) : Local p (a.date i) := by
  unfold date
  split <;> grind

end Args

/-! ## Families of builtins -/

section Builtins

open Exec

variable {p : Plugins}

@[grind ←]
theorem Exec.local_tree (n : Node) : Local p (Exec.tree n) := by
  unfold Exec.tree
  grind

@[grind ←]
theorem Exec.local_arrayAt (a : Nat) : Local p (Exec.arrayAt a) := by
  unfold Exec.arrayAt
  grind

@[grind ←]
theorem ThreadOp.local_newJson (j : Json) : Local p (ThreadOp.newJson j) := by
  unfold ThreadOp.newJson
  grind

namespace JsonOp

@[grind ←]
theorem local_target (args : Args) (i : Nat) : Local p (target args i) := by
  unfold target
  split <;> grind

@[grind ←]
theorem local_found (args : Args) : Local p (found args) := by
  unfold found
  grind

@[grind ←]
theorem local_typed (kind : Kind) (args : Args) : Local p (typed kind args) := by
  unfold typed
  grind

@[grind ←]
theorem local_addItem (box : Nat) (v : Value) : Local p (addItem box v) := by
  unfold addItem
  grind

/-- Builtins on json values are local. -/
@[grind ←]
theorem local_run (op : JsonOp) (args : Args) : Local p (op.run args) := by
  unfold run
  cases op <;> grind

end JsonOp

namespace ArrayOp

@[grind ←]
theorem local_fillWith (a n : Nat) (v : Value) : Local p (fillWith a n v) := by
  unfold fillWith
  grind

@[grind ←]
theorem local_sortIn (a : Nat) (ascending : Bool) : Local p (sortIn a ascending) := by
  unfold sortIn
  grind

/-- Builtins on arrays are local. -/
@[grind ←]
theorem local_run (op : ArrayOp) (args : Args) : Local p (op.run args) := by
  unfold run
  cases op <;> grind

end ArrayOp

/-- Builtins on queues are local. -/
@[grind ←]
theorem QueueOp.local_run (op : QueueOp) (args : Args) : Local p (op.run args) := by
  unfold run target
  cases op <;> grind

/-- Builtins on dates are local. -/
@[grind ←]
theorem DateOp.local_run (op : DateOp) (args : Args) : Local p (op.run args) := by
  unfold run
  cases op <;> grind

namespace MathOp

@[grind ←]
theorem local_least (a b : Value) (wantLess : Bool) : Local p (least a b wantLess) := by
  unfold least
  grind

@[grind ←]
theorem local_randomUnit : Local p randomUnit := by
  unfold randomUnit
  grind

@[grind ←]
theorem local_randomBetween (lo hi : Int) : Local p (randomBetween lo hi) := by
  unfold randomBetween
  grind

/-- Builtins on numbers are local, also when one crashes. -/
@[grind ←]
theorem local_run (op : MathOp) (args : Args) : Local p (op.run args) := by
  unfold run
  cases op <;> grind

end MathOp

/-- Looking at the running script is local. -/
@[grind ←]
theorem DebugOp.local_run (op : DebugOp) (args : Args) : Local p (op.run args) := by
  unfold run visibleVariables
  cases op <;> grind

namespace CryptoOp

@[grind ←]
theorem local_randomBytes (n : Nat) : Local p (randomBytes n) := by
  induction n with
  | zero => exact local_pure _
  | succ n ih => exact local_bind local_random fun _ => local_bind ih fun _ => local_pure _

@[grind ←]
theorem local_hashOf (password : Text) : Local p (hashOf password) := by
  unfold hashOf
  grind

@[grind ←]
theorem local_signed (args : Args) : Local p (signed args) := by
  unfold signed
  refine local_bind (Args.local_node args 0) fun n => local_bind (local_tree n) fun j => ?_
  split
  · refine local_bind (Args.local_text args 1) fun secret => ?_
    refine local_bind (Args.local_text args 2) fun span => local_bind local_host fun h => ?_
    grind
  · exact local_throw _

/-- Builtins on digests, passwords and tokens are local. -/
@[grind ←]
theorem local_run (op : CryptoOp) (args : Args) : Local p (op.run args) := by
  unfold run
  cases op with
  | jwtVerify =>
    refine local_bind (Args.local_text args 0) fun token => local_bind (Args.local_text args 1) fun secret => ?_
    grind
  | _ => grind

end CryptoOp

/-- Sending mail is local. -/
@[grind ←]
theorem MailOp.local_run (op : MailOp) (args : Args) : Local p (op.run args) := by
  unfold run
  cases op
  grind

/-- Builtins on connections are local. -/
@[grind ←]
theorem SocketOp.local_run (op : SocketOp) (args : Args) : Local p (op.run args) := by
  unfold run connectTo
  refine local_bind (Args.local_text args 0) fun name => ?_
  cases op <;> grind +splitImp

namespace FileOp

@[grind ←]
theorem local_openFile (handle : Text) : Local p (Exec.openFile handle) := by
  unfold Exec.openFile
  grind +splitImp

@[grind ←]
theorem local_updateFile (handle : Text) (r : FileTree × OpenFile) : Local p (Exec.updateFile handle r) :=
  local_onHost fun _ hp => hp

@[grind ←]
theorem local_openIn (path modeName : Text) : Local p (openIn path modeName) := by
  unfold openIn
  grind +splitImp

@[grind ←]
theorem local_readLineOf (handle : Text) : Local p (readLineOf handle) := by
  unfold readLineOf
  grind +splitImp

@[grind ←]
theorem local_atEndOf (handle : Text) : Local p (atEndOf handle) := by
  unfold atEndOf
  grind +splitImp

@[grind ←]
theorem local_sizeOf (name : Text) : Local p (sizeOf name) := by
  unfold sizeOf
  refine local_bind local_host fun h => ?_
  extract_lets report
  have local_report : ∀ path, Local p (report path) := fun path => by
    unfold report
    grind
  clear_value report
  grind

@[grind ←]
theorem local_change (op path step : Text) (f : FileTree → Except FileTree.Trouble FileTree) :
    Local p (change op path step f) := by
  unfold change
  grind +splitImp

/-- Builtins on files are local. -/
@[grind ←]
theorem local_run (op : FileOp) (args : Args) : Local p (op.run args) := by
  unfold run
  cases op with
  | listFiles =>
    refine local_bind (Args.local_textOr args 0 ".") fun dir => local_bind local_host fun h => ?_
    split
    · refine local_onStore (StoreM.Leaves.lexical ?_)
      grind
    · exact local_throw _
  | _ => grind +splitImp

end FileOp

namespace HttpOp

@[grind ←]
theorem local_fetch (method url body : Text) (contentType : Option Text) (headers : Value) :
    Local p (fetch method url body contentType headers) := by
  unfold fetch
  split
  · exact local_throw _
  extract_lets a contents failure request
  have local_request : ∀ given, Local p (request given) := fun given => by
    refine local_host_bind fun h hp => ?_
    exact local_bind (local_onHost fun _ _ => hp) fun _ => by grind
  clear_value request
  grind

/-- Requests to web servers are local. -/
@[grind ←]
theorem local_run (op : HttpOp) (args : Args) : Local p (op.run args) := by
  unfold run
  refine local_bind (Args.local_text args 0) fun url => ?_
  cases op <;> grind

end HttpOp

namespace ImageOp

@[grind ←]
theorem local_target (args : Args) : Local p (target args) := by
  unfold target
  grind

@[grind ←]
theorem local_sizeOf (args : Args) (i : Nat) : Local p (sizeOf args i) := by
  unfold sizeOf
  grind

@[grind ←]
theorem local_newImage (q : Picture) : Local p (newImage q) := by
  unfold newImage
  grind

/-- Builtins on pictures are local. -/
@[grind ←]
theorem local_run (op : ImageOp) (args : Args) : Local p (op.run args) := by
  unfold run
  cases op <;> grind

end ImageOp

/-- Setting a variable of the environment keeps the plugins. -/
theorem plugins_setVariable {h g : Host} {name value : Text} (changed : h.setVariable name value = some g) :
    g.plugins = h.plugins := by
  unfold Host.setVariable at changed
  split at changed
  · cases changed
  · cases changed
    rfl

/-- Loading the variables of a file keeps the plugins. -/
theorem plugins_loadVariables {h g : Host} {path : Text} (loaded : h.loadVariables path = .ok g) :
    g.plugins = h.plugins := by
  have all : ∀ (vars : List (Text × Text)) (k : Host), (vars.foldl (fun g v =>
      if (h.environment.lookup v.1).isSome then g else (g.setVariable v.1 v.2).getD g) k).plugins
        = k.plugins := by
    intro vars
    induction vars with
    | nil => exact fun _ => rfl
    | cons v vars ih =>
      intro k
      rw [List.foldl_cons, ih]
      split
      · rfl
      · cases changed : k.setVariable v.1 v.2 with
        | none => rfl
        | some g => exact plugins_setVariable changed
  unfold Host.loadVariables at loaded
  simp only [bind, Except.bind, pure, Except.pure, throw, throwThe, MonadExceptOf.throw] at loaded
  split at loaded
  · split at loaded
    · cases loaded
      exact all _ h
    · cases loaded
  · cases loaded

/-- Builtins on the environment and the clock are local. -/
@[grind ←]
theorem SystemOp.local_run (op : SystemOp) (args : Args) : Local p (op.run args) := by
  unfold run
  cases op with
  | setEnv =>
    refine local_bind (Args.local_text args 0) fun name => local_host_bind fun h hp => ?_
    refine local_bind (Args.local_text args 1) fun value => ?_
    split
    · rename_i g changed
      exact local_bind (local_onHost fun _ _ => (plugins_setVariable changed).trans hp) fun _ => local_pure _
    · exact local_throw _
  | loadEnv =>
    refine local_bind (Args.local_textOr args 0 ".env") fun path => local_host_bind fun h hp => ?_
    split
    · rename_i g changed
      refine local_bind (local_onHost fun _ _ => (plugins_loadVariables changed).trans hp) fun _ => ?_
      exact local_bind (local_log _ _ _) fun _ => local_pure _
    · exact local_throw _
    · exact local_throw _
  | _ => grind

namespace StrOp

@[grind ←]
theorem local_charset (name : Text) : Local p (charset name) := by
  unfold charset
  grind

@[grind ←]
theorem local_piece (t : Text) (start stop : Int) : Local p (piece t start stop) := by
  unfold piece
  grind

@[grind ←]
theorem local_filling (t : Text) (n : Int) (pad : Text) : Local p (filling t n pad) := by
  unfold filling
  grind

/-- Builtins on strings are local. -/
@[grind ←]
theorem local_run (op : StrOp) (args : Args) : Local p (op.run args) := by
  unfold run
  cases op <;> grind

end StrOp

namespace ThreadOp

@[grind ←]
theorem local_timerName (args : Args) : Local p (timerName args) := by
  unfold timerName
  grind

@[grind ←]
theorem local_startTimer (args : Args) : Local p (startTimer args) := by
  have checked : ∀ v, Local p (checkCallback v) := fun v => by
    unfold checkCallback
    grind
  refine local_bind (local_timerName args) fun name => local_bind (checked _) fun _ => ?_
  extract_lets period start
  have started : ∀ u, Local p (start u) := fun u => by
    refine local_bind local_host fun h => local_bind (Args.local_textOr args 3 _) fun owner => ?_
    refine local_bind (local_onTimers _) fun r => ?_
    grind
  clear_value start
  grind

@[grind ←]
theorem local_ask (args : Args) (f : Option Timer → Value) : Local p (ask args f) := by
  unfold ask
  grind

@[grind ←]
theorem local_act (args : Args) (f : Scheduler → Text → Bool × Scheduler) : Local p (act args f) := by
  unfold act
  grind

end ThreadOp

end Builtins

/-! ## Calls -/

namespace Builtin

/-- A builtin other than waiting is local. -/
theorem local_run {b : Builtin} (awake : b ≠ .thread .sleep) (sleep : Nat → Exec Unit) (args : Args) (p : Plugins) :
    Exec.Local p (b.run sleep args) := by
  cases b with
  | thread op =>
    cases op with
    | sleep => exact absurd rfl awake
    | _ =>
      unfold run ThreadOp.run
      grind
  | json op => exact JsonOp.local_run op args
  | array op => exact ArrayOp.local_run op args
  | queue op => exact QueueOp.local_run op args
  | date op => exact DateOp.local_run op args
  | math op => exact MathOp.local_run op args
  | debug op => exact DebugOp.local_run op args
  | crypto op => exact CryptoOp.local_run op args
  | mail op => exact MailOp.local_run op args
  | socket op => exact SocketOp.local_run op args
  | file op => exact FileOp.local_run op args
  | http op => exact HttpOp.local_run op args
  | image op => exact ImageOp.local_run op args
  | system op => exact SystemOp.local_run op args
  | str op => exact StrOp.local_run op args

theorem mem_all (b : Builtin) : b ∈ all := by
  cases b with
  | mail op => cases op; decide
  | _ op => simp [all]; cases op <;> decide

/-- The names of builtins are in lower case and not those of plugins, and as numbers they differ. -/
theorem names : (∀ b ∈ all, b.signature.name.lower = b.signature.name ∧ isPluginName b.signature.name = false) ∧
    (all.map fun b => b.signature.name.bytes.foldl (fun n c => n * 256 + c.toNat) 0).Nodup := by
  -- a literal is evaluated faster from its bytes than from its characters
  delta signature StrOp.signature JsonOp.signature ArrayOp.signature QueueOp.signature DateOp.signature MathOp.signature
    DebugOp.signature ThreadOp.signature CryptoOp.signature MailOp.signature SocketOp.signature FileOp.signature HttpOp.signature
    ImageOp.signature SystemOp.signature
  rw [Text.ofString_eq]
  decide +kernel

/-- Every builtin is found by its name, which is in lower case and not that of a plugin. -/
theorem named (b : Builtin) :
    b.signature.name.lower = b.signature.name ∧ isPluginName b.signature.name = false ∧ find? b.signature.name = some b := by
  obtain ⟨lower, inside⟩ := names.1 b (mem_all b)
  refine ⟨lower, inside, ?_⟩
  obtain ⟨before, after, split⟩ := List.append_of_mem (mem_all b)
  have distinct := names.2
  rw [split, List.map_append, List.nodup_append] at distinct
  rw [find?, table, split, List.map_append, List.map_cons, List.lookup_eq_some_iff]
  refine ⟨_, _, rfl, fun p mem => bne_iff_ne.mpr fun same => ?_⟩
  obtain ⟨a, among, rfl⟩ := List.mem_map.mp mem
  have name : a.signature.name = b.signature.name := same.symm
  exact distinct.2.2 _ (List.mem_map_of_mem among) _ List.mem_cons_self (by dsimp only; rw [name])

variable {given args : List Value} {m : Machine} {s : Store}

/-- A call prepares the arguments and runs the builtin. -/
theorem call_eq (sleep : Nat → Exec Unit) (b : Builtin) (given : List Value) :
    call sleep b.signature.name given = (liftM (b.signature.prepare given) >>= fun args => run sleep b ⟨args⟩ : Exec Value) := by
  obtain ⟨lower, inside, found⟩ := named b
  unfold call
  simp only [lower, inside, found, Bool.false_eq_true, if_false]

/-- A builtin is run on the arguments that were prepared. -/
theorem call_of_prepared (sleep : Nat → Exec Unit) (b : Builtin)
    (prepared : (b.signature.prepare given).run.run m.store = (.ok args, s)) :
    call sleep b.signature.name given m = run sleep b ⟨args⟩ { m with store := s } := by
  rw [call_eq]
  exact Exec.bind_of_done (Exec.lift_ok prepared)

/-- A call fails as the preparation of its arguments does. -/
theorem call_of_refused (sleep : Nat → Exec Unit) (b : Builtin) {f : Fault}
    (refused : (b.signature.prepare given).run.run m.store = (.error f, s)) :
    call sleep b.signature.name given m = .failed f { m with store := s } := by
  rw [call_eq]
  exact Exec.bind_of_failed (Exec.lift_error refused)

end Builtin

end ScriptEngine
