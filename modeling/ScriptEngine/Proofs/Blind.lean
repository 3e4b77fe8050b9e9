import ScriptEngine.Proofs.Local
/-!
# What builtins do not see

A builtin sees its arguments, memory and the world around, but neither the frames in use nor the record of what is
being run. The exceptions are the two that show them: the variables in sight, and the calls being run.

A part of a program is run twice, in two machines that differ only in the frames in use and in the record of what is
being run. The frames share the global one; where names are looked up, they share the top one too. The two runs do the
same. The second run may be stopped by a crash, in a place where the first would show the record.
-/

namespace ScriptEngine

/-- A machine in another scope, with another record of what is being run. -/
def Machine.elsewhere (m : Machine) (e : Scope) (calls : List CallEntry) : Machine := { m with scope := e, calls := calls }

/-- An outcome with its machine in another scope, and with another record of what is being run. -/
def Outcome.elsewhere {α : Type} (e : Scope) (calls : List CallEntry) : Outcome α → Outcome α
  | .done a m => .done a (m.elsewhere e calls)
  | .failed f m => .failed f (m.elsewhere e calls)
  | .crashed why m => .crashed why (m.elsewhere e calls)
  | .outOfFuel => .outOfFuel

namespace Exec

variable {α β : Type}

/-- A computation does the same in every scope and whatever else is being run. -/
def Blind (x : Exec α) : Prop := ∀ m e calls, x (m.elsewhere e calls) = (x m).elsewhere e calls

/-! ## Putting blind computations together -/

@[grind ←]
theorem blind_pure (a : α) : Blind (pure a) := fun _ _ _ => rfl

@[grind ←]
theorem blind_throw (f : Fault) : Blind (throw f : Exec α) := fun _ _ _ => rfl

@[grind ←]
theorem blind_crash (why : Text) : Blind (crash why : Exec α) := fun _ _ _ => rfl

@[grind ←]
theorem blind_host : Blind host := fun _ _ _ => rfl

@[grind ←]
theorem blind_store : Blind store := fun _ _ _ => rfl

/-- Two blind computations are blind one after the other. -/
@[grind ←]
theorem blind_bind {x : Exec α} {f : α → Exec β} (hx : Blind x) (hf : ∀ a, Blind (f a)) : Blind (x >>= f) := by
  intro m e calls
  show andThen x f (m.elsewhere e calls) = (andThen x f m).elsewhere e calls
  unfold andThen
  rw [hx]
  cases x m with
  | done a m' => exact hf a m' e calls
  | _ => rfl

@[grind ←]
theorem blind_map (f : α → β) {x : Exec α} (hx : Blind x) : Blind (f <$> x) := by
  rw [map_eq_pure_bind]
  exact blind_bind hx fun a => blind_pure (f a)

/-- A computation that begins with a look at the machine is blind when what follows is, and is the same elsewhere. -/
theorem blind_get_bind {f : Machine → Exec β} (same : ∀ m e calls, f (m.elsewhere e calls) = f m)
    (hf : ∀ m, Blind (f m)) : Blind (get >>= f) := by
  intro m e calls
  show f (m.elsewhere e calls) (m.elsewhere e calls) = (f m m).elsewhere e calls
  rw [same]
  exact hf m m e calls

/-- A blind computation is blind with a blind handler. -/
@[grind ←]
theorem blind_tryCatch {x : Exec α} {f : Fault → Exec α} (hx : Blind x) (hf : ∀ e, Blind (f e)) :
    Blind (tryCatch x f) := by
  intro m e calls
  show rescue x f (m.elsewhere e calls) = (rescue x f m).elsewhere e calls
  unfold rescue
  rw [hx]
  cases x m with
  | failed fault m' => exact hf fault m' e calls
  | _ => rfl

/-- A computation on memory is blind. -/
@[grind ←]
theorem blind_onStore (x : StoreM α) : Blind (onStore x) := by
  intro m e calls
  unfold onStore
  dsimp only [Machine.elsewhere]
  cases x m.store with
  | mk r s => cases r <;> rfl

/-- A computation on memory is blind where it stands among others. -/
@[grind ←]
theorem blind_lift (x : StoreM α) : Blind (liftM x : Exec α) := blind_onStore x

@[grind ←]
theorem blind_onHost (f : Host → Host) : Blind (onHost f) := fun _ _ _ => rfl

@[grind ←]
theorem blind_kindOf (v : Value) : Blind (kindOf v) := fun _ _ _ => rfl

@[grind ←]
theorem blind_inspect (v : Value) : Blind (inspect v) := fun _ _ _ => rfl

@[grind ←]
theorem blind_ofExcept (r : Except Fault α) : Blind (ofExcept r) := by
  cases r <;> exact fun _ _ _ => rfl

@[grind ←]
theorem blind_random : Blind random := fun _ _ _ => rfl

@[grind ←]
theorem blind_checkInterrupt : Blind checkInterrupt := by
  intro m e calls
  unfold checkInterrupt
  dsimp only [Machine.elsewhere]
  split <;> rfl

@[grind ←]
theorem blind_log (level : Log.Level) (message : Text) (attrs : List Log.Attr) : Blind (log level message attrs) :=
  blind_onHost _

@[grind ←]
theorem blind_onTimers (f : Scheduler → α × Scheduler) : Blind (onTimers f) := fun _ _ _ => rfl

/-- One computation for every item of a list is blind when each of them is. -/
@[grind ←]
theorem blind_forM {f : α → Exec PUnit} (hf : ∀ a, Blind (f a)) (l : List α) : Blind (l.forM f) := by
  induction l with
  | nil => exact blind_pure _
  | cons a l ih => exact blind_bind (hf a) fun _ => ih

@[grind ←]
theorem blind_mapM {f : α → Exec β} (hf : ∀ a, Blind (f a)) (l : List α) : Blind (l.mapM f) := by
  induction l with
  | nil => exact blind_pure _
  | cons a l ih =>
    rw [List.mapM_cons]
    exact blind_bind (hf a) fun _ => blind_bind ih fun _ => blind_pure _

@[grind ←]
theorem blind_anyM {f : α → Exec Bool} (hf : ∀ a, Blind (f a)) (l : List α) : Blind (l.anyM f) := by
  induction l with
  | nil => exact blind_pure _
  | cons a l ih =>
    rw [List.anyM]
    exact blind_bind (hf a) fun b => by cases b <;> grind

end Exec

/-! ## Arguments -/

namespace Args

open Exec

@[grind ←]
theorem blind_textOr (a : Args) (i : Nat) (fallback : Text) : Blind (a.textOr i fallback) := by
  unfold textOr
  split <;> grind

@[grind ←]
theorem blind_text (a : Args) (i : Nat) : Blind (a.text i) := blind_textOr a i _

@[grind ←]
theorem blind_node (a : Args) (i : Nat) : Blind (a.node i) := by
  unfold node
  split
  · exact blind_get_bind (fun _ _ _ => rfl) fun _ => blind_pure _
  · exact blind_lift _

@[grind ←]
theorem blind_array (a : Args) (i : Nat) : Blind (a.array i) := by
  unfold array
  split <;> grind

@[grind ←]
theorem blind_date (a : Args) (i : Nat) : Blind (a.date i) := by
  unfold date
  split <;> grind

end Args

/-! ## Families of builtins -/

section Builtins

open Exec

@[grind ←]
theorem Exec.blind_tree (n : Node) : Blind (Exec.tree n) :=
  blind_get_bind (fun _ _ _ => rfl) fun _ => blind_pure _

@[grind ←]
theorem Exec.blind_arrayAt (a : Nat) : Blind (Exec.arrayAt a) :=
  blind_get_bind (fun _ _ _ => rfl) fun _ => blind_pure _

@[grind ←]
theorem ThreadOp.blind_newJson (j : Json) : Blind (ThreadOp.newJson j) := by
  unfold ThreadOp.newJson
  grind

namespace JsonOp

@[grind ←]
theorem blind_target (args : Args) (i : Nat) : Blind (target args i) := by
  unfold target
  split <;> grind

@[grind ←]
theorem blind_found (args : Args) : Blind (found args) := by
  unfold found
  grind

@[grind ←]
theorem blind_typed (kind : Kind) (args : Args) : Blind (typed kind args) := by
  unfold typed
  grind

@[grind ←]
theorem blind_addItem (box : Nat) (v : Value) : Blind (addItem box v) := by
  unfold addItem
  grind

/-- Builtins on json values are blind. -/
@[grind ←]
theorem blind_run (op : JsonOp) (args : Args) : Blind (op.run args) := by
  unfold run
  cases op <;> grind

end JsonOp

namespace ArrayOp

@[grind ←]
theorem blind_fillWith (a n : Nat) (v : Value) : Blind (fillWith a n v) := by
  unfold fillWith
  grind

@[grind ←]
theorem blind_sortIn (a : Nat) (ascending : Bool) : Blind (sortIn a ascending) :=
  blind_get_bind (fun _ _ _ => rfl) fun _ => by grind

/-- Builtins on arrays are blind. -/
@[grind ←]
theorem blind_run (op : ArrayOp) (args : Args) : Blind (op.run args) := by
  unfold run
  cases op <;> grind

end ArrayOp

/-- Builtins on queues are blind. -/
@[grind ←]
theorem QueueOp.blind_run (op : QueueOp) (args : Args) : Blind (op.run args) := by
  have blind_target : Blind (target args) := by
    unfold target
    grind
  refine blind_bind blind_target fun q => blind_get_bind (fun _ _ _ => rfl) fun m => ?_
  cases op <;> grind

/-- Builtins on dates are blind. -/
@[grind ←]
theorem DateOp.blind_run (op : DateOp) (args : Args) : Blind (op.run args) := by
  unfold run
  cases op <;> grind

namespace MathOp

@[grind ←]
theorem blind_least (a b : Value) (wantLess : Bool) : Blind (least a b wantLess) :=
  blind_get_bind (fun _ _ _ => rfl) fun _ => blind_bind (blind_ofExcept _) fun _ => blind_pure _

@[grind ←]
theorem blind_randomUnit : Blind randomUnit := by
  unfold randomUnit
  grind

@[grind ←]
theorem blind_randomBetween (lo hi : Int) : Blind (randomBetween lo hi) := by
  unfold randomBetween
  grind

/-- Builtins on numbers are blind. -/
@[grind ←]
theorem blind_run (op : MathOp) (args : Args) : Blind (op.run args) := by
  unfold run
  cases op <;> grind

end MathOp

/-- Builtins for looking at the running script are blind, but for the two that show variables and calls. -/
theorem DebugOp.blind_run {op : DebugOp} (args : Args) (vars : op ≠ .vars) (stack : op ≠ .stack) :
    Blind (op.run args) := by
  unfold run
  cases op <;> grind

namespace CryptoOp

@[grind ←]
theorem blind_randomBytes (n : Nat) : Blind (randomBytes n) := by
  induction n with
  | zero => exact blind_pure _
  | succ n ih => exact blind_bind blind_random fun _ => blind_bind ih fun _ => blind_pure _

@[grind ←]
theorem blind_hashOf (password : Text) : Blind (hashOf password) := by
  unfold hashOf
  grind

@[grind ←]
theorem blind_signed (args : Args) : Blind (signed args) := by
  unfold signed
  refine blind_bind (Args.blind_node args 0) fun n => blind_bind (blind_tree n) fun j => ?_
  split
  · refine blind_bind (Args.blind_text args 1) fun secret => ?_
    refine blind_bind (Args.blind_text args 2) fun span => blind_bind blind_host fun h => ?_
    grind
  · exact blind_throw _

/-- Builtins on digests, passwords and tokens are blind. -/
@[grind ←]
theorem blind_run (op : CryptoOp) (args : Args) : Blind (op.run args) := by
  unfold run
  cases op with
  | jwtVerify =>
    refine blind_bind (Args.blind_text args 0) fun token => blind_bind (Args.blind_text args 1) fun secret => ?_
    grind
  | _ => grind

end CryptoOp

/-- Sending mail is blind. -/
@[grind ←]
theorem MailOp.blind_run (op : MailOp) (args : Args) : Blind (op.run args) := by
  unfold run
  cases op
  grind

/-- Builtins on connections are blind. -/
@[grind ←]
theorem SocketOp.blind_run (op : SocketOp) (args : Args) : Blind (op.run args) := by
  unfold run connectTo
  refine blind_bind (Args.blind_text args 0) fun name => ?_
  cases op <;> grind +splitImp

namespace FileOp

@[grind ←]
theorem blind_openFile (handle : Text) : Blind (Exec.openFile handle) := by
  unfold Exec.openFile
  grind +splitImp

@[grind ←]
theorem blind_updateFile (handle : Text) (r : FileTree × OpenFile) : Blind (Exec.updateFile handle r) :=
  blind_onHost _

@[grind ←]
theorem blind_openIn (path modeName : Text) : Blind (openIn path modeName) := by
  unfold openIn
  grind +splitImp

@[grind ←]
theorem blind_readLineOf (handle : Text) : Blind (readLineOf handle) := by
  unfold readLineOf
  grind +splitImp

@[grind ←]
theorem blind_atEndOf (handle : Text) : Blind (atEndOf handle) := by
  unfold atEndOf
  grind +splitImp

@[grind ←]
theorem blind_sizeOf (name : Text) : Blind (sizeOf name) := by
  unfold sizeOf
  refine blind_bind blind_host fun h => ?_
  extract_lets report
  have blind_report : ∀ path, Blind (report path) := fun path => by
    unfold report
    grind
  clear_value report
  grind

@[grind ←]
theorem blind_change (op path step : Text) (f : FileTree → Except FileTree.Trouble FileTree) :
    Blind (change op path step f) := by
  unfold change
  grind +splitImp

/-- Builtins on files are blind. -/
@[grind ←]
theorem blind_run (op : FileOp) (args : Args) : Blind (op.run args) := by
  unfold run
  cases op with
  | listFiles =>
    refine blind_bind (Args.blind_textOr args 0 ".") fun dir => blind_bind blind_host fun h => ?_
    split
    · exact blind_onStore _
    · exact blind_throw _
  | _ => grind +splitImp

end FileOp

namespace HttpOp

@[grind ←]
theorem blind_fetch (method url body : Text) (contentType : Option Text) (headers : Value) :
    Blind (fetch method url body contentType headers) := by
  unfold fetch
  split
  · exact blind_throw _
  extract_lets a contents failure request
  have blind_request : ∀ given, Blind (request given) := fun given => by
    refine blind_bind blind_host fun h => ?_
    exact blind_bind (blind_onHost _) fun _ => by grind
  clear_value request
  grind

/-- Requests to web servers are blind. -/
@[grind ←]
theorem blind_run (op : HttpOp) (args : Args) : Blind (op.run args) := by
  unfold run
  refine blind_bind (Args.blind_text args 0) fun url => ?_
  cases op <;> grind

end HttpOp

namespace ImageOp

@[grind ←]
theorem blind_target (args : Args) : Blind (target args) := by
  unfold target
  split
  · exact blind_get_bind (fun _ _ _ => rfl) fun _ => blind_pure _
  · exact blind_bind (blind_kindOf _) fun _ => blind_throw _

@[grind ←]
theorem blind_sizeOf (args : Args) (i : Nat) : Blind (sizeOf args i) := by
  unfold sizeOf
  grind

@[grind ←]
theorem blind_newImage (q : Picture) : Blind (newImage q) := by
  unfold newImage
  grind

/-- Builtins on pictures are blind. -/
@[grind ←]
theorem blind_run (op : ImageOp) (args : Args) : Blind (op.run args) := by
  unfold run
  cases op <;> grind

end ImageOp

/-- Builtins on the environment and the clock are blind. -/
@[grind ←]
theorem SystemOp.blind_run (op : SystemOp) (args : Args) : Blind (op.run args) := by
  unfold run
  cases op with
  | setEnv =>
    refine blind_bind (Args.blind_text args 0) fun name => blind_bind blind_host fun h => ?_
    refine blind_bind (Args.blind_text args 1) fun value => ?_
    split
    · exact blind_bind (blind_onHost _) fun _ => blind_pure _
    · exact blind_throw _
  | loadEnv =>
    refine blind_bind (Args.blind_textOr args 0 ".env") fun path => blind_bind blind_host fun h => ?_
    split
    · exact blind_bind (blind_onHost _) fun _ => blind_bind (blind_log _ _ _) fun _ => blind_pure _
    · exact blind_throw _
    · exact blind_throw _
  | _ => grind

namespace StrOp

@[grind ←]
theorem blind_charset (name : Text) : Blind (charset name) := by
  unfold charset
  grind

@[grind ←]
theorem blind_piece (t : Text) (start stop : Int) : Blind (piece t start stop) := by
  unfold piece
  grind

@[grind ←]
theorem blind_filling (t : Text) (n : Int) (pad : Text) : Blind (filling t n pad) := by
  unfold filling
  grind

/-- Builtins on strings are blind. -/
@[grind ←]
theorem blind_run (op : StrOp) (args : Args) : Blind (op.run args) := by
  unfold run
  cases op <;> grind

end StrOp

namespace ThreadOp

@[grind ←]
theorem blind_timerName (args : Args) : Blind (timerName args) := by
  unfold timerName
  grind

@[grind ←]
theorem blind_startTimer (args : Args) : Blind (startTimer args) := by
  have checked : ∀ v, Blind (checkCallback v) := fun v => by
    unfold checkCallback
    grind
  refine blind_bind (blind_timerName args) fun name => blind_bind (checked _) fun _ => ?_
  extract_lets period start
  have started : ∀ u, Blind (start u) := fun u => by
    refine blind_bind blind_host fun h => blind_bind (Args.blind_textOr args 3 _) fun owner => ?_
    refine blind_bind (blind_onTimers _) fun r => ?_
    grind
  clear_value start
  grind

@[grind ←]
theorem blind_ask (args : Args) (f : Option Timer → Value) : Blind (ask args f) := by
  unfold ask
  grind

@[grind ←]
theorem blind_act (args : Args) (f : Scheduler → Text → Bool × Scheduler) : Blind (act args f) := by
  unfold act
  grind

/-- Builtins on timers are blind, but for waiting, during which callbacks run. -/
theorem blind_run {sleep : Nat → Exec Unit} {op : ThreadOp} (args : Args) (awake : op ≠ .sleep) :
    Blind (op.run sleep args) := by
  unfold run
  cases op with
  | info =>
    refine blind_bind (blind_timerName args) fun name => blind_get_bind (fun _ _ _ => rfl) fun m => ?_
    split
    · exact blind_pure _
    · exact blind_newJson _
  | list => exact blind_get_bind (fun _ _ _ => rfl) fun m => blind_newJson _
  | sleep => exact absurd rfl awake
  | _ => grind

end ThreadOp

end Builtins

/-! ## Runs from two scopes -/

/-- A machine with other frames in use, and another record of what is being run. The global frame is the same, and so
is the top frame if the machines are near each other. -/
inductive Machine.Aside (near : Bool) (m : Machine) : Machine → Prop where
  | mk (e : Scope) (calls : List CallEntry) (global : e.global = m.scope.global)
    (top : near = true → e.top = m.scope.top) : Aside near m (m.elsewhere e calls)

/-- The same outcome, in machines that differ in the frames in use and the record; or the second run was stopped. A result or a fault
leaves one run in the frames `e` and the other in the frames `e'`. -/
inductive Outcome.Alike (near : Bool) (why : Text) {α : Type} (e e' : Scope) : Outcome α → Outcome α → Prop where
  | done {a : α} {m m' : Machine} (aside : m.Aside near m') (own : m.scope = e) (own' : m'.scope = e') :
    Alike near why e e' (.done a m) (.done a m')
  | failed {f : Fault} {m m' : Machine} (aside : m.Aside near m') (own : m.scope = e) (own' : m'.scope = e') :
    Alike near why e e' (.failed f m) (.failed f m')
  | crashed {other : Text} {m : Machine} (e : Scope) (calls : List CallEntry) :
    Alike near why _ _ (.crashed other m) (.crashed other (m.elsewhere e calls))
  | outOfFuel : Alike near why _ _ .outOfFuel .outOfFuel
  | stopped {r : Outcome α} {m' : Machine} : Alike near why _ _ r (.crashed why m')

section Aside

variable {near : Bool} {m m' : Machine}

@[refl]
theorem Machine.Aside.refl (m : Machine) : m.Aside near m := .mk m.scope m.calls rfl fun _ => rfl

theorem Machine.Aside.store_eq (h : m.Aside near m') : m'.store = m.store := by
  cases h
  rfl

theorem Machine.Aside.host_eq (h : m.Aside near m') : m'.host = m.host := by
  cases h
  rfl

theorem Machine.Aside.imported_eq (h : m.Aside near m') : m'.imported = m.imported := by
  cases h
  rfl

theorem Machine.Aside.importDir_eq (h : m.Aside near m') : m'.importDir = m.importDir := by
  cases h
  rfl

theorem Machine.Aside.owners_eq (h : m.Aside near m') : m'.owners = m.owners := by
  cases h
  rfl

theorem Machine.Aside.top_eq (h : m.Aside true m') : m'.scope.top = m.scope.top := by
  obtain ⟨e, calls, global, top⟩ := h
  exact top rfl

theorem Machine.Aside.global_eq (h : m.Aside near m') : m'.scope.global = m.scope.global := by
  obtain ⟨e, calls, global, top⟩ := h
  exact global

theorem Machine.Aside.detach_eq (h : m.Aside near m') : m'.scope.detach = m.scope.detach :=
  congrArg (Scope.mk []) h.global_eq

/-- A name has the same variable in machines near each other. -/
theorem Machine.Aside.lookup_eq (h : m.Aside true m') (name : Text) :
    m'.store.lookup? m'.scope name = m.store.lookup? m.scope name := by
  rw [Store.lookup?, h.store_eq, h.top_eq]
  rfl

end Aside

namespace Exec

variable {α β : Type} {near : Bool} {why : Text}

/-- Computations that end alike from machines aside of each other, each in the frames in which it began. -/
def Alike (near : Bool) (why : Text) (x y : Exec α) : Prop :=
  ∀ m m', m.Aside near m' → Outcome.Alike near why m.scope m'.scope (x m) (y m')

/-! ## Putting computations together that are alike -/

theorem alike_pure (a : α) : Alike near why (pure a) (pure a) := fun _ _ aside => .done aside rfl rfl

theorem alike_throw (f : Fault) : Alike near why (throw f : Exec α) (throw f) := fun _ _ aside => .failed aside rfl rfl

/-- Nothing that comes after a fault matters. -/
theorem alike_throw_bind (e : Fault) (f g : α → Exec β) : Alike near why (throw e >>= f) (throw e >>= g) :=
  fun _ _ aside => .failed aside rfl rfl

/-- A run that is stopped is alike to anything. -/
theorem alike_stopped (x : Exec α) : Alike near why x (crash why) := fun _ _ _ => .stopped

/-- Computations that are alike are alike one after the other. -/
theorem alike_bind {x y : Exec α} {f g : α → Exec β} (hx : Alike near why x y) (hf : ∀ a, Alike near why (f a) (g a)) :
    Alike near why (x >>= f) (y >>= g) := by
  intro m m' aside
  have first := hx m m' aside
  show Outcome.Alike near why _ _ (andThen x f m) (andThen y g m')
  unfold andThen
  generalize x m = r, y m' = r' at first
  cases first with
  | done aside own own' => exact own ▸ own' ▸ hf _ _ _ aside
  | failed aside own own' => exact .failed aside own own'
  | crashed e calls => exact .crashed e calls
  | outOfFuel => exact .outOfFuel
  | stopped => exact .stopped

/-- Computations are alike after a look at the machine when they are for any two machines aside of each other. -/
theorem alike_get_bind {f g : Machine → Exec β} (h : ∀ m m', m.Aside near m' → Alike near why (f m) (g m')) :
    Alike near why (get >>= f) (get >>= g) := fun m m' aside => h m m' aside m m' aside

/-- What sees neither frames nor record is alike. -/
theorem alike_of_blind {x : Exec α} (blind : Blind x) : Alike near why x x := by
  rintro m _ ⟨e, calls, global, top⟩
  -- being blind to the machine's own scope, the computation leaves it as it is
  have kept : x m = (x m).elsewhere m.scope m.calls := blind m m.scope m.calls
  have moved {n : Machine} (own : n = n.elsewhere m.scope m.calls) : n.Aside near (n.elsewhere e calls) :=
    .mk e calls (own ▸ global) (own ▸ top)
  rw [blind]
  generalize x m = r at kept
  cases r with
  | done a n => exact .done (moved (Outcome.done.inj kept).2) (congrArg Machine.scope (Outcome.done.inj kept).2 :) rfl
  | failed f n => exact .failed (moved (Outcome.failed.inj kept).2) (congrArg Machine.scope (Outcome.failed.inj kept).2 :) rfl
  | crashed other n => exact .crashed e calls
  | outOfFuel => exact .outOfFuel

/-- A computation on memory is alike. -/
theorem alike_lift (x : StoreM α) : Alike near why (liftM x : Exec α) (liftM x) := alike_of_blind (blind_lift x)

theorem alike_kindOf (v : Value) : Alike near why (kindOf v) (kindOf v) := alike_of_blind (blind_kindOf v)

theorem alike_ofExcept (r : Except Fault α) : Alike near why (ofExcept r) (ofExcept r) :=
  alike_of_blind (blind_ofExcept r)

/-- Computations that are alike are so with handlers that are. -/
theorem alike_tryCatch {x y : Exec α} {f g : Fault → Exec α} (hx : Alike near why x y)
    (hf : ∀ e, Alike near why (f e) (g e)) : Alike near why (tryCatch x f) (tryCatch y g) := by
  intro m m' aside
  have first := hx m m' aside
  show Outcome.Alike near why _ _ (rescue x f m) (rescue y g m')
  unfold rescue
  generalize x m = r, y m' = r' at first
  cases first with
  | done aside own own' => exact .done aside own own'
  | failed aside own own' => exact own ▸ own' ▸ hf _ _ _ aside
  | crashed e calls => exact .crashed e calls
  | outOfFuel => exact .outOfFuel
  | stopped => exact .stopped

theorem alike_atLine {x y : Exec α} (line : Nat) (h : Alike near why x y) :
    Alike near why (atLine line x) (atLine line y) := by
  intro m m' aside
  have inner := h m m' aside
  unfold atLine
  generalize x m = r, y m' = r' at inner
  cases inner with
  | done aside own own' => exact .done aside own own'
  | failed aside own own' => exact .failed aside own own'
  | crashed e calls => exact .crashed e calls
  | outOfFuel => exact .outOfFuel
  | stopped => exact .stopped

/-! ## Another context -/

/-- Computations between changes of two machines are alike when the changes keep the frames in use and machines aside of each
other. -/
theorem alike_within {x y : Exec α} {before after : Machine → Machine} (h : Alike near why x y)
    (scope : ∀ m, (before m).scope = m.scope ∧ (after m).scope = m.scope)
    (hb : ∀ m m', m.Aside near m' → (before m).Aside near (before m'))
    (ha : ∀ m m', m.Aside near m' → (after m).Aside near (after m')) :
    Alike near why (within before after x) (within before after y) := by
  intro m m' aside
  have ends := h _ _ (hb m m' aside)
  rw [(scope m).1, (scope m').1] at ends
  unfold within
  generalize x (before m) = r, y (before m') = r' at ends
  cases ends with
  | done aside own own' => exact .done (ha _ _ aside) ((scope _).2.trans own) ((scope _).2.trans own')
  | failed aside own own' => exact .failed (ha _ _ aside) ((scope _).2.trans own) ((scope _).2.trans own')
  | crashed e calls => exact .crashed e calls
  | outOfFuel => exact .outOfFuel
  | stopped => exact .stopped

theorem alike_recorded {x y : Exec α} (kind name : Text) (line : Nat) (h : Alike near why x y) :
    Alike near why (recorded kind name line x) (recorded kind name line y) := by
  refine alike_within h (fun _ => ⟨rfl, rfl⟩) ?_ ?_
  all_goals
    rintro m _ ⟨e, calls, global, top⟩
    exact .mk e _ global top

/-- Computations in two scopes with the same top and global frames are alike, however far apart the machines are, when the scopes
from before are in use again behind them. -/
theorem alike_elsewhere {x y : Exec α} {e e' : Scope} {m m' : Machine} (after after' : Machine → Machine)
    (h : Alike true why x y) (aside : m.Aside near m') (global : e'.global = e.global) (top : e'.top = e.top)
    (back : ∀ n : Machine, n.scope = e → after n = { n with scope := m.scope })
    (back' : ∀ n : Machine, n.scope = e' → after' n = { n with scope := m'.scope }) :
    Outcome.Alike near why m.scope m'.scope (within (fun n => { n with scope := e }) after x m)
      (within (fun n => { n with scope := e' }) after' y m') := by
  obtain ⟨old, calls, hg, ht⟩ := aside
  have ends := h { m with scope := e } { m.elsewhere old calls with scope := e' } (.mk e' calls global fun _ => top)
  unfold within
  generalize x { m with scope := e } = r, y { m.elsewhere old calls with scope := e' } = r' at ends
  have again {n n' : Machine} (aside : n.Aside true n') (own : n.scope = e) (own' : n'.scope = e') :
      (after n).Aside near (after' n') := by
    rw [back n own, back' n' own']
    obtain ⟨_, calls, -, -⟩ := aside
    exact .mk old calls hg ht
  cases ends with
  | done aside own own' => exact .done (again aside own own') (by rw [back _ own]) (by rw [back' _ own'])
  | failed aside own own' => exact .failed (again aside own own') (by rw [back _ own]) (by rw [back' _ own'])
  | crashed e calls => exact .crashed e calls
  | outOfFuel => exact .outOfFuel
  | stopped => exact .stopped

theorem alike_inScope {x y : Exec α} {e e' : Scope} (h : Alike true why x y) (global : e'.global = e.global) (top : e'.top = e.top) :
    Alike near why (inScope e x) (inScope e' y) := fun _ _ aside =>
  alike_elsewhere _ _ h aside global top (fun _ _ => rfl) fun _ _ => rfl

/-- Computations are alike in a frame that is opened for them, when both look for names around it in the same frame. -/
theorem alike_opened {x y : Scope → Exec α} {outer : Machine → Option Nat}
    (same : ∀ m m', m.Aside near m' → outer m' = outer m) (h : ∀ e e' : Scope, e'.top = e.top → Alike true why (x e) (y e')) :
    Alike near why (get >>= fun m => (liftM (StoreM.pushFrom m.scope (outer m)) : Exec Scope) >>= fun e => popping e (x e))
      (get >>= fun m => (liftM (StoreM.pushFrom m.scope (outer m)) : Exec Scope) >>= fun e => popping e (y e)) := by
  intro m m' aside
  have given := same m m' aside
  obtain ⟨old, calls, global, top⟩ := aside
  let opened : Machine := { m with store := { m.store with frames := m.store.frames.push ⟨[], outer m⟩ } }
  have ends : Outcome.Alike near why m.scope old (popping (m.scope.add m.store.frames.size) (x _) opened)
      (popping (old.add m.store.frames.size) (y _) (opened.elsewhere old calls)) :=
    alike_elsewhere _ _ (h (m.scope.add m.store.frames.size) (old.add m.store.frames.size) rfl)
      (Machine.Aside.mk old calls global top : opened.Aside near _) global rfl
      (fun _ => Machine.popped_of_add) fun _ => Machine.popped_of_add
  rw [run_get_bind, run_get_bind, given]
  exact ends

/-- Computations that are alike are alike in frames of their own. -/
theorem alike_inFrame {x y : Exec α} (h : Alike true why x y) : Alike true why (inFrame x) (inFrame y) :=
  alike_opened (fun _ _ aside => congrArg some aside.top_eq) fun _ _ _ => h

theorem alike_unwinding {x y : Exec α} (h : Alike near why x y) : Alike near why (unwinding x) (unwinding y) := by
  intro m m' aside
  have ends := h m m' aside
  unfold unwinding
  dsimp only
  generalize x m = r, y m' = r' at ends
  cases ends with
  | done aside own own' => exact .done aside own own'
  | failed aside own own' =>
    dsimp only
    rw [← own, ← own', Scope.unwind_length, Scope.unwind_length]
    exact .failed aside rfl rfl
  | crashed e calls => exact .crashed e calls
  | outOfFuel => exact .outOfFuel
  | stopped => exact .stopped

end Exec

end ScriptEngine
