import ScriptEngine.Proofs.Local
import ScriptEngine.Proofs.SafeData
/-!
# Builtins make up no address
-/

namespace ScriptEngine

variable {s t : Store} {α β : Type}

/-- An end that memory was led to along a course. It is whole, the machine is as it has to be, and no address in a result leads
outside. -/
def Outcome.Guarded [Addressed α] (inv : Machine → Prop) (s : Store) : Outcome α → Prop
  | .done a m => s.Course m.store ∧ m.store.Whole ∧ inv m ∧ Valid m.store a
  | .failed _ m | .crashed _ m => s.Course m.store ∧ m.store.Whole ∧ inv m
  | .outOfFuel => True

/-- What is led to from memory that was led to. -/
theorem Outcome.Guarded.after [Addressed α] {inv : Machine → Prop} {r : Outcome α} (h : r.Guarded inv t) (course : s.Course t) :
    r.Guarded inv s := by
  cases r with
  | done a m => exact ⟨course.trans h.1, h.2⟩
  | failed f m => exact ⟨course.trans h.1, h.2⟩
  | crashed why m => exact ⟨course.trans h.1, h.2⟩
  | outOfFuel => trivial

namespace Exec

/-- From whole memory a computation leads along a course to whole memory, also when it fails or crashes, and gives nothing
with an address outside. Something holds of the machine before and behind it. -/
def Guards [Addressed α] (inv : Machine → Prop) (x : Exec α) (s : Store) : Prop :=
  ∀ m : Machine, m.store = s → s.Whole → inv m → (x m).Guarded inv s

/-- So does a computation from every machine. -/
def Safe [Addressed α] (x : Exec α) (s : Store) : Prop := Guards (fun _ => True) x s

/-! ## Putting computations together -/

section Guards

variable [Addressed α] [Addressed β] {inv : Machine → Prop}

theorem guards_pure {a : α} (valid : Valid s a) : Guards inv (pure a) s := by
  rintro m rfl whole holds
  exact ⟨.refl, whole, holds, valid⟩

theorem guards_throw (f : Fault) : Guards inv (throw f : Exec α) s := by
  rintro m rfl whole holds
  exact ⟨.refl, whole, holds⟩

theorem guards_bind {x : Exec α} {f : α → Exec β} (hx : Guards inv x s)
    (hf : ∀ a t, s.Grew t → Valid t a → Guards inv (f a) t) : Guards inv (x >>= f) s := by
  rintro m rfl whole holds
  have first := hx m rfl whole holds
  change (andThen x f m).Guarded inv m.store
  unfold andThen
  generalize x m = r at first
  cases r with
  | done a k =>
    obtain ⟨course, whole', holds', valid⟩ := first
    exact (hf a k.store course.grew valid k rfl whole' holds').after course
  | _ => exact first

/-- What is seen of the machine first is what memory and the machine are like. -/
theorem guards_get_bind {f : Machine → Exec β} (hf : ∀ m, m.store = s → s.Whole → inv m → Guards inv (f m) s) :
    Guards inv (get >>= f) s :=
  fun m here whole holds => hf m here whole holds m here whole holds

theorem guards_host_bind {f : Host → Exec β} (hf : ∀ m : Machine, inv m → Guards inv (f m.host) s) : Guards inv (host >>= f) s :=
  fun m here whole holds => hf m holds m here whole holds

theorem guards_tryCatch {x : Exec α} {f : Fault → Exec α} (hx : Guards inv x s) (hf : ∀ e t, s.Grew t → Guards inv (f e) t) :
    Guards inv (tryCatch x f) s := by
  rintro m rfl whole holds
  have first := hx m rfl whole holds
  change (rescue x f m).Guarded inv m.store
  unfold rescue
  generalize x m = r at first
  cases r with
  | failed e k =>
    obtain ⟨course, whole', holds'⟩ := first
    exact (hf e k.store course.grew k rfl whole' holds').after course
  | _ => exact first

theorem guards_atLine {x : Exec α} (line : Nat) (hx : Guards inv x s) : Guards inv (atLine line x) s := by
  rintro m rfl whole holds
  have first := hx m rfl whole holds
  unfold atLine
  generalize x m = r at first
  cases r with
  | _ => exact first

theorem guards_kindOf (v : Value) : Guards inv (kindOf v) s := by
  rintro m rfl whole holds
  exact ⟨.refl, whole, holds, trivial⟩

end Guards

/-! ## Safe computations -/

variable [Addressed α] [Addressed β]

@[grind ←]
theorem safe_pure {a : α} (valid : Valid s a) : Safe (pure a) s := guards_pure valid

@[grind ←]
theorem safe_throw (f : Fault) : Safe (throw f : Exec α) s := guards_throw f

@[grind ←]
theorem safe_crash (why : Text) : Safe (crash why : Exec α) s := by
  rintro m rfl whole -
  exact ⟨.refl, whole, trivial⟩

@[grind ←]
theorem safe_host : Safe host s := by
  rintro m rfl whole -
  exact ⟨.refl, whole, trivial, trivial⟩

@[grind ←]
theorem safe_bind {x : Exec α} {f : α → Exec β} (hx : Safe x s) (hf : ∀ a t, s.Grew t → Valid t a → Safe (f a) t) :
    Safe (x >>= f) s := guards_bind hx hf

omit [Addressed α] in
/-- What would follow a fault does not matter. -/
@[grind ←]
theorem safe_throw_bind (e : Fault) (f : α → Exec β) : Safe ((throw e : Exec α) >>= f) s := safe_throw (α := β) e

@[grind ←]
theorem safe_get_bind {f : Machine → Exec β} (hf : ∀ m, m.store = s → s.Whole → Safe (f m) s) : Safe (get >>= f) s :=
  guards_get_bind fun m here whole _ => hf m here whole

@[grind ←]
theorem safe_store_bind {f : Store → Exec β} (hf : s.Whole → Safe (f s) s) : Safe (store >>= f) s := by
  rintro m rfl whole
  exact hf whole m rfl whole

@[grind ←]
theorem safe_map {γ : Type} [Addressed γ] {f : α → γ} {x : Exec α} (hx : Safe x s) (hf : ∀ a t, s.Grew t → Valid t a → Valid t (f a)) :
    Safe (f <$> x) s := by
  rw [map_eq_pure_bind]
  exact safe_bind hx fun a t grew valid => safe_pure (hf a t grew valid)

@[grind ←]
theorem safe_tryCatch {x : Exec α} {f : Fault → Exec α} (hx : Safe x s) (hf : ∀ e t, s.Grew t → Safe (f e) t) :
    Safe (tryCatch x f) s := guards_tryCatch hx hf

@[grind ←]
theorem safe_atLine {x : Exec α} (line : Nat) (hx : Safe x s) : Safe (atLine line x) s := guards_atLine line hx

@[grind ←]
theorem safe_onStore {x : StoreM α} (hx : StoreM.Safe x s) : Safe (onStore x) s := by
  rintro m rfl whole -
  obtain ⟨course, whole', given⟩ := hx whole
  unfold onStore
  obtain ⟨r, t, run⟩ : ∃ r t, x m.store = (r, t) := ⟨_, _, rfl⟩
  have run' : x.run.run m.store = (r, t) := run
  rw [run'] at course whole' given
  dsimp only
  rw [run]
  cases r with
  | ok a => exact ⟨course, whole', trivial, given a rfl⟩
  | error e => exact ⟨course, whole', trivial⟩

@[grind ←]
theorem safe_lift {x : StoreM α} (hx : StoreM.Safe x s) : Safe (liftM x : Exec α) s := safe_onStore hx

@[grind ←]
theorem safe_onHost (f : Host → Host) : Safe (onHost f) s := by
  rintro m rfl whole -
  exact ⟨.refl, whole, trivial, trivial⟩

@[grind ←]
theorem safe_kindOf (v : Value) : Safe (kindOf v) s := guards_kindOf v

@[grind ←]
theorem safe_inspect (v : Value) : Safe (inspect v) s := by
  rintro m rfl whole -
  exact ⟨.refl, whole, trivial, trivial⟩

@[grind ←]
theorem safe_ofExcept {r : Except Fault α} (valid : ∀ a, r = .ok a → Valid s a) : Safe (ofExcept r) s := by
  cases r with
  | ok a => exact safe_pure (valid a rfl)
  | error f => exact safe_throw f

@[grind ←]
theorem safe_random : Safe random s := by
  rintro m rfl whole -
  exact ⟨.refl, whole, trivial, trivial⟩

@[grind ←]
theorem safe_checkInterrupt : Safe checkInterrupt s := by
  rintro m rfl whole -
  unfold checkInterrupt
  split
  · exact ⟨.refl, whole, trivial⟩
  · exact ⟨.refl, whole, trivial, trivial⟩

@[grind ←]
theorem safe_log (level : Log.Level) (message : Text) (attrs : List Log.Attr) : Safe (log level message attrs) s := safe_onHost _

@[grind ←]
theorem safe_onTimers {γ : Type} (f : Scheduler → γ × Scheduler) : @Safe γ .plain (onTimers f) s := by
  rintro m rfl whole -
  exact ⟨.refl, whole, trivial, trivial⟩

/-- One computation for every item of a list. -/
@[grind ←]
theorem safe_mapM {f : α → Exec β} (hf : ∀ a t, s.Grew t → Valid t a → Safe (f a) t) {l : List α} (valid : Valid s l) :
    Safe (l.mapM f) s := by
  induction l generalizing s with
  | nil => exact safe_pure nofun
  | cons a l ih =>
    rw [List.mapM_cons]
    refine safe_bind (hf a s (.refl s) (valid a (List.mem_cons_self ..))) fun b t grew hb => ?_
    refine safe_bind (ih (fun a u grew' => hf a u (grew.trans grew')) fun a ha =>
      Addressed.valid_grew grew (valid a (List.mem_cons_of_mem _ ha))) fun bs u grew' hbs => ?_
    exact safe_pure (List.forall_mem_cons.mpr ⟨Addressed.valid_grew grew' hb, hbs⟩)

@[grind ←]
theorem safe_forM {f : α → Exec PUnit} (hf : ∀ a t, s.Grew t → Valid t a → Safe (f a) t) {l : List α} (valid : Valid s l) :
    Safe (l.forM f) s := by
  induction l generalizing s with
  | nil => exact safe_pure trivial
  | cons a l ih =>
    refine safe_bind (hf a s (.refl s) (valid a (List.mem_cons_self ..))) fun _ t grew _ => ?_
    exact ih (fun a u grew' => hf a u (grew.trans grew')) fun a ha => Addressed.valid_grew grew (valid a (List.mem_cons_of_mem _ ha))

@[grind ←]
theorem safe_anyM {f : α → Exec Bool} (hf : ∀ a t, s.Grew t → Valid t a → Safe (f a) t) {l : List α} (valid : Valid s l) :
    Safe (l.anyM f) s := by
  induction l generalizing s with
  | nil => exact safe_pure trivial
  | cons a l ih =>
    rw [List.anyM]
    refine safe_bind (hf a s (.refl s) (valid a (List.mem_cons_self ..))) fun found t grew _ => ?_
    have rest := ih (fun a u grew' => hf a u (grew.trans grew')) fun a ha =>
      Addressed.valid_grew grew (valid a (List.mem_cons_of_mem _ ha))
    cases found <;> grind

end Exec

/-! ## Arguments -/

namespace Args

open Exec

@[grind ←]
theorem safe_textOr (a : Args) (i : Nat) (fallback : Text) : Safe (a.textOr i fallback) s := by
  unfold textOr
  split <;> grind

@[grind ←]
theorem safe_text (a : Args) (i : Nat) : Safe (a.text i) s := safe_textOr a i _

@[grind ←]
theorem safe_node (a : Args) (i : Nat) : Safe (a.node i) s := by
  unfold node
  split
  · exact safe_get_bind fun m here whole => safe_pure (here ▸ valid_box whole _)
  · exact safe_lift (StoreM.safe_toNode _)

@[grind ←]
theorem safe_array (a : Args) (i : Nat) : Safe (a.array i) s := by
  unfold array
  split <;> grind

@[grind ←]
theorem safe_date (a : Args) (i : Nat) : Safe (a.date i) s := by
  unfold date
  split <;> grind

end Args

/-! ## Families of builtins -/

section Builtins

open Exec

@[grind ←]
theorem Exec.safe_tree (n : Node) : Safe (Exec.tree n) s := safe_get_bind fun _ _ _ => safe_pure trivial

@[grind ←]
theorem Exec.safe_arrayAt (a : Nat) : Safe (arrayAt a) s := safe_get_bind fun _ _ _ => safe_pure trivial

@[grind ←]
theorem ThreadOp.safe_newJson (j : Json) : Safe (ThreadOp.newJson j) s := by
  unfold ThreadOp.newJson
  grind

namespace JsonOp

@[grind ←]
theorem safe_target (args : Args) (i : Nat) : Safe (target args i) s := by
  unfold target
  split <;> grind

@[grind ←]
theorem safe_found (args : Args) : Safe (found args) s := by
  refine safe_bind (Args.safe_node args 0) fun n t grew hn => safe_bind (Args.safe_text _ _) fun path u grew' _ => ?_
  refine safe_store_bind fun whole => safe_pure ?_
  exact StoreM.valid_pathGet? whole (Addressed.valid_grew grew' hn) path

@[grind ←]
theorem safe_typed (kind : Kind) (args : Args) : Safe (typed kind args) s := by
  have fallback (t : Store) : Safe (if args.isNull 2 then pure (.zero kind) else onStore (StoreM.coerce (args.value 2) kind)) t := by
    split <;> grind
  unfold typed
  refine safe_bind (safe_found args) fun found t _ hf => ?_
  split
  · exact fallback t
  · exact fallback t
  · grind

@[grind ←]
theorem safe_addItem (box : Nat) (v : Value) : Safe (addItem box v) s := by
  unfold addItem
  refine safe_store_bind fun whole => ?_
  split
  · rename_i b len lies
    refine safe_bind (safe_lift (StoreM.safe_toNode v)) fun n t grew hn => ?_
    have list := Addressed.valid_grew grew (valid_listBox whole lies)
    exact safe_onStore (StoreM.safe_bind (StoreM.safe_append list hn) fun m u _ hm => StoreM.safe_setBox hm)
  · grind
  · exact safe_throw _

/-- Builtins on json values are safe. -/
@[grind ←]
theorem safe_run (op : JsonOp) (args : Args) : Safe (op.run args) s := by
  unfold run
  cases op <;> grind

end JsonOp

namespace ArrayOp

@[grind ←]
theorem safe_fillWith (a n : Nat) (v : Value) : Safe (fillWith a n v) s := by
  unfold fillWith
  grind

@[grind ←]
theorem safe_sortIn (a : Nat) (ascending : Bool) : Safe (sortIn a ascending) s := by
  unfold sortIn
  refine safe_get_bind fun m _ _ => ?_
  dsimp only
  split <;> grind

/-- Builtins on arrays are safe. -/
@[grind ←]
theorem safe_run (op : ArrayOp) (args : Args) : Safe (op.run args) s := by
  unfold run
  cases op <;> grind

end ArrayOp

/-- Builtins on queues are safe. -/
@[grind ←]
theorem QueueOp.safe_run (op : QueueOp) (args : Args) : Safe (op.run args) s := by
  have target : Safe (QueueOp.target args) s := by
    unfold QueueOp.target
    split <;> grind
  refine safe_bind target fun q t _ _ => safe_get_bind fun m _ _ => ?_
  generalize m.store.queue q = l
  cases op with
  | dequeue => cases l <;> grind
  | _ => grind

/-- Builtins on dates are safe. -/
@[grind ←]
theorem DateOp.safe_run (op : DateOp) (args : Args) : Safe (op.run args) s := by
  unfold run
  cases op <;> grind

namespace MathOp

@[grind ←]
theorem safe_least (a b : Value) (wantLess : Bool) : Safe (least a b wantLess) s :=
  safe_get_bind fun _ _ _ => safe_bind (safe_ofExcept fun _ _ => trivial) fun _ _ _ _ => safe_pure trivial

@[grind ←]
theorem safe_randomUnit : Safe randomUnit s := by
  unfold randomUnit
  grind

@[grind ←]
theorem safe_randomBetween (lo hi : Int) : Safe (randomBetween lo hi) s := by
  unfold randomBetween
  grind

/-- Builtins on numbers are safe, also when one crashes. -/
@[grind ←]
theorem safe_run (op : MathOp) (args : Args) : Safe (op.run args) s := by
  unfold run
  cases op <;> grind

end MathOp

namespace DebugOp

theorem safe_visibleVariables : Safe visibleVariables s := by
  refine safe_get_bind fun m _ _ => ?_
  grind

/-- Looking at the running script is safe. -/
@[grind ←]
theorem safe_run (op : DebugOp) (args : Args) : Safe (op.run args) s := by
  unfold run
  cases op with
  | vars => exact safe_visibleVariables
  | _ => grind

end DebugOp

namespace CryptoOp

@[grind ←]
theorem safe_randomBytes (n : Nat) : Safe (randomBytes n) s := by
  induction n generalizing s with
  | zero => exact safe_pure nofun
  | succ n ih => grind [randomBytes]

@[grind ←]
theorem safe_hashOf (password : Text) : Safe (hashOf password) s := by
  unfold hashOf
  grind

@[grind ←]
theorem safe_signed (args : Args) : Safe (signed args) s := by
  unfold signed
  refine safe_bind (Args.safe_node args 0) fun n t _ _ => safe_bind (safe_tree n) fun j u _ _ => ?_
  split
  · have plain (v : Store) (claims : List (Text × Json)) : Valid v claims := fun _ _ => ⟨trivial, trivial⟩
    refine safe_bind (Args.safe_text args 1) fun secret _ _ _ => safe_bind (Args.safe_text args 2) fun span _ _ _ => ?_
    refine safe_bind safe_host fun h _ _ _ => ?_
    grind
  · exact safe_throw _

/-- Builtins on digests, passwords and tokens are safe. -/
@[grind ←]
theorem safe_run (op : CryptoOp) (args : Args) : Safe (op.run args) s := by
  unfold run
  cases op <;> grind

end CryptoOp

/-- Sending mail is safe. -/
@[grind ←]
theorem MailOp.safe_run (op : MailOp) (args : Args) : Safe (op.run args) s := by
  unfold run
  cases op
  grind

namespace SocketOp

@[grind ←]
theorem safe_connectTo (url : Text) : Safe (connectTo url) s := by
  unfold connectTo
  extract_lets failure
  clear_value failure
  split <;> grind

/-- Builtins on connections are safe. -/
@[grind ←]
theorem safe_run (op : SocketOp) (args : Args) : Safe (op.run args) s := by
  refine safe_bind (Args.safe_text args 0) fun name t _ _ => ?_
  cases op <;> grind

end SocketOp

namespace FileOp

@[grind ←]
theorem safe_openFile (handle : Text) : Safe (Exec.openFile handle) s := by
  unfold Exec.openFile
  grind

@[grind ←]
theorem safe_updateFile (handle : Text) (r : FileTree × OpenFile) : Safe (Exec.updateFile handle r) s := safe_onHost _

@[grind ←]
theorem safe_openIn (path modeName : Text) : Safe (openIn path modeName) s := by
  unfold openIn
  extract_lets failure mode?
  clear_value failure mode?
  cases mode? with
  | none => exact safe_throw _
  | some mode =>
    refine safe_bind safe_host fun h t _ _ => ?_
    extract_lets files opened
    have safe_opened : ∀ r u, Safe (opened r) u := fun r u => by
      unfold opened
      grind
    clear_value files opened
    split
    · split <;> grind
    · split <;> grind

@[grind ←]
theorem safe_readLineOf (handle : Text) : Safe (readLineOf handle) s := by
  unfold readLineOf
  grind

@[grind ←]
theorem safe_atEndOf (handle : Text) : Safe (atEndOf handle) s := by
  unfold atEndOf
  grind

@[grind ←]
theorem safe_sizeOf (name : Text) : Safe (sizeOf name) s := by
  unfold sizeOf
  refine safe_bind safe_host fun h t _ _ => ?_
  extract_lets report
  have safe_report : ∀ path u, Safe (report path) u := fun path => by
    unfold report
    grind
  clear_value report
  grind

@[grind ←]
theorem safe_change (op path step : Text) (f : FileTree → Except FileTree.Trouble FileTree) :
    Safe (change op path step f) s := by
  unfold change
  grind

/-- Builtins on files are safe. -/
@[grind ←]
theorem safe_run (op : FileOp) (args : Args) : Safe (op.run args) s := by
  unfold run
  cases op <;> grind

end FileOp

namespace HttpOp

@[grind ←]
theorem safe_fetch (method url body : Text) (contentType : Option Text) (headers : Value) :
    Safe (fetch method url body contentType headers) s := by
  unfold fetch
  split
  · exact safe_throw _
  extract_lets a contents failure request
  have safe_request : ∀ given t, Safe (request given) t := fun given t => by
    unfold request
    grind
  clear_value request
  grind

/-- Requests to web servers are safe. -/
@[grind ←]
theorem safe_run (op : HttpOp) (args : Args) : Safe (op.run args) s := by
  refine safe_bind (Args.safe_text args 0) fun url t grew _ => ?_
  cases op <;> grind

end HttpOp

namespace ImageOp

@[grind ←]
theorem safe_target (args : Args) : Safe (target args) s := by
  unfold target
  grind

@[grind ←]
theorem safe_sizeOf (args : Args) (i : Nat) : Safe (sizeOf args i) s := by
  unfold sizeOf
  grind

@[grind ←]
theorem safe_newImage (q : Picture) : Safe (newImage q) s := by
  unfold newImage
  grind

/-- Builtins on pictures are safe. -/
@[grind ←]
theorem safe_run (op : ImageOp) (args : Args) : Safe (op.run args) s := by
  unfold run
  cases op <;> grind

end ImageOp

/-- Builtins on the environment and the clock are safe. -/
@[grind ←]
theorem SystemOp.safe_run (op : SystemOp) (args : Args) : Safe (op.run args) s := by
  unfold run
  cases op with
  | setEnv =>
    refine safe_bind (Args.safe_text args 0) fun name t _ _ => safe_bind safe_host fun h u _ _ => ?_
    grind
  | loadEnv =>
    refine safe_bind (Args.safe_textOr args 0 _) fun path t _ _ => safe_bind safe_host fun h u _ _ => ?_
    grind
  | _ => grind

namespace StrOp

@[grind ←]
theorem safe_charset (name : Text) : Safe (charset name) s := by
  unfold charset
  grind

@[grind ←]
theorem safe_piece (t : Text) (start stop : Int) : Safe (piece t start stop) s := by
  unfold piece
  grind

@[grind ←]
theorem safe_filling (t : Text) (n : Int) (pad : Text) : Safe (filling t n pad) s := by
  unfold filling
  grind

/-- Builtins on strings are safe. -/
@[grind ←]
theorem safe_run (op : StrOp) (args : Args) : Safe (op.run args) s := by
  unfold run
  cases op <;> grind

end StrOp

namespace ThreadOp

@[grind ←]
theorem safe_timerName (args : Args) : Safe (timerName args) s := by
  unfold timerName
  grind

@[grind ←]
theorem safe_startTimer (args : Args) : Safe (startTimer args) s := by
  have checked : ∀ v t, Safe (checkCallback v) t := fun v t => by
    unfold checkCallback
    grind
  refine safe_bind (safe_timerName args) fun name t _ _ => safe_bind (checked _ t) fun _ u _ _ => ?_
  extract_lets period start
  have started : ∀ x v, Safe (start x) v := fun x v => by
    unfold start
    grind
  clear_value start
  grind

@[grind ←]
theorem safe_ask (args : Args) (f : Option Timer → Value) : Safe (ask args f) s := by
  unfold ask
  grind

@[grind ←]
theorem safe_act (args : Args) (f : Scheduler → Text → Bool × Scheduler) : Safe (act args f) s := by
  unfold act
  grind

end ThreadOp

end Builtins

/-- A builtin other than waiting is safe. -/
theorem Builtin.safe_run {b : Builtin} (awake : b ≠ .thread .sleep) (sleep : Nat → Exec Unit) (args : Args) (s : Store) :
    Exec.Safe (b.run sleep args) s := by
  cases b with
  | thread op =>
    cases op with
    | sleep => exact absurd rfl awake
    | _ =>
      unfold Builtin.run ThreadOp.run
      grind
  | json op => exact JsonOp.safe_run op args
  | array op => exact ArrayOp.safe_run op args
  | queue op => exact QueueOp.safe_run op args
  | date op => exact DateOp.safe_run op args
  | math op => exact MathOp.safe_run op args
  | debug op => exact DebugOp.safe_run op args
  | crypto op => exact CryptoOp.safe_run op args
  | mail op => exact MailOp.safe_run op args
  | socket op => exact SocketOp.safe_run op args
  | file op => exact FileOp.safe_run op args
  | http op => exact HttpOp.safe_run op args
  | image op => exact ImageOp.safe_run op args
  | system op => exact SystemOp.safe_run op args
  | str op => exact StrOp.safe_run op args

end ScriptEngine
