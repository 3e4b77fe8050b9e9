import ScriptEngine.Eval.Declare
import ScriptEngine.Eval.Member
import ScriptEngine.Eval.Operator
import ScriptEngine.Builtin.Arguments
import ScriptEngine.Store.Shared
/-!
# What operations on memory leave alone

Functions and frames lie in memory beside the data of scripts. Operations on data change neither; operations
on variables change what is in frames, but no function, and not how frames lie in each other.
-/

namespace ScriptEngine

/-- The functions and frames in memory. -/
def Store.code (s : Store) : Array FunctionData × Array Frame := (s.functions, s.frames)

/-- The functions in memory, and for each frame the one around it. -/
def Store.lexical (s : Store) : Array FunctionData × Array (Option Nat) := (s.functions, s.frames.map Frame.outer)

namespace StoreM

variable {α β γ δ : Type} {view : Store → γ}

/-! ## Computations that leave a part of memory alone -/

/-- A computation leaves a part of memory as it was, also when it fails. -/
def Leaves (view : Store → γ) (x : StoreM α) : Prop := ∀ s, view (x.run.run s).2 = view s

/-- What leaves a part alone leaves alone all that is seen of the part. -/
theorem Leaves.comp {x : StoreM α} (h : Leaves view x) (f : γ → δ) : Leaves (f ∘ view) x :=
  fun s => congrArg f (h s)

/-- What leaves functions and frames alone leaves functions alone. -/
@[grind ←]
theorem Leaves.functions {x : StoreM α} (h : Leaves Store.code x) : Leaves Store.functions x :=
  h.comp Prod.fst

/-- What leaves functions and frames alone leaves alone how frames lie in each other. -/
@[grind ←]
theorem Leaves.lexical {x : StoreM α} (h : Leaves Store.code x) : Leaves Store.lexical x :=
  h.comp fun c => (c.1, c.2.map Frame.outer)

theorem Leaves.functions_of_lexical {x : StoreM α} (h : Leaves Store.lexical x) : Leaves Store.functions x :=
  h.comp Prod.fst

/-- A result changes nothing. -/
@[grind ←]
theorem leaves_pure (a : α) : Leaves view (pure a) := fun _ => rfl

/-- A fault changes nothing. -/
@[grind ←]
theorem leaves_throw (f : Fault) : Leaves view (throw f : StoreM α) := fun _ => rfl

/-- A look at memory changes nothing. -/
@[grind ←]
theorem leaves_get : Leaves view (get : StoreM Store) := fun _ => rfl

/-- A change of memory that keeps a part leaves the part alone. -/
theorem leaves_modify {g : Store → Store} (h : ∀ s, view (g s) = view s) :
    Leaves view (modify g : StoreM PUnit) := h

/-- A change of memory with a result that keeps a part leaves the part alone. -/
theorem leaves_modifyGet {g : Store → α × Store} (h : ∀ s, view (g s).2 = view s) :
    Leaves view (modifyGet g : StoreM α) := h

/-- Two computations that leave a part alone leave it alone one after the other. -/
@[grind ←]
theorem leaves_bind {x : StoreM α} {f : α → StoreM β} (hx : Leaves view x)
    (hf : ∀ a, Leaves view (f a)) : Leaves view (x >>= f) := by
  intro s
  have h := hx s
  show view ((ExceptT.run (x >>= f)).run s).2 = view s
  rw [ExceptT.run_bind, StateT.run_bind]
  obtain ⟨r, s', hr⟩ : ∃ r s', StateT.run (ExceptT.run x) s = (r, s') := ⟨_, _, rfl⟩
  rw [hr] at h ⊢
  cases r with
  | ok a => exact (hf a s').trans h
  | error e => exact h

/-- A computation that leaves a part alone does so with a handler that does. -/
@[grind ←]
theorem leaves_tryCatch {x : StoreM α} {f : Fault → StoreM α} (hx : Leaves view x)
    (hf : ∀ e, Leaves view (f e)) : Leaves view (tryCatch x f) := by
  intro s
  have h := hx s
  show view ((ExceptT.run (tryCatch x f)).run s).2 = view s
  rw [ExceptT.run_tryCatch, StateT.run_bind]
  obtain ⟨r, s', hr⟩ : ∃ r s', StateT.run (ExceptT.run x) s = (r, s') := ⟨_, _, rfl⟩
  rw [hr] at h ⊢
  cases r with
  | ok a => exact h
  | error e => exact (hf e s').trans h

/-- One computation for every item of a list leaves a part alone when each of them does. -/
@[grind ←]
theorem leaves_mapM {f : α → StoreM β} (hf : ∀ a, Leaves view (f a)) (l : List α) :
    Leaves view (l.mapM f) := by
  induction l with
  | nil => exact leaves_pure _
  | cons a l ih =>
    rw [List.mapM_cons]
    exact leaves_bind (hf a) fun _ => leaves_bind ih fun _ => leaves_pure _

@[grind ←]
theorem leaves_kindOf (v : Value) : Leaves view (kindOf v) := fun _ => rfl

@[grind ←]
theorem leaves_inspect (v : Value) : Leaves view (inspect v) := fun _ => rfl

/-! ## Json data -/

section JsonData

/-- Data is settled in its objects and buffers, where it lies. -/
theorem leaves_normalizeTo_of (object : ∀ (s : Store) a es, view { s with objects := s.objects.setIfInBounds a es } = view s)
    (buffer : ∀ (s : Store) b f, view { s with buffers := s.buffers.modify b f } = view s) (depth : Nat) (n : Node) :
    Leaves view (normalizeTo depth n) := by
  induction depth generalizing n with
  | zero => cases n <;> exact leaves_pure _
  | succ depth ih =>
    cases n with
    | object a =>
      refine leaves_bind leaves_get fun _ => leaves_bind (leaves_mapM (fun e => ?_) _) fun es => ?_
      · exact leaves_bind (ih e.2) fun _ => leaves_pure _
      · exact leaves_bind (leaves_modify fun s => object s a es) fun _ => leaves_pure _
    | list b len =>
      refine leaves_bind leaves_get fun _ => leaves_bind (leaves_mapM ih _) fun items => ?_
      exact leaves_bind (leaves_modify fun s => buffer s b _) fun _ => leaves_pure _
    | _ => exact leaves_pure _

/-- A view of memory that shows no json data. -/
def BlindToJson (view : Store → γ) : Prop :=
  ∀ (s : Store) boxes objects buffers, view { s with boxes, objects, buffers } = view s

variable (blind : BlindToJson view)

include blind

theorem leaves_newBox (n : Node) : Leaves view (newBox n) := leaves_modifyGet fun _ => blind _ _ _ _

theorem leaves_setBox (a : Nat) (n : Node) : Leaves view (setBox a n) := leaves_modify fun _ => blind _ _ _ _

theorem leaves_newObject (es : List (Text × Node)) : Leaves view (newObject es) :=
  leaves_modifyGet fun _ => blind _ _ _ _

theorem leaves_setObject (a : Nat) (es : List (Text × Node)) : Leaves view (setObject a es) :=
  leaves_modify fun _ => blind _ _ _ _

theorem leaves_newList (items : List Node) : Leaves view (newList items) :=
  leaves_modifyGet fun _ => blind _ _ _ _

theorem leaves_newGrownList (items : List Node) : Leaves view (newGrownList items) :=
  leaves_modifyGet fun _ => blind _ _ _ _

theorem leaves_setPlace (buffer i : Nat) (n : Node) : Leaves view (setPlace buffer i n) :=
  leaves_modify fun _ => blind _ _ _ _

theorem leaves_append (buffer len : Nat) (n : Node) : Leaves view (append buffer len n) := by
  refine leaves_bind leaves_get fun s => ?_
  dsimp only
  split
  · exact leaves_bind (leaves_setPlace blind _ _ _) fun _ => leaves_pure _
  · exact leaves_modifyGet fun _ => blind _ _ _ _

end JsonData

mutual

/-- A json tree is put into memory beside everything else. -/
theorem leaves_ofTree (blind : BlindToJson view) : (j : Json) → Leaves view (ofTree j)
  | .null | .bool _ | .int _ | .double _ | .text _ => leaves_pure _
  | .list items => leaves_bind (leaves_ofTrees blind items) fun ns => leaves_newGrownList blind ns
  | .object es => leaves_bind (leaves_ofEntries blind es) fun ns => leaves_newObject blind ns

theorem leaves_ofTrees (blind : BlindToJson view) : (js : List Json) → Leaves view (ofTrees js)
  | [] => leaves_pure _
  | j :: js =>
    leaves_bind (leaves_ofTree blind j) fun _ => leaves_bind (leaves_ofTrees blind js) fun _ => leaves_pure _

theorem leaves_ofEntries (blind : BlindToJson view) : (es : List (Text × Json)) → Leaves view (ofEntries es)
  | [] => leaves_pure _
  | (_, j) :: es =>
    leaves_bind (leaves_ofTree blind j) fun _ => leaves_bind (leaves_ofEntries blind es) fun _ => leaves_pure _

end

section JsonData

variable (blind : BlindToJson view)

include blind

theorem leaves_normalizeTo (depth : Nat) (n : Node) : Leaves view (normalizeTo depth n) :=
  leaves_normalizeTo_of (fun _ _ _ => blind _ _ _ _) (fun _ _ _ => blind _ _ _ _) depth n

theorem leaves_normalize (n : Node) : Leaves view (normalize n) :=
  leaves_bind leaves_get fun _ => leaves_normalizeTo blind _ n

theorem leaves_toNodeTo (depth : Nat) (v : Value) : Leaves view (toNodeTo depth v) := by
  induction depth generalizing v with
  | zero => cases v <;> simp only [toNodeTo] <;> grind
  | succ depth ih =>
    cases v with
    | array a =>
      exact leaves_bind leaves_get fun _ => leaves_bind (leaves_mapM ih _) fun ns => leaves_newList blind ns
    | queue a =>
      exact leaves_bind leaves_get fun _ => leaves_bind (leaves_mapM ih _) fun ns => leaves_newList blind ns
    | _ => simp only [toNodeTo]; grind

theorem leaves_toNode (v : Value) : Leaves view (toNode v) :=
  leaves_bind leaves_get fun _ => leaves_toNodeTo blind _ v

theorem leaves_ofNode (n : Node) : Leaves view (ofNode n) := by
  refine leaves_bind (leaves_normalize blind n) fun n => ?_
  cases n with
  | object _ | list _ _ => exact leaves_newBox blind _
  | _ => exact leaves_pure _

theorem leaves_cloneTo (depth : Nat) (n : Node) : Leaves view (cloneTo depth n) := by
  induction depth generalizing n with
  | zero => cases n <;> exact leaves_pure _
  | succ depth ih =>
    cases n with
    | object a =>
      refine leaves_bind leaves_get fun _ => leaves_bind (leaves_mapM (fun e => ?_) _) fun es => ?_
      · exact leaves_bind (ih e.2) fun _ => leaves_pure _
      · exact leaves_newObject blind es
    | list b len =>
      exact leaves_bind leaves_get fun _ => leaves_bind (leaves_mapM ih _) fun ns => leaves_newList blind ns
    | _ => exact leaves_pure _

theorem leaves_clone (n : Node) : Leaves view (clone n) :=
  leaves_bind leaves_get fun _ => leaves_cloneTo blind _ n

theorem leaves_parseJson (t : Text) : Leaves view (parseJson t) := by
  unfold parseJson
  split
  · exact leaves_bind (leaves_ofTree blind _) fun n => leaves_newBox blind n
  · exact leaves_throw _

theorem leaves_jsonOfText (t : Text) : Leaves view (jsonOfText t) := by
  unfold jsonOfText
  dsimp only
  split
  · exact leaves_parseJson blind _
  · exact leaves_newBox blind _

end JsonData

/-! ## Arrays and shapes -/

/-- A view of memory that shows neither json data nor arrays. -/
def BlindToData (view : Store → γ) : Prop :=
  ∀ (s : Store) arrays boxes objects buffers, view { s with arrays, boxes, objects, buffers } = view s

theorem BlindToData.json (blind : BlindToData view) : BlindToJson view := fun s => blind s s.arrays

theorem leaves_objectEntries (what : Text) (v : Value) : Leaves view (objectEntries what v) :=
  leaves_bind leaves_get fun _ => by grind

section Data

variable (blind : BlindToData view)

include blind

theorem leaves_newArray (d : ArrayData) : Leaves view (newArray d) := leaves_modifyGet fun _ => blind _ _ _ _ _

theorem leaves_modifyCells (a : Nat) (f : Cells → Cells) : Leaves view (modifyCells a f) := leaves_modify fun _ => blind _ _ _ _ _

theorem leaves_repack (target : Kind) (d : ArrayData) : Leaves view (repack target d) := by
  have made := leaves_newArray blind
  exact leaves_bind leaves_get fun _ => by grind

/-- Conversion to a kind makes data, and changes nothing else. -/
theorem leaves_coerce (v : Value) (target : Kind) : Leaves view (coerce v target) := by
  have made := leaves_newArray blind
  have boxed := leaves_newBox blind.json
  have native := leaves_toNode blind.json
  have settled := leaves_normalize blind.json
  have read := leaves_ofNode blind.json
  have parsed := leaves_jsonOfText blind.json
  have repacked := leaves_repack blind
  have failed (source target : Kind) : Leaves view (cannotConvert source target : StoreM Value) := leaves_throw _
  refine leaves_bind (leaves_kindOf v) fun source => ?_
  split
  · exact leaves_pure _
  split
  · exact leaves_pure _
  unfold newArrayOf
  split <;> grind

theorem leaves_forElement (element : Kind) (cells : Cells) (v : Value) : Leaves view (forElement element cells v) := by
  have converted := leaves_coerce blind
  unfold forElement
  grind

theorem leaves_arrayPut (a i : Nat) (v : Value) : Leaves view (arrayPut a i v) := by
  have changed := leaves_modifyCells blind
  unfold arrayPut
  grind

/-- Writing an element of an array changes the array alone. -/
theorem leaves_arraySet (a : Nat) (i : Int) (v : Value) : Leaves view (arraySet a i v) := by
  have write (w : Value) : Leaves view (arrayPut a i.toNat w) := leaves_arrayPut blind a i.toNat w
  have changed := leaves_modifyCells blind
  have element := leaves_forElement blind
  refine leaves_bind leaves_get fun s => ?_
  grind

section Fields

variable {conform : Shape → Value → StoreM Value}

theorem leaves_conformField (h : ∀ shape v, Leaves view (conform shape v)) (f : FieldShape) (v : Value) :
    Leaves view (conformField conform f v) := by
  obtain ⟨name, kind, shape, mandatory, maxLength, fallback⟩ := f
  simp only [conformField]
  split
  · grind
  split
  · grind
  · refine leaves_bind (leaves_kindOf v) fun source => ?_
    refine leaves_bind (leaves_tryCatch (leaves_coerce blind v kind) fun _ => leaves_throw _) fun w => ?_
    grind

theorem leaves_conformGiven (h : ∀ shape v, Leaves view (conform shape v)) (fields : List FieldShape)
    (given : List (Text × Node)) : Leaves view (conformGiven conform fields given) := by
  induction given with
  | nil => exact leaves_pure _
  | cons e rest ih =>
    unfold conformGiven
    have field := leaves_conformField blind h
    have read := leaves_ofNode blind.json
    have native := leaves_toNode blind.json
    split <;> grind

theorem leaves_fillFields (h : ∀ shape v, Leaves view (conform shape v)) (fields : List FieldShape) (out : List (Text × Node)) :
    Leaves view (fillFields conform fields out) := by
  induction fields generalizing out with
  | nil => exact leaves_pure out
  | cons f rest ih =>
    unfold fillFields
    have field := leaves_conformField blind h
    have native := leaves_toNode blind.json
    have cloned := leaves_clone blind.json
    grind

end Fields

theorem leaves_conformElements {conform : Value → StoreM Value} (h : ∀ v, Leaves view (conform v)) (a i : Nat) (vs : List Value) :
    Leaves view (conformElements conform a i vs) := by
  induction vs generalizing i with
  | nil => exact leaves_pure _
  | cons v rest ih => exact leaves_bind (by grind) fun w => leaves_bind (leaves_arraySet blind a i w) fun _ => ih (i + 1)

theorem leaves_conformTo (depth : Nat) (shape : Shape) (v : Value) : Leaves view (conformTo depth shape v) := by
  induction depth generalizing shape v with
  | zero => exact leaves_pure v
  | succ depth ih =>
    have boxed := leaves_newBox blind.json
    have object := leaves_newObject blind.json
    have entries (what : Text) (v : Value) : Leaves view (objectEntries what v) := leaves_objectEntries what v
    cases shape with
    | map sorted => unfold conformTo; grind
    | record fields =>
      have given := leaves_conformGiven blind ih fields
      have filled := leaves_fillFields blind ih fields
      unfold conformTo
      grind
    | array element =>
      have elements := leaves_conformElements blind (ih element)
      unfold conformTo
      grind

/-- Making a value fit a shape changes neither variables nor queues, functions or pictures. -/
theorem leaves_conform (shape : Shape) (v : Value) : Leaves view (conform shape v) := leaves_conformTo blind _ shape v

end Data

/-- Arrays and json data lie in memory beside functions and frames. -/
theorem blind_code : BlindToData Store.code := fun _ _ _ _ _ => rfl

/-! ## Making and replacing data -/

@[grind ←]
theorem code_newArray (d : ArrayData) : Leaves Store.code (newArray d) := leaves_newArray blind_code d

@[grind ←]
theorem code_newQueue (items : List Value) : Leaves Store.code (newQueue items) :=
  leaves_modifyGet fun _ => rfl

@[grind ←]
theorem code_setQueue (a : Nat) (items : List Value) : Leaves Store.code (setQueue a items) :=
  leaves_modify fun _ => rfl

@[grind ←]
theorem code_newBox (n : Node) : Leaves Store.code (newBox n) := leaves_newBox blind_code.json n

@[grind ←]
theorem code_setBox (a : Nat) (n : Node) : Leaves Store.code (setBox a n) := leaves_setBox blind_code.json a n

@[grind ←]
theorem code_newObject (es : List (Text × Node)) : Leaves Store.code (newObject es) :=
  leaves_newObject blind_code.json es

@[grind ←]
theorem code_setObject (a : Nat) (es : List (Text × Node)) : Leaves Store.code (setObject a es) :=
  leaves_setObject blind_code.json a es

@[grind ←]
theorem code_newList (items : List Node) : Leaves Store.code (newList items) :=
  leaves_newList blind_code.json items

@[grind ←]
theorem code_setPlace (buffer i : Nat) (n : Node) : Leaves Store.code (setPlace buffer i n) :=
  leaves_setPlace blind_code.json buffer i n

@[grind ←]
theorem code_newPicture (p : Picture) : Leaves Store.code (newPicture p) := leaves_modifyGet fun _ => rfl

@[grind ←]
theorem code_modifyCells (a : Nat) (f : Cells → Cells) : Leaves Store.code (modifyCells a f) :=
  leaves_modifyCells blind_code a f

@[grind ←]
theorem code_append (buffer len : Nat) (n : Node) : Leaves Store.code (append buffer len n) :=
  leaves_append blind_code.json buffer len n

@[grind ←]
theorem code_ofTree (j : Json) : Leaves Store.code (ofTree j) := leaves_ofTree blind_code.json j

@[grind ←]
theorem code_ofTrees (js : List Json) : Leaves Store.code (ofTrees js) := leaves_ofTrees blind_code.json js

@[grind ←]
theorem code_normalize (n : Node) : Leaves Store.code (normalize n) := leaves_normalize blind_code.json n

@[grind ←]
theorem code_toNode (v : Value) : Leaves Store.code (toNode v) := leaves_toNode blind_code.json v

@[grind ←]
theorem code_ofNode (n : Node) : Leaves Store.code (ofNode n) := leaves_ofNode blind_code.json n

@[grind ←]
theorem code_clone (n : Node) : Leaves Store.code (clone n) := leaves_clone blind_code.json n

@[grind ←]
theorem code_parseJson (t : Text) : Leaves Store.code (parseJson t) := leaves_parseJson blind_code.json t

@[grind ←]
theorem code_newArrayOf (items : List Value) : Leaves Store.code (newArrayOf items) := code_newArray _

@[grind ←]
theorem code_newBytes (bytes : List UInt8) : Leaves Store.code (newBytes bytes) := code_newArray _

@[grind ←]
theorem code_newTexts (ts : List Text) : Leaves Store.code (newTexts ts) := code_newArray _

@[grind ←]
theorem code_newZeros (k : Kind) (n : Nat) (fixed : Bool) : Leaves Store.code (newZeros k n fixed) :=
  code_newArray _

/-! ## Conversion and equality -/

/-- Conversion to a kind makes data, but neither functions nor frames. -/
@[grind ←]
theorem code_coerce (v : Value) (target : Kind) : Leaves Store.code (coerce v target) := leaves_coerce blind_code v target

@[grind ←]
theorem code_equalNodes (m n : Node) : Leaves Store.code (equalNodes m n) := by
  unfold equalNodes
  grind

theorem code_allEqual {eq : Value → Value → StoreM Bool} (h : ∀ a b, Leaves Store.code (eq a b))
    (as bs : List Value) : Leaves Store.code (allEqual eq as bs) := by
  induction as generalizing bs with
  | nil => cases bs <;> exact leaves_pure _
  | cons a as ih =>
    cases bs with
    | nil => exact leaves_pure _
    | cons b bs => exact leaves_bind (h a b) fun _ => by grind

theorem code_equalTo (depth : Nat) (a b : Value) : Leaves Store.code (equalTo depth a b) := by
  induction depth generalizing a b with
  | zero => exact leaves_pure _
  | succ depth ih =>
    refine leaves_bind leaves_get fun s => ?_
    dsimp only
    split
    · exact leaves_pure _
    split
    · grind
    split <;> first | exact leaves_pure _ | exact code_equalNodes _ _ | exact code_allEqual ih _ _

@[grind ←]
theorem code_equal (a b : Value) : Leaves Store.code (equal a b) :=
  leaves_bind leaves_get fun _ => code_equalTo _ a b

/-! ## Arrays and paths -/

@[grind ←]
theorem code_arrayGet (a : Nat) (i : Int) : Leaves Store.code (arrayGet a i) :=
  leaves_bind leaves_get fun _ => by grind

/-- Writing an element of an array changes neither functions nor frames. -/
@[grind ←]
theorem code_arraySet (a : Nat) (i : Int) (v : Value) : Leaves Store.code (arraySet a i v) := leaves_arraySet blind_code a i v

@[grind ←]
theorem code_arrayAppend (a : Nat) (v : Value) : Leaves Store.code (arrayAppend a v) := by
  unfold arrayAppend
  grind

@[grind ←]
theorem code_arrayResize (a n : Nat) : Leaves Store.code (arrayResize a n) := by
  unfold arrayResize
  grind

/-- Writing behind some steps changes neither functions nor frames. -/
theorem code_setAlong (n : Node) (steps : List Path.Step) (v : Node) :
    Leaves Store.code (setAlong n steps v) := by
  induction steps generalizing n v with
  | nil => exact leaves_pure v
  | cons step rest ih =>
    cases step with
    | index i =>
      unfold setAlong
      extract_lets write enter
      have code_write : ∀ place, Leaves Store.code (write place) := fun (b, len) =>
        leaves_bind leaves_get fun s => leaves_bind (ih _ v) fun child => by grind
      clear_value write
      have code_enter : ∀ place, Leaves Store.code (enter place) := fun (b, len) => by
        unfold enter
        grind
      clear_value enter
      grind
    | key k =>
      unfold setAlong
      extract_lets into
      have into_leaves : ∀ a, Leaves Store.code (into a) := fun a =>
        leaves_bind leaves_get fun s => leaves_bind (ih _ v) fun child => by grind
      clear_value into
      grind

@[grind ←]
theorem code_pathSet (box : Nat) (path : Text) (v : Node) : Leaves Store.code (pathSet box path v) := by
  unfold pathSet
  split
  · grind
  · grind
  · exact leaves_bind leaves_get fun _ => leaves_bind (code_setAlong _ _ v) fun n => code_setBox box n

@[grind ←]
theorem code_removePlace (b len i : Nat) : Leaves Store.code (removePlace b len i) :=
  leaves_bind (leaves_modify fun _ => rfl) fun _ => leaves_pure _

@[grind ←]
theorem code_pathRemove (box : Nat) (path : Text) : Leaves Store.code (pathRemove box path) := by
  unfold pathRemove
  split
  · exact leaves_pure _
  split
  · exact leaves_pure _
  refine leaves_bind leaves_get fun s => ?_
  split
  · grind
  · split
    · exact leaves_pure _
    split
    · exact leaves_pure _
    refine leaves_bind (code_removePlace _ _ _) fun shorter => ?_
    split
    · grind
    · exact leaves_tryCatch (leaves_bind (code_pathSet _ _ _) fun _ => leaves_pure _) fun _ => leaves_pure _
  · exact leaves_pure _

@[grind ←]
theorem code_sizeOf (n : Node) : Leaves Store.code (sizeOf n) := by
  unfold sizeOf
  split <;> grind

/-! ## Shapes -/

@[grind ←]
theorem code_objectEntries (what : Text) (v : Value) : Leaves Store.code (objectEntries what v) :=
  leaves_objectEntries what v

/-- Making a value fit a shape changes neither functions nor frames. -/
@[grind ←]
theorem code_conform (shape : Shape) (v : Value) : Leaves Store.code (conform shape v) := leaves_conform blind_code shape v

/-! ## Data of yaml documents -/

mutual

theorem code_place : (d : Yaml.Datum) → (p : Placed) → Leaves Store.code ((place d).run p)
  | .list items, p => by
    refine leaves_bind (code_placeAll items p) fun r => ?_
    exact leaves_bind (code_newList r.1) fun n => leaves_pure (n, r.2)
  | .object es, p => by
    refine leaves_bind (code_placeEntries es p) fun r => ?_
    exact leaves_bind (code_newObject r.1) fun n => leaves_pure (n, r.2)
  | .shared number d, p => by
    have inner := code_place d p
    rw [place, StateT.run_bind, StateT.run_get, pure_bind]
    split
    · exact leaves_pure _
    · exact leaves_bind inner fun r => leaves_pure _
  | .null, _ | .bool _, _ | .int _, _ | .float _, _ | .text _, _ | .bytes _, _ | .moment _, _ => leaves_pure _

theorem code_placeAll : (ds : List Yaml.Datum) → (p : Placed) → Leaves Store.code ((placeAll ds).run p)
  | [], _ => leaves_pure _
  | d :: ds, p =>
    leaves_bind (code_place d p) fun r => leaves_bind (code_placeAll ds r.2) fun _ => leaves_pure _

theorem code_placeEntries : (es : List (Text × Yaml.Datum)) → (p : Placed) →
    Leaves Store.code ((placeEntries es).run p)
  | [], _ => leaves_pure _
  | (_, d) :: es, p =>
    leaves_bind (code_place d p) fun r => leaves_bind (code_placeEntries es r.2) fun _ => leaves_pure _

end

@[grind ←]
theorem code_ofDatum (d : Yaml.Datum) : Leaves Store.code (ofDatum d) :=
  leaves_bind (code_place d []) fun _ => leaves_pure _

/-! ## Arguments of builtins -/

@[grind ←]
theorem code_prepareOne (name : Text) (p : Signature.Param) (v : Value) :
    Leaves Store.code (Signature.prepareOne name p v) := by
  unfold Signature.prepareOne
  split
  · grind
  refine leaves_bind (leaves_kindOf v) fun kind => ?_
  split <;> grind

theorem code_prepareAll (name : Text) (ps : List Signature.Param) (args : List Value) :
    Leaves Store.code (Signature.prepareAll name ps args) := by
  induction ps generalizing args with
  | nil => exact leaves_pure _
  | cons p ps ih =>
    exact leaves_bind (code_prepareOne name p _) fun _ => leaves_bind (ih _) fun _ => leaves_pure _

/-- Fitting arguments to a contract changes neither functions nor frames. -/
@[grind ←]
theorem code_prepare (s : Signature) (args : List Value) : Leaves Store.code (s.prepare args) := by
  have all := code_prepareAll s.name s.params args
  unfold Signature.prepare
  grind

end StoreM

/-! ## Operators -/

namespace Eval

open StoreM

variable {α γ : Type} {view : Store → γ}

@[grind ←]
theorem leaves_wrong (message : Text) : Leaves view (wrong message : StoreM α) := leaves_throw _

@[grind ←]
theorem code_unary (op : UnaryOp) (v : Value) : Leaves Store.code (unary op v) := by
  refine leaves_bind (leaves_kindOf v) fun kind => ?_
  dsimp only
  split <;> grind

@[grind ←]
theorem code_binary (op : BinaryOp) (a b : Value) : Leaves Store.code (binary op a b) := by
  unfold binary
  split
  · grind
  · grind
  refine leaves_bind leaves_get fun s => ?_
  grind

@[grind ←]
theorem code_placeOf (index : Value) : Leaves Store.code (placeOf index) := by
  unfold placeOf
  grind

@[grind ←]
theorem code_keyOf (index : Value) : Leaves Store.code (keyOf index) := by
  unfold keyOf
  grind

/-- Reading an element changes neither functions nor frames. -/
@[grind ←]
theorem code_readIndex (container index : Value) : Leaves Store.code (readIndex container index) := by
  unfold readIndex
  split
  · grind
  · refine leaves_bind (code_placeOf index) fun i => ?_
    grind
  · refine leaves_bind leaves_get fun s => ?_
    split
    · refine leaves_bind (code_keyOf index) fun k => ?_
      grind
    · refine leaves_bind (code_placeOf index) fun i => ?_
      grind
    · grind
  · grind

/-- Writing an element changes neither functions nor frames. -/
@[grind ←]
theorem code_writeIndex (container index v : Value) : Leaves Store.code (writeIndex container index v) := by
  unfold writeIndex
  split
  · grind
  · refine leaves_bind leaves_get fun s => ?_
    split
    · refine leaves_bind (code_keyOf index) fun k => ?_
      grind
    · refine leaves_bind (code_placeOf index) fun i => ?_
      grind
    · grind
  · grind

@[grind ←]
theorem code_lengthOf (v : Value) : Leaves Store.code (lengthOf v) := by
  unfold lengthOf
  dsimp only
  split <;> grind

@[grind ←]
theorem code_sequence (v : Value) : Leaves Store.code (sequence v) := by
  refine leaves_bind leaves_get fun s => ?_
  dsimp only
  split <;> grind

/-! ## Declared arrays and members -/

@[grind ←]
theorem leaves_assigning {x : StoreM α} (hx : Leaves view x) (v : Value) (kind : Kind) (name : Text) :
    Leaves view (assigning v kind name x) :=
  leaves_bind (leaves_kindOf v) fun _ => leaves_tryCatch hx fun _ => leaves_throw _

theorem code_buildArray (element : Kind) (dims : List (Option Nat)) :
    Leaves Store.code (buildArray element dims) := by
  induction dims with
  | nil => exact code_newZeros _ _ _
  | cons d rest ih =>
    cases rest with
    | nil => exact code_newZeros _ _ _
    | cons e rest => exact leaves_bind (leaves_mapM (fun _ => ih) _) fun items => code_newArray _

theorem code_fillFrom (a i : Nat) (vs : List Value) : Leaves Store.code (fillFrom a i vs) := by
  induction vs generalizing i with
  | nil => exact leaves_pure _
  | cons v rest ih => exact leaves_bind (code_arraySet a i v) fun _ => ih (i + 1)

/-- Making a declared array changes neither functions nor frames. -/
@[grind ←]
theorem code_initialArray (typeName : Text) (dims : List (Option Nat)) (v : Value) :
    Leaves Store.code (initialArray typeName dims v) := by
  have fill := code_fillFrom
  unfold initialArray
  extract_lets element size copy
  have code_copy : ∀ items, Leaves Store.code (copy items) := fun items => by
    unfold copy
    grind
  clear_value copy
  split
  · exact code_buildArray element dims
  refine leaves_bind (leaves_kindOf v) fun kind => ?_
  refine leaves_bind (leaves_tryCatch (code_coerce v .array) fun _ => leaves_throw _) fun source => ?_
  grind

theorem code_setBelow (base : Text) (path : List Text) (v : Node) (done : Nat) (names : List Text)
    (a : Nat) : Leaves Store.code (setBelow base path v done names a) := by
  fun_induction setBelow base path v done names a <;> grind

/-! ## Variables -/

/-- Every change of what is in a frame leaves functions alone, and how frames lie in each other. -/
@[grind ←]
theorem lexical_modifyFrame (a : Nat) (f : List (Text × Binding) → List (Text × Binding)) :
    Leaves Store.lexical (modifyFrame a f) := by
  refine leaves_modify fun s => Prod.ext rfl ?_
  refine Array.ext (by simp [Store.lexical]) fun i hi hi' => ?_
  simp only [Store.lexical, Array.getElem_map, Array.getElem_modify]
  split <;> rfl

@[grind ←]
theorem leaves_valueOf (e : Scope) (name : Text) : Leaves view (valueOf e name) :=
  leaves_bind leaves_get fun _ => by grind

@[grind ←]
theorem lexical_define (e : Scope) (name : Text) (v : Value) :
    Leaves Store.lexical (define e name v) := lexical_modifyFrame _ _

@[grind ←]
theorem lexical_defineConst (e : Scope) (name : Text) (v : Value) :
    Leaves Store.lexical (defineConst e name v) := lexical_modifyFrame _ _

@[grind ←]
theorem lexical_defineGlobal (e : Scope) (name : Text) (v : Value) :
    Leaves Store.lexical (defineGlobal e name v) := lexical_modifyFrame _ _

@[grind ←]
theorem lexical_assign (e : Scope) (name : Text) (v : Value) :
    Leaves Store.lexical (assign e name v) := by
  have coerced v k := (code_coerce v k).lexical
  have conformed shape v := (code_conform shape v).lexical
  refine leaves_bind leaves_get fun s => ?_
  split
  · grind
  extract_lets source write shape convert
  have lexical_shape : ∀ w, Leaves Store.lexical (shape w) := fun w => by
    unfold shape write
    grind
  clear_value shape
  have lexical_convert : ∀ u, Leaves Store.lexical (convert u) := fun u => by
    unfold convert
    split
    · exact leaves_bind (leaves_pure v) lexical_shape
    · exact leaves_bind (leaves_tryCatch (coerced v _) fun _ => leaves_throw _) lexical_shape
  clear_value convert
  grind

@[grind ←]
theorem lexical_declareKind (scope : Scope) (name : Text) (kind : Kind) (v : Value)
    (constant : Bool) : Leaves Store.lexical (declareKind scope name kind v constant) := by
  have typed : Leaves Store.lexical (defineTyped scope name kind v) :=
    leaves_bind (code_coerce v kind).lexical fun _ => lexical_modifyFrame _ _
  have coerced := (code_coerce v kind).lexical
  unfold declareKind
  grind

/-- A declaration leaves functions alone, and how frames lie in each other. -/
@[grind ←]
theorem lexical_declareAs (scope : Scope) (name : Text) (kind : Kind) (shape : Option Shape)
    (v : Value) (constant : Bool) :
    Leaves Store.lexical (declareAs scope name kind shape v constant) := by
  unfold declareAs
  cases shape with
  | none => exact lexical_declareKind scope name kind v constant
  | some shape =>
    refine leaves_bind (leaves_assigning (code_coerce v kind).lexical v kind name) fun w => ?_
    split
    · exact leaves_bind (code_conform shape w).lexical fun w => lexical_defineConst _ _ _
    · refine leaves_bind (code_coerce w kind).lexical fun w => ?_
      refine leaves_bind (code_conform shape w).lexical fun w => ?_
      exact leaves_bind (code_coerce w kind).lexical fun w => lexical_modifyFrame _ _

end Eval

end ScriptEngine
