import ScriptEngine.Proofs.DateTexts
import ScriptEngine.Proofs.SteadyShapes
/-!
# Values that are made to fit again

A value that a steady shape takes is made to fit it without a fault, and nothing changes but that records are copied: the
copies hold the same data. So it is with what a value was made into so that it fits a shape: it is made to fit the shape again
with each assignment to a member, as long as json data is read back as the kind that each field is declared with. Dates are, when their
years have four digits and their offsets show.
-/

namespace ScriptEngine

/-! ## Steady shapes -/

/-- Kinds whose values lie in memory as json data that is read back as such values. -/
def Kind.isSteady : Kind → Bool
  | .bool | .int | .long | .double | .string | .date | .json | .array => true
  | _ => false

mutual

/-- A shape is steady: fields are of kinds that json data is read back as, and there are no arrays of arrays. -/
def Shape.Steady : Shape → Prop
  | .map _ => True
  | .record fields => FieldShape.AllSteady fields
  | .array element => element.isArray = false ∧ element.Steady

/-- All fields are steady. -/
def FieldShape.AllSteady : List FieldShape → Prop
  | [] => True
  | f :: fs => f.Steady ∧ FieldShape.AllSteady fs

/-- A field is steady. -/
def FieldShape.Steady : FieldShape → Prop
  | .mk _ kind none _ maxLength _ => kind.isSteady = true ∨ kind = .any ∧ maxLength = 0
  | .mk _ _ (some shape) _ _ _ => shape.Steady

end

theorem FieldShape.AllSteady.of_mem {fields : List FieldShape} {f : FieldShape} (h : FieldShape.AllSteady fields)
    (hf : f ∈ fields) : f.Steady := by
  induction fields with
  | nil => cases hf
  | cons g fs ih =>
    obtain rfl | hf := List.mem_cons.mp hf
    · exact h.1
    · exact ih h.2 hf

theorem FieldShape.steady_shape {f : FieldShape} {shape : Shape} (hs : f.shape = some shape) (h : f.Steady) :
    shape.Steady := by
  obtain ⟨_, _, _ | _, _, _, _⟩ := f <;> cases hs
  exact h

/-! ## Dates in data -/

section Dates

variable (s : Store)

/-- What data holds under a key, with the field of a shape that the key names. Fields may lie in records that lie in fields. -/
inductive Shape.FieldIn : Shape → Node → FieldShape → Node → Prop
  | entry {fields : List FieldShape} {a : Nat} {es : List (Text × Node)} {e : Text × Node} {f : FieldShape}
    (lies : s.objects[a]? = some es) (mem : e ∈ es) (found : (fields.find? fun f => f.name.equalFold e.1) = some f) :
    FieldIn (.record fields) (.object a) f e.2
  | inner {fields : List FieldShape} {a : Nat} {es : List (Text × Node)} {e : Text × Node} {f g : FieldShape} {shape : Shape} {n : Node}
    (lies : s.objects[a]? = some es) (mem : e ∈ es) (found : (fields.find? fun f => f.name.equalFold e.1) = some f)
    (declared : f.shape = some shape) (inner : FieldIn shape e.2 g n) : FieldIn (.record fields) (.object a) g n

/-- A field of dates holds what was written of a date that is read again. -/
def FieldShape.Dated (f : FieldShape) (n : Node) : Prop :=
  f.shape = none → f.kind = .date → ∀ t, n = .text t → ∃ d : Date, d.IsWritten ∧ t = Layout.internet.format d

/-- So do all fields of dates in data that was made to fit a shape. -/
def Shape.DatedData (shape : Shape) (n : Node) : Prop := ∀ f m, shape.FieldIn s n f m → f.Dated m

/-- So they do in a single value. -/
def Shape.DatedOne (shape : Shape) (v : Value) : Prop := ∀ a n, v = .json a → s.boxes[a]? = some n → shape.DatedData s n

/-- So they do in a value: an array is gone through. -/
def Shape.Dated : Shape → Value → Prop
  | .array element, .array a => ∀ d, s.arrays[a]? = some d → ∀ v ∈ d.cells.toList, element.DatedOne s v
  | shape, v => shape.DatedOne s v

variable {s}

/-- What a field holds lies in an object. -/
theorem Shape.FieldIn.lies {shape : Shape} {n m : Node} {f : FieldShape} (within : shape.FieldIn s n f m) :
    ∃ es ∈ s.objects.toList, ∃ e ∈ es, e.2 = m := by
  induction within with
  | entry lies mem => exact ⟨_, Array.mem_toList_iff.mpr (Array.mem_of_getElem? lies), _, mem, rfl⟩
  | inner _ _ _ _ _ ih => exact ih

end Dates

/-! ## Whole numbers -/

theorem toInt64_ofInt {k : Int64} (low : -2147483648 ≤ k.toInt) (high : k.toInt ≤ 2147483647) :
    (Int32.ofInt k.toInt).toInt64 = k := by
  apply Int64.toInt_inj.mp
  rw [Int32.toInt_toInt64, Int32.toInt_ofInt_of_le] <;> omega

/-- A whole number is read as an int that stands for it, or as a long. -/
theorem Value.ofInt64_cases (k : Int64) : (∃ i : Int32, ofInt64 k = .int i ∧ i.toInt64 = k) ∨ ofInt64 k = .long k := by
  rw [ofInt64]
  split
  · rename_i fits
    simp only [Bool.and_eq_true, decide_eq_true_eq] at fits
    exact .inl ⟨_, rfl, toInt64_ofInt fits.1 fits.2⟩
  · exact .inr rfl

/-- An int is read as such. -/
theorem Value.ofInt64_toInt64 (i : Int32) : ofInt64 i.toInt64 = .int i := by
  have low := i.minValue_le_toInt
  have high := i.toInt_le
  simp only [show Int32.minValue.toInt = -2147483648 from rfl, show Int32.maxValue.toInt = 2147483647 from rfl] at low high
  rw [ofInt64, Int32.toInt_toInt64, if_pos (by simp [low, high]), Int32.ofInt_toInt]

/-! ## Computations that succeed -/

namespace StoreM

section Does

variable {α β : Type} {written : Nat → Prop} {s : Store} {good : α → Store → Prop} {good' : β → Store → Prop}

/-- From memory `s` a computation succeeds and leads to later memory, and what it gives is good there. -/
def Does (written : Nat → Prop) (good : α → Store → Prop) (x : StoreM α) (s : Store) : Prop :=
  ∃ a t, x.run.run s = (.ok a, t) ∧ s.Later written t ∧ good a t

theorem Does.mono {good' : α → Store → Prop} {x : StoreM α} (h : Does written good x s)
    (weaker : ∀ a t, s.Later written t → good a t → good' a t) : Does written good' x s := by
  obtain ⟨a, t, run, later, given⟩ := h
  exact ⟨a, t, run, later, weaker a t later given⟩

/-- What succeeds gives what it gives when it succeeds. -/
theorem Makes.does {x : StoreM α} (h : Makes written good x s) (succeeds : ∃ a t, x.run.run s = (.ok a, t)) :
    Does written good x s := by
  obtain ⟨a, t, run⟩ := succeeds
  exact ⟨a, t, run, h.of_run run⟩

theorem does_pure {a : α} (h : good a s) : Does written good (pure a) s := ⟨a, s, rfl, .refl s, h⟩

theorem does_get_bind {f : Store → StoreM β} (h : Does written good' (f s) s) : Does written good' (get >>= f) s := h

theorem does_kindOf_bind {v : Value} {f : Kind → StoreM β} (h : Does written good' (f (s.kindOf v)) s) :
    Does written good' (kindOf v >>= f) s := h

/-- One computation after another, the second in the memory that the first leads to. -/
theorem does_bind {x : StoreM α} {f : α → StoreM β} (hx : Does written good x s)
    (hf : ∀ a t, s.Later written t → good a t → Does written good' (f a) t) : Does written good' (x >>= f) s := by
  obtain ⟨a, t, run, later, given⟩ := hx
  obtain ⟨b, u, run', later', given'⟩ := hf a t later given
  refine ⟨b, u, ?_, later.trans later', given'⟩
  rw [ExceptT.run_bind, StateT.run_bind, run]
  exact run'

/-- A handler does nothing to what succeeds. -/
theorem does_tryCatch {x : StoreM α} {f : Fault → StoreM α} (h : Does written good x s) :
    Does written good (tryCatch x f) s := by
  obtain ⟨a, t, run, later, given⟩ := h
  refine ⟨a, t, ?_, later, given⟩
  rw [ExceptT.run_tryCatch, StateT.run_bind, run]
  rfl

/-- What writes to some arrays only may be said to write to more. -/
theorem Does.weaken {written' : Nat → Prop} {x : StoreM α} (h : Does written good x s) (more : ∀ a, written a → written' a) :
    Does written' good x s := by
  obtain ⟨a, t, run, later, given⟩ := h
  exact ⟨a, t, run, later.weaken more, given⟩

/-- A computation that never fails. -/
def Succeeds (x : StoreM α) : Prop := ∀ s, ∃ a t, x.run.run s = (.ok a, t)

theorem succeeds_bind {x : StoreM α} {f : α → StoreM β} (hx : Succeeds x) (hf : ∀ a, Succeeds (f a)) : Succeeds (x >>= f) := by
  intro s
  obtain ⟨a, t, run⟩ := hx s
  obtain ⟨b, u, run'⟩ := hf a t
  exact ⟨b, u, by rw [ExceptT.run_bind, StateT.run_bind, run]; exact run'⟩

theorem succeeds_pure (a : α) : Succeeds (pure a : StoreM α) := fun s => ⟨a, s, rfl⟩

theorem succeeds_get_bind {f : Store → StoreM β} (h : ∀ s, Succeeds (f s)) : Succeeds (get >>= f) := fun s => h s s

theorem succeeds_mapM {f : α → StoreM β} (h : ∀ a, Succeeds (f a)) (l : List α) : Succeeds (l.mapM f) := by
  induction l with
  | nil => exact succeeds_pure []
  | cons a l ih =>
    rw [List.mapM_cons]
    exact succeeds_bind (h a) fun _ => succeeds_bind ih fun _ => succeeds_pure _

theorem succeeds_normalizeTo (depth : Nat) (n : Node) : Succeeds (normalizeTo depth n) := by
  induction depth generalizing n with
  | zero => cases n <;> exact succeeds_pure _
  | succ depth ih =>
    cases n with
    | object a =>
      refine succeeds_get_bind fun s => succeeds_bind (succeeds_mapM (fun e => ?_) _) fun es => ?_
      · exact succeeds_bind (ih e.2) fun _ => succeeds_pure _
      · exact fun s => ⟨_, _, rfl⟩
    | list b len =>
      exact succeeds_get_bind fun s => succeeds_bind (succeeds_mapM ih _) fun ns s => ⟨_, _, rfl⟩
    | _ => exact succeeds_pure _

theorem succeeds_normalize (n : Node) : Succeeds (normalize n) := succeeds_get_bind fun _ => succeeds_normalizeTo _ n

theorem succeeds_toNodeTo (depth : Nat) (v : Value) : Succeeds (toNodeTo depth v) := by
  induction depth generalizing v with
  | zero => cases v <;> exact fun s => ⟨_, _, rfl⟩
  | succ depth ih =>
    cases v with
    | array a | queue a =>
      exact succeeds_get_bind fun s => succeeds_bind (succeeds_mapM ih _) fun ns s => ⟨_, _, rfl⟩
    | _ => exact fun s => ⟨_, _, rfl⟩

theorem succeeds_toNode (v : Value) : Succeeds (toNode v) := succeeds_get_bind fun _ => succeeds_toNodeTo _ v

theorem succeeds_ofNode (n : Node) : Succeeds (ofNode n) := by
  refine succeeds_bind (succeeds_normalize n) fun m => ?_
  cases m <;> exact fun s => ⟨_, _, rfl⟩

theorem does_ofNode (n : Node) : Does written (fun v t => t.Reads n.settle v) (ofNode n) s :=
  (makes_ofNode n).does (succeeds_ofNode n s)

theorem does_toNode (v : Value) : Does written (fun n _ => s.Native v n) (toNode v) s :=
  (makes_toNode v).does (succeeds_toNode v s)

theorem does_normalize (n : Node) : Does written (fun m _ => m = n.settle) (normalize n) s :=
  (makes_normalize n).does (succeeds_normalize n s)

theorem does_newBox (n : Node) : Does written (fun v t => ∃ a, v = .json a ∧ t.boxes[a]? = some n) (newBox n) s :=
  (makes_newBox n).does ⟨_, _, rfl⟩

theorem does_newObject (es : List (Text × Node)) :
    Does written (fun n t => ∃ a, n = .object a ∧ t.objects[a]? = some es) (newObject es) s :=
  (makes_newObject es).does ⟨_, _, rfl⟩

end Does

end StoreM

/-! ## The same data -/

/-- Json data `n` in memory `s` and `m` in memory `t` are the same, but that data may have settled, and a whole number may
be the double that it gives. -/
inductive Store.Alike (s t : Store) : Node → Node → Prop
  | same {n m : Node} (settles : n.Settles m) : Alike s t n m
  | number {n m : Node} {k : Int64} (whole : n.settle = .int k) (settles : (Node.double (floatOfInt k.toInt)).Settles m) :
      Alike s t n m
  | object {a a' : Nat} {es es' : List (Text × Node)} (lies : s.objects[a]? = some es) (lies' : t.objects[a']? = some es')
      (keys : es'.map (·.1) = es.map (·.1))
      (each : ∀ (i : Nat) (e e' : Text × Node), es[i]? = some e → es'[i]? = some e' → Alike s t e.2 e'.2) :
      Alike s t (.object a) (.object a')
  | list {b b' len len' : Nat} {places places' : Array Node} (lies : s.buffers[b]? = some places)
      (lies' : t.buffers[b']? = some places') (length : (places'.toList.take len').length = (places.toList.take len).length)
      (each : ∀ (i : Nat) (n n' : Node), (places.toList.take len)[i]? = some n → (places'.toList.take len')[i]? = some n' →
        Alike s t n n') :
      Alike s t (.list b len) (.list b' len')

section Alike

variable {written : Nat → Prop} {s t u : Store}

theorem forall₂_getElem? {α β : Type} {R : α → β → Prop} {l : List α} {l' : List β} (h : List.Forall₂ R l l') {i : Nat} {y : β}
    (hy : l'[i]? = some y) : ∃ x, l[i]? = some x ∧ R x y := by
  induction h generalizing i with
  | nil => cases hy
  | cons head _ ih =>
    cases i with
    | zero =>
      cases hy
      exact ⟨_, rfl, head⟩
    | succ i => exact ih hy

/-- Memory is later whatever arrays are written to. -/
theorem Store.Later.any (h : s.Later written t) : s.Later (fun _ => True) t := h.weaken fun _ _ => trivial

/-- Entries that correspond have the same keys. -/
theorem keys_of_forall₂ {es es' : List (Text × Node)} (h : List.Forall₂ (fun e e' => e'.1 = e.1) es es') :
    es'.map (·.1) = es.map (·.1) := by
  induction h with
  | nil => rfl
  | cons head _ ih => rw [List.map_cons, List.map_cons, head, ih]

/-- Objects whose entries correspond hold the same data. -/
theorem Store.alike_object {a a' : Nat} {es es' : List (Text × Node)} (lies : s.objects[a]? = some es)
    (lies' : t.objects[a']? = some es') (all : List.Forall₂ (fun e e' => e'.1 = e.1 ∧ s.Alike t e.2 e'.2) es es') :
    s.Alike t (.object a) (.object a') := by
  refine .object lies lies' (keys_of_forall₂ (all.imp fun _ _ h => h.1)) fun i e e' he he' => ?_
  obtain ⟨e₀, he₀, -, alike⟩ := forall₂_getElem? all he'
  cases he.symm.trans he₀
  exact alike

/-- Lists whose items correspond hold the same data. -/
theorem Store.alike_list {b b' len len' : Nat} {places places' : Array Node} (lies : s.buffers[b]? = some places)
    (lies' : t.buffers[b']? = some places')
    (all : List.Forall₂ (fun n n' => s.Alike t n n') (places.toList.take len) (places'.toList.take len')) :
    s.Alike t (.list b len) (.list b' len') := by
  refine .list lies lies' all.length_eq.symm fun i n n' hn hn' => ?_
  obtain ⟨n₀, hn₀, alike⟩ := forall₂_getElem? all hn'
  cases hn.symm.trans hn₀
  exact alike

/-- Data stays the same in later memory. -/
theorem Store.Alike.later (h : t.Later written u) {n m m' : Node} (alike : s.Alike t n m) (settles : m.Settles m') :
    s.Alike u n m' := by
  induction alike generalizing m' with
  | same first => exact .same (.trans _ _ _ first settles)
  | number whole first => exact .number whole (.trans _ _ _ first settles)
  | @object a a' es es' lies lies' keys each ih =>
    rw [settles.eq_of_settled rfl]
    obtain ⟨es'', lies'', more⟩ := h.objects a' es' lies'
    refine .object lies lies'' ?_ fun i e e'' he he'' => ?_
    · exact (keys_of_forall₂ (more.imp fun _ _ same => same.1)).trans keys
    · obtain ⟨e', he', -, settles⟩ := forall₂_getElem? more he''
      exact ih i e e' he he' settles
  | @list b b' len len' places places' lies lies' length each ih =>
    rw [settles.eq_of_settled rfl]
    obtain ⟨places'', lies'', more⟩ := h.buffers b' places' lies'
    have first := List.forall₂_take len' more
    refine .list lies lies'' (first.length_eq.symm.trans length) fun i n n'' hn hn'' => ?_
    obtain ⟨n', hn', settles⟩ := forall₂_getElem? first hn''
    exact ih i n n' hn hn' settles

/-- Two single values are the same, or json values of the same data. -/
def Store.AlikeOne (s t : Store) (v w : Value) : Prop :=
  w = v ∨ ∃ a b n m, v = .json a ∧ w = .json b ∧ s.boxes[a]? = some n ∧ t.boxes[b]? = some m ∧ s.Alike t n m

/-- Two values hold the same: they are alike, and if they are arrays, their elements are. -/
def Store.AlikeValue (s t : Store) (v w : Value) : Prop :=
  s.AlikeOne t v w ∧
    ∀ a, v = .array a → List.Forall₂ (s.AlikeOne t) (s.array a).cells.toList (t.array a).cells.toList

theorem Store.AlikeOne.later {v w : Value} (h : t.Later written u) (alike : s.AlikeOne t v w) : s.AlikeOne u v w := by
  refine alike.imp_right fun ⟨a, b, n, m, hv, hw, lies, lies', alike⟩ => ?_
  obtain ⟨m', lies'', rfl⟩ := h.boxes b m lies'
  exact ⟨a, b, n, m, hv, hw, lies, lies'', alike.later h (.refl m)⟩

/-! ## Fields -/

namespace StoreM

/-- The json data of a value that was read of settled data is that data. -/
theorem native_of_reads {n m : Node} {v : Value} (settled : n.settle = n) (reads : s.Reads n v) (native : s.Native v m) :
    m = n := by
  cases n with
  | object a | list b len =>
    obtain ⟨c, rfl, lies⟩ := reads
    rw [show m = s.box c from native, Store.box, lies]
    rfl
  | int k =>
    rw [show v = .ofInt64 k from reads] at native
    obtain ⟨i, same, whole⟩ | same := Value.ofInt64_cases k
    · rw [same] at native
      rw [show m = .int i.toInt64 from native, whole]
    · rw [same] at native
      exact native
  | _ =>
    rw [show v = _ from reads] at native
    exact native

/-- What is read of json data stays so in later memory. -/
theorem reads_later {n : Node} {v : Value} (h : s.Later written t) (reads : s.Reads n v) : t.Reads n v := by
  cases n with
  | object a | list b len =>
    obtain ⟨c, rfl, lies⟩ := reads
    obtain ⟨n', lies', rfl⟩ := h.boxes c _ lies
    exact ⟨c, rfl, lies'⟩
  | _ => exact reads

/-- Data that is read and given back is as it was, settled. -/
theorem does_toNode_read {n : Node} {v : Value} (reads : s.Reads n.settle v) : Does written (fun m _ => m = n.settle) (toNode v) s :=
  (does_toNode v).mono fun _ _ _ native => native_of_reads n.settle_settle reads native

/-- No queue is read of json data. -/
theorem not_reads_queue {n : Node} {a : Nat} : ¬s.Reads n (.queue a) := by
  intro reads
  cases n with
  | object o | list b len =>
    obtain ⟨_, impossible, -⟩ := reads
    cases impossible
  | int k =>
    obtain ⟨i, same, -⟩ | same := Value.ofInt64_cases k <;> cases (show Value.queue a = .ofInt64 k from reads).trans same
  | _ => cases (show Value.queue a = _ from reads)

/-- A value that was read gives its data to any depth. -/
theorem makes_toNodeTo_read (depth : Nat) {n : Node} {v : Value} (reads : s.Reads n.settle v) :
    Makes written (fun m _ => m = n.settle) (toNodeTo depth v) s := by
  cases depth with
  | succ depth =>
    exact (makes_toNodeTo _ v).mono fun _ _ _ native => native_of_reads n.settle_settle reads (native (Nat.succ_pos _))
  | zero =>
    have native (same : toNodeTo 0 v = toNodeTo 1 v) : Makes written (fun m _ => m = n.settle) (toNodeTo 0 v) s := by
      rw [same]
      exact (makes_toNodeTo 1 v).mono fun _ _ _ native => native_of_reads n.settle_settle reads (native Nat.one_pos)
    cases v with
    | array a => exact absurd reads not_reads_array
    | queue a => exact absurd reads not_reads_queue
    | _ => exact native rfl

/-- A value gives back the data that it was read of. -/
def GivesBack (s : Store) (n : Node) (w : Value) (t : Store) : Prop :=
  (∀ x, w = .string x → n.settle = .text x) ∧ ∀ written, Does written (fun m u => s.Alike u n m) (toNode w) t

theorem givesBack_read {n : Node} {w : Value} (reads : t.Reads n.settle w) : GivesBack s n w t := by
  refine ⟨fun x same => ?_, fun written => (does_toNode_read reads).mono fun m _ _ same => .same (.inr same)⟩
  subst same
  cases settled : n.settle with
  | text y =>
    rw [settled] at reads
    cases reads
    rfl
  | object a | list b len =>
    rw [settled] at reads
    obtain ⟨_, impossible, -⟩ := reads
    cases impossible
  | int k =>
    rw [settled] at reads
    have reads : Value.string x = .ofInt64 k := reads
    obtain ⟨i, same, -⟩ | same := Value.ofInt64_cases k <;> cases reads.trans same
  | _ =>
    rw [settled] at reads
    cases reads

/-- A json value of data gives the data back. -/
theorem givesBack_box {n : Node} {a : Nat} (lies : t.boxes[a]? = some n.settle) : GivesBack s n (.json a) t := by
  refine ⟨nofun, fun written => (does_toNode (.json a)).mono fun m _ _ native => .same (.inr ?_)⟩
  rw [show m = t.box a from native, Store.box, lies]
  rfl

/-- A value that was read of data is made a json value of the data. -/
theorem does_box_read {n : Node} {v : Value} (reads : t.Reads n.settle v) :
    Does written (fun w u => GivesBack s n w u) (do newBox (← normalize (← toNode v))) t := by
  refine does_bind (does_toNode_read reads) fun m _ _ same => does_bind (does_normalize m) fun m' _ _ settled => ?_
  refine (does_newBox m').mono fun w u _ ⟨a, hw, lies⟩ => ?_
  subst hw
  rw [settled, same, n.settle_settle] at lies
  exact givesBack_box lies

/-- A list is read into an array, which gives a list of the same items back. -/
theorem does_array_read {b len : Nat} {places : Array Node} (lies : s.buffers[b]? = some places) (from_ : s.Later (fun _ => True) t) :
    Does written (fun w u => GivesBack s (.list b len) w u) (do newArrayOf (← (t.items b len).mapM ofNode)) t := by
  obtain ⟨places', lies', settles⟩ := from_.buffers b places lies
  have items : t.items b len = places'.toList.take len := by rw [Store.items, Store.buffer, lies', Option.getD_some]
  rw [items]
  have read : Makes written (fun vs u => List.Forall₂ (fun n v => u.Reads n.settle v) (places'.toList.take len) vs)
      ((places'.toList.take len).mapM ofNode) t :=
    makes_mapM (fun n v u => u.Reads n.settle v) (fun _ _ _ _ later => reads_later later) _ fun n _ _ _ => makes_ofNode n
  refine does_bind (read.does (succeeds_mapM succeeds_ofNode _ _)) fun vs u _ all => ?_
  have new : Does written _ (newArrayOf vs) u := (makes_newArray ⟨.any, false, .boxed vs.toArray⟩).does ⟨_, _, rfl⟩
  refine new.mono fun w x next made => ?_
  obtain ⟨a, rfl, here⟩ := made
  refine ⟨by rintro _ ⟨⟩, fun written => ?_⟩
  have elements : (x.array a).cells.toList = vs := by
    rw [Store.array, here, Option.getD_some]
    exact List.toList_toArray ..
  refine does_get_bind (does_get_bind ?_)
  rw [elements]
  have nodes (depth : Nat) : Makes written (fun ms _ => List.Forall₂ (fun v m => ∀ n : Node, x.Reads n.settle v → m = n.settle) vs ms)
      (vs.mapM (toNodeTo depth)) x :=
    makes_mapM (fun v m _ => ∀ n : Node, x.Reads n.settle v → m = n.settle) (fun _ _ _ _ _ h => h) _ fun v _ y later =>
      ⟨(makes_toNodeTo depth v).1, fun m hm n reads =>
        have read : Makes written _ (toNodeTo depth v) y := makes_toNodeTo_read depth (reads_later later reads)
        read.2 m hm⟩
  refine does_bind ((nodes _).does (succeeds_mapM (succeeds_toNodeTo _) _ _)) fun ms y more given => ?_
  refine ((makes_newList ms).does ⟨_, _, rfl⟩).mono fun m z last list => ?_
  obtain ⟨b', rfl, lies''⟩ := list
  refine Store.alike_list lies lies'' ?_
  rw [List.take_length]
  refine forall₂_comp (fun n n' m settles same => ?_) (List.forall₂_take len settles)
    (forall₂_comp (T := fun n m => m = n.settle) (fun n v m reads same => same n (reads_later next reads)) all given)
  rw [same]
  exact .same (.inr settles.settle)

/-- A value that was read of data that a field of a steady kind takes is converted to the kind again, and gives the data
back. -/
theorem does_coerce_again {k : Kind} {maxLength : Nat} {n : Node} {v : Value} (steady : k.isSteady = true ∨ k = .any)
    (takes : k.Takes s maxLength n)
    (dated : k = .date → ∀ x, n = .text x → ∃ d : Date, d.IsWritten ∧ x = Layout.internet.format d) (from_ : s.Later (fun _ => True) t) (reads : t.Reads n.settle v) (present : n.isNull = false) :
    Does written (fun w u => GivesBack s n w u) (coerce v k) t := by
  have asIs (holds : t.Holds k v) : Does written (fun w u => GivesBack s n w u) (coerce v k) t :=
    ⟨v, t, coerce_of_holds holds, .refl t, givesBack_read reads⟩
  cases k with
  | any => exact asIs (.inr (.inl (.inl rfl)))
  | bool =>
    obtain ⟨b, rfl⟩ := takes.ofKind
    cases reads
    exact asIs (.inr (.inl (.inr (.inl rfl))))
  | int =>
    obtain ⟨i, rfl⟩ := takes.ofKind
    obtain rfl : v = .int i := (show v = .ofInt64 i.toInt64 from reads).trans (Value.ofInt64_toInt64 i)
    exact asIs (.inr (.inl (.inr (.inl rfl))))
  | long =>
    obtain ⟨j, rfl⟩ := takes.ofKind
    have back : GivesBack s (.int j) (.long j) t :=
      ⟨by rintro _ ⟨⟩, fun _ => (does_toNode (.long j)).mono fun m _ _ native => .same (.inl native)⟩
    obtain ⟨i, same, whole⟩ | same := Value.ofInt64_cases j
    · cases (show v = .ofInt64 j from reads).trans same
      subst whole
      exact ⟨.long i.toInt64, t, rfl, .refl t, back⟩
    · cases (show v = .ofInt64 j from reads).trans same
      exact ⟨.long j, t, rfl, .refl t, back⟩
  | string =>
    obtain ⟨x, rfl⟩ := takes.ofKind
    cases reads
    exact asIs (.inr (.inl (.inr (.inl rfl))))
  | date =>
    obtain ⟨_, rfl⟩ := takes.ofKind
    obtain ⟨d, written, same⟩ := dated rfl _ rfl
    cases reads
    obtain ⟨e, read, again⟩ := written.reads_again t.platform.zone
    rw [same]
    refine ⟨.date e, t, coerce_text read, .refl t, nofun, fun _ => (does_toNode (.date e)).mono fun m _ _ native => .same (.inl ?_)⟩
    rw [show m = .text (Layout.internet.format e) from native, again]
  | double =>
    obtain ⟨x, settles⟩ := takes.ofKind
    cases whole : (Node.double x).settle with
    | double y =>
      rw [settles.settle, whole] at reads
      cases reads
      exact asIs (.inr (.inl (.inr (.inl rfl))))
    | int j =>
      rw [settles.settle, whole] at reads
      have back (f : Float) (same : f = floatOfInt j.toInt) : GivesBack s n (.double f) t := by
        refine ⟨by rintro _ ⟨⟩, fun _ => (does_toNode (.double f)).mono fun m _ _ native => ?_⟩
        exact .number (settles.settle.trans whole) (.inl ((show m = .double f from native).trans (congrArg _ same)))
      obtain ⟨i, same, equal⟩ | same := Value.ofInt64_cases j
      · cases (show v = .ofInt64 j from reads).trans same
        exact ⟨.double (floatOfInt i.toInt), t, rfl, .refl t, back _ (by rw [← equal, Int32.toInt_toInt64])⟩
      · cases (show v = .ofInt64 j from reads).trans same
        exact ⟨.double (floatOfInt j.toInt), t, rfl, .refl t, back _ rfl⟩
    | _ =>
      rw [Node.settle] at whole
      split at whole <;> cases whole
  | json =>
    cases settled : n.settle with
    | null =>
      have null := n.isNull_settle
      rw [settled, present] at null
      cases null
    | object a | list b len =>
      rw [settled] at reads
      obtain ⟨c, rfl, -⟩ := id reads
      exact asIs (.inr (.inl (.inr (.inl rfl))))
    | text x =>
      rw [settled] at reads
      cases reads
      have plain := takes.plain rfl x (by
        cases n with
        | double y =>
          rw [Node.settle] at settled
          split at settled <;> cases settled
        | _ => exact settled)
      have closed : (coerce (.string x) .json).run.run t = (newBox (.text x)).run.run t := by
        change (jsonOfText x).run.run t = _
        rw [jsonOfText, if_neg]
        exact Bool.eq_false_iff.mp plain
      have new : Does written _ (newBox (.text x)) t := does_newBox (.text x)
      obtain ⟨w, u, run, later, a, hw, lies⟩ := new
      subst hw
      exact ⟨_, u, closed.trans run, later, givesBack_box (settled ▸ lies)⟩
    | int j =>
      obtain ⟨i, same, -⟩ | same := Value.ofInt64_cases j
      · rw [settled] at reads
        cases (show v = .ofInt64 j from reads).trans same
        exact does_box_read (settled ▸ reads)
      · rw [settled] at reads
        cases (show v = .ofInt64 j from reads).trans same
        exact does_box_read (settled ▸ reads)
    | _ =>
      have read := reads
      rw [settled] at read
      cases read
      exact does_box_read reads
  | array =>
    obtain ⟨b, len, rfl⟩ := takes.ofKind
    obtain ⟨places, lies⟩ := takes.lies rfl b len rfl
    obtain ⟨c, rfl, box⟩ := id reads
    have looked : (coerce (.json c) .array).run.run t = (do newArrayOf (← (t.items b len).mapM ofNode) : StoreM Value).run.run t := by
      have list : t.box c = .list b len := by
        rw [Store.box, box]
        rfl
      unfold coerce
      dsimp only
      rw [show kindOf (.json c) = pure Kind.json from rfl, pure_bind, if_neg (by decide), if_neg (by decide), run_get_bind, list]
      rfl
    have new : Does written _ (do newArrayOf (← (t.items b len).mapM ofNode)) t := does_array_read lies from_
    obtain ⟨w, u, run, good⟩ := new
    exact ⟨w, u, looked.trans run, good⟩
  | _ => obtain impossible | impossible := steady <;> cases impossible

theorem isNull_of_reads {n : Node} {v : Value} (reads : s.Reads n v) : v.isNull = n.isNull := by
  cases n with
  | object a | list b len =>
    obtain ⟨_, rfl, -⟩ := reads
    rfl
  | int k =>
    obtain ⟨i, same, -⟩ | same := Value.ofInt64_cases k <;>
      rw [(show v = .ofInt64 k from reads).trans same] <;> rfl
  | _ =>
    rw [show v = _ from reads]
    rfl

theorem eq_text_of_settle {n : Node} {x : Text} (h : n.settle = .text x) : n = .text x := by
  cases n with
  | double y =>
    rw [Node.settle] at h
    split at h <;> cases h
  | _ => exact h

/-- A text within the limit is let through. -/
theorem does_within (name : Text) {maxLength : Nat} {w : Value} :
    (∀ text, w = .string text → 0 < maxLength → text.length ≤ maxLength) →
    Does written (fun w' t => w' = w ∧ t = s)
      (limited name maxLength w) s := by
  intro short
  cases w with
  | string text =>
    have within : ¬(decide (maxLength > 0) && decide (text.length > maxLength)) = true := by
      simp only [Bool.and_eq_true, decide_eq_true_eq, not_and, Nat.not_lt]
      exact short text rfl
    unfold limited
    dsimp only
    rw [if_neg within]
    exact does_pure ⟨rfl, rfl⟩
  | _ => exact does_pure ⟨rfl, rfl⟩

/-- The data that a field takes is made to fit again, and is the same then. -/
theorem does_fitted_again {conform : Shape → Value → StoreM Value} {f : FieldShape} {n n' : Node} (settles : n.Settles n')
    (takes : f.Takes s n) (steady : f.Steady) (dated : f.Dated n) (from_ : s.Later (fun _ => True) t)
    (inner : ∀ shape, f.shape = some shape → shape.TakesData s n → n.isNull = false → ∀ v u, t.Later written u →
      u.Reads n.settle v → Does written (fun m x => s.Alike x n m) (conform shape v >>= toNode) u) :
    Does written (fun m u => s.Alike u n m) (ofNode n' >>= fitted conform f) t := by
  refine does_bind (does_ofNode n') fun v u later reads => ?_
  rw [settles.settle] at reads
  have null : v.isNull = n.isNull := (isNull_of_reads reads).trans n.isNull_settle
  obtain ⟨name, kind, shape, mandatory, maxLength, fallback⟩ := f
  unfold fitted conformField
  dsimp only
  split
  · rename_i missing
    rw [null] at missing
    have optional : mandatory = false := by
      cases shape <;> exact takes.elim (·.2) fun ⟨present, _⟩ => by rw [missing] at present; cases present
    rw [if_neg (by rw [optional]; exact nofun), pure_bind]
    refine (does_toNode .null).mono fun m x _ native => .same (.inl ?_)
    cases n with
    | null => exact native
    | _ => cases missing
  · rename_i present
    rw [null, Bool.not_eq_true] at present
    cases shape with
    | some shape =>
      obtain ⟨missing, -⟩ | ⟨-, data⟩ := takes
      · rw [present] at missing
        cases missing
      · exact inner shape rfl data present v u later reads
    | none =>
      obtain ⟨missing, -⟩ | ⟨-, takes⟩ := takes
      · rw [present] at missing
        cases missing
      simp only [bind_assoc]
      have again : Does written _ (coerce v kind) u :=
        does_coerce_again (steady.imp_right (·.1)) takes (dated rfl) (from_.trans later.any) reads present
      obtain ⟨w, x, run, next, text, back⟩ := again
      have converted : Does written (fun w' x' => w' = w ∧ x' = x) (coerce v kind) u := ⟨w, x, run, next, rfl, rfl⟩
      refine does_kindOf_bind (does_bind (does_tryCatch converted) fun w' x' _ ⟨same, here⟩ => ?_)
      subst same here
      refine does_bind (does_within name fun y string limited => ?_) fun w'' x'' _ ⟨same, here⟩ => ?_
      · -- a text is of the kind of texts, or of any kind without a limit
        subst string
        have held := holds_coerce run
        obtain isSteady | ⟨rfl, unlimited⟩ := steady
        · have string : kind = .string := by
            obtain rfl | (rfl | same | ⟨-, impossible⟩) | ⟨impossible, -⟩ := held
            · cases isSteady
            · cases isSteady
            · exact same.symm
            · cases impossible
            · cases impossible
          exact takes.within string y (eq_text_of_settle (text y rfl)) limited
        · exact absurd limited (by omega)
      · subst same here
        exact back written

/-! ## Shapes -/

theorem does_objectEntries (what : Text) {c a : Nat} (box : s.boxes[c]? = some (.object a)) :
    Does written (fun es t => es = s.object a ∧ t = s) (objectEntries what (.json c)) s := by
  refine does_get_bind ?_
  dsimp only
  rw [Store.box, box]
  exact does_pure ⟨rfl, rfl⟩

/-- What a field's shape that takes data makes of it again gives the data back. -/
def FitsAgain (s : Store) (written : Nat → Prop) (conform : Shape → Value → StoreM Value) (fields : List FieldShape) (t : Store) :
    Prop :=
  ∀ f ∈ fields, ∀ shape, f.shape = some shape → ∀ n, shape.TakesData s n → shape.DatedData s n → n.isNull = false → ∀ v u, t.Later written u →
    u.Reads n.settle v → Does written (fun w x => GivesBack s n w x) (conform shape v) u

/-- The entries of a record are made to fit again, and hold the same data then. -/
theorem does_conformGiven_again {conform : Shape → Value → StoreM Value} {fields : List FieldShape} {es es' : List (Text × Node)}
    (same : EntriesSettle es es') (takes : ∀ e ∈ es, FieldShape.FirstTakes s fields e.1 e.2)
    (dated : ∀ e ∈ es, ∀ f, (fields.find? fun f => f.name.equalFold e.1) = some f →
      f.Dated e.2 ∧ ∀ shape, f.shape = some shape → shape.DatedData s e.2)
    (steady : FieldShape.AllSteady fields) (from_ : s.Later (fun _ => True) t) (inner : FitsAgain s written conform fields t) :
    Does written (fun out u => List.Forall₂ (fun e m => m.1 = e.1 ∧ s.Alike u e.2 m.2) es out) (conformGiven conform fields es') t := by
  induction same generalizing t with
  | nil => exact does_pure .nil
  | @cons e e' es es' head _ ih =>
    obtain ⟨f, found, taken⟩ := FieldShape.firstTakes_iff.mp (takes e (List.mem_cons_self ..))
    have hf := List.mem_of_find?_eq_some found
    obtain ⟨date, within⟩ := dated e (List.mem_cons_self ..) f found
    rw [← head.1] at found
    rw [conformGiven_cons found]
    refine does_bind (does_fitted_again head.2 taken (steady.of_mem hf) date from_ fun shape hs data present v u later reads =>
      does_bind (inner f hf shape hs e.2 data (within shape hs) present v u later reads) fun _ _ _ back => back.2 written)
      fun m u later alike => ?_
    refine does_bind (ih (fun e he => takes e (List.mem_cons_of_mem _ he)) (fun e he => dated e (List.mem_cons_of_mem _ he))
      (from_.trans later.any) fun f hf shape hs n data dates present v x next =>
        inner f hf shape hs n data dates present v x (later.trans next)) fun out x next all => ?_
    exact does_pure (.cons ⟨head.1, alike.later next (.refl m)⟩ all)

/-- A record whose fields are there has none to fill. -/
theorem fillFields_complete {conform : Shape → Value → StoreM Value} {fields : List FieldShape} {out : List (Text × Node)}
    (complete : ∀ f ∈ fields, f.mandatory = true ∨ f.fallback.isSome = true → ∃ e ∈ out, e.1.equalFold f.name = true) :
    fillFields conform fields out = pure out := by
  induction fields with
  | nil => rfl
  | cons f rest ih =>
    have ih := ih fun g hg => complete g (List.mem_cons_of_mem _ hg)
    rw [fillFields]
    split
    · exact ih
    · rename_i absent
      have open_ : ¬(f.mandatory = true ∨ f.fallback.isSome = true) := fun must =>
        absent (findKey_isSome.mpr (complete f (List.mem_cons_self ..) must))
      cases default : f.fallback with
      | none =>
        dsimp only
        rw [if_neg fun must => open_ (.inl must)]
        exact ih
      | some d => exact absurd (.inr (by rw [default]; rfl)) open_

/-- A single value of data that a steady shape takes is made to fit again, and gives the data back. -/
theorem does_conformTo_again (depth : Nat) {shape : Shape} (deep : shape.depth ≤ depth) (steady : shape.Steady) {n : Node}
    (takes : shape.TakesData s n) (dated : shape.DatedData s n) (from_ : s.Later (fun _ => True) t) {v : Value} (reads : t.Reads n.settle v) :
    Does written (fun w u => GivesBack s n w u ∧ (shape.isArray = false → ∃ b m, w = .json b ∧ u.boxes[b]? = some m ∧ s.Alike u n m))
      (conformTo depth shape v) t := by
  induction depth generalizing shape n v t with
  | zero => cases shape <;> cases deep
  | succ depth ih =>
    cases shape with
    | map sorted =>
      obtain ⟨a, rfl⟩ := takes
      obtain ⟨c, rfl, box⟩ := id reads
      unfold conformTo
      dsimp only
      rw [if_neg (show ¬(Value.json c).isNull = true from Bool.false_ne_true)]
      refine does_bind (does_objectEntries _ box) fun _ u _ looked => does_pure ?_
      obtain ⟨-, rfl⟩ := looked
      exact ⟨givesBack_read reads, fun _ => ⟨c, _, rfl, box, .same (.refl _)⟩⟩
    | record fields =>
      obtain ⟨a, es, rfl, lies, each, complete⟩ := takes
      obtain ⟨c, rfl, box⟩ := id reads
      obtain ⟨es', lies', same⟩ := from_.objects a es lies
      have inner : FitsAgain s written (conformTo depth) fields t := by
        intro f hf shape hs n data dates _ v u later reads
        have bound := FieldShape.depth_le hf
        rw [FieldShape.depth_shape hs] at bound
        rw [Shape.depth] at deep
        exact (ih (by omega) (FieldShape.steady_shape hs (steady.of_mem hf)) data dates (from_.trans later.any) reads).mono fun _ _ _ h => h.1
      unfold conformTo
      dsimp only
      rw [if_neg (show ¬(Value.json c).isNull = true from Bool.false_ne_true)]
      refine does_bind (does_objectEntries _ box) fun entries u _ looked => ?_
      obtain ⟨found, here⟩ := looked
      rw [Store.object, lies', Option.getD_some] at found
      subst found here
      have dates : ∀ e ∈ es, ∀ f, (fields.find? fun f => f.name.equalFold e.1) = some f →
          f.Dated e.2 ∧ ∀ shape, f.shape = some shape → shape.DatedData s e.2 := fun e he f found =>
        ⟨dated f e.2 (.entry lies he found), fun shape hs g m within => dated g m (.inner lies he found hs within)⟩
      refine does_bind (does_conformGiven_again same each dates steady from_ inner) fun out u later all => ?_
      rw [fillFields_complete fun f hf must => by
        obtain ⟨e, he, named⟩ := complete f hf must
        obtain ⟨m, hm, key, -⟩ := forall₂_exists_right all he
        exact ⟨m, hm, key ▸ named⟩, pure_bind]
      refine does_bind (does_newObject out) fun n x more object => ?_
      obtain ⟨o, rfl, entries⟩ := object
      refine (does_newBox (.object o)).mono fun w y last boxed => ?_
      obtain ⟨b, rfl, box'⟩ := boxed
      have alike : s.Alike y (.object a) (.object o) :=
        (Store.alike_object lies entries (all.imp fun e m h => ⟨h.1, h.2.later more (.refl _)⟩)).later last (.refl _)
      refine ⟨⟨by rintro _ ⟨⟩, fun _ => (does_toNode (.json b)).mono fun m z next native => ?_⟩, fun _ => ⟨b, _, rfl, box', alike⟩⟩
      rw [show m = .object o by rw [show m = y.box b from native, Store.box, box']; rfl]
      exact alike.later next (.refl _)
    | array element =>
      have kept : conformTo (depth + 1) (.array element) v = pure v := by
        cases v with
        | array a => exact absurd reads not_reads_array
        | _ => rfl
      rw [kept]
      exact does_pure ⟨givesBack_read reads, by rintro ⟨⟩⟩

/-! ## Values -/

/-- An element that an array holds is put into its place. -/
theorem does_arraySet {a i : Nat} {d : ArrayData} {items : Array Value} {v : Value} (lies : s.arrays[a]? = some d)
    (boxed : d.cells = .boxed items) (inside : i < items.size) (held : Elemental s d.element v) :
    Does (· = a) (fun _ t => t.arrays[a]? = some { d with cells := .boxed (items.setIfInBounds i v) }) (arraySet a i v) s := by
  have here : s.array a = d := by rw [Store.array, lies, Option.getD_some]
  have size : (s.array a).length = items.size := by rw [here, ArrayData.length, boxed]; rfl
  have inside' : i < (s.array a).length := size ▸ inside
  have element : (forElement d.element d.cells v).run.run s = (.ok v, s) := by
    rw [boxed, forElement]
    split
    · rfl
    · rename_i other
      simp only [Bool.or_eq_true, decide_eq_true_eq, not_or] at other
      exact coerce_of_holds ((held.resolve_left other.1).resolve_left other.2)
  have runs : ∃ r t, (arraySet a i v).run.run s = (.ok r, t) := by
    have notEnd : ¬((decide ((i : Int) = (s.array a).length) && !(s.array a).fixed) = true) := by
      rw [decide_eq_false (by omega)]
      exact Bool.false_ne_true
    have notOut : ¬((decide ((i : Int) < 0) || decide (((s.array a).length : Int) ≤ i)) = true) := by
      rw [decide_eq_false (by omega), decide_eq_false (by omega)]
      exact Bool.false_ne_true
    rw [arraySet, run_get_bind]
    dsimp only
    rw [if_neg notEnd, run_get_bind, if_neg notOut, here, ExceptT.run_bind, StateT.run_bind, element]
    change ∃ r t, (arrayPut a i v).run.run s = (.ok r, t)
    rw [arrayPut, run_kindOf, run_get_bind, here, boxed]
    exact ⟨_, _, rfl⟩
  refine ((makes_arraySet inside' v).does runs).mono fun _ t _ put => ?_
  obtain ⟨w, ⟨-, rfl⟩ | ⟨notAny, notArray, run⟩, lies'⟩ := put d items lies boxed
  · exact lies'
  · rw [coerce_of_holds ((held.resolve_left notAny).resolve_left notArray)] at run
    cases run
    exact lies'

/-- A single value that a steady shape takes is made to fit again, and is alike then. -/
theorem does_conformOne_again {shape : Shape} (single : shape.isArray = false) (steady : shape.Steady) {v : Value}
    (takes : shape.TakesOne s v) (dated : shape.DatedOne s v) (from_ : s.Later (fun _ => True) t) :
    Does written (fun w u => s.AlikeOne u v w) (conformTo shape.depth shape v) t := by
  obtain ⟨rfl, noMap⟩ | ⟨a, n, rfl, lies, data⟩ := takes
  · cases shape with
    | map sorted => exact absurd rfl (noMap sorted)
    | record fields => exact does_pure (.inl rfl)
    | array _ => cases single
  · obtain ⟨n', lies', rfl⟩ := from_.boxes a n lies
    have settled : n.settle = n ∧ ∃ o, n = .object o := by
      cases shape with
      | map _ =>
        obtain ⟨o, rfl⟩ := data
        exact ⟨rfl, o, rfl⟩
      | record _ =>
        obtain ⟨o, _, rfl, -⟩ := data
        exact ⟨rfl, o, rfl⟩
      | array _ => cases single
    obtain ⟨-, o, rfl⟩ := settled
    refine (does_conformTo_again shape.depth (Nat.le_refl _) steady data (dated a _ rfl lies) from_ ⟨a, rfl, lies'⟩).mono fun w u _ h => ?_
    obtain ⟨b, m, hw, box, alike⟩ := h.2 single
    exact .inr ⟨a, b, _, m, rfl, hw, lies, box, alike⟩

/-- The elements of an array that a steady shape takes are made to fit again, and are alike then. -/
theorem does_conformElements_again {element : Shape} (single : element.isArray = false) (steady : element.Steady) {a : Nat}
    {d : ArrayData} {before done vs : List Value} (from_ : s.Later (· = a) t) (lies : t.arrays[a]? = some d)
    (boxed : d.cells = .boxed (done ++ vs).toArray) (finished : List.Forall₂ (s.AlikeOne t) before done)
    (each : ∀ v ∈ vs, (element.TakesOne s v ∧ element.DatedOne s v) ∧ Elemental s d.element v) :
    Does (· = a) (fun _ u => List.Forall₂ (s.AlikeOne u) (before ++ vs) (u.array a).cells.toList)
      (conformElements (conformTo element.depth element) a done.length vs) t := by
  induction vs generalizing t d before done with
  | nil =>
    refine does_pure ?_
    rw [Store.array, lies, Option.getD_some, boxed, List.append_nil, List.append_nil]
    exact finished
  | cons v rest ih =>
    obtain ⟨⟨takes, dated⟩, held⟩ := each v (List.mem_cons_self ..)
    have fits : Does (fun _ => False) (fun w u => s.AlikeOne u v w) _ t := does_conformOne_again single steady takes dated from_.any
    obtain ⟨w, u, run, later, alike⟩ := fits
    have first : Does (· = a) (fun w' u' => w' = w ∧ u' = u) (conformTo element.depth element v) t :=
      ⟨w, u, run, later.weaken fun _ => False.elim, rfl, rfl⟩
    refine does_bind (does_tryCatch first) fun w' u' _ first => ?_
    obtain ⟨rfl, rfl⟩ := first
    obtain ⟨d', lies', -, kept⟩ := later.arrays a d lies
    cases kept id
    have held' : Elemental u' d.element w' := held.imp_right (Or.imp_right fun held => by
      obtain rfl | ⟨b, c, n, m, rfl, rfl, -⟩ := alike
      · exact takes.holds held u'
      · exact held.json u' c)
    refine does_bind (does_arraySet lies' boxed (by simp) held') fun _ x next lies'' => ?_
    have set : (done ++ v :: rest).toArray.setIfInBounds done.length w' = ((done ++ [w']) ++ rest).toArray := by simp
    rw [set] at lies''
    have later : t.Later (· = a) x := (later.weaken fun _ => False.elim).trans next
    have finished : List.Forall₂ (s.AlikeOne x) (before ++ [v]) (done ++ [w']) :=
      List.rel_append (finished.imp fun _ _ h => h.later later) (.cons (alike.later next) .nil)
    have rest := ih (from_.trans later) lies'' rfl finished fun v hv => each v (List.mem_cons_of_mem _ hv)
    rw [List.length_append, List.append_assoc] at rest
    exact rest

/-- A value that a steady shape takes is made to fit again without a fault. Nothing is written to but the elements of an
array, and what the value becomes holds the same data. -/
theorem does_conform {shape : Shape} {v : Value} (steady : shape.Steady) (takes : shape.Takes s v) (dated : shape.Dated s v) :
    Does (fun a => v = .array a) (fun w t => s.AlikeValue t v w) (conform shape v) s := by
  have single (other : ∀ a, v ≠ .array a) (one : Does (fun a => v = .array a) (fun w t => s.AlikeOne t v w) (conform shape v) s) :
      Does (fun a => v = .array a) (fun w t => s.AlikeValue t v w) (conform shape v) s :=
    one.mono fun w t _ alike => ⟨alike, fun a ha => absurd ha (other a)⟩
  have one (single : shape.isArray = false) (takes : shape.TakesOne s v) (dated : shape.DatedOne s v) :
      Does (fun a => v = .array a) (fun w t => s.AlikeOne t v w) (conform shape v) s :=
    does_conformOne_again single steady takes dated (.refl s)
  cases shape with
  | map _ | record _ =>
    refine single (fun a ha => ?_) (one rfl takes dated)
    obtain ⟨null, -⟩ | ⟨b, _, json, -⟩ := takes
    · cases ha.symm.trans null
    · cases ha.symm.trans json
  | array element =>
    cases v with
    | array a =>
      obtain ⟨d, lies, held, each⟩ := takes
      have elements : (s.array a).cells.toList = d.cells.toList := by rw [Store.array, lies, Option.getD_some]
      have done : Does (fun x => Value.array a = .array x) (fun _ t =>
          List.Forall₂ (s.AlikeOne t) d.cells.toList (t.array a).cells.toList)
          (conformElements (conformTo element.depth element) a 0 d.cells.toList) s := by
        cases listed : d.cells.toList with
        | nil =>
          refine does_pure ?_
          rw [elements, listed]
          exact .nil
        | cons v rest =>
          -- elements that are taken are not packed
          have hv : v ∈ d.cells.toList := listed ▸ List.mem_cons_self ..
          have data : v.isNull = true ∨ ∃ b, v = .json b := by
            obtain ⟨null, -⟩ | ⟨b, -, json, -⟩ := each v hv
            · exact .inl (null ▸ rfl)
            · exact .inr ⟨b, json⟩
          obtain ⟨items, boxed⟩ := boxed_of_data hv data
          have items' : items.toList = v :: rest := by rw [← listed, boxed, Cells.toList]
          refine (does_conformElements_again steady.1 steady.2 (.refl s) lies (by rw [boxed, ← items']; simp) .nil
            fun w hw => ?_).weaken fun x same => congrArg Value.array same.symm
          rw [← listed] at hw
          exact ⟨⟨each w hw, dated d lies w hw⟩, held.imp_right (Or.imp_right fun held => held w hw)⟩
      refine does_get_bind ?_
      rw [elements]
      refine does_bind done fun _ t _ alike => does_pure ⟨.inl rfl, fun b hb => ?_⟩
      cases hb
      rw [elements]
      exact alike
    | _ => exact single (by rintro _ ⟨⟩) (does_pure (.inl rfl))

end StoreM

end Alike

/-! ## Values that are made to fit twice -/

namespace StoreM

variable {s t : Store} {shape : Shape} {v w : Value}

/-- What a value is made into so that it fits a steady shape is made to fit it again without a fault, if the dates in it have years of
four digits and offsets that show. Nothing that is in memory changes but the array that the value may be, and the same data comes out. -/
theorem conform_twice (sound : shape.Sound s) (plain : shape.Plain s) (steady : shape.Steady) (admits : shape.Admits s v)
    (run : (conform shape v).run.run s = (.ok w, t)) (dated : shape.Dated t w) :
    ∃ w' u, (conform shape w).run.run t = (.ok w', u) ∧ t.Later (fun a => w = .array a) u ∧ t.AlikeValue u w w' := by
  have takes : shape.Takes t w := takes_conform sound plain admits run
  obtain ⟨w', u, again, later, alike⟩ := does_conform steady takes dated
  exact ⟨w', u, again, later, alike⟩

/-- A record with a long under another case of letters, with a record and a date in it, and without the list that is a default. -/
theorem conform_twice_record :
    let inner : Shape := .record [.mk "id" .int none true 0 none]
    let shape : Shape := .record [.mk "count" .long none false 0 none, .mk "owner" .json (some inner) true 0 none,
      .mk "since" .date none false 0 none, .mk "tags" .array none false 0 (some (.array 0))]
    let s : Store := { Store.initial with
      arrays := #[⟨.any, false, .boxed #[.byte 1, .null]⟩],
      boxes := #[.object 0],
      objects := #[[("Count", .int 7), ("owner", .object 1), ("since", .text "2024-02-29T12:00:00+02:00")], [("id", .int 3)]] }
    shape.Sound s ∧ shape.Plain s ∧ shape.Steady ∧ shape.Admits s (.json 0) ∧
      ∃ w t w' u, (conform shape (.json 0)).run.run s = (.ok w, t) ∧ shape.Dated t w ∧ (conform shape w).run.run t = (.ok w', u) ∧
        t.Later (fun a => w = .array a) u ∧ t.AlikeValue u w w' := by
  intro inner shape s
  have sound : shape.Sound s := by
    refine ⟨by decide, nofun, ⟨⟨List.pairwise_singleton .., nofun, trivial⟩, fun _ _ h => nomatch h⟩, nofun, nofun, trivial⟩
  have plain : shape.Plain s := ⟨nofun, ⟨⟨nofun, trivial⟩, nofun⟩, nofun, nofun, trivial⟩
  have steady : shape.Steady := ⟨.inl rfl, ⟨.inl rfl, trivial⟩, .inl rfl, .inl rfl, trivial⟩
  obtain ⟨w, run⟩ := run_of_isOk (x := conform shape (.json 0)) (s := s) (by decide +kernel)
  -- the only text that lies anywhere then is that of the date
  have texts : ((conform shape (.json 0)).run.run s).2.objects.toList.all (fun es => es.all fun e => match e.2 with
      | .text x => x = "2024-02-29T12:00:00+02:00"
      | _ => true) = true := by decide +kernel
  have dated : shape.DatedOne ((conform shape (.json 0)).run.run s).2 w := by
    intro a n _ _ f m within _ _ x text
    subst text
    obtain ⟨es, there, e, mem, same⟩ := within.lies
    have checked := List.all_eq_true.mp (List.all_eq_true.mp texts es there) e mem
    rw [same] at checked
    obtain rfl := of_decide_eq_true checked
    let d := Date.make ⟨2024, 2, 29⟩ 12 0 0 0 (.fixed "" 7200)
    have fields : d.clock = ⟨⟨2024, 2, 29⟩, _, 12, 0, 0⟩ :=
      Date.clock_make (by decide) (by decide) (by decide) (by decide) 0 (Zone.keeps_of_changes rfl _)
    exact ⟨d, ⟨fields ▸ by decide, fields ▸ by decide, .inr (by decide)⟩, by decide +kernel⟩
  obtain ⟨w', u, again, later, alike⟩ := conform_twice sound plain steady nofun run dated
  exact ⟨sound, plain, steady, nofun, w, _, w', u, run, dated, again, later, alike⟩

/-- A byte lies in memory as a whole number, which is read back as an int. A record that got one as a default is not made to
fit again. -/
theorem lost_default :
    let shape : Shape := .record [.mk "b" .byte none false 0 (some (.byte 0)), .mk "n" .int none false 0 none]
    let s : Store := { Store.initial with
      boxes := #[.object 0],
      objects := #[[("n", .int 0)]] }
    shape.Sound s ∧ shape.Plain s ∧ shape.Admits s (.json 0) ∧
      ∃ w t f u, (conform shape (.json 0)).run.run s = (.ok w, t) ∧ t.inspect w = "\x7b\"b\":0,\"n\":0\x7d" ∧
        (conform shape w).run.run t = (.error f, u) := by
  intro shape s
  refine ⟨?_, ?_, nofun, _, _, _, _, rfl, by decide +kernel, rfl⟩
  · exact ⟨by decide, nofun, nofun, trivial⟩
  · exact ⟨nofun, nofun, trivial⟩

end StoreM

end ScriptEngine
