import ScriptEngine.Proofs.ArrayLists
import ScriptEngine.Proofs.PreparedArguments
import ScriptEngine.Proofs.Sharing
import ScriptEngine.Proofs.WholeMemory
/-!
# Computations on memory make up no address

Whatever reads, converts or writes json data does it with the data that it is given and that lies in memory, and with
containers that it makes.
-/

namespace ScriptEngine

variable {s t : Store} {α β : Type}

/-! ## Values in memory -/

section Valid

variable [Addressed α] [Addressed β]

@[grind ←]
theorem valid_box (h : s.Whole) (a : Nat) : Valid s (s.box a) := h.box a

@[grind ←]
theorem valid_object (h : s.Whole) (a : Nat) : Valid s (s.object a) := fun _ he => ⟨trivial, h.object he⟩

@[grind ←]
theorem valid_items (h : s.Whole) (b len : Nat) : Valid s (s.items b len) := fun _ => h.items

theorem valid_getD {o : Option Node} (valid : Valid s o) : Valid s (o.getD .null) := by
  cases o with
  | none => trivial
  | some n => exact valid n rfl

@[grind ←]
theorem valid_lookup {es : List (Text × Node)} (valid : Valid s es) (k : Text) : Valid s (Json.lookup k es) :=
  fun _ found => (valid _ (Json.mem_of_lookup found)).2

@[grind ←]
theorem valid_getElem? {l : List α} (valid : Valid s l) (i : Nat) : Valid s l[i]? :=
  fun _ found => valid _ (List.mem_of_getElem? found)

@[grind →]
theorem valid_listBox {a b len : Nat} (whole : s.Whole) (lies : s.box a = .list b len) : Valid s (Node.list b len) := lies ▸ whole.box a

@[grind →]
theorem valid_entry {a : Nat} {k : Text} {n : Node} (whole : s.Whole) (found : Json.lookup k (s.object a) = some n) : Valid s n :=
  valid_lookup (valid_object whole a) k n found

@[grind →]
theorem valid_item {b len i : Nat} {n : Node} (whole : s.Whole) (found : (s.items b len)[i]? = some n) : Valid s n :=
  valid_getElem? (valid_items whole b len) i n found

@[grind ←]
theorem valid_insert {es : List (Text × α)} {a : α} (valid : Valid s es) (there : Valid s a) (k : Text) :
    Valid s (Json.insert k a es) := by
  intro e he
  obtain rfl | he := Json.mem_insert he
  · exact ⟨trivial, there⟩
  · exact valid e he

@[grind ←]
theorem valid_ofScalar (j : Json) : Valid s (StoreM.ofScalar j) := by
  unfold StoreM.ofScalar
  split <;> trivial

end Valid

namespace StoreM

/-! ## What holds no json data -/

@[grind ←]
theorem safe_newArray (d : ArrayData) : Safe (newArray d) s := safe_of_leaves fun _ => rfl

@[grind ←]
theorem safe_modifyCells (a : Nat) (f : Cells → Cells) : Safe (modifyCells a f) s := safe_of_leaves fun _ => rfl

@[grind ←]
theorem safe_newQueue (items : List Value) : Safe (newQueue items) s := safe_of_leaves fun _ => rfl

@[grind ←]
theorem safe_setQueue (a : Nat) (items : List Value) : Safe (setQueue a items) s := safe_of_leaves fun _ => rfl

@[grind ←]
theorem safe_newFrame (f : Frame) : Safe (newFrame f) s := safe_of_leaves fun _ => rfl

@[grind ←]
theorem safe_modifyFrame (a : Nat) (f : List (Text × Binding) → List (Text × Binding)) : Safe (modifyFrame a f) s :=
  safe_of_leaves fun _ => rfl

@[grind ←]
theorem safe_newPicture (p : Picture) : Safe (newPicture p) s := safe_of_leaves fun _ => rfl

@[grind ←]
theorem safe_newFunction (f : FunctionData) : Safe (newFunction f) s := safe_of_leaves fun _ => rfl

/-! ## Json data -/

mutual

@[grind ←]
theorem safe_ofTree (s : Store) : (j : Json) → Safe (ofTree j) s
  | .null | .bool _ | .int _ | .double _ | .text _ => safe_pure trivial
  | .list items => safe_bind (safe_ofTrees s items) fun _ _ _ valid => safe_newGrownList valid
  | .object entries => safe_bind (safe_ofEntries s entries) fun _ _ _ valid => safe_newObject valid

@[grind ←]
theorem safe_ofTrees (s : Store) : (js : List Json) → Safe (ofTrees js) s
  | [] => safe_pure nofun
  | j :: js => by
    unfold ofTrees
    refine safe_bind (safe_ofTree s j) fun n t _ first => safe_bind (safe_ofTrees t js) fun ns u _ rest => ?_
    grind

@[grind ←]
theorem safe_ofEntries (s : Store) : (es : List (Text × Json)) → Safe (ofEntries es) s
  | [] => safe_pure nofun
  | (k, j) :: es => by
    unfold ofEntries
    refine safe_bind (safe_ofTree s j) fun n t _ first => safe_bind (safe_ofEntries t es) fun ns u _ rest => ?_
    grind

end

@[grind ←]
theorem safe_normalize {n : Node} (valid : Valid s n) : Safe (normalize n) s := by
  unfold normalize
  grind

@[grind ←]
theorem safe_toNodeTo (depth : Nat) (v : Value) : Safe (toNodeTo depth v) s := by
  induction depth generalizing s v with
  | zero => cases v <;> unfold toNodeTo <;> grind
  | succ depth ih =>
    have items {s : Store} (vs : List Value) : Safe (vs.mapM (toNodeTo depth)) s := safe_mapM (fun v _ _ _ => ih v) fun _ _ => trivial
    cases v <;> unfold toNodeTo <;> grind

@[grind ←]
theorem safe_toNode (v : Value) : Safe (toNode v) s := by
  unfold toNode
  grind

@[grind ←]
theorem safe_ofNode {n : Node} (valid : Valid s n) : Safe (ofNode n) s := by
  unfold ofNode
  grind

@[grind ←]
theorem safe_cloneTo (depth : Nat) {n : Node} (valid : Valid s n) : Safe (cloneTo depth n) s := by
  induction depth generalizing s n with
  | zero => cases n <;> exact safe_pure valid
  | succ depth ih =>
    cases n with
    | object a =>
      refine safe_get_bind fun whole => safe_bind (safe_mapM (fun e t _ he => ?_) (valid_object whole a)) fun _ _ _ => safe_newObject
      exact safe_bind (ih he.2) fun m u _ hm => safe_pure ⟨trivial, hm⟩
    | list b len =>
      exact safe_get_bind fun whole => safe_bind (safe_mapM (fun _ _ _ => ih) (valid_items whole b len)) fun _ _ _ => safe_newList
    | _ => exact safe_pure valid

@[grind ←]
theorem safe_clone {n : Node} (valid : Valid s n) : Safe (clone n) s := by
  unfold clone
  grind

@[grind ←]
theorem safe_parseJson (t : Text) : Safe (parseJson t) s := by
  unfold parseJson
  grind

/-! ## Arrays -/

@[grind ←]
theorem safe_newArrayOf (items : List Value) : Safe (newArrayOf items) s := safe_newArray _

@[grind ←]
theorem safe_newBytes (bytes : List UInt8) : Safe (newBytes bytes) s := safe_newArray _

@[grind ←]
theorem safe_newTexts (ts : List Text) : Safe (newTexts ts) s := safe_newArray _

@[grind ←]
theorem safe_newZeros (element : Kind) (n : Nat) (fixed : Bool) : Safe (newZeros element n fixed) s := safe_newArray _

@[grind ←]
theorem safe_repack (target : Kind) (d : ArrayData) : Safe (repack target d) s := by
  refine safe_get_bind fun _ => ?_
  extract_lets step
  split <;> grind

@[grind ←]
theorem safe_cannotConvert [Addressed α] (source target : Kind) : Safe (cannotConvert source target : StoreM α) s := safe_throw _

@[grind ←]
theorem safe_jsonOfText (t : Text) : Safe (jsonOfText t) s := by
  unfold jsonOfText
  grind

@[grind ←]
theorem safe_coerce (v : Value) (target : Kind) : Safe (coerce v target) s := by
  refine safe_bind (safe_kindOf v) fun source t _ _ => ?_
  split
  · exact safe_pure trivial
  split
  · exact safe_pure trivial
  split
  all_goals grind

/-! ## Equality -/

@[grind ←]
theorem safe_equalNodes {m n : Node} (first : Valid s m) (second : Valid s n) : Safe (equalNodes m n) s := by
  unfold equalNodes
  grind

theorem safe_allEqual {eq : Value → Value → StoreM Bool} (h : ∀ a b t, Safe (eq a b) t) (as bs : List Value) :
    Safe (allEqual eq as bs) s := by
  induction as generalizing s bs with
  | nil => cases bs <;> exact safe_pure trivial
  | cons a as ih =>
    cases bs with
    | nil => exact safe_pure trivial
    | cons b bs =>
      refine safe_bind (h a b s) fun same t _ _ => ?_
      cases same with
      | true => exact ih bs
      | false => exact safe_pure trivial

theorem safe_equalTo (depth : Nat) (a b : Value) : Safe (equalTo depth a b) s := by
  induction depth generalizing s a b with
  | zero => exact safe_pure trivial
  | succ depth ih =>
    have all (as bs : List Value) : Safe (allEqual (equalTo depth) as bs) s := safe_allEqual (fun a b _ => ih a b) as bs
    refine safe_get_bind fun whole => ?_
    dsimp only
    split
    · exact safe_pure trivial
    split
    · grind
    split <;> grind

@[grind ←]
theorem safe_equal (a b : Value) : Safe (equal a b) s := safe_get_bind fun _ => safe_equalTo _ a b

/-! ## Elements of arrays -/

@[grind ←]
theorem safe_arrayGet (a : Nat) (i : Int) : Safe (arrayGet a i) s := by
  refine safe_get_bind fun whole => ?_
  dsimp only
  split <;> grind

@[grind ←]
theorem safe_forElement (element : Kind) (cells : Cells) (v : Value) : Safe (forElement element cells v) s := by
  unfold forElement
  grind

@[grind ←]
theorem safe_arrayPut (a i : Nat) (v : Value) : Safe (arrayPut a i v) s := by
  refine safe_bind (safe_kindOf v) fun kind t _ _ => safe_get_bind fun _ => ?_
  split <;> grind

@[grind ←]
theorem safe_arraySet (a : Nat) (i : Int) (v : Value) : Safe (arraySet a i v) s := by
  unfold arraySet
  grind

@[grind ←]
theorem safe_arrayAppend (a : Nat) (v : Value) : Safe (arrayAppend a v) s := by
  unfold arrayAppend
  grind

@[grind ←]
theorem safe_arrayResize (a n : Nat) : Safe (arrayResize a n) s := by
  unfold arrayResize
  grind

/-! ## Paths -/

/-- A new list is gone on with. -/
theorem safe_newList_bind [Addressed β] {items : List Node} {f : Node → StoreM β} (valid : Valid s items)
    (hf : ∀ b len t, s.Grew t → Valid t (Node.list b len) → Safe (f (.list b len)) t) : Safe (newList items >>= f) s := by
  have list : Guards (fun n t => Valid t n ∧ ∃ b len, n = .list b len) (newList items) s := fun whole =>
    have ⟨course, whole', given⟩ := safe_newList valid whole
    ⟨course, whole', fun n same => ⟨given n same, by cases same; exact ⟨_, _, rfl⟩⟩⟩
  refine guards_bind list fun n t grew there => ?_
  obtain ⟨there, b, len, rfl⟩ := there
  exact hf b len t grew there

/-- A list that got one more item is gone on with. -/
theorem safe_append_bind [Addressed β] {b len : Nat} {n : Node} {f : Node → StoreM β} (list : Valid s (Node.list b len))
    (valid : Valid s n) (hf : ∀ b' len' t, s.Grew t → Valid t (Node.list b' len') → Safe (f (.list b' len')) t) :
    Safe (append b len n >>= f) s := by
  have list : Guards (fun n t => Valid t n ∧ ∃ b len, n = .list b len) (append b len n) s := fun whole =>
    have ⟨course, whole', given⟩ := safe_append list valid whole
    ⟨course, whole', fun m same => ⟨given m same, by
      rw [append, run_get_bind] at same
      dsimp only at same
      split at same <;> (cases same; exact ⟨_, _, rfl⟩)⟩⟩
  refine guards_bind list fun n t grew there => ?_
  obtain ⟨there, b, len, rfl⟩ := there
  exact hf b len t grew there

theorem safe_setAlong {n : Node} (steps : List Path.Step) {v : Node} (there : Valid s n) (valid : Valid s v) :
    Safe (setAlong n steps v) s := by
  induction steps generalizing s n v with
  | nil => exact safe_pure valid
  | cons step rest ih =>
    cases step with
    | index i =>
      unfold setAlong
      extract_lets write enter
      have safe_write {s : Store} (valid : Valid s v) {b len : Nat} (there : Valid s (Node.list b len)) : Safe (write (b, len)) s := by
        refine safe_get_bind fun whole => safe_bind (ih ?_ valid) fun child u grew hc => ?_
        · exact valid_getD fun _ lies => whole.buffer (Array.mem_of_getElem? lies)
        · exact safe_bind (safe_setPlace hc) fun _ w more _ => safe_pure (Addressed.valid_grew (grew.trans more) there)
      clear_value write
      have safe_enter {s : Store} (valid : Valid s v) {b len : Nat} (there : Valid s (Node.list b len)) : Safe (enter (b, len)) s := by
        simp only [enter, pure_bind]
        split
        · exact safe_throw_bind _ _
        · split
          · exact safe_append_bind there trivial fun b' len' t grew there' => safe_write (Addressed.valid_grew grew valid) there'
          · exact safe_write valid there
      clear_value enter
      cases n with
      | list b len => exact safe_enter valid there
      | null => exact safe_newList_bind nofun fun b len t grew there => safe_enter (Addressed.valid_grew grew valid) there
      | _ => exact safe_throw_bind _ _
    | key k =>
      unfold setAlong
      extract_lets into
      have safe_into {s : Store} (valid : Valid s v) (a : Option Nat) (there : ∀ b, a = some b → Valid s (Node.object b)) :
          Safe (into a) s := by
        refine safe_get_bind fun whole => safe_bind (ih ?_ valid) fun child u grew hc => ?_
        · refine valid_getD (valid_lookup ?_ k)
          cases a with
          | none => exact nofun
          | some a => exact valid_object whole a
        · cases a with
          | none => exact safe_newObject (valid_insert (show Valid _ ([] : List (Text × Node)) from nofun) hc k)
          | some a =>
            exact safe_get_bind fun _ => safe_bind (safe_insert hc) fun _ w more _ =>
              safe_pure (Addressed.valid_grew (grew.trans more) (there a rfl))
      clear_value into
      cases n with
      | object a => exact safe_into valid (some a) fun b same => by cases same; exact there
      | null => exact safe_into valid none nofun
      | _ => exact safe_throw_bind _ _

@[grind ←]
theorem safe_pathSet (box : Nat) (path : Text) {v : Node} (valid : Valid s v) : Safe (pathSet box path v) s := by
  have along {s : Store} {n : Node} {steps : List Path.Step} (there : Valid s n) (valid : Valid s v) :
      Safe (setAlong n steps v) s := safe_setAlong steps there valid
  unfold pathSet
  split
  · exact safe_throw _
  · exact safe_setBox valid
  · grind

/-- What a path leads to in valid data is valid. -/
theorem valid_pathGet? {n : Node} (whole : s.Whole) (there : Valid s n) (path : Text) : Valid s (s.pathGet? n path) := by
  have follow : ∀ (steps : List Path.Step) (n : Node), Valid s n → Valid s (s.follow? n steps) := by
    intro steps
    induction steps with
    | nil => exact fun n there _ same => Option.some.inj same ▸ there
    | cons step rest ih =>
      intro n there m found
      obtain ⟨k, into, found⟩ := Option.bind_eq_some_iff.mp found
      refine ih k ?_ m found
      cases step with
      | key key =>
        cases n with
        | object a => exact valid_entry whole into
        | _ => cases into
      | index i =>
        cases n with
        | list b len =>
          rw [Store.stepInto?] at into
          split at into
          · cases into
          · exact valid_item whole into
        | _ => cases into
  unfold Store.pathGet?
  split
  · exact follow _ n there
  · nofun

/-- The node above one that is removed is valid. -/
theorem valid_parentOf? {n m : Node} {steps : List Path.Step} (whole : s.Whole) (there : Valid s n)
    (above : s.parentOf? n steps = some m) : Valid s m := by
  induction steps generalizing n with
  | nil =>
    cases above
    exact there
  | cons step rest ih =>
    cases n with
    | object a => exact ih (valid_getD (valid_lookup (valid_object whole a) _)) above
    | list b len =>
      unfold Store.parentOf? at above
      dsimp only at above
      split at above
      · cases above
      · exact ih (valid_getD (valid_getElem? (valid_items whole b len) _)) above
    | _ => cases above

@[grind ←]
theorem safe_pathRemove (box : Nat) (path : Text) : Safe (pathRemove box path) s := by
  unfold pathRemove
  split
  · exact safe_pure trivial
  split
  · exact safe_pure trivial
  refine safe_get_bind fun whole => ?_
  dsimp only
  split
  · grind
  · rename_i b len above
    have there := valid_parentOf? whole (valid_box whole box) above
    split
    · exact safe_pure trivial
    split
    · exact safe_pure trivial
    rename_i i _ outside
    have inside : i.toNat < len := by
      simp only [Bool.or_eq_true, decide_eq_true_eq, not_or, not_lt, not_le] at outside
      omega
    refine safe_bind (safe_removePlace there inside) fun shorter t grew hs => ?_
    split
    · grind
    · grind
  · exact safe_pure trivial

@[grind ←]
theorem safe_sizeOf (n : Node) : Safe (sizeOf n) s := by
  unfold sizeOf
  split <;> grind

/-! ## Shapes -/

@[grind ←]
theorem safe_objectEntries {what : Text} {v : Value} : Safe (objectEntries what v) s := by
  refine safe_get_bind fun whole => ?_
  grind

section Conform

variable {conform : Shape → Value → StoreM Value}

theorem safe_conformField (h : ∀ {s} shape v, Safe (conform shape v) s) (f : FieldShape) (v : Value) :
    Safe (conformField conform f v) s := by
  obtain ⟨name, kind, shape, mandatory, maxLength, fallback⟩ := f
  unfold conformField
  dsimp only
  split
  · grind
  cases shape with
  | some shape => exact h shape v
  | none =>
    refine safe_kindOf_bind (safe_bind (safe_tryCatch (safe_coerce v kind) fun _ _ _ => safe_throw _) fun w t _ _ => ?_)
    grind

theorem safe_conformGiven (h : ∀ {s} shape v, Safe (conform shape v) s) (fields : List FieldShape) {given : List (Text × Node)}
    (there : Valid s given) : Safe (conformGiven conform fields given) s := by
  induction given generalizing s with
  | nil => exact safe_pure nofun
  | cons e rest ih =>
    obtain ⟨key, n⟩ := e
    obtain ⟨first, rest'⟩ := List.forall_mem_cons.mp there
    unfold conformGiven
    cases fields.find? fun f => f.name.equalFold key with
    | none => exact safe_throw _
    | some f =>
      refine safe_bind (safe_ofNode first.2) fun v t grew _ => safe_bind (safe_conformField h f v) fun w t grew' _ => ?_
      refine safe_bind (safe_toNode w) fun m t grew'' hm => ?_
      refine safe_bind (ih (Addressed.valid_grew ((grew.trans grew').trans grew'') rest')) fun more u _ _ => ?_
      grind

theorem safe_fillFields (h : ∀ {s} shape v, Safe (conform shape v) s) (fields : List FieldShape) {out : List (Text × Node)}
    (there : Valid s out) : Safe (fillFields conform fields out) s := by
  induction fields generalizing s out with
  | nil => exact safe_pure there
  | cons f rest ih =>
    unfold fillFields
    split
    · exact ih there
    cases f.fallback with
    | some d =>
      refine safe_bind (safe_conformField h f d) fun v t grew _ => ?_
      refine safe_bind (safe_toNode v) fun m u grew' hm => safe_bind (safe_clone hm) fun n w grew'' hn => ?_
      exact ih (valid_insert (Addressed.valid_grew ((grew.trans grew').trans grew'') there) hn f.name)
    | none =>
      dsimp only
      split
      · exact safe_throw _
      · exact ih there

theorem safe_conformElements {conform : Value → StoreM Value} (h : ∀ {t} v, Safe (conform v) t) (a i : Nat) (vs : List Value) :
    Safe (conformElements conform a i vs) s := by
  induction vs generalizing s i with
  | nil => exact safe_pure trivial
  | cons v rest ih =>
    refine safe_bind (safe_tryCatch (h v) fun _ _ _ => safe_throw _) fun w t _ _ => ?_
    exact safe_bind (safe_arraySet a i w) fun _ u _ _ => ih (i + 1)

end Conform

theorem safe_conformTo (depth : Nat) (shape : Shape) (v : Value) : Safe (conformTo depth shape v) s := by
  induction depth generalizing s shape v with
  | zero => exact safe_pure trivial
  | succ depth ih =>
    unfold conformTo
    cases shape with
    | map sorted => grind
    | record fields =>
      dsimp only
      split
      · exact safe_pure trivial
      refine safe_bind safe_objectEntries fun entries t _ he => safe_bind (safe_conformGiven ih fields he) fun given u _ hg => ?_
      refine safe_bind (safe_fillFields ih fields hg) fun all w _ ha => ?_
      grind
    | array element =>
      cases v with
      | array a =>
        exact safe_get_bind fun whole => safe_bind (safe_conformElements (ih element) a 0 _) fun _ t _ _ => safe_pure trivial
      | _ => exact safe_pure trivial

@[grind ←]
theorem safe_conform (shape : Shape) (v : Value) : Safe (conform shape v) s := safe_conformTo _ shape v

/-! ## Documents -/

mutual

theorem safe_place : (d : Yaml.Datum) → {s : Store} → {p : Placed} → Valid s p → Safe ((place d).run p) s
  | .list items, _, _, valid => by
    refine safe_bind (safe_placeAll items valid) fun (nodes, p) t _ made => ?_
    change Safe (newList nodes >>= fun n => pure (n, p)) t
    exact safe_bind (safe_newList made.1) fun _ _ grew there => safe_pure ⟨there, Addressed.valid_grew grew made.2⟩
  | .object es, _, _, valid => by
    refine safe_bind (safe_placeEntries es valid) fun (entries, p) t _ made => ?_
    change Safe (newObject entries >>= fun n => pure (n, p)) t
    exact safe_bind (safe_newObject made.1) fun _ _ grew there => safe_pure ⟨there, Addressed.valid_grew grew made.2⟩
  | .shared number d, s, p, valid => by
    rw [place, StateT.run_bind, StateT.run_get, pure_bind]
    cases known : p.lookup number with
    | some n =>
      obtain ⟨before, after, rfl, -⟩ := List.lookup_eq_some_iff.mp known
      exact safe_pure ⟨(valid (number, n) (by simp)).2, valid⟩
    | none =>
      refine safe_bind (safe_place d valid) fun made t _ hm => safe_pure ⟨hm.1, fun e he => ?_⟩
      obtain rfl | he := List.mem_cons.mp he
      · exact ⟨trivial, hm.1⟩
      · exact hm.2 e he
  | .null, _, _, valid | .bool _, _, _, valid | .text _, _, _, valid => safe_pure ⟨trivial, valid⟩
  | .int n, _, _, valid => safe_pure ⟨valid_ofScalar (Yaml.Datum.int n).scalarJson, valid⟩
  | .float x, _, _, valid => safe_pure ⟨valid_ofScalar (Yaml.Datum.float x).scalarJson, valid⟩
  | .bytes bs, _, _, valid => safe_pure ⟨valid_ofScalar (Yaml.Datum.bytes bs).scalarJson, valid⟩
  | .moment d, _, _, valid => safe_pure ⟨valid_ofScalar (Yaml.Datum.moment d).scalarJson, valid⟩

theorem safe_placeAll : (ds : List Yaml.Datum) → {s : Store} → {p : Placed} → Valid s p → Safe ((placeAll ds).run p) s
  | [], _, _, valid => safe_pure ⟨nofun, valid⟩
  | d :: ds, _, _, valid => safe_bind (safe_place d valid) fun _ _ _ first =>
      safe_bind (safe_placeAll ds first.2) fun _ _ grew rest =>
        safe_pure ⟨List.forall_mem_cons.mpr ⟨Addressed.valid_grew grew first.1, rest.1⟩, rest.2⟩

theorem safe_placeEntries : (es : List (Text × Yaml.Datum)) → {s : Store} → {p : Placed} → Valid s p →
    Safe ((placeEntries es).run p) s
  | [], _, _, valid => safe_pure ⟨nofun, valid⟩
  | (_, d) :: es, _, _, valid => safe_bind (safe_place d valid) fun _ _ _ first =>
      safe_bind (safe_placeEntries es first.2) fun _ _ grew rest =>
        safe_pure ⟨List.forall_mem_cons.mpr ⟨⟨trivial, Addressed.valid_grew grew first.1⟩, rest.1⟩, rest.2⟩

end

@[grind ←]
theorem safe_ofDatum (d : Yaml.Datum) : Safe (ofDatum d) s :=
  safe_bind (safe_place d nofun) fun _ _ _ made => safe_pure made.1

/-! ## Arguments of builtins -/

@[grind ←]
theorem safe_prepareOne (name : Text) (p : Signature.Param) (v : Value) : Safe (Signature.prepareOne name p v) s := by
  unfold Signature.prepareOne
  split
  · grind
  · refine safe_bind (safe_kindOf v) fun kind t _ _ => ?_
    grind

theorem safe_prepareAll (name : Text) (ps : List Signature.Param) (args : List Value) :
    Safe (Signature.prepareAll name ps args) s := by
  induction ps generalizing s args with
  | nil => exact safe_pure nofun
  | cons p ps ih =>
    exact safe_bind (safe_prepareOne name p _) fun v t _ _ => safe_bind (ih _) fun vs u _ _ => safe_pure fun _ _ => trivial

@[grind ←]
theorem safe_prepare (sig : Signature) (args : List Value) : Safe (sig.prepare args) s := by
  have all := safe_prepareAll (s := s) sig.name sig.params args
  unfold Signature.prepare
  grind

end StoreM

namespace StoreM

/-! ## Variables -/

@[grind ←]
theorem safe_push (e : Scope) : Safe (push e) s := by
  unfold push
  grind

@[grind ←]
theorem safe_pushFrom (e : Scope) (outer : Option Nat) : Safe (pushFrom e outer) s := by
  unfold pushFrom
  grind

@[grind ←]
theorem safe_define (e : Scope) (name : Text) (v : Value) : Safe (define e name v) s := safe_modifyFrame _ _

@[grind ←]
theorem safe_defineTyped (e : Scope) (name : Text) (kind : Kind) (v : Value) : Safe (defineTyped e name kind v) s := by
  unfold defineTyped
  grind

@[grind ←]
theorem safe_defineShaped (e : Scope) (name : Text) (kind : Kind) (shape : Shape) (v : Value) :
    Safe (defineShaped e name kind shape v) s := by
  unfold defineShaped
  grind

@[grind ←]
theorem safe_defineConst (e : Scope) (name : Text) (v : Value) : Safe (defineConst e name v) s := safe_modifyFrame _ _

@[grind ←]
theorem safe_defineGlobal (e : Scope) (name : Text) (v : Value) : Safe (defineGlobal e name v) s := safe_modifyFrame _ _

@[grind ←]
theorem safe_valueOf (e : Scope) (name : Text) : Safe (valueOf e name) s := by
  refine safe_get_bind fun _ => ?_
  split <;> grind

@[grind ←]
theorem safe_assign (e : Scope) (name : Text) (v : Value) : Safe (assign e name v) s := by
  refine safe_get_bind fun _ => ?_
  cases s.lookup? e name with
  | none => exact safe_throw _
  | some place =>
    obtain ⟨a, value, constant, kind, shape⟩ := place
    dsimp only
    split
    · exact safe_throw_bind _ _
    have bare (w : Value) (t : Store) : Safe (modifyFrame a (setBinding name ⟨w, constant, kind, none⟩)) t := by grind
    have fitted (shape : Shape) (w : Value) (t : Store) :
        Safe (do let w ← conform shape w; modifyFrame a (setBinding name ⟨w, constant, kind, shape⟩)) t := by grind
    cases kind with
    | none =>
      cases shape with
      | none => exact bare v s
      | some shape => exact fitted shape v s
    | some kind =>
      cases shape with
      | none => exact safe_bind (safe_tryCatch (safe_coerce v kind) fun _ _ _ => safe_throw _) fun w t _ _ => bare w t
      | some shape =>
        exact safe_bind (safe_tryCatch (safe_coerce v kind) fun _ _ _ => safe_throw _) fun w t _ _ => fitted shape w t

end StoreM

namespace Eval

open StoreM

@[grind ←]
theorem safe_assigning [Addressed α] {v : Value} {kind : Kind} {name : Text} {x : StoreM α} (hx : Safe x s) :
    Safe (assigning v kind name x) s := by
  unfold assigning
  exact safe_kindOf_bind (safe_tryCatch hx fun _ _ _ => safe_throw _)

@[grind ←]
theorem safe_declareKind (e : Scope) (name : Text) (kind : Kind) (v : Value) (constant : Bool) :
    Safe (declareKind e name kind v constant) s := by
  unfold declareKind
  split
  · grind
  split <;> grind

@[grind ←]
theorem safe_declareAs (e : Scope) (name : Text) (kind : Kind) (shape : Option Shape) (v : Value) (constant : Bool) :
    Safe (declareAs e name kind shape v constant) s := by
  unfold declareAs
  cases shape <;> grind

/-! ## Declared arrays -/

@[grind ←]
theorem safe_buildArray (element : Kind) (dims : List (Option Nat)) : Safe (buildArray element dims) s := by
  induction dims generalizing s with
  | nil => exact safe_newZeros _ _ _
  | cons d rest ih =>
    cases rest with
    | nil => exact safe_newZeros _ _ _
    | cons e rest => exact safe_bind (safe_mapM (fun _ _ _ _ => ih) fun _ _ => trivial) fun _ _ _ _ => safe_newArray _

@[grind ←]
theorem safe_fillFrom (a i : Nat) (vs : List Value) : Safe (fillFrom a i vs) s := by
  induction vs generalizing s i with
  | nil => exact safe_pure trivial
  | cons v rest ih => exact safe_bind (safe_arraySet a i v) fun _ _ _ _ => ih (i + 1)

@[grind ←]
theorem safe_initialArray (typeName : Text) (dims : List (Option Nat)) (v : Value) : Safe (initialArray typeName dims v) s := by
  unfold initialArray
  extract_lets element size copy
  have safe_copy {s : Store} (items : List Value) : Safe (copy items) s := by
    unfold copy
    grind
  clear_value copy
  split
  · exact safe_buildArray element dims
  · refine safe_kindOf_bind (safe_bind (safe_tryCatch (safe_coerce v _) fun _ _ _ => safe_throw _) fun source t _ _ => ?_)
    grind

/-! ## Operators -/

@[grind ←]
theorem safe_wrong [Addressed α] (message : Text) : Safe (wrong message : StoreM α) s := safe_throw _

@[grind ←]
theorem safe_unary (op : UnaryOp) (v : Value) : Safe (unary op v) s := by
  refine safe_kindOf_bind ?_
  dsimp only
  split <;> grind

@[grind ←]
theorem safe_binary (op : BinaryOp) (a b : Value) : Safe (binary op a b) s := by
  unfold binary
  split
  · grind
  · grind
  · refine safe_get_bind fun _ => ?_
    extract_lets a' b' ka kb
    split
    · exact safe_pure trivial
    split
    · split <;> grind
    split
    · split <;> grind
    · exact safe_wrong _

@[grind ←]
theorem safe_placeOf (index : Value) : Safe (placeOf index) s := by
  unfold placeOf
  split <;> grind

@[grind ←]
theorem safe_keyOf (index : Value) : Safe (keyOf index) s := by
  unfold keyOf
  split <;> grind

@[grind ←]
theorem safe_readIndex (container index : Value) : Safe (readIndex container index) s := by
  unfold readIndex
  split
  · grind
  · grind
  · refine safe_get_bind fun whole => ?_
    grind
  · grind

@[grind ←]
theorem safe_writeIndex (container index v : Value) : Safe (writeIndex container index v) s := by
  unfold writeIndex
  split
  · grind
  · refine safe_get_bind fun whole => ?_
    split
    · grind
    · rename_i buffer len lies
      have list : Valid s (Node.list buffer len) := lies ▸ whole.box _
      refine safe_bind (safe_placeOf index) fun i t grew _ => ?_
      have list := Addressed.valid_grew grew list
      split
      · exact safe_bind (safe_toNode v) fun n u more hn => safe_bind (safe_append (Addressed.valid_grew more list) hn)
          fun _ _ _ => safe_setBox
      split
      · exact safe_bind (safe_toNode v) fun _ _ _ => safe_setPlace
      · exact safe_throw _
    · grind
  · grind

@[grind ←]
theorem safe_lengthOf (v : Value) : Safe (lengthOf v) s := by
  unfold lengthOf
  dsimp only
  split <;> grind

@[grind ←]
theorem safe_sequence (v : Value) : Safe (sequence v) s := by
  refine safe_get_bind fun whole => ?_
  dsimp only
  split <;> grind

/-! ## Members -/

@[grind ←]
theorem safe_setBelow (base : Text) (path : List Text) {v : Node} (done : Nat) (names : List Text) (a : Nat) (valid : Valid s v) :
    Safe (setBelow base path v done names a) s := by
  fun_induction setBelow base path v done names a generalizing s with
  | case1 => exact safe_pure trivial
  | case2 done a name => grind
  | case3 done name rest a _ ih =>
    refine safe_get_bind fun whole => ?_
    extract_lets entries key
    split
    · exact ih _ valid
    · -- the new object is empty, so all objects are as they were
      have made : Guards (fun n t => Valid t n ∧ (∃ b, n = .object b) ∧ ∀ a, t.object a = s.object a) (newObject []) s := by
        intro whole
        have nothing : Valid s ([] : List (Text × Node)) := fun _ he => absurd he List.not_mem_nil
        obtain ⟨course, whole', given⟩ := safe_newObject nothing whole
        refine ⟨course, whole', fun n same => ⟨given n same, by cases same; exact ⟨_, rfl⟩, fun a => ?_⟩⟩
        change ((s.objects.push [])[a]?).getD [] = _
        rw [Array.getElem?_push, Store.object]
        split
        · rename_i last
          rw [last, Array.getElem?_eq_none (Nat.le_refl _)]
          rfl
        · rfl
      refine guards_bind made fun n t grew made => ?_
      obtain ⟨there, ⟨next, rfl⟩, same⟩ := made
      have insert : Safe (setObject a (Json.insert key (.object next) entries)) t := by
        have entries_eq : entries = t.object a := (same a).symm
        rw [entries_eq]
        exact safe_insert there
      exact safe_bind insert fun _ u more _ => ih next (Addressed.valid_grew (grew.trans more) valid)
    · exact safe_throw _

end Eval

end ScriptEngine
