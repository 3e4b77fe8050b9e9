import ScriptEngine.Proofs.Sharing
/-!
# Values that shapes take as they are

A value that was made to fit a shape is of a form that the shape takes as it is. The form depends on no memory but on the
containers that the value reaches, so that it stays while others are written to.
-/

namespace ScriptEngine

/-- Whether a text begins like a json object or list. -/
def Text.opensJson (t : Text) : Bool := t.trim.startsWith "\x7b" || t.trim.startsWith "["

/-- The kind of a field. -/
def FieldShape.kind : FieldShape → Kind
  | .mk _ k _ _ _ _ => k

variable (s : Store)

/-- Data that a field of a kind takes: it is of the kind, a text keeps to the limit, and where any json data is declared
no text begins like an object or list. -/
structure Kind.Takes (k : Kind) (maxLength : Nat) (n : Node) : Prop where
  ofKind : n.OfKind k
  within : k = .string → n.Within maxLength
  plain : k = .json → ∀ t, n = .text t → t.opensJson = false
  lies : k = .array → ∀ b len, n = .list b len → ∃ places, s.buffers[b]? = some places

mutual

/-- Data that a shape takes: a record has declared fields only, each with data that it takes, and none is missing that
must be given or has a default. -/
def Shape.TakesData : Shape → Node → Prop
  | .map _, n => ∃ a, n = .object a
  | .record fields, n => ∃ a es, n = .object a ∧ s.objects[a]? = some es ∧
      (∀ e ∈ es, FieldShape.FirstTakes fields e.1 e.2) ∧
      ∀ f ∈ fields, f.mandatory = true ∨ f.fallback.isSome = true → ∃ e ∈ es, e.1.equalFold f.name = true
  | .array _, _ => True

/-- Data that the field takes which a key names, the first one of that name. -/
def FieldShape.FirstTakes : List FieldShape → Text → Node → Prop
  | [], _, _ => False
  | f :: fs, key, n => if f.name.equalFold key = true then f.Takes n else FieldShape.FirstTakes fs key n

/-- Data that a field takes. -/
def FieldShape.Takes : FieldShape → Node → Prop
  | .mk _ kind none mandatory maxLength _, n =>
    n.isNull = true ∧ mandatory = false ∨ n.isNull = false ∧ kind.Takes s maxLength n
  | .mk _ _ (some shape) mandatory _ _, n =>
    n.isNull = true ∧ mandatory = false ∨ n.isNull = false ∧ shape.TakesData n

end

/-- A single value that a shape takes: json data, or null where no map is declared. -/
def Shape.TakesOne (shape : Shape) (v : Value) : Prop :=
  v = .null ∧ (∀ sorted, shape ≠ .map sorted) ∨ ∃ a n, v = .json a ∧ s.boxes[a]? = some n ∧ shape.TakesData s n

/-- A value that a shape takes: an array whose elements it takes, or a single value. -/
def Shape.Takes : Shape → Value → Prop
  | .array element, .array a => ∃ d, s.arrays[a]? = some d ∧ s.HoldsElements d ∧ ∀ v ∈ d.cells.toList, element.TakesOne s v
  | .array _, _ => True
  | shape, v => shape.TakesOne s v

mutual

/-- A shape is plain: no text that is a default of a json field begins like an object or list, arrays that are defaults
lie in memory, and there are no arrays of arrays. -/
def Shape.Plain : Shape → Prop
  | .map _ => True
  | .record fields => FieldShape.AllPlain fields
  | .array element => element.isArray = false ∧ element.Plain

/-- All fields are plain. -/
def FieldShape.AllPlain : List FieldShape → Prop
  | [] => True
  | f :: fs => f.Plain ∧ FieldShape.AllPlain fs

/-- A field is plain. -/
def FieldShape.Plain : FieldShape → Prop
  | .mk _ kind none _ _ fallback => kind = .json →
      ∀ a, fallback = some (.json a) → ∃ n, s.boxes[a]? = some n ∧ ∀ t, n = .text t → t.opensJson = false
  | .mk _ _ (some shape) _ _ fallback => shape.Plain ∧ ∀ a, fallback = some (.array a) → a < s.arrays.size

end

mutual

/-- The arrays among the defaults of a shape where an array of records or maps is declared. They are made to fit where
they lie. -/
def Shape.Rewrites : Shape → Nat → Prop
  | .map _, _ => False
  | .record fields, a => FieldShape.AnyRewrites fields a
  | .array element, a => element.Rewrites a

/-- The arrays among the defaults of fields. -/
def FieldShape.AnyRewrites : List FieldShape → Nat → Prop
  | [], _ => False
  | f :: fs, a => f.Rewrites a ∨ FieldShape.AnyRewrites fs a

/-- The array that is the default of a field, and those among the defaults of its shape. -/
def FieldShape.Rewrites : FieldShape → Nat → Prop
  | .mk _ _ none _ _ _, _ => False
  | .mk _ _ (some shape) _ _ fallback, a => fallback = some (.array a) ∧ shape.isArray = true ∨ shape.Rewrites a

end

/-- An array can be made to fit a shape: it lies in memory, holds elements of the kind that it declares, and is not among
the defaults of the shape. -/
def Shape.Admits (shape : Shape) (v : Value) : Prop :=
  ∀ a, v = .array a → shape.isArray = true → (∃ d, s.arrays[a]? = some d ∧ s.HoldsElements d) ∧ ¬shape.Rewrites a

variable {s}

/-- The arrays that are written to when a value is made to fit a shape. -/
def Shape.WrittenFor (shape : Shape) (v : Value) (a : Nat) : Prop := v = .array a ∧ shape.isArray = true ∨ shape.Rewrites a

theorem FieldShape.firstTakes_iff {fields : List FieldShape} {key : Text} {n : Node} :
    FieldShape.FirstTakes s fields key n ↔
      ∃ f, (fields.find? fun f => f.name.equalFold key) = some f ∧ f.Takes s n := by
  induction fields with
  | nil => exact ⟨nofun, nofun⟩
  | cons f fs ih =>
    rw [FieldShape.FirstTakes, List.find?_cons]
    split
    · rename_i named
      simp [named]
    · rename_i other
      simp only [Bool.not_eq_true] at other
      simp only [other]
      exact ih

theorem FieldShape.AllPlain.of_mem {fields : List FieldShape} {f : FieldShape} (h : FieldShape.AllPlain s fields)
    (hf : f ∈ fields) : f.Plain s := by
  induction fields with
  | nil => cases hf
  | cons g fs ih =>
    obtain rfl | hf := List.mem_cons.mp hf
    · exact h.1
    · exact ih h.2 hf

theorem FieldShape.AnyRewrites.of_mem {fields : List FieldShape} {f : FieldShape} {a : Nat} (hf : f ∈ fields)
    (h : f.Rewrites a) : FieldShape.AnyRewrites fields a := by
  induction fields with
  | nil => cases hf
  | cons g fs ih =>
    obtain rfl | hf := List.mem_cons.mp hf
    · exact .inl h
    · exact .inr (ih hf)

/-! ## Other memory -/

section Kept

variable {changed : Container → Prop} {written : Nat → Prop} {t : Store}

theorem Kind.Takes.kept {k : Kind} {maxLength : Nat} {n n' : Node} (h : s.LaterBut changed t) (settles : n.Settles n')
    (apart : ∀ c, s.Reaches n c → ¬changed c) (takes : k.Takes s maxLength n) : k.Takes t maxLength n' where
  ofKind := takes.ofKind.settles settles
  within := fun string => (takes.within string).settles settles
  plain := fun json text same => by
    obtain rfl | ⟨_, _, _, rfl⟩ := settles.cases
    · exact takes.plain json text same
    · cases same
  lies := fun array b len same => by
    subst same
    cases Store.settles_list settles
    obtain ⟨places, lies⟩ := takes.lies array b len rfl
    obtain ⟨places', lies', -⟩ := h.buffers b places lies (apart _ (.buffer b len))
    exact ⟨places', lies'⟩

mutual

/-- A shape takes data as long as nothing that the data reaches is changed. -/
theorem Shape.TakesData.kept (h : s.LaterBut changed t) : (shape : Shape) → {n n' : Node} → n.Settles n' →
    (∀ c, s.Reaches n c → ¬changed c) → shape.TakesData s n → shape.TakesData t n'
  | .map _, _, _, settles, _, ⟨a, hn⟩ => by
    subst hn
    exact ⟨a, settles.eq_of_settled rfl⟩
  | .record fields, n, n', settles, apart, ⟨a, es, hn, lies, each, complete⟩ => by
    subst hn
    obtain ⟨es', lies', same⟩ := h.objects a es lies (apart _ (.object a))
    refine ⟨a, es', settles.eq_of_settled rfl, lies', fun e' he' => ?_, fun f hf must => ?_⟩
    · obtain ⟨e, he, key, more⟩ := forall₂_exists_left same he'
      rw [key]
      exact FieldShape.FirstTakes.kept h fields more (fun c inner => apart c (.entry lies he inner)) (each e he)
    · obtain ⟨e, he, named⟩ := complete f hf must
      obtain ⟨e', he', key', -⟩ := forall₂_exists_right same he
      exact ⟨e', he', key' ▸ named⟩
  | .array _, _, _, _, _, _ => trivial

theorem FieldShape.FirstTakes.kept (h : s.LaterBut changed t) : (fields : List FieldShape) → {key : Text} →
    {n n' : Node} → n.Settles n' → (∀ c, s.Reaches n c → ¬changed c) → FieldShape.FirstTakes s fields key n →
      FieldShape.FirstTakes t fields key n'
  | f :: fs, key, n, n', settles, apart, takes => by
    rw [FieldShape.FirstTakes] at takes ⊢
    split
    · rename_i named
      rw [if_pos named] at takes
      exact FieldShape.Takes.kept h f settles apart takes
    · rename_i other
      rw [if_neg other] at takes
      exact FieldShape.FirstTakes.kept h fs settles apart takes

theorem FieldShape.Takes.kept (h : s.LaterBut changed t) : (f : FieldShape) → {n n' : Node} → n.Settles n' →
    (∀ c, s.Reaches n c → ¬changed c) → f.Takes s n → f.Takes t n'
  | .mk _ _ none _ _ _, _, _, settles, apart, takes => by
    simp only [FieldShape.Takes, settles.isNull] at takes ⊢
    exact takes.imp_right fun ⟨present, takes⟩ => ⟨present, takes.kept h settles apart⟩
  | .mk _ _ (some shape) _ _ _, _, _, settles, apart, takes => by
    simp only [FieldShape.Takes, settles.isNull] at takes ⊢
    exact takes.imp_right fun ⟨present, takes⟩ => ⟨present, Shape.TakesData.kept h shape settles apart takes⟩

end

theorem Kind.Takes.later (h : s.Later written t) {k : Kind} {maxLength : Nat} {n : Node} (takes : k.Takes s maxLength n) :
    k.Takes t maxLength n := by
  refine Kind.Takes.kept h.butArrays (.refl n) ?_ takes
  exact fun _ reaches other => other reaches.isData

theorem FieldShape.Takes.later (h : s.Later written t) {f : FieldShape} {n n' : Node} (settles : n.Settles n')
    (takes : f.Takes s n) : f.Takes t n' := by
  refine FieldShape.Takes.kept h.butArrays f settles ?_ takes
  exact fun _ reaches other => other reaches.isData

/-- What a shape takes it takes in later memory, where only arrays are written to. -/
theorem Shape.TakesData.later (h : s.Later written t) {shape : Shape} {n n' : Node} (settles : n.Settles n')
    (takes : shape.TakesData s n) : shape.TakesData t n' := by
  refine Shape.TakesData.kept h.butArrays shape settles ?_ takes
  exact fun _ reaches other => other reaches.isData

theorem Shape.TakesOne.kept (h : s.LaterBut changed t) {shape : Shape} {v : Value}
    (apart : ∀ c, s.Holding v c → ¬changed c) (takes : shape.TakesOne s v) : shape.TakesOne t v := by
  refine takes.imp_right fun ⟨a, n, same, lies, data⟩ => ⟨a, n, same, ?_⟩
  subst same
  refine ⟨h.boxes a n lies (apart _ (.box a)), ?_⟩
  exact Shape.TakesData.kept h shape (.refl n) (fun c inner => apart c (.data lies inner)) data

theorem Shape.TakesOne.later (h : s.Later written t) {shape : Shape} {v : Value} (takes : shape.TakesOne s v) :
    shape.TakesOne t v := by
  refine takes.imp_right fun ⟨a, n, same, lies, data⟩ => ?_
  obtain ⟨n', lies', rfl⟩ := h.boxes a n lies
  exact ⟨a, n, same, lies', data.later h (.refl n)⟩

/-- A kind holds null or json data whatever else lies in memory. -/
theorem Shape.TakesOne.holds {shape : Shape} {v : Value} {k : Kind} (takes : shape.TakesOne s v) {u : Store}
    (held : u.Holds k v) (t : Store) : t.Holds k v := by
  obtain ⟨rfl, -⟩ | ⟨a, n, rfl, -⟩ := takes
  · exact held
  · exact held.json t a

/-- A shape that is not of arrays takes single values. -/
theorem Shape.takes_iff {shape : Shape} {v : Value} (single : shape.isArray = false) :
    shape.Takes s v ↔ shape.TakesOne s v := by
  cases shape with
  | array _ => cases single
  | _ => exact .rfl

/-- A shape takes a value as long as nothing that the value reaches is changed. -/
theorem Shape.Takes.kept (h : s.LaterBut changed t) {shape : Shape} {v : Value} (apart : ∀ c, s.Holding v c → ¬changed c)
    (takes : shape.Takes s v) : shape.Takes t v := by
  cases shape with
  | map _ | record _ => exact Shape.TakesOne.kept h apart takes
  | array element =>
    cases v with
    | array a =>
      obtain ⟨d, lies, held, each⟩ := takes
      refine ⟨d, h.arrays a d lies (apart _ (.array a)), ?_, fun v hv =>
        (each v hv).kept h fun c inner => apart c (.element lies hv inner)⟩
      exact held.imp_right (Or.imp_right fun held v hv => (each v hv).holds (held v hv) t)
    | _ => trivial

end Kept

/-! ## Plain shapes -/

section Plain

variable {written : Nat → Prop} {t : Store}

mutual

/-- A plain shape is so as long as what lies in memory does. -/
theorem Shape.Plain.kept (h : s.Keeps t) : (shape : Shape) → shape.Plain s → shape.Plain t
  | .map _, _ => trivial
  | .record fields, plain => FieldShape.AllPlain.kept h fields plain
  | .array element, ⟨single, plain⟩ => ⟨single, Shape.Plain.kept h element plain⟩

theorem FieldShape.AllPlain.kept (h : s.Keeps t) :
    (fields : List FieldShape) → FieldShape.AllPlain s fields → FieldShape.AllPlain t fields
  | [], _ => trivial
  | f :: fs, ⟨first, rest⟩ => ⟨FieldShape.Plain.kept h f first, FieldShape.AllPlain.kept h fs rest⟩

theorem FieldShape.Plain.kept (h : s.Keeps t) : (f : FieldShape) → f.Plain s → f.Plain t
  | .mk _ _ none _ _ _, plain => fun json a ha =>
    have ⟨n, lies, text⟩ := plain json a ha
    ⟨n, h.boxes a n lies, text⟩
  | .mk _ _ (some shape) _ _ _, ⟨plain, lies⟩ =>
    ⟨Shape.Plain.kept h shape plain, fun a ha => Nat.lt_of_lt_of_le (lies a ha) h.arrays⟩

end

mutual

/-- The arrays among the defaults of a plain shape lie in memory. -/
theorem Shape.Rewrites.inside : (shape : Shape) → shape.Plain s → {a : Nat} → shape.Rewrites a → a < s.arrays.size
  | .record fields, plain, _, written => FieldShape.AnyRewrites.inside fields plain written
  | .array element, plain, _, written => Shape.Rewrites.inside element plain.2 written

theorem FieldShape.AnyRewrites.inside : (fields : List FieldShape) → FieldShape.AllPlain s fields → {a : Nat} →
    FieldShape.AnyRewrites fields a → a < s.arrays.size
  | f :: _, ⟨first, _⟩, _, .inl written => FieldShape.Rewrites.inside f first written
  | _ :: fs, ⟨_, rest⟩, _, .inr written => FieldShape.AnyRewrites.inside fs rest written

theorem FieldShape.Rewrites.inside : (f : FieldShape) → f.Plain s → {a : Nat} → f.Rewrites a → a < s.arrays.size
  | .mk _ _ (some _) _ _ _, ⟨_, lies⟩, a, .inl ⟨default, _⟩ => lies a default
  | .mk _ _ (some shape) _ _ _, ⟨plain, _⟩, _, .inr written => Shape.Rewrites.inside shape plain written

end

end Plain

namespace StoreM

/-! ## Making fields fit -/

section Fields

variable {written : Nat → Prop}

/-- An object or list is put into memory as such. -/
theorem makes_ofTree_plain (j : Json) (s : Store) :
    Makes written (fun n _ => j.IsContainer → ∀ t, n ≠ .text t) (ofTree j) s := by
  cases j with
  | list items =>
    refine makes_bind (makes_ofTrees items s) fun ns t _ _ => ⟨(makes_newGrownList ns).1, fun n hn _ t => ?_⟩
    cases hn
    rintro ⟨⟩
  | object es =>
    refine makes_bind (makes_ofEntries es s) fun ns _ _ _ => (makes_newObject ns).mono fun n _ _ object _ t => ?_
    obtain ⟨a, rfl, -⟩ := object
    rintro ⟨⟩
  | _ => exact makes_pure (by rintro ⟨⟩)

/-- A json value of the data that a value is converted to holds no text that begins like an object or list. -/
theorem makes_coerce_plain {v : Value} (plain : ∀ a t, v = .json a → s.boxes[a]? = some (.text t) → t.opensJson = false) :
    Makes written (fun w u => ∀ a t, w = .json a → u.boxes[a]? = some (.text t) → t.opensJson = false) (coerce v .json) s := by
  have boxed {w : Value} (data : ∀ n t, s.Native w n → n ≠ .text t) :
      Makes written (fun w u => ∀ a t, w = .json a → u.boxes[a]? = some (.text t) → t.opensJson = false)
        (do newBox (← normalize (← toNode w))) s := by
    refine makes_bind (makes_toNode w) fun n _ _ native => makes_bind (makes_normalize n) fun m _ _ settled => ?_
    refine (makes_newBox m).mono fun w u _ box a t same text => ?_
    obtain ⟨b, rfl, lies⟩ := box
    cases same
    cases lies.symm.trans text
    cases n with
    | text t' => exact absurd rfl (data _ t' native)
    | double x =>
      rw [Node.settle] at settled
      split at settled <;> cases settled
    | _ => cases settled
  refine makes_kindOf_bind ?_
  split
  · exact makes_pure plain
  split
  · exact makes_pure (by rintro _ _ ⟨⟩)
  cases v with
  | string text =>
    change Makes _ _ (jsonOfText text) s
    unfold jsonOfText
    dsimp only
    split
    · rename_i opens
      unfold parseJson
      split
      · rename_i j read
        refine makes_bind (makes_ofTree_plain j s) fun n _ _ container => (makes_newBox n).mono fun w u _ box a t same text => ?_
        obtain ⟨b, rfl, lies⟩ := box
        cases same
        cases lies.symm.trans text
        exact absurd rfl (container (Json.isContainer_parse opens read) t)
      · exact makes_throw _
    · rename_i closed
      refine (makes_newBox _).mono fun w u _ box a t same text => ?_
      obtain ⟨b, rfl, lies⟩ := box
      cases same
      cases lies.symm.trans text
      exact Bool.eq_false_iff.mpr closed
  | array a =>
    refine boxed fun n t hn same => ?_
    obtain ⟨b, len, rfl⟩ := hn
    cases same
  | bool b | byte b | int b | long b | double b =>
    refine boxed fun n t hn same => ?_
    rw [show n = _ from hn] at same
    cases same
  | _ => exact makes_throw _

/-- An array gives a list that lies in memory. -/
theorem makes_toNode_array (a : Nat) : Makes written (fun n t => ∃ b len places, n = .list b len ∧ t.buffers[b]? = some places)
    (toNode (.array a)) s := by
  refine makes_get_bind (makes_get_bind (makes_bind (makes_mapM (fun _ _ _ => True) ?_ _ ?_) fun ns t _ _ => ?_))
  · exact fun _ _ _ _ _ h => h
  · exact fun v _ t _ => (makes_toNodeTo _ v).mono fun _ _ _ _ => trivial
  · exact (makes_newList ns).mono fun n u _ ⟨b, hn, lies⟩ => ⟨b, _, _, hn, lies⟩

/-- A value of the kind of arrays gives a list that lies in memory. -/
theorem makes_toNode_lies {w : Value} {k : Kind} (meets : k = .invalid ∨ (s.kindOf w).Meets k) :
    Makes written (fun n t => s.Native w n ∧ (k = .array → ∀ b len, n = .list b len → ∃ places, t.buffers[b]? = some places))
      (toNode w) s := by
  have native : Makes written (fun n _ => s.Native w n) (toNode w) s := makes_toNode w
  cases w with
  | array a =>
    have lies : Makes written _ (toNode (.array a)) s := makes_toNode_array a
    refine ⟨native.1, fun n hn => ⟨native.2 n hn, fun _ b len same => ?_⟩⟩
    obtain ⟨b', len', places, same', lies⟩ := lies.2 n hn
    cases same.symm.trans same'
    exact ⟨places, lies⟩
  | _ =>
    refine native.mono fun n t _ native => ⟨native, fun array => ?_⟩
    subst array
    obtain impossible | impossible | impossible | ⟨-, impossible⟩ := meets <;> cases impossible

/-- A field's value that is made to fit is taken by the field, when one that has a shape is taken by the shape. -/
theorem makes_fitted_takes {conform : Shape → Value → StoreM Value} {f : FieldShape} {v : Value}
    (solid : f.mandatory = true → s.Solid v)
    (plain : ∀ a t, v = .json a → s.boxes[a]? = some (.text t) → f.shape = none → f.kind = .json → t.opensJson = false)
    (inner : ∀ shape, f.shape = some shape → v.isNull = false →
      Makes written (fun n t => n.isNull = true ∧ f.mandatory = false ∨ n.isNull = false ∧ shape.TakesData t n)
        (conform shape v >>= toNode) s) :
    Makes written (fun n t => f.Takes t n) (fitted conform f v) s := by
  obtain ⟨name, kind, shape, mandatory, maxLength, fallback⟩ := f
  unfold fitted conformField
  dsimp only
  split
  · rename_i null
    split
    · exact makes_throw _
    · rename_i optional
      refine (makes_toNode .null).mono fun n t _ hn => ?_
      have hn : n = .null := hn
      subst hn
      cases shape <;> exact .inl ⟨rfl, Bool.eq_false_iff.mpr optional⟩
  · rename_i present
    have present := Bool.eq_false_iff.mpr present
    cases shape with
    | some shape =>
      exact inner shape rfl present
    | none =>
      simp only [bind_assoc]
      have converted : Makes written (fun w t => (w.isNull = false ∧ (w = v ∨ t.Solid w) ∧
          (kind = .invalid ∨ (t.kindOf w).Meets kind)) ∧
          (kind = .json → ∀ a x, w = .json a → t.boxes[a]? = some (.text x) → x.opensJson = false)) (coerce v kind) s := by
        have first : Makes written _ (coerce v kind) s := makes_coerce_present present kind
        refine ⟨first.1, fun w hw => ⟨first.2 w hw, fun json => ?_⟩⟩
        subst json
        have data : Makes written _ (coerce v .json) s := makes_coerce_plain fun a t ha lies => plain a t ha lies rfl rfl
        exact data.2 w hw
      refine makes_kindOf_bind (makes_bind (makes_rethrow converted) ?_)
      intro w t later ⟨⟨given, origin, meets⟩, data⟩
      refine makes_bind (makes_within name maxLength w) fun w' u _ ⟨same, here, short⟩ => ?_
      subst same here
      refine (makes_toNode_lies meets).mono fun n _ _ ⟨native, lies⟩ => ?_
      cases missing : n.isNull with
      | false =>
        refine .inr ⟨missing, ofKind_of_native native given meets, fun string text same limited => ?_, fun json text same => ?_, lies⟩
        · subst string
          obtain impossible | kind := meets
          · cases impossible
          · exact short text (string_of_native native kind same) limited
        · subst json
          obtain impossible | impossible | json | ⟨impossible, -⟩ := meets
          · cases impossible
          · cases impossible
          · cases w' with
            | json a =>
              rw [show n = u.box a from native] at same
              exact data rfl a text rfl (Store.box_lies same rfl)
            | array a =>
              have array := Cells.isArray_kind (u.array a).cells
              rw [show (u.array a).cells.kind = .json from json] at array
              cases array
            | _ => cases json
          · cases impossible
      | true => exact .inl ⟨missing, Bool.eq_false_iff.mpr fun must => not_missing (solid must) later origin native given missing⟩

/-! ## Copies -/

/-- Json data that is a copy of other data is taken where that is. -/
structure TakenFor (s : Store) (n m : Node) (t : Store) : Prop where
  null : m.isNull = n.isNull
  kind : ∀ k maxLength, Kind.Takes s k maxLength n → Kind.Takes t k maxLength m
  shape : ∀ shape : Shape, shape.TakesData s n → shape.TakesData t m

theorem TakenFor.field {n m : Node} {t : Store} (h : TakenFor s n m t) {f : FieldShape} (takes : f.Takes s n) : f.Takes t m := by
  obtain ⟨name, kind, _ | shape, mandatory, maxLength, fallback⟩ := f
  · simp only [FieldShape.Takes, h.null] at takes ⊢
    exact takes.imp_right fun ⟨present, takes⟩ => ⟨present, h.kind kind maxLength takes⟩
  · simp only [FieldShape.Takes, h.null] at takes ⊢
    exact takes.imp_right fun ⟨present, takes⟩ => ⟨present, h.shape shape takes⟩

theorem TakenFor.after {s₁ t u : Store} {n m : Node} (first : s.Later written s₁) (h : TakenFor s₁ n m t)
    (later : t.Later written u) : TakenFor s n m u where
  null := h.null
  kind := fun k maxLength takes => (h.kind k maxLength (takes.later first)).later later
  shape := fun shape takes => (h.shape shape (takes.later first (.refl n))).later later (.refl m)

/-- An object with copies of entries is taken where the object is. -/
theorem takenFor_object {t : Store} {a a' : Nat} {es' : List (Text × Node)} (lies : t.objects[a']? = some es')
    (all : List.Forall₂ (fun e e' => e'.1 = e.1 ∧ TakenFor s e.2 e'.2 t) (s.object a) es') :
    TakenFor s (.object a) (.object a') t := by
  refine ⟨rfl, fun k maxLength takes => ?_, fun shape takes => ?_⟩
  · exact ⟨takes.ofKind.of_object, fun _ _ text => (nomatch text), fun _ _ text => (nomatch text), fun _ _ _ list => (nomatch list)⟩
  · cases shape with
    | map sorted => exact ⟨a', rfl⟩
    | array element => trivial
    | record fields =>
      obtain ⟨a₀, es, same, lies₀, each, complete⟩ := takes
      cases same
      rw [Store.object, lies₀, Option.getD_some] at all
      refine ⟨a', es', rfl, lies, fun e' he' => ?_, fun f hf must => ?_⟩
      · obtain ⟨e, he, key, copy⟩ := forall₂_exists_left all he'
        obtain ⟨f, named, takes⟩ := FieldShape.firstTakes_iff.mp (each e he)
        exact FieldShape.firstTakes_iff.mpr ⟨f, key ▸ named, copy.field takes⟩
      · obtain ⟨e, he, named⟩ := complete f hf must
        obtain ⟨e', he', key', -⟩ := forall₂_exists_right all he
        exact ⟨e', he', key' ▸ named⟩

/-- A list is taken where another list is. -/
theorem takenFor_list {t : Store} {b b' len : Nat} {items' : List Node} (lies : t.buffers[b']? = some items'.toArray) :
    TakenFor s (.list b len) (.list b' items'.length) t := by
  refine ⟨rfl, fun k maxLength takes => ?_, fun shape takes => ?_⟩
  · refine ⟨takes.ofKind.of_list, fun _ _ text => (nomatch text), fun _ _ text => (nomatch text), fun _ _ _ list => ?_⟩
    cases list
    exact ⟨_, lies⟩
  · cases shape with
    | map sorted => obtain ⟨a, impossible⟩ := takes; cases impossible
    | record fields => obtain ⟨a, es, impossible, -⟩ := takes; cases impossible
    | array element => trivial

theorem makes_clone_takes (n : Node) : Makes written (TakenFor s n) (clone n) s :=
  makes_get_bind (makes_cloneTo_related (R := fun s n m t => TakenFor s n m t)
    (fun _ _ => ⟨rfl, fun _ _ => id, fun _ => id⟩) (fun first copy later => copy.after first later) takenFor_object
    (fun lies _ => takenFor_list lies) _ n)

end Fields

/-! ## Making values fit -/

section Values

variable {written : Nat → Prop}

/-- What a single value that is made to fit has become: it is present if it was, and the shape takes it. -/
structure Taken (shape : Shape) (v w : Value) (t : Store) : Prop where
  data : shape.isArray = false → v.isNull = true ∨ ∃ a, v = .json a
  present : v.isNull = false → w.isNull = false
  same : shape.isArray = true → w = v
  takes : shape.isArray = false → shape.TakesOne t w

/-- What is read of json data is a json value only if the data is an object or a list. -/
theorem json_of_reads {n : Node} {a : Nat} (reads : s.Reads n (.json a)) :
    ∃ m, s.boxes[a]? = some m ∧ ∀ t, m ≠ .text t := by
  cases n with
  | object o | list b len =>
    obtain ⟨_, same, lies⟩ := reads
    cases same
    exact ⟨_, lies, nofun⟩
  | int k =>
    have impossible : Value.json a = .ofInt64 k := reads
    rw [Value.ofInt64] at impossible
    split at impossible <;> cases impossible
  | _ => cases (show Value.json a = _ from reads)

/-- No array is read of json data. -/
theorem not_reads_array {n : Node} {a : Nat} : ¬s.Reads n (.array a) := by
  intro reads
  cases n with
  | object o | list b len =>
    obtain ⟨_, impossible, -⟩ := reads
    cases impossible
  | int k =>
    have impossible : Value.array a = .ofInt64 k := reads
    rw [Value.ofInt64] at impossible
    split at impossible <;> cases impossible
  | _ => cases (show Value.array a = _ from reads)

theorem FieldShape.plain_shape {f : FieldShape} {shape : Shape} (hs : f.shape = some shape) (h : f.Plain s) :
    shape.Plain s := by
  obtain ⟨_, _, _ | _, _, _, _⟩ := f <;> cases hs
  exact h.1

/-- A single value that is made to fit gives json data that the shape takes, unless it is a json value that holds null. -/
theorem makes_toNode_taken {shape : Shape} {mandatory : Bool} {v w : Value} (solid : mandatory = true → s.Solid v)
    (fit : Taken shape v w s) (given : v.isNull = false) :
    Makes written (fun n t => n.isNull = true ∧ mandatory = false ∨ n.isNull = false ∧ shape.TakesData t n) (toNode w) s := by
  cases single : shape.isArray with
  | false =>
    obtain ⟨null, -⟩ | ⟨a, n, rfl, lies, takes⟩ := fit.takes single
    · have present := fit.present given
      rw [null] at present
      cases present
    · refine (makes_toNode (.json a)).mono fun m t later native => .inr ?_
      rw [show m = n by rw [show m = s.box a from native, Store.box, lies]; rfl]
      refine ⟨?_, takes.later later (.refl n)⟩
      cases shape with
      | map _ =>
        obtain ⟨o, rfl⟩ := takes
        rfl
      | record _ =>
        obtain ⟨o, _, rfl, -⟩ := takes
        rfl
      | array _ => cases single
  | true =>
    cases fit.same single
    refine (makes_toNode v).mono fun n t later native => ?_
    have any : shape.TakesData t n := by
      cases shape with
      | array element => trivial
      | _ => cases single
    cases missing : n.isNull with
    | false => exact .inr ⟨rfl, any⟩
    | true =>
      refine .inl ⟨rfl, Bool.eq_false_iff.mpr fun must => ?_⟩
      have held := native_present native given fun a ha => by
        subst ha
        obtain ⟨m, box, held⟩ := solid must
        rw [Store.box, box]
        exact held
      rw [missing] at held
      cases held

/-- What is asked of making values fit the shape of a field. -/
def TakesField (written : Nat → Prop) (conform : Shape → Value → StoreM Value) (f : FieldShape) (s : Store) : Prop :=
  ∀ shape, f.shape = some shape → ∀ v t, s.Later written t → (∀ a, v = .array a → f.fallback = some v) →
    Makes written (Taken shape v) (conform shape v) t

/-- A field that is given is made to fit. -/
theorem makes_givenField_takes {conform : Shape → Value → StoreM Value} {f : FieldShape} {n : Node}
    (inner : TakesField written conform f s) : Makes written (fun m t => f.Takes t m) (ofNode n >>= fitted conform f) s := by
  refine makes_bind (makes_ofNode n) fun v t later reads => ?_
  refine makes_fitted_takes (fun _ => solid_of_reads reads) (fun a x ha lies _ _ => ?_) fun shape hs present => ?_
  · subst ha
    obtain ⟨m, lies', text⟩ := json_of_reads reads
    cases lies'.symm.trans lies
    exact absurd rfl (text x)
  · refine makes_bind (inner shape hs v t later fun a ha => ?_) fun w u next fit =>
      makes_toNode_taken (fun _ => (solid_of_reads reads).later next) ⟨fit.data, fit.present, fit.same, fit.takes⟩ present
    subst ha
    exact absurd reads not_reads_array

/-- The default of a field is made to fit. -/
theorem makes_defaultField_takes {conform : Shape → Value → StoreM Value} {f : FieldShape} {d : Value}
    (inner : TakesField written conform f s) (default : f.fallback = some d) (plain : f.Plain s)
    (solid : f.mandatory = true → s.Solid d) :
    Makes written (fun m t => f.Takes t m) (fitted conform f d >>= clone) s := by
  have fit : Makes written (fun m t => f.Takes t m) (fitted conform f d) s := by
    refine makes_fitted_takes solid (fun a x ha lies hs json => ?_) fun shape hs present => ?_
    · subst ha
      obtain ⟨_, _, _ | _, _, _, _⟩ := f
      · cases default
        obtain ⟨n, lies', plain⟩ := plain json a rfl
        exact plain x (Option.some.inj (lies'.symm.trans lies))
      · cases hs
    · refine makes_bind (inner shape hs d s (.refl s) fun _ _ => default) fun w u next fit => ?_
      exact makes_toNode_taken (fun must => (solid must).later next) fit present
  exact makes_bind fit fun n t _ takes => (makes_clone_takes n).mono fun m u _ copy => copy.field takes

/-- An object with the fields of a record is taken by it. -/
theorem takes_of_filled {fields : List FieldShape} {out all : List (Text × Node)} {t u : Store} {o : Nat}
    (filled : Filled (fun f n t => f.Takes t n) fields fields out all t) (later : t.Later written u)
    (lies : u.objects[o]? = some all) : (Shape.record fields).TakesData u (.object o) := by
  refine ⟨o, all, rfl, lies, fun e he => ?_, filled.present⟩
  obtain ⟨f, named, takes⟩ := filled.each e he
  exact FieldShape.firstTakes_iff.mpr ⟨f, named, takes.later later (.refl e.2)⟩

/-- A value is made to fit a plain shape, which takes it then. The arrays that are written to are the value itself and
those among the defaults. -/
theorem makes_conformTo_takes (depth : Nat) {shape : Shape} (deep : shape.depth ≤ depth) (v : Value) (sound : shape.Sound s)
    (plain : shape.Plain s) : Makes (shape.WrittenFor v) (Taken shape v) (conformTo depth shape v) s := by
  induction depth generalizing shape v s with
  | zero => cases shape <;> cases deep
  | succ depth ih =>
    cases shape with
    | map sorted =>
      unfold conformTo
      dsimp only
      split
      · refine makes_bind (makes_newObject []) fun n t _ object => (makes_newBox n).mono fun w u _ box => ?_
        obtain ⟨o, rfl, -⟩ := object
        obtain ⟨a, rfl, lies⟩ := box
        exact ⟨fun _ => .inl ‹_›, fun _ => rfl, by rintro ⟨⟩, fun _ => .inr ⟨a, _, rfl, lies, o, rfl⟩⟩
      · refine makes_bind (makes_objectEntries _ v) fun _ t _ looked => makes_pure ?_
        obtain ⟨rfl, b, o, rfl, box, -⟩ := looked
        exact ⟨fun _ => .inr ⟨b, rfl⟩, fun _ => rfl, by rintro ⟨⟩, fun _ => .inr ⟨b, _, rfl, Store.box_lies box rfl, o, rfl⟩⟩
    | record fields =>
      unfold conformTo
      dsimp only
      split
      · rename_i null
        cases v with
        | null => exact makes_pure ⟨fun _ => .inl rfl, by rintro ⟨⟩, by rintro ⟨⟩, fun _ => .inl ⟨rfl, by rintro _ ⟨⟩⟩⟩
        | _ => cases null
      · refine makes_bind (makes_objectEntries _ v) fun es t _ looked => ?_
        obtain ⟨rfl, b, o, rfl, box, rfl⟩ := looked
        obtain ⟨apart, each⟩ := sound
        have inner {f : FieldShape} (hf : f ∈ fields) {u : Store} (later : t.Later ((Shape.record fields).WrittenFor (.json b)) u) :
            TakesField ((Shape.record fields).WrittenFor (.json b)) (conformTo depth) f u := by
          intro shape hs v x next array
          have bound := FieldShape.depth_le hf
          rw [FieldShape.depth_shape hs] at bound
          rw [Shape.depth] at deep
          have more := later.trans next
          refine (ih (by omega) v (Shape.Sound.later more shape ((each.of_mem hf).shape hs))
            ((FieldShape.plain_shape hs (plain.of_mem hf)).kept more.keeps)).weaken fun a written => .inr ?_
          refine FieldShape.AnyRewrites.of_mem hf ?_
          obtain ⟨_, _, _ | _, _, _, _⟩ := f <;> cases hs
          obtain ⟨same, isArray⟩ | inside := written
          · exact .inl ⟨same ▸ array a same, isArray⟩
          · exact .inr inside
        have stays : ∀ (f : FieldShape) n u u', Store.Later ((Shape.record fields).WrittenFor (.json b)) u u' → f.Takes u n →
            f.Takes u' n := fun f n _ _ later takes => takes.later later (.refl n)
        refine makes_bind (makes_conformGiven (fun f n t => f.Takes t n) stays fun e he f found u later =>
          makes_givenField_takes (inner (List.mem_of_find?_eq_some found) later)) fun out u later outs => ?_
        refine makes_bind (makes_fillFields (fun f n t => f.Takes t n) stays
          (fun f hf n t takes => ⟨f, find?_own apart hf, takes⟩) (fun e he => (forall₂_exists_left outs he).elim fun _ h => h.2.2)
          fun f hf d hd u' next => makes_defaultField_takes (inner hf (later.trans next)) hd
            ((plain.of_mem hf).kept (later.trans next).keeps) fun must => ?_) fun all u' next filled => ?_
        · exact ((each.of_mem hf).solid hd must).later (later.trans next)
        refine makes_bind (makes_newObject all) fun n x more object => (makes_newBox n).mono fun w y more' boxed => ?_
        obtain ⟨o', rfl, entries⟩ := object
        obtain ⟨b', rfl, box'⟩ := boxed
        exact ⟨fun _ => .inr ⟨b, rfl⟩, fun _ => rfl, by rintro ⟨⟩, fun _ => .inr ⟨b', _, rfl, box', (takes_of_filled filled more entries).later more' (.refl _)⟩⟩
    | array element =>
      cases v with
      | array a =>
        unfold conformTo
        dsimp only
        refine makes_get_bind (makes_bind (makes_conformElements_any (.inl ⟨rfl, rfl⟩) (fun v t later => ?_) ?_) fun _ t _ _ =>
          makes_pure ⟨by rintro ⟨⟩, id, fun _ => rfl, by rintro ⟨⟩⟩)
        · refine ((ih (Nat.le_of_succ_le_succ deep) v (Shape.Sound.later later element sound)
            (plain.2.kept later.keeps)).mono fun _ _ _ _ => trivial).weaken fun x written => .inr ?_
          refine written.resolve_left fun one => ?_
          have isArray := one.2
          rw [plain.1] at isArray
          cases isArray
        · rw [Nat.zero_add]
          exact Nat.le_of_eq (s.array a).cells.length_toList
      | _ => exact makes_pure ⟨by rintro ⟨⟩, id, fun _ => rfl, by rintro ⟨⟩⟩

/-- What an array of a kind of elements holds. -/
def Elemental (s : Store) (k : Kind) (v : Value) : Prop := k = .any ∨ k = .array ∨ s.Holds k v

/-- Elements that are made to fit are taken, also once the others are. -/
theorem makes_conformElements_takes {s₀ : Store} {element : Shape} (single : element.isArray = false)
    {conform : Value → StoreM Value} {a i : Nat} {vs : List Value} {d : ArrayData} {items : Array Value}
    (lies : s.arrays[a]? = some d) (boxed : d.cells = .boxed items) (room : i + vs.length = items.size)
    (held : ∀ v ∈ vs, Elemental s₀ d.element v) (apart : ¬written a)
    (each : ∀ v ∈ vs, ∀ t, s.Later (fun x => x = a ∨ written x) t → Makes written (Taken element v) (conform v) t)
    (done : ∀ j < i, ∀ v, items[j]? = some v → element.TakesOne s v ∧ Elemental s d.element v) :
    Makes (fun x => x = a ∨ written x) (fun _ t => ∃ d', t.arrays[a]? = some d' ∧
      ∀ v ∈ d'.cells.toList, element.TakesOne t v ∧ Elemental t d'.element v) (conformElements conform a i vs) s := by
  induction vs generalizing s i d items with
  | nil =>
    refine makes_pure ⟨d, lies, fun v hv => ?_⟩
    rw [boxed] at hv
    obtain ⟨j, hj⟩ := List.getElem?_of_mem hv
    rw [Cells.toList, Array.getElem?_toList] at hj
    obtain ⟨inside, -⟩ := Array.getElem?_eq_some_iff.mp hj
    rw [List.length_nil, Nat.add_zero] at room
    exact done j (room ▸ inside) v hj
  | cons v rest ih =>
    rw [List.length_cons] at room
    have fits := (each v (List.mem_cons_self ..) s (.refl s)).mono fun w t later fit =>
      (⟨later, fit⟩ : s.Later written t ∧ Taken element v w t)
    refine makes_bind (makes_rethrow (fits.weaken fun _ => .inr)) fun w t _ made => ?_
    obtain ⟨later, fit⟩ := made
    obtain ⟨d', lies', -, kept⟩ := later.arrays a d lies
    cases kept apart
    have here : t.array a = d := by rw [Store.array, lies', Option.getD_some]
    have inside : i < (t.array a).length := by
      rw [here, ArrayData.length, boxed]
      change i < items.size
      omega
    refine makes_bind ((makes_arraySet inside w).weaken fun _ => .inl) fun _ u next put => ?_
    obtain ⟨w', stored, lies''⟩ := put d items lies' boxed
    have takes := fit.takes single
    have json : w.isNull = false → ∃ b, w = .json b := fun present => by
      obtain ⟨rfl, -⟩ | ⟨b, _, hw, -⟩ := takes
      · cases present
      · exact ⟨b, hw⟩
    obtain ⟨rfl, elemental⟩ : w' = w ∧ Elemental t d.element w' := by
      obtain ⟨any | array, same⟩ | ⟨notAny, notArray, run⟩ := stored
      · exact ⟨same, .inl any⟩
      · exact ⟨same, .inr (.inl array)⟩
      · have held := ((held v (List.mem_cons_self ..)).resolve_left notAny).resolve_left notArray
        have same := coerce_conformed (fit.data single) fit.present json held notArray run
        subst same
        exact ⟨rfl, .inr (.inr (takes.holds (holds_coerce (Prod.ext run rfl)) t))⟩
    refine ih lies'' rfl (by rw [Array.size_setIfInBounds]; omega) (fun v hv => held v (List.mem_cons_of_mem _ hv))
      (fun v hv x more => each v (List.mem_cons_of_mem _ hv) x (((later.weaken fun _ => .inr).trans next).trans more))
      fun j hj x hx => ?_
    have still {x : Value} (good : element.TakesOne t x ∧ Elemental t d.element x) :
        element.TakesOne u x ∧ Elemental u d.element x :=
      ⟨good.1.later next, good.2.imp_right (Or.imp_right fun held => good.1.holds held u)⟩
    rw [Array.getElem?_setIfInBounds] at hx
    split at hx
    · split at hx
      · cases hx
        exact still ⟨takes, elemental⟩
      · cases hx
    · obtain ⟨takes, elemental⟩ := done j (by omega) x hx
      exact still ⟨takes.later later, elemental.imp_right (Or.imp_right fun held => takes.holds held t)⟩

/-- An array of which elements are made to fit holds elements that are taken. -/
theorem takes_conformElements {element : Shape} {d : ArrayData} {a : Nat} {t : Store} {r : Unit} (single : element.isArray = false)
    (sound : element.Sound s) (plain : element.Plain s) (lies : s.arrays[a]? = some d) (held : s.HoldsElements d)
    (apart : ¬element.Rewrites a)
    (run : (conformElements (conformTo element.depth element) a 0 d.cells.toList).run.run s = (.ok r, t)) :
    (Shape.array element).Takes t (.array a) := by
  have each (v) (_ : v ∈ d.cells.toList) (t) (later : s.Later (fun x => x = a ∨ element.Rewrites x) t) :
      Makes element.Rewrites (Taken element v) (conformTo element.depth element v) t := by
    refine (makes_conformTo_takes element.depth (Nat.le_refl _) v (Shape.Sound.later later element sound)
      (plain.kept later.keeps)).weaken fun x written => written.elim (fun ⟨_, isArray⟩ => ?_) id
    rw [single] at isArray
    cases isArray
  have elemental : ∀ v ∈ d.cells.toList, Elemental s d.element v := fun v hv =>
    held.imp_right (Or.imp_right fun held => held v hv)
  have gathered {t : Store} {d : ArrayData} (each : ∀ v ∈ d.cells.toList, element.TakesOne t v ∧ Elemental t d.element v) :
      t.HoldsElements d := by
    by_cases any : d.element = .any
    · exact .inl any
    · by_cases array : d.element = .array
      · exact .inr (.inl array)
      · exact .inr (.inr fun v hv => ((each v hv).2.resolve_left any).resolve_left array)
  cases elements : d.cells.toList with
  | nil =>
    rw [elements] at run
    cases run
    exact ⟨d, lies, held, fun v hv => by rw [elements] at hv; cases hv⟩
  | cons v rest =>
    -- the first element was made to fit, so that the elements are not packed
    have hv : v ∈ d.cells.toList := elements ▸ List.mem_cons_self ..
    obtain ⟨items, boxed⟩ : ∃ items, d.cells = .boxed items := by
      rw [elements] at run
      obtain ⟨w, u, first, -⟩ := Signature.run_bind_ok run
      exact boxed_of_data hv (((makes_rethrow (each v hv s (.refl s))).of_run first).2.data single)
    obtain ⟨-, d', lies', taken⟩ := (makes_conformElements_takes single lies boxed (by rw [boxed, Nat.zero_add]; rfl) elemental
      apart each fun _ h => absurd h (Nat.not_lt_zero _)).of_run run
    exact ⟨d', lies', gathered taken, fun v hv => (taken v hv).1⟩

/-- What a value is made into so that it fits a plain shape is taken by the shape. -/
theorem takes_conform {shape : Shape} {v w : Value} {t : Store} (sound : shape.Sound s) (plain : shape.Plain s)
    (admits : shape.Admits s v) (run : (conform shape v).run.run s = (.ok w, t)) : shape.Takes t w := by
  have taken := ((makes_conformTo_takes shape.depth (Nat.le_refl _) v sound plain).of_run run).2
  cases shape with
  | map _ | record _ => exact taken.takes rfl
  | array element =>
    cases taken.same rfl
    cases v with
    | array a =>
      obtain ⟨⟨d, lies, held⟩, apart⟩ := admits a rfl rfl
      obtain ⟨s', u, here, run⟩ := Signature.run_bind_ok run
      cases here
      obtain ⟨r, u, elements, run⟩ := Signature.run_bind_ok run
      cases run
      rw [Store.array, lies, Option.getD_some] at elements
      exact takes_conformElements plain.1 sound plain.2 lies held apart elements
    | _ => trivial

/-- Making a value fit a plain shape writes to the array that the value is, and to those among the defaults. -/
theorem later_conform {shape : Shape} {v w : Value} {t : Store} (sound : shape.Sound s) (plain : shape.Plain s)
    (run : (conform shape v).run.run s = (.ok w, t)) : s.Later (shape.WrittenFor v) t :=
  ((makes_conformTo_takes shape.depth (Nat.le_refl _) v sound plain).of_run run).1

end Values

end StoreM

end ScriptEngine
