import ScriptEngine.Proofs.SatisfiedShapes
/-!
# Values that are made to fit a shape

A value that is declared, assigned or passed is made to fit the shape of its type. What comes out satisfies the shape.
Two things are let through: a list where an array of records or maps is declared, which is not looked at, and a field
that is given twice under keys that differ in the case of letters.
-/

namespace ScriptEngine

/-! ## Making fields fit -/

namespace StoreM

section Fields

variable {conform : Shape → Value → StoreM Value} {written : Nat → Prop} {s : Store}

/-- An object is a json value with entries -/
theorem makes_objectEntries (what : Text) (v : Value) :
    Makes written (fun es t => t = s ∧ ∃ b a, v = .json b ∧ s.box b = .object a ∧ es = s.object a) (objectEntries what v) s := by
  refine makes_get_bind ?_
  dsimp only
  split
  · split
    · rename_i box
      exact makes_pure ⟨rfl, _, _, rfl, box, rfl⟩
    · exact makes_throw _
  · exact makes_throw _

/-- The json data of a field's value that is made to fit. -/
def fitted (conform : Shape → Value → StoreM Value) (f : FieldShape) (v : Value) : StoreM Node := do
  toNode (← conformField conform f v)

theorem conformGiven_cons {fields : List FieldShape} {f : FieldShape} {e : Text × Node} {rest : List (Text × Node)}
    (found : (fields.find? fun f => f.name.equalFold e.1) = some f) :
    conformGiven conform fields (e :: rest) = (do
      let m ← ofNode e.2 >>= fitted conform f
      let more ← conformGiven conform fields rest
      pure ((e.1, m) :: more)) := by
  rw [conformGiven, found]
  simp only [fitted, bind_assoc]

theorem fillFields_cons_default {f : FieldShape} {rest : List FieldShape} {out : List (Text × Node)} {d : Value}
    (absent : (findKey f.name out).isSome ≠ true) (default : f.fallback = some d) :
    fillFields conform (f :: rest) out = (do
      let n ← fitted conform f d >>= clone
      fillFields conform rest (Json.insert f.name n out)) := by
  rw [fillFields, if_neg absent, default]
  simp only [fitted, bind_assoc]

/-- An entry of a record is good for the field that its key names. -/
def Named (good : FieldShape → Node → Store → Prop) (fields : List FieldShape) (t : Store) (e : Text × Node) : Prop :=
  ∃ f, (fields.find? fun f => f.name.equalFold e.1) = some f ∧ good f e.2 t

/-- Given fields are made to fit one by one. What is made of each is good for the field that its key names. -/
theorem makes_conformGiven (good : FieldShape → Node → Store → Prop)
    (stays : ∀ f n t u, t.Later written u → good f n t → good f n u) {fields : List FieldShape}
    {given : List (Text × Node)}
    (each : ∀ e ∈ given, ∀ f, (fields.find? fun f => f.name.equalFold e.1) = some f → ∀ t, s.Later written t →
      Makes written (good f) (ofNode e.2 >>= fitted conform f) t) :
    Makes written (fun ms t => List.Forall₂ (fun e m => m.1 = e.1 ∧ Named good fields t m) given ms)
      (conformGiven conform fields given) s := by
  induction given generalizing s with
  | nil => exact makes_pure .nil
  | cons e rest ih =>
    cases found : fields.find? fun f => f.name.equalFold e.1 with
    | none =>
      rw [conformGiven, found]
      exact makes_throw _
    | some f =>
      rw [conformGiven_cons found]
      refine makes_bind (each e (List.mem_cons_self ..) f found s (.refl s)) fun m t later first => ?_
      refine makes_bind (ih fun e he f hf u next => each e (List.mem_cons_of_mem _ he) f hf u (later.trans next)) ?_
      exact fun more u next others => makes_pure (.cons ⟨rfl, f, found, stays _ _ _ _ next first⟩ others)

/-- What is made of a record's entries once the given fields are made to fit: every entry is good for the field that its
key names, nothing that was there is lost, and fields that must be there or have a default are. -/
structure Filled (good : FieldShape → Node → Store → Prop) (fields rest : List FieldShape)
    (out all : List (Text × Node)) (t : Store) : Prop where
  each : ∀ e ∈ all, Named good fields t e
  kept : ∀ e ∈ out, e ∈ all
  present : ∀ f ∈ rest, f.mandatory = true ∨ f.fallback.isSome = true → ∃ e ∈ all, e.1.equalFold f.name = true
  once : (out.Pairwise fun e e' => e.1.equalFold e'.1 = false) → all.Pairwise fun e e' => e.1.equalFold e'.1 = false

/-- Fields that are not given are filled with their defaults. -/
theorem makes_fillFields (good : FieldShape → Node → Store → Prop)
    (stays : ∀ f n t u, t.Later written u → good f n t → good f n u)
    {fields rest : List FieldShape} {out : List (Text × Node)}
    (own : ∀ f ∈ rest, ∀ n t, good f n t → Named good fields t (f.name, n))
    (given : ∀ e ∈ out, Named good fields s e)
    (each : ∀ f ∈ rest, ∀ d, f.fallback = some d → ∀ t, s.Later written t →
      Makes written (good f) (fitted conform f d >>= clone) t) :
    Makes written (Filled good fields rest out) (fillFields conform rest out) s := by
  induction rest generalizing s out with
  | nil => exact makes_pure ⟨given, fun _ => id, nofun, id⟩
  | cons f rest ih =>
    have own' : ∀ g ∈ rest, _ := fun g hg => own g (List.mem_cons_of_mem _ hg)
    by_cases found : (findKey f.name out).isSome = true
    · rw [fillFields, if_pos found]
      refine (ih own' given fun g hg => each g (List.mem_cons_of_mem _ hg)).mono fun all t later filled => ?_
      refine { filled with present := fun g hg hm => ?_ }
      obtain rfl | hg := List.mem_cons.mp hg
      · obtain ⟨e, he, named⟩ := findKey_isSome.mp found
        exact ⟨e, filled.kept e he, named⟩
      · exact filled.present g hg hm
    · have absent : ∀ e ∈ out, e.1.equalFold f.name = false := fun e he =>
        Bool.eq_false_iff.mpr fun named => found (findKey_isSome.mpr ⟨e, he, named⟩)
      cases default : f.fallback with
      | none =>
        rw [fillFields, if_neg found, default]
        dsimp only
        split
        · exact makes_throw _
        · rename_i optional
          refine (ih own' given fun g hg => each g (List.mem_cons_of_mem _ hg)).mono fun all t later filled => ?_
          refine { filled with present := fun g hg hm => ?_ }
          obtain rfl | hg := List.mem_cons.mp hg
          · rw [default] at hm
            exact absurd (hm.resolve_right nofun) optional
          · exact filled.present g hg hm
      | some d =>
        rw [fillFields_cons_default found default]
        refine makes_bind (each f (List.mem_cons_self ..) d default s (.refl s)) fun n t later fits => ?_
        have inserted : ∀ e ∈ Json.insert f.name n out, Named good fields t e := fun e he => by
          obtain rfl | he := Json.mem_insert he
          · exact own f (List.mem_cons_self ..) n t fits
          · obtain ⟨g, named, holds⟩ := given e he
            exact ⟨g, named, stays _ _ _ _ later holds⟩
        refine (ih own' inserted fun g hg d hd u next =>
          each g (List.mem_cons_of_mem _ hg) d hd u (later.trans next)).mono fun all u next filled => ?_
        · refine ⟨filled.each, fun e he => filled.kept e (Json.mem_insert_of_ne he ?_), fun g hg hm => ?_, fun once =>
            filled.once (Json.pairwise_insert once fun e he => ⟨?_, absent e he⟩)⟩
          · intro same
            have := absent e he
            rw [same, Text.equalFold_refl] at this
            cases this
          · obtain rfl | hg := List.mem_cons.mp hg
            · exact ⟨_, filled.kept _ Json.self_mem_insert, Text.equalFold_refl _⟩
            · exact filled.present g hg hm
          · rw [Text.equalFold_comm]
            exact absent e he

end Fields

/-! ## Kinds -/

/-- A value of a kind lies in memory as the json data of the kind. -/
theorem ofKind_of_native {s t : Store} {v : Value} {n : Node} {k : Kind} (native : s.Native v n)
    (present : v.isNull = false) (meets : k = .invalid ∨ (t.kindOf v).Meets k) : n.OfKind k := by
  obtain rfl | rfl | rfl | ⟨rfl, array⟩ := meets
  · trivial
  · trivial
  · cases v with
    | null => cases present
    | array a =>
      change n.OfKind (t.array a).cells.kind
      cases (t.array a).cells <;> exact native
    | json a => trivial
    | double x => exact ⟨x, .inl native⟩
    | queue _ | image _ | vectorImage _ | canvas _ | function _ => exact native
    | _ => exact ⟨_, native⟩
  · cases v with
    | array a => exact native
    | _ => cases array

section Satisfied

variable {conform : Shape → Value → StoreM Value} {written : Nat → Prop} {strict : Bool} {s : Store}

/-- A converted value is of the kind asked for, and lies in memory if it is not the one that was given. -/
theorem makes_coerce_present {v : Value} (present : v.isNull = false) (target : Kind) :
    Makes written (fun w t => w.isNull = false ∧ (w = v ∨ t.Solid w) ∧ (target = .invalid ∨ (t.kindOf w).Meets target))
      (coerce v target) s := by
  refine ⟨(makes_coerce v target).1, fun w hw => ?_⟩
  have solid := (makes_coerce v target : Makes written _ _ s).2 w hw
  by_cases valid : target = .invalid
  · subst valid
    have same : (coerce v .invalid).run.run s = (.ok v, s) := by
      unfold coerce
      rw [run_kindOf, if_pos (by simp)]
      rfl
    rw [same] at hw
    cases hw
    exact ⟨present, solid, .inl rfl⟩
  · have converted := (gives_coerce (s := s) valid present).2 w hw
    exact ⟨converted.present, solid, .inr converted.meets⟩

/-- The last step of a field: a text that is too long is refused. -/
def limited (name : Text) (maxLength : Nat) (w : Value) : StoreM Value :=
  match w with
  | .string text =>
    if maxLength > 0 && text.length > maxLength then
      throw (Fault.raised Fault.validationError ("field '" ++ name ++ "' exceeds max length "
        ++ toString maxLength ++ " (actual: " ++ toString text.length ++ ")"))
    else pure w
  | _ => pure w

/-- A text that is let through keeps to the limit. -/
theorem makes_within (name : Text) (maxLength : Nat) (w : Value) :
    Makes written (fun w' t => w' = w ∧ t = s ∧ ∀ text, w = .string text → 0 < maxLength → text.length ≤ maxLength)
      (limited name maxLength w) s := by
  unfold limited
  split
  · split
    · exact makes_throw _
    · rename_i short
      refine makes_pure ⟨rfl, rfl, fun text same limited => ?_⟩
      cases same
      simp only [Bool.and_eq_true, decide_eq_true_eq, not_and, Nat.not_lt] at short
      exact short limited
  · rename_i other
    exact makes_pure ⟨rfl, rfl, fun text same => absurd same (other text)⟩

/-- Only null and a json value that holds null are null as json data. -/
theorem native_present {v : Value} {n : Node} (native : s.Native v n) (present : v.isNull = false)
    (holds : ∀ a, v = .json a → (s.box a).isNull = false) : n.isNull = false := by
  cases v with
  | null => cases present
  | json a =>
    rw [show n = s.box a from native]
    exact holds a rfl
  | array _ | queue _ =>
    obtain ⟨b, len, rfl⟩ := native
    rfl
  | image _ | vectorImage _ | canvas _ | function _ =>
    obtain ⟨t, rfl⟩ := native
    rfl
  | _ =>
    rw [show n = _ from native]
    rfl

/-- What a value that holds no null was made into is not null as json data. -/
theorem not_missing {v w : Value} {n : Node} {t : Store} (solid : s.Solid v) (later : s.Later written t) (origin : w = v ∨ t.Solid w)
    (native : t.Native w n) (given : w.isNull = false) (missing : n.isNull = true) : False := by
  have lies : t.Solid w := origin.elim (fun same => same ▸ solid.later later) id
  have held := native_present native given fun a ha => by
    subst ha
    obtain ⟨m, box, held⟩ := lies
    rw [Store.box, box]
    exact held
  rw [missing] at held
  cases held

/-- A value of the kind of texts is the text that it is as json data. -/
theorem string_of_native {t : Store} {v : Value} {n : Node} {text : Text} (native : s.Native v n)
    (meets : (t.kindOf v).Meets .string) (same : n = .text text) : v = .string text := by
  obtain impossible | kind | ⟨impossible, -⟩ := meets
  · cases impossible
  · cases v with
    | string text' =>
      rw [show n = .text text' from native] at same
      cases same
      rfl
    | array a =>
      have array := Cells.isArray_kind (t.array a).cells
      rw [show (t.array a).cells.kind = .string from kind] at array
      cases array
    | _ => cases kind
  · cases impossible

/-- A field's value that is made to fit satisfies the field, when one that has a shape satisfies the shape. What must
be given must not be a json value that holds null. -/
theorem makes_fitted {f : FieldShape} {v : Value} (solid : f.mandatory = true → s.Solid v)
    (inner : ∀ shape, f.shape = some shape → v.isNull = false →
      Makes written (fun n t => n.isNull = true ∧ f.mandatory = false ∨ n.isNull = false ∧ shape.Satisfied strict t n)
        (conform shape v >>= toNode) s) :
    Makes written (fun n t => f.Satisfied strict t n) (fitted conform f v) s := by
  obtain ⟨name, kind, shape, mandatory, maxLength, fallback⟩ := f
  unfold fitted conformField
  dsimp only
  split
  · rename_i null
    split
    · exact makes_throw _
    · rename_i optional
      refine (makes_toNode .null).mono fun n t _ hn => ?_
      have hn : n = .null := hn
      subst hn
      cases shape <;> exact .inl ⟨rfl, Bool.eq_false_iff.mpr optional⟩
  · rename_i present
    have present := Bool.eq_false_iff.mpr present
    cases shape with
    | some shape =>
      exact inner shape rfl present
    | none =>
      simp only [bind_assoc]
      refine makes_kindOf_bind (makes_bind (makes_rethrow (makes_coerce_present present kind)) ?_)
      intro w t later ⟨given, origin, meets⟩
      refine makes_bind (makes_within name maxLength w) fun w' u _ ⟨same, here, short⟩ => ?_
      subst same here
      refine (makes_toNode w').mono fun n _ _ native => ?_
      cases missing : n.isNull with
      | false =>
        refine .inr ⟨missing, ofKind_of_native native given meets, fun string text same limited => ?_⟩
        subst string
        obtain impossible | kind := meets
        · cases impossible
        · exact short text (string_of_native native kind same) limited
      | true => exact .inl ⟨missing, Bool.eq_false_iff.mpr fun must => not_missing (solid must) later origin native given missing⟩

/-! ## Copies -/

/-- Json data that is a copy of other data satisfies what that does. -/
structure Copies (strict : Bool) (s : Store) (n m : Node) (t : Store) : Prop where
  null : m.isNull = n.isNull
  kind : ∀ k, n.OfKind k → m.OfKind k
  within : ∀ maxLength, n.Within maxLength → m.Within maxLength
  shape : ∀ shape : Shape, shape.Satisfied strict s n → shape.Satisfied strict t m

theorem Copies.field {n m : Node} {t : Store} (h : Copies strict s n m t) {f : FieldShape} (holds : f.Satisfied strict s n) :
    f.Satisfied strict t m := by
  obtain ⟨name, kind, _ | shape, mandatory, maxLength, fallback⟩ := f
  · simp only [FieldShape.Satisfied, h.null] at holds ⊢
    exact holds.imp_right fun ⟨present, ofKind, short⟩ =>
      ⟨present, h.kind kind ofKind, fun string => h.within maxLength (short string)⟩
  · simp only [FieldShape.Satisfied, h.null] at holds ⊢
    exact holds.imp_right fun ⟨present, holds⟩ => ⟨present, h.shape shape holds⟩

theorem Copies.after {s₁ t u : Store} {n m : Node} (first : s.Later written s₁) (h : Copies strict s₁ n m t)
    (later : t.Later written u) : Copies strict s n m u :=
  { h with
    shape := fun shape holds =>
      Shape.Satisfied.later later shape (.refl m) (h.shape shape (Shape.Satisfied.later first shape (.refl n) holds)) }

/-- An object with copies of entries is a copy of the object. -/
theorem copies_object {t : Store} {a a' : Nat} {es' : List (Text × Node)} (lies : t.objects[a']? = some es')
    (all : List.Forall₂ (fun e e' => e'.1 = e.1 ∧ Copies strict s e.2 e'.2 t) (s.object a) es') :
    Copies strict s (.object a) (.object a') t := by
  refine ⟨rfl, fun _ ofKind => ofKind.of_object, fun _ _ _ text => (nomatch text), fun shape holds => ?_⟩
  · cases shape with
    | map sorted => exact ⟨a', rfl⟩
    | array element =>
      intro strictly
      obtain ⟨b, len, places, impossible, -⟩ := holds strictly
      cases impossible
    | record fields =>
      obtain ⟨a₀, es, same, lies₀, each, mandatory, once⟩ := holds
      cases same
      rw [Store.object, lies₀, Option.getD_some] at all
      refine ⟨a', es', rfl, lies, fun e' he' => ?_, fun key f hf hm => ?_, fun strictly =>
        pairwise_of_keys (S := fun k k' => k.equalFold k' = false) all (once strictly)⟩
      · obtain ⟨e, he, key, copy⟩ := forall₂_exists_left all he'
        obtain ⟨f, named, holds⟩ := FieldShape.firstSatisfied_iff.mp (each e he)
        exact FieldShape.firstSatisfied_iff.mpr ⟨f, key ▸ named, copy.field holds⟩
      · obtain ⟨e, he, named, present⟩ := mandatory key f hf hm
        obtain ⟨e', he', key', copy⟩ := forall₂_exists_right all he
        exact ⟨e', he', key' ▸ named, copy.null ▸ present⟩

/-- A list with copies of items is a copy of the list. -/
theorem copies_list {t : Store} {b b' len : Nat} {items' : List Node} (lies : t.buffers[b']? = some items'.toArray)
    (all : List.Forall₂ (fun n n' => Copies strict s n n' t) (s.items b len) items') :
    Copies strict s (.list b len) (.list b' items'.length) t := by
  refine ⟨rfl, fun _ ofKind => ofKind.of_list, fun _ _ _ text => (nomatch text), fun shape holds => ?_⟩
  · cases shape with
    | map sorted => obtain ⟨a, impossible⟩ := holds; cases impossible
    | record fields => obtain ⟨a, es, impossible, -⟩ := holds; cases impossible
    | array element =>
      intro strictly
      obtain ⟨b₀, len₀, places, same, lies₀, each⟩ := holds strictly
      cases same
      refine ⟨b', _, _, rfl, lies, fun m' hm' => ?_⟩
      rw [List.take_length] at hm'
      obtain ⟨m, hm, copy⟩ := forall₂_exists_left all hm'
      rw [Store.items, Store.buffer, lies₀, Option.getD_some] at hm
      rw [copy.null]
      exact (each m hm).imp_right (copy.shape element)

/-- A clone is related to its original when data is to itself, later data still is, and objects and lists are when what
is in them is. -/
theorem makes_cloneTo_related {R : Store → Node → Node → Store → Prop} (self : ∀ s n, R s n n s)
    (after : ∀ {s s₁ t u : Store} {n m : Node}, s.Later written s₁ → R s₁ n m t → t.Later written u → R s n m u)
    (object : ∀ {s t : Store} {a a' : Nat} {es' : List (Text × Node)}, t.objects[a']? = some es' →
      List.Forall₂ (fun e e' => e'.1 = e.1 ∧ R s e.2 e'.2 t) (s.object a) es' → R s (.object a) (.object a') t)
    (list : ∀ {s t : Store} {b b' len : Nat} {items' : List Node}, t.buffers[b']? = some items'.toArray →
      List.Forall₂ (fun n n' => R s n n' t) (s.items b len) items' → R s (.list b len) (.list b' items'.length) t)
    (depth : Nat) (n : Node) : Makes written (R s n) (cloneTo depth n) s := by
  induction depth generalizing n s with
  | zero => cases n <;> exact makes_pure (self _ _)
  | succ depth ih =>
    cases n with
    | object a =>
      refine makes_get_bind (makes_bind (makes_mapM (fun e e' t => e'.1 = e.1 ∧ R s e.2 e'.2 t) ?_ _ ?_) ?_)
      · exact fun _ _ _ _ later h => ⟨h.1, after (.refl s) h.2 later⟩
      · exact fun e _ t first => makes_bind (ih e.2) fun m u _ copy => makes_pure ⟨rfl, after first copy (.refl u)⟩
      · intro es' t later all
        refine (makes_newObject es').mono fun m u next object => ?_
        obtain ⟨a', hm, lies⟩ := object
        subst hm
        exact object lies (all.imp fun _ _ h => ⟨h.1, after (.refl s) h.2 next⟩)
    | list b len =>
      refine makes_get_bind (makes_bind (makes_mapM (fun n n' t => R s n n' t) ?_ _ ?_) ?_)
      · exact fun _ _ _ _ later h => after (.refl s) h later
      · exact fun n _ t first => (ih n).mono fun m u _ copy => after first copy (.refl u)
      · intro items' t later all
        refine (makes_newList items').mono fun m u next list => ?_
        obtain ⟨b', hm, lies⟩ := list
        subst hm
        exact list lies (all.imp fun _ _ h => after (.refl s) h next)
    | _ => exact makes_pure (self _ _)

/-- A clone is a copy. -/
theorem makes_cloneTo_copies (depth : Nat) (n : Node) : Makes written (Copies strict s n) (cloneTo depth n) s :=
  makes_cloneTo_related (R := fun s n m t => Copies strict s n m t) (fun _ _ => ⟨rfl, fun _ => id, fun _ => id, fun _ => id⟩)
    (fun first copy later => copy.after first later) copies_object copies_list depth n

/-! ## Making values fit -/

/-- A json value that data is read as is not null, and lies in memory. -/
theorem solid_of_reads {n : Node} {v : Value} (reads : s.Reads n v) : s.Solid v := by
  cases n with
  | object a | list b len =>
    obtain ⟨c, rfl, lies⟩ := reads
    exact ⟨_, lies, rfl⟩
  | int k =>
    rw [show v = .ofInt64 k from reads, Value.ofInt64]
    split <;> trivial
  | _ =>
    rw [show v = _ from reads]
    trivial

/-- Data that is given for a shape is read as a value that is given for it. -/
theorem givenAs_of_reads {shape : Shape} {n : Node} {v : Value} (given : shape.Given s n) (reads : s.Reads n v) :
    shape.GivenAs s v := by
  have single (scalar : ∀ b len, n ≠ .list b len) (present : n.isNull = false) : shape.isArray = false := by
    cases shape with
    | array element =>
      obtain null | list := given
      · rw [present] at null
        cases null
      · obtain ⟨b, len, _, rfl, -⟩ := list rfl
        exact absurd rfl (scalar b len)
    | _ => rfl
  cases n with
  | object a | list b len =>
    obtain ⟨c, rfl, lies⟩ := reads
    exact ⟨_, lies, rfl, given⟩
  | null =>
    rw [show v = .null from reads]
    trivial
  | int k =>
    rw [show v = .ofInt64 k from reads, Value.ofInt64]
    split <;> exact single nofun rfl
  | _ =>
    rw [show v = _ from reads]
    exact single nofun rfl

/-- What a value that is made to fit has become. -/
structure Conformed (strict : Bool) (shape : Shape) (v w : Value) (t : Store) : Prop where
  data : shape.isArray = false → v.isNull = true ∨ ∃ a, v = .json a
  present : v.isNull = false → w.isNull = false
  same : shape.isArray = true → w = v
  empty : strict = true → ∀ a, w = .array a → (t.array a).cells.toList = []
  suits : w.isNull = false → shape.Suits strict t w

/-- Lengths of arrays are the same in later memory. -/
theorem length_later {t : Store} (h : s.Later written t) {a : Nat} (some : 0 < (s.array a).length) :
    (t.array a).length = (s.array a).length := by
  unfold Store.array at *
  cases lies : s.arrays[a]? with
  | none =>
    rw [lies] at some
    cases some
  | some d =>
    obtain ⟨d', lies', alike, -⟩ := h.arrays a d lies
    rw [lies']
    exact alike.length

/-- Elements of an array are replaced one after the other. -/
theorem makes_conformElements_any {conform : Value → StoreM Value} {a i : Nat} {vs : List Value} (here : written a)
    (each : ∀ v t, s.Later written t → Makes written (fun _ _ => True) (conform v) t)
    (room : i + vs.length ≤ (s.array a).length) :
    Makes written (fun _ _ => True) (conformElements conform a i vs) s := by
  induction vs generalizing s i with
  | nil => exact makes_pure trivial
  | cons v rest ih =>
    rw [List.length_cons] at room
    refine makes_bind (makes_rethrow (each v s (.refl s))) fun w t later _ => ?_
    have length := length_later later (Nat.lt_of_lt_of_le (by omega) room)
    have inside : i < (t.array a).length := by omega
    refine makes_bind ((makes_arraySet inside w).weaken fun _ same => same ▸ here) fun _ u next _ => ?_
    have length' := length_later next (Nat.zero_lt_of_lt inside)
    exact ih (fun v x more => each v x ((later.trans next).trans more)) (by omega)

/-- An empty array gives an empty list. -/
theorem makes_toNode_empty {a : Nat} (empty : (s.array a).cells.toList = []) :
    Makes written (fun n t => ∃ b, n = .list b 0 ∧ t.buffers[b]? = some #[]) (toNode (.array a)) s := by
  refine makes_get_bind (makes_get_bind ?_)
  rw [empty, List.mapM_nil, pure_bind]
  exact makes_newList []

/-- A value made to fit gives json data that satisfies the shape, unless it is a json value that holds null. -/
theorem makes_toNode_suits {shape : Shape} {mandatory : Bool} {v w : Value} (solid : mandatory = true → s.Solid v)
    (fit : Conformed strict shape v w s) (given : v.isNull = false) :
    Makes written (fun n t => n.isNull = true ∧ mandatory = false ∨ n.isNull = false ∧ shape.Satisfied strict t n)
      (toNode w) s := by
  have present := fit.present given
  have json {n : Node} {a : Nat} (lies : s.boxes[a]? = some n) (holds : shape.Satisfied strict s n) (some : n.isNull = false) :
      Makes written (fun n t => n.isNull = true ∧ mandatory = false ∨ n.isNull = false ∧ shape.Satisfied strict t n)
        (toNode (.json a)) s := by
    refine (makes_toNode (.json a)).mono fun m t later native => .inr ?_
    rw [show m = n by rw [show m = s.box a from native, Store.box, lies]; rfl]
    exact ⟨some, Shape.Satisfied.later later shape (.refl n) holds⟩
  cases shape with
  | map sorted =>
    obtain ⟨a, n, rfl, lies, o, rfl⟩ := fit.suits present
    exact json lies ⟨o, rfl⟩ rfl
  | record fields =>
    obtain ⟨a, n, rfl, lies, holds⟩ := fit.suits present
    refine json lies holds ?_
    obtain ⟨o, _, rfl, -⟩ := holds
    rfl
  | array element =>
    cases strict with
    | false =>
      cases fit.same rfl
      refine (makes_toNode v).mono fun n t later native => ?_
      cases missing : n.isNull with
      | false => exact .inr ⟨rfl, nofun⟩
      | true =>
        refine .inl ⟨rfl, Bool.eq_false_iff.mpr fun must => ?_⟩
        have held := native_present native given fun a ha => by
          subst ha
          obtain ⟨m, box, held⟩ := solid must
          rw [Store.box, box]
          exact held
        rw [missing] at held
        cases held
    | true =>
      by_cases array : ∃ a, w = .array a
      · obtain ⟨a, rfl⟩ := array
        refine (makes_toNode_empty (fit.empty rfl a rfl)).mono fun n t _ ⟨b, hn, lies⟩ => .inr ?_
        subst hn
        refine ⟨rfl, fun _ => ⟨b, 0, _, rfl, lies, fun m hm => ?_⟩⟩
        cases hm
      · have suits := fit.suits present
        cases w with
        | array a => exact absurd ⟨a, rfl⟩ array
        | json _ =>
          obtain ⟨a, n, same, lies, holds⟩ := suits rfl
          cases same
          refine json lies holds ?_
          obtain ⟨b, len, _, rfl, -⟩ := holds rfl
          rfl
        | _ =>
          obtain ⟨_, _, impossible, -⟩ := suits rfl
          cases impossible

section Record

/-- What is asked of making values fit the shape of a field. -/
def FitsField (strict : Bool) (conform : Shape → Value → StoreM Value) (f : FieldShape) (s : Store) : Prop :=
  ∀ shape, f.shape = some shape → ∀ v t, s.Later (fun _ => strict = false) t → (strict = true → shape.GivenAs t v) →
    Makes (fun _ => strict = false) (Conformed strict shape v) (conform shape v) t

/-- A field that is given is made to fit. -/
theorem makes_givenField {f : FieldShape} {n : Node} (inner : FitsField strict conform f s)
    (given : strict = true → ∀ shape, f.shape = some shape → shape.Given s n) :
    Makes (fun _ => strict = false) (fun m t => f.Satisfied strict t m) (ofNode n >>= fitted conform f) s := by
  refine makes_bind (makes_ofNode n) fun v t later reads =>
    makes_fitted (fun _ => solid_of_reads reads) fun shape hs present => ?_
  have looked : strict = true → shape.GivenAs t v := fun strictly =>
    givenAs_of_reads (Shape.Given.later later shape (.inr rfl) (given strictly shape hs)) reads
  refine makes_bind (inner shape hs v t later looked) fun w u next fit => ?_
  exact makes_toNode_suits (fun _ => (solid_of_reads reads).later next) fit present

/-- The default of a field is made to fit. -/
theorem makes_defaultField {f : FieldShape} {d : Value} (inner : FitsField strict conform f s)
    (solid : f.mandatory = true → s.Solid d)
    (given : strict = true → ∀ shape, f.shape = some shape → shape.GivenAs s d) :
    Makes (fun _ => strict = false) (fun m t => f.Satisfied strict t m) (fitted conform f d >>= clone) s := by
  have fit : Makes (fun _ => strict = false) (fun m t => f.Satisfied strict t m) (fitted conform f d) s := by
    refine makes_fitted solid fun shape hs present => ?_
    refine makes_bind (inner shape hs d s (.refl s) fun strictly => given strictly shape hs) fun w u next fit => ?_
    exact makes_toNode_suits (fun must => (solid must).later next) fit present
  exact makes_bind fit fun n t _ holds => makes_get_bind ((makes_cloneTo_copies _ n).mono fun m u _ copy => copy.field holds)

/-- An object with the fields of a record satisfies it. -/
theorem satisfied_of_filled {fields : List FieldShape} {given out all : List (Text × Node)} {t u : Store} {o : Nat}
    (filled : Filled (fun f n t => f.Satisfied strict t n) fields fields out all t) (later : t.Later written u)
    (lies : u.objects[o]? = some all)
    (once : strict = true → given.Pairwise fun e e' => e.1.equalFold e'.1 = false)
    (outs : List.Forall₂ (fun e m => m.1 = e.1 ∧ Named (fun f n t => f.Satisfied strict t n) fields s m) given out) :
    (Shape.record fields).Satisfied strict u (.object o) := by
  refine ⟨o, all, rfl, lies, fun e he => ?_, fun key f found must => ?_, fun strictly =>
    filled.once (pairwise_of_keys (S := fun k k' => k.equalFold k' = false) outs (once strictly))⟩
  · obtain ⟨f, named, holds⟩ := filled.each e he
    exact FieldShape.firstSatisfied_iff.mpr ⟨f, named, FieldShape.Satisfied.later later f (.refl e.2) holds⟩
  · obtain ⟨e, he, named⟩ := filled.present f (List.mem_of_find?_eq_some found) (.inl must)
    have own : f.name.equalFold key = true := List.find?_some (p := fun f : FieldShape => f.name.equalFold key) found
    have named : e.1.equalFold key = true := (Text.equalFold_congr named key).trans own
    refine ⟨e, he, named, ?_⟩
    -- the key of the entry names the field that was looked for, which must not be null
    obtain ⟨g, same, holds⟩ := filled.each e he
    have alike : (fun f : FieldShape => f.name.equalFold e.1) = fun f => f.name.equalFold key := funext fun f => by
      rw [Text.equalFold_comm, Text.equalFold_congr named, Text.equalFold_comm]
    rw [alike, found] at same
    cases same
    exact holds.present must

end Record

/-- A value that is made to fit a shape satisfies it. -/
theorem makes_conformTo (depth : Nat) {shape : Shape} (deep : shape.depth ≤ depth) (v : Value) (sound : shape.Sound s)
    (given : strict = true → shape.GivenAs s v) :
    Makes (fun _ => strict = false) (Conformed strict shape v) (conformTo depth shape v) s := by
  induction depth generalizing shape v s with
  | zero =>
    cases shape <;> cases deep
  | succ depth ih =>
    cases shape with
    | map sorted =>
      unfold conformTo
      dsimp only
      split
      · refine makes_bind (makes_newObject []) fun n t _ object => (makes_newBox n).mono fun w u _ box => ?_
        obtain ⟨o, hn, -⟩ := object
        obtain ⟨a, hw, lies⟩ := box
        subst hn hw
        exact ⟨fun _ => .inl ‹_›, fun _ => rfl, by rintro ⟨⟩, by rintro _ _ ⟨⟩, fun _ => ⟨a, _, rfl, lies, o, rfl⟩⟩
      · refine makes_bind (makes_objectEntries _ v) fun _ t _ looked => makes_pure ?_
        obtain ⟨here, b, o, hv, box, -⟩ := looked
        subst here hv
        exact ⟨fun _ => .inr ⟨b, rfl⟩, fun _ => rfl, by rintro ⟨⟩, by rintro _ _ ⟨⟩, fun _ => ⟨b, _, rfl, Store.box_lies box rfl, o, rfl⟩⟩
    | record fields =>
      unfold conformTo
      dsimp only
      split
      · rename_i null
        exact makes_pure ⟨fun _ => .inl null, fun present => by simp [null] at present, by rintro ⟨⟩, by rintro _ _ ⟨⟩, by rintro ⟨⟩⟩
      · refine makes_bind (makes_objectEntries _ v) fun es t _ found => ?_
        obtain ⟨here, b, o, hv, box, entries⟩ := found
        subst here hv entries
        obtain ⟨apart, each⟩ := sound
        have looked (strictly : strict = true) : (Shape.record fields).Given t (.object o) := by
          obtain ⟨n, lies, -, given⟩ := given strictly
          cases (Store.box_lies box rfl).symm.trans lies
          exact given
        have inner {f : FieldShape} (hf : f ∈ fields) {u : Store} (later : t.Later (fun _ => strict = false) u) :
            FitsField strict (conformTo depth) f u := by
          intro shape hs v x next given
          have bound := FieldShape.depth_le hf
          rw [FieldShape.depth_shape hs] at bound
          rw [Shape.depth] at deep
          exact ih (by omega) v (Shape.Sound.later (later.trans next) shape ((each.of_mem hf).shape hs)) given
        have stays : ∀ (f : FieldShape) n u u', Store.Later (fun _ => strict = false) u u' → f.Satisfied strict u n →
            f.Satisfied strict u' n := fun f n _ _ later => FieldShape.Satisfied.later later f (.refl n)
        refine makes_bind (makes_conformGiven (fun f n t => f.Satisfied strict t n) stays fun e he f found u later =>
          makes_givenField (inner (List.mem_of_find?_eq_some found) later) fun strictly shape hs => ?_) fun out u later outs => ?_
        · obtain ⟨es, lies, -, given⟩ := (looked strictly).2 o rfl
          rw [Store.object, lies] at he
          exact Shape.Given.later later shape (.refl e.2) ((given e he).of_find? found hs)
        refine makes_bind (makes_fillFields (fun f n t => f.Satisfied strict t n) stays
          (fun f hf n t holds => ⟨f, find?_own apart hf, holds⟩) (fun e he => (forall₂_exists_left outs he).elim fun _ h => h.2.2)
          fun f hf d hd u' next => makes_defaultField (inner hf (later.trans next)) (fun must => ?_)
            fun strictly shape hs => ?_) fun all u' next filled => ?_
        · exact ((each.of_mem hf).solid hd must).later (later.trans next)
        · have default := (looked strictly).1.of_mem hf hs hd
          exact default.later (later.trans next) fun n given => Shape.Given.later (later.trans next) shape (.refl n) given
        refine makes_bind (makes_newObject all) fun n x more object => (makes_newBox n).mono fun w y more' boxed => ?_
        obtain ⟨o', hn, entries⟩ := object
        obtain ⟨b', hw, box'⟩ := boxed
        subst hn hw
        refine ⟨fun _ => .inr ⟨b, rfl⟩, fun _ => rfl, by rintro ⟨⟩, by rintro _ _ ⟨⟩, fun _ => ⟨b', _, rfl, box', ?_⟩⟩
        refine Shape.Satisfied.later more' (.record fields) (.refl _)
          (satisfied_of_filled filled more entries (fun strictly => ?_) outs)
        obtain ⟨es, lies, once, -⟩ := (looked strictly).2 o rfl
        rw [Store.object, lies]
        exact once
    | array element =>
      have kept (suits : v.isNull = false → (Shape.array element).Suits strict s v)
          (empty : strict = true → ∀ a, v = .array a → (s.array a).cells.toList = []) :
          Makes (fun _ => strict = false) (Conformed strict (.array element) v) (pure v) s :=
        makes_pure ⟨by rintro ⟨⟩, id, fun _ => rfl, empty, suits⟩
      cases v with
      | array a =>
        unfold conformTo
        dsimp only
        refine makes_get_bind ?_
        cases strict with
        | true =>
          obtain ⟨d, lies, short⟩ := given rfl rfl
          have none : (s.array a).cells.toList = [] := by
            rw [Store.array, lies]
            exact d.cells.toList_of_length short
          rw [none]
          refine kept (fun _ _ v hv => ?_) fun _ b hb => ?_
          · rw [none] at hv
            cases hv
          · cases hb
            exact none
        | false =>
          have room : 0 + (s.array a).cells.toList.length ≤ (s.array a).length := by
            rw [Nat.zero_add]
            exact Nat.le_of_eq (s.array a).cells.length_toList
          refine makes_bind (makes_conformElements_any rfl (fun v t later => ?_) room) ?_
          · exact (ih (Nat.le_of_succ_le_succ deep) v (Shape.Sound.later later element sound) (by rintro ⟨⟩)).mono fun _ _ _ _ => trivial
          · exact fun _ t _ _ => makes_pure ⟨by rintro ⟨⟩, id, fun _ => rfl, by rintro ⟨⟩, fun _ => by rintro ⟨⟩⟩
      | null => exact kept (by rintro ⟨⟩) (by rintro _ _ ⟨⟩)
      | json a =>
        refine kept (fun _ strictly => ?_) (by rintro _ _ ⟨⟩)
        obtain ⟨n, lies, present, null | list⟩ := given strictly
        · rw [present] at null
          cases null
        · cases strictly
          exact ⟨a, n, rfl, lies, list⟩
      | _ => exact kept (fun _ strictly => Bool.noConfusion (given strictly)) (by rintro _ _ ⟨⟩)

/-! ## Any shape -/

section Any

/-- What a value that is made to fit is, whatever the shape: the value itself, or a json value that is new. -/
structure Refitted (shape : Shape) (v w : Value) (t : Store) : Prop where
  same_or_json : w = v ∨ t.Solid w ∧ ∃ a, w = .json a ∧ ((∃ b, v = .json b) ∨ v = .null ∧ ∃ sorted, shape = .map sorted)
  map : ∀ sorted, shape = .map sorted → ∃ a o, w = .json a ∧ t.boxes[a]? = some (.object o)

/-- A field's value that is made to fit is added to memory. -/
theorem makes_fitted_any {f : FieldShape} {v : Value}
    (inner : ∀ shape, f.shape = some shape → Makes written (fun _ _ => True) (conform shape v) s) :
    Makes written (fun _ _ => True) (fitted conform f v) s := by
  have data (w : Value) (t : Store) : Makes written (fun _ _ => True) (toNode w) t :=
    (makes_toNode w).mono fun _ _ _ _ => trivial
  obtain ⟨name, kind, shape, mandatory, maxLength, fallback⟩ := f
  unfold fitted conformField
  dsimp only
  split
  · split
    · exact makes_throw _
    · exact data .null s
  · cases shape with
    | some shape => exact makes_bind (inner shape rfl) fun w t _ _ => data w t
    | none =>
      simp only [bind_assoc]
      refine makes_kindOf_bind (makes_bind (makes_rethrow (makes_coerce v kind)) fun w t _ _ => ?_)
      exact makes_bind (makes_within name maxLength w) fun w' u _ _ => data w' u

/-- Making a value fit adds to memory, to any depth of the shape. -/
theorem makes_conformTo_any (depth : Nat) {shape : Shape} (deep : shape.depth ≤ depth) (v : Value) :
    Makes (fun _ => True) (Refitted shape v) (conformTo depth shape v) s := by
  induction depth generalizing shape v s with
  | zero => cases shape <;> cases deep
  | succ depth ih =>
    cases shape with
    | map sorted =>
      unfold conformTo
      dsimp only
      split
      · rename_i null
        refine makes_bind (makes_newObject []) fun n t _ object => (makes_newBox n).mono fun w u _ box => ?_
        obtain ⟨o, hn, -⟩ := object
        obtain ⟨a, hw, lies⟩ := box
        subst hn hw
        cases v with
        | null => exact ⟨.inr ⟨⟨_, lies, rfl⟩, a, rfl, .inr ⟨rfl, sorted, rfl⟩⟩, fun _ _ => ⟨a, o, rfl, lies⟩⟩
        | _ => cases null
      · refine makes_bind (makes_objectEntries _ v) fun _ t _ looked => makes_pure ?_
        obtain ⟨here, b, o, hv, box, -⟩ := looked
        subst here hv
        exact ⟨.inl rfl, fun _ _ => ⟨b, o, rfl, Store.box_lies box rfl⟩⟩
    | record fields =>
      unfold conformTo
      dsimp only
      split
      · rename_i null
        cases v with
        | null => exact makes_pure ⟨.inl rfl, by rintro _ ⟨⟩⟩
        | _ => cases null
      refine makes_bind (makes_objectEntries _ v) fun es t _ looked => ?_
      obtain ⟨-, b, -, hv, -, -⟩ := looked
      subst hv
      have inner {f : FieldShape} (hf : f ∈ fields) (shape : Shape) (hs : f.shape = some shape) (v : Value) (t : Store) :
          Makes (fun _ => True) (fun _ _ => True) (conformTo depth shape v) t := by
        have bound := FieldShape.depth_le hf
        rw [FieldShape.depth_shape hs] at bound
        rw [Shape.depth] at deep
        exact (ih (by omega) v).mono fun _ _ _ _ => trivial
      refine makes_bind (makes_conformGiven (fun _ _ _ => True) (fun _ _ _ _ _ => id) fun e he f found u _ =>
        makes_bind (makes_ofNode e.2) fun v x _ _ =>
          makes_fitted_any fun shape hs => inner (List.mem_of_find?_eq_some found) shape hs v x)
        fun out u _ outs => ?_
      refine makes_bind (makes_fillFields (fun _ _ _ => True) (fun _ _ _ _ _ => id) (fun f hf n x _ => ?_)
        (fun e he => (forall₂_exists_left outs he).elim fun _ h => h.2.2) fun f hf d _ x _ =>
        makes_bind (makes_fitted_any fun shape hs => inner hf shape hs d x) fun n y _ _ =>
          makes_get_bind ((makes_cloneTo _ n).mono fun _ _ _ _ => trivial)) fun all x _ _ => ?_
      · obtain ⟨g, found⟩ := Option.isSome_iff_exists.mp
          (List.find?_isSome (p := fun g : FieldShape => g.name.equalFold f.name).mpr ⟨f, hf, Text.equalFold_refl _⟩)
        exact ⟨g, found, trivial⟩
      refine makes_bind (makes_newObject all) fun n y _ object => (makes_newBox n).mono fun w z _ box => ?_
      obtain ⟨o, hn, -⟩ := object
      obtain ⟨b', hw, lies⟩ := box
      subst hn hw
      exact ⟨.inr ⟨⟨_, lies, rfl⟩, b', rfl, .inl ⟨b, rfl⟩⟩, by rintro _ ⟨⟩⟩
    | array element =>
      cases v with
      | array a =>
        refine makes_get_bind (makes_bind (makes_conformElements_any trivial (fun v t _ => ?_) ?_) fun _ t _ _ =>
          makes_pure ⟨.inl rfl, by rintro _ ⟨⟩⟩)
        · exact (ih (Nat.le_of_succ_le_succ deep) v).mono fun _ _ _ _ => trivial
        · rw [Nat.zero_add]
          exact Nat.le_of_eq (s.array a).cells.length_toList
      | _ => exact makes_pure ⟨.inl rfl, by rintro _ ⟨⟩⟩

/-- Making a value fit adds to memory, whatever the shape. -/
theorem makes_conform (shape : Shape) (v : Value) : Makes (fun _ => True) (Refitted shape v) (StoreM.conform shape v) s := by
  unfold StoreM.conform
  exact makes_conformTo_any shape.depth (Nat.le_refl _) v

end Any

/-! ## Arrays -/

section Arrays

variable {element : Shape} {v w w' : Value} {k : Kind}

/-- A value of a record or map still satisfies its shape in later memory. -/
theorem suits_later {t : Store} (h : s.Later written t) (single : element.isArray = false) (suits : element.Suits strict s v) :
    element.Suits strict t v := by
  cases element with
  | array _ => cases single
  | _ =>
    obtain ⟨a, n, hv, lies, holds⟩ := suits
    obtain ⟨n', lies', rfl⟩ := h.boxes a n lies
    exact ⟨a, n, hv, lies', Shape.Satisfied.later h _ (.refl n) holds⟩

/-- What a record or map has become is stored as it is where the value was held that it was made of. -/
theorem coerce_conformed {t : Store} (data : v.isNull = true ∨ ∃ a, v = .json a) (present : v.isNull = false → w.isNull = false)
    (suits : w.isNull = false → ∃ a, w = .json a) (held : s.Holds k v) (other : k ≠ .array)
    (run : ((coerce w k).run.run t).1 = .ok w') : w' = w := by
  have kept (holds : t.Holds k w) : w' = w := by
    rw [coerce_of_holds holds] at run
    cases run
    rfl
  obtain null | ⟨a, rfl⟩ := data
  · cases v with
    | null =>
      cases hw : w.isNull with
      | true =>
        cases w with
        | null => exact kept held
        | _ => cases hw
      | false =>
        -- null was held, which json data can not be converted to
        obtain ⟨b, rfl⟩ := suits hw
        obtain rfl | (rfl | rfl | ⟨-, impossible⟩) | ⟨-, zero⟩ := held
        · exact kept (.inl rfl)
        · exact kept (.inr (.inl (.inl rfl)))
        · cases run
        · cases impossible
        · cases k with
          | any => exact kept (.inr (.inl (.inl rfl)))
          | json => exact kept (.inr (.inl (.inr (.inl rfl))))
          | invalid => exact kept (.inl rfl)
          | array => exact absurd rfl other
          | bool | byte | int | long | double | string => cases zero
          | _ => cases run
    | _ => cases null
  · obtain ⟨b, rfl⟩ := suits (present rfl)
    exact kept (held.imp id (Or.imp id fun h => nomatch h.1))

/-- Elements that are made to fit are null or satisfy the shape, also once the others are. -/
theorem makes_conformElements {s₀ : Store} (single : element.isArray = false) {conform : Value → StoreM Value} {a i : Nat}
    {vs : List Value} {d : ArrayData} {items : Array Value} (lies : s.arrays[a]? = some d) (boxed : d.cells = .boxed items)
    (room : i + vs.length = items.size) (held : d.element = .any ∨ d.element = .array ∨ ∀ v ∈ vs, s₀.Holds d.element v)
    (each : ∀ v ∈ vs, ∀ t, s.Later (· = a) t → Makes (fun _ => False) (Conformed true element v) (conform v) t)
    (done : ∀ j < i, ∀ v, items[j]? = some v → v.isNull = true ∨ element.Suits true s v) :
    Makes (· = a) (fun _ t => ∀ v ∈ (t.array a).cells.toList, v.isNull = true ∨ element.Suits true t v)
      (conformElements conform a i vs) s := by
  induction vs generalizing s i d items with
  | nil =>
    refine makes_pure fun v hv => ?_
    rw [Store.array, lies, Option.getD_some, boxed] at hv
    obtain ⟨j, hj⟩ := List.getElem?_of_mem hv
    rw [Cells.toList, Array.getElem?_toList] at hj
    obtain ⟨inside, -⟩ := Array.getElem?_eq_some_iff.mp hj
    rw [List.length_nil, Nat.add_zero] at room
    exact done j (room ▸ inside) v hj
  | cons v rest ih =>
    rw [List.length_cons] at room
    have fits := (each v (List.mem_cons_self ..) s (.refl s)).mono fun w t later fit =>
      (⟨later, fit⟩ : s.Later (fun _ => False) t ∧ Conformed true element v w t)
    refine makes_bind (makes_rethrow (fits.weaken fun _ => False.elim)) fun w t _ made => ?_
    obtain ⟨later, fit⟩ := made
    obtain ⟨d', lies', -, kept⟩ := later.arrays a d lies
    cases kept id
    have here : t.array a = d := by rw [Store.array, lies', Option.getD_some]
    have inside : i < (t.array a).length := by
      rw [here, ArrayData.length, boxed]
      change i < items.size
      omega
    refine makes_bind (makes_arraySet inside w) fun _ u next put => ?_
    obtain ⟨w', stored, lies''⟩ := put d items lies' boxed
    have json : w.isNull = false → ∃ b, w = .json b := fun present => by
      have suits := fit.suits present
      cases element with
      | array _ => cases single
      | _ =>
        obtain ⟨b, _, hw, -⟩ := suits
        exact ⟨b, hw⟩
    have same : w' = w := by
      obtain ⟨-, same⟩ | ⟨notAny, notArray, run⟩ := stored
      · exact same
      · obtain any | array | held := held
        · exact absurd any notAny
        · exact absurd array notArray
        · exact coerce_conformed (fit.data single) fit.present json (held v (List.mem_cons_self ..)) notArray run
    subst same
    refine ih lies'' rfl (by rw [Array.size_setIfInBounds]; omega)
      (held.imp id (Or.imp id fun held v hv => held v (List.mem_cons_of_mem _ hv)))
      (fun v hv x more => each v (List.mem_cons_of_mem _ hv) x (((later.weaken fun _ => False.elim).trans next).trans more))
      fun j hj x hx => ?_
    rw [Array.getElem?_setIfInBounds] at hx
    split at hx
    · rename_i hij
      split at hx
      · cases hx
        cases hw : w'.isNull with
        | true => exact .inl rfl
        | false => exact .inr (suits_later next single (fit.suits hw))
      · cases hx
    · refine (done j (by omega) x hx).imp_right fun suits => ?_
      exact suits_later next single (suits_later later single suits)

/-- Packed elements are neither null nor json values. -/
theorem boxed_of_data {c : Cells} {v : Value} (hv : v ∈ c.toList) (data : v.isNull = true ∨ ∃ a, v = .json a) :
    ∃ items, c = .boxed items := by
  cases c with
  | boxed items => exact ⟨items, rfl⟩
  | bytes items | ints items | bits items n =>
    obtain ⟨x, -, rfl⟩ := List.mem_map.mp hv
    obtain null | ⟨a, json⟩ := data
    · cases null
    · cases json

/-- The elements of an array that is made to fit are null or satisfy the shape. -/
theorem suits_conformElements {d : ArrayData} {a : Nat} {t : Store} {r : Unit} (single : element.isArray = false)
    (sound : element.Sound s) (lies : s.arrays[a]? = some d) (held : s.HoldsElements d)
    (given : ∀ v ∈ d.cells.toList, element.GivenAs s v)
    (run : (conformElements (conformTo element.depth element) a 0 d.cells.toList).run.run s = (.ok r, t)) :
    ∀ v ∈ (t.array a).cells.toList, v.isNull = true ∨ element.Suits true t v := by
  have each (v) (hv : v ∈ d.cells.toList) (t) (later : s.Later (· = a) t) :
      Makes (fun _ => False) (Conformed true element v) (conformTo element.depth element v) t :=
    (makes_conformTo element.depth (Nat.le_refl _) v (Shape.Sound.later later element sound) fun _ =>
      (given v hv).later later fun n given => Shape.Given.later later element (.refl n) given).weaken (by rintro _ ⟨⟩)
  cases elements : d.cells.toList with
  | nil =>
    rw [elements] at run
    cases run
    rw [Store.array, lies, Option.getD_some, elements]
    intro v hv
    cases hv
  | cons v rest =>
    -- the first element was made to fit, so that the elements are not packed
    have hv : v ∈ d.cells.toList := elements ▸ List.mem_cons_self ..
    obtain ⟨items, boxed⟩ : ∃ items, d.cells = .boxed items := by
      rw [elements] at run
      obtain ⟨w, u, first, -⟩ := Signature.run_bind_ok run
      exact boxed_of_data hv (((makes_rethrow (each v hv s (.refl s))).of_run first).2.data single)
    refine ((makes_conformElements single lies boxed ?_ held each fun _ h => absurd h (Nat.not_lt_zero _)).of_run run).2
    rw [boxed, Nat.zero_add]
    rfl

end Arrays

end Satisfied

end StoreM

/-- A value is ready to be made to fit a shape: it is given for the shape, or it is an array whose elements are of the
kind that it declares and given for the shape of the elements. -/
def Shape.Ready (strict : Bool) (s : Store) : Shape → Value → Prop
  | .array element, .array a => strict = true → element.isArray = false ∧ ∃ d, s.arrays[a]? = some d ∧
      s.HoldsElements d ∧ ∀ v ∈ d.cells.toList, element.GivenAs s v
  | shape, v => strict = true → shape.GivenAs s v

/-- What a value is made into so that it fits a shape satisfies the shape, if it is not null.

The result of a record is an object with declared fields only, with all mandatory ones, whose values are null or are
of the declared kind and length, or satisfy the declared shape in turn. When the value that was given is ready, no
declared field is present under two keys, and arrays hold elements that are null or satisfy the declared shape. -/
theorem conform_suits {strict : Bool} {shape : Shape} {v w : Value} {s t : Store} (sound : shape.Sound s)
    (ready : shape.Ready strict s v) (run : (StoreM.conform shape v).run.run s = (.ok w, t)) (present : w.isNull = false) :
    shape.Suits strict t w := by
  have single (given : strict = true → shape.GivenAs s v) : shape.Suits strict t w :=
    ((StoreM.makes_conformTo shape.depth (Nat.le_refl _) v sound given).of_run run).2.suits present
  cases shape with
  | map _ | record _ => exact single ready
  | array element =>
    cases v with
    | array a =>
      cases strict with
      | false => cases w <;> exact nofun
      | true =>
        obtain ⟨plain, d, lies, held, given⟩ := ready rfl
        obtain ⟨s', u, here, run⟩ := Signature.run_bind_ok run
        cases here
        obtain ⟨r, u, elements, run⟩ := Signature.run_bind_ok run
        cases run
        rw [Store.array, lies, Option.getD_some] at elements
        exact fun _ => StoreM.suits_conformElements plain sound lies held given elements
    | _ => exact single ready

open StoreM in
/-- An array with a record of a name of at most three characters and a count, and with null. -/
theorem conform_suits_array :
    let element : Shape := .record [.mk "name" .string none false 3 none, .mk "count" .int none true 0 none]
    let s : Store := { Store.initial with
      arrays := #[⟨.json, false, .boxed #[.json 0, .null]⟩],
      boxes := #[.object 0],
      objects := #[[("count", .int 7), ("name", .text "abc")]] }
    ∃ t, (conform (.array element) (.array 0)).run.run s = (.ok (.array 0), t) ∧
      (Shape.array element).Suits true t (.array 0) := by
  intro element s
  have sound : (Shape.array element).Sound s := ⟨by decide, nofun, (fun _ _ h => nomatch h), trivial⟩
  have given : element.Given s (.object 0) := by
    refine ⟨⟨trivial, trivial, trivial⟩, fun a ha => ?_⟩
    cases ha
    exact ⟨_, rfl, by decide, by simp [FieldShape.FirstGiven, FieldShape.Given]⟩
  have ready : (Shape.array element).Ready true s (.array 0) := by
    have elements {v : Value} (hv : v ∈ [.json 0, .null]) : v = .json 0 ∨ v = .null := by simpa using hv
    refine fun _ => ⟨rfl, _, rfl, .inr (.inr fun v hv => ?_), fun v hv => ?_⟩
    · obtain rfl | rfl := elements hv
      · exact .inr (.inl (.inr (.inl rfl)))
      · exact .inr (.inr ⟨rfl, rfl⟩)
    · obtain rfl | rfl := elements hv
      · exact ⟨.object 0, rfl, rfl, given⟩
      · trivial
  obtain ⟨t, run⟩ : ∃ t, (conform (.array element) (.array 0)).run.run s = (.ok (.array 0), t) := ⟨_, rfl⟩
  exact ⟨t, run, conform_suits sound ready run rfl⟩

open StoreM in
/-- A list where an array of records is declared is not looked at, and a field may be given twice. -/
theorem conform_unchecked :
    let orders : Shape := .record [.mk "items" .array (some (.array (.record [.mk "id" .int none false 0 none]))) false 0 none]
    let named : Shape := .record [.mk "name" .string none false 0 none]
    let s : Store := { Store.initial with
      boxes := #[.object 0, .object 1],
      objects := #[[("items", .list 0 1)], [("Name", .text "b"), ("name", .text "a")]],
      buffers := #[#[.int 5]] }
    (∃ w t, (conform orders (.json 0)).run.run s = (.ok w, t) ∧ w.isNull = false ∧ ¬orders.Suits true t w) ∧
      ∃ w t, (conform named (.json 1)).run.run s = (.ok w, t) ∧ w.isNull = false ∧ ¬named.Suits true t w := by
  intro orders named s
  let t : Store := { s with
    boxes := #[.object 0, .object 1, .list 0 1, .object 2],
    objects := #[[("items", .list 0 1)], [("Name", .text "b"), ("name", .text "a")], [("items", .list 0 1)]] }
  let u : Store := { s with
    boxes := #[.object 0, .object 1, .object 2],
    objects := #[[("items", .list 0 1)], [("Name", .text "b"), ("name", .text "a")], [("Name", .text "b"), ("name", .text "a")]] }
  refine ⟨⟨.json 3, t, rfl, rfl, fun suits => ?_⟩, ⟨.json 2, u, rfl, rfl, fun suits => ?_⟩⟩
  · obtain ⟨a, n, same, lies, o, es, rfl, entries, each, -⟩ := suits
    cases same
    cases lies
    cases entries
    have first := each _ (List.mem_cons_self ..)
    rw [FieldShape.FirstSatisfied, if_pos (by decide)] at first
    obtain ⟨null, -⟩ | ⟨-, list⟩ := first
    · cases null
    · obtain ⟨b, len, places, same, buffer, items⟩ := list rfl
      cases same
      cases buffer
      obtain null | ⟨_, _, impossible, -⟩ := items (.int 5) (List.mem_cons_self ..)
      · cases null
      · cases impossible
  · obtain ⟨a, n, same, lies, o, es, rfl, entries, -, -, once⟩ := suits
    cases same
    cases lies
    cases entries
    have apart := List.rel_of_pairwise_cons (once rfl) (List.mem_cons_self ..)
    exact absurd apart (by decide)

end ScriptEngine
