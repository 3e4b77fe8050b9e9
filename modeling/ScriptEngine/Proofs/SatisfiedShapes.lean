import ScriptEngine.Proofs.LaterMemory
/-!
# Satisfied shapes

A declared map, record or array of them asks for json data of a shape. What satisfies a shape does not depend on how it
was made, and stays so while data is added to memory.
-/

namespace ScriptEngine

/-! ## Names of fields -/

/-- Texts that compare as equal are equal. -/
theorem Text.eq_of_compare {a b : Text} (h : compare a b = .eq) : a = b := by
  have bytes : ∀ (as bs : List UInt8), compareBytes as bs = .eq → as = bs := by
    intro as bs
    fun_induction compareBytes as bs with
    | case1 => exact fun _ => rfl
    | case2 | case3 | case4 | case5 => exact nofun
    | case6 a as b bs notLess notGreater ih =>
      intro h
      rw [ih h, UInt8.le_antisymm (UInt8.not_lt.mp notGreater) (UInt8.not_lt.mp notLess)]
  obtain ⟨as⟩ := a
  obtain ⟨bs⟩ := b
  exact congrArg Text.mk (bytes as bs h)

namespace Text

theorem equalFold_refl (a : Text) : a.equalFold a = true := beq_self_eq_true _

theorem equalFold_comm (a b : Text) : a.equalFold b = b.equalFold a := BEq.comm

/-- Names that agree with a third but for the case of letters agree with the same names. -/
theorem equalFold_congr {a b : Text} (h : a.equalFold b = true) (c : Text) : a.equalFold c = b.equalFold c := by
  unfold equalFold at *
  rw [eq_of_beq h]

end Text

section Entries

variable {α : Type} {name key : Text} {x : α} {es : List (Text × α)}

/-- A name is found among entries when some key is the name but for the case of letters. -/
theorem findKey_isSome : (findKey name es).isSome = true ↔ ∃ e ∈ es, e.1.equalFold name = true := by
  unfold findKey
  split
  · rename_i same
    obtain ⟨e, he, same⟩ := List.any_eq_true.mp same
    exact iff_of_true rfl ⟨e, he, of_decide_eq_true same ▸ Text.equalFold_refl name⟩
  · rw [Option.isSome_map, List.find?_isSome]

/-- What is among entries with a key set is the new entry or was there before. -/
theorem Json.mem_insert {e : Text × α} (h : e ∈ Json.insert key x es) : e = (key, x) ∨ e ∈ es := by
  induction es with
  | nil => exact .inl (List.mem_singleton.mp h)
  | cons head rest ih =>
    unfold Json.insert at h
    split at h
    · exact List.mem_cons.mp h
    · exact (List.mem_cons.mp h).imp_right (List.mem_cons_of_mem _)
    · obtain rfl | h := List.mem_cons.mp h
      · exact .inr (List.mem_cons_self ..)
      · exact (ih h).imp_right (List.mem_cons_of_mem _)

theorem Json.self_mem_insert : (key, x) ∈ Json.insert key x es := by
  induction es with
  | nil => exact List.mem_singleton.mpr rfl
  | cons head rest ih =>
    unfold Json.insert
    split
    · exact List.mem_cons_self ..
    · exact List.mem_cons_self ..
    · exact List.mem_cons_of_mem _ ih

/-- Entries of other keys stay when a key is set. -/
theorem Json.mem_insert_of_ne {e : Text × α} (h : e ∈ es) (other : e.1 ≠ key) : e ∈ Json.insert key x es := by
  induction es with
  | nil => cases h
  | cons head rest ih =>
    unfold Json.insert
    split
    · exact List.mem_cons_of_mem _ h
    · rename_i same
      obtain rfl | h := List.mem_cons.mp h
      · exact absurd (Text.eq_of_compare same).symm other
      · exact List.mem_cons_of_mem _ h
    · obtain rfl | h := List.mem_cons.mp h
      · exact List.mem_cons_self ..
      · exact List.mem_cons_of_mem _ (ih h)

/-- Setting a key that is related to no key that is there keeps keys unrelated. -/
theorem Json.pairwise_insert {R : Text × α → Text × α → Prop} (h : es.Pairwise R)
    (new : ∀ e ∈ es, R (key, x) e ∧ R e (key, x)) : (Json.insert key x es).Pairwise R := by
  induction es with
  | nil => exact List.pairwise_singleton ..
  | cons head rest ih =>
    obtain ⟨first, later⟩ := List.pairwise_cons.mp h
    unfold Json.insert
    split
    · exact List.pairwise_cons.mpr ⟨fun e he => (new e he).1, h⟩
    · exact List.pairwise_cons.mpr ⟨fun e he => (new e (List.mem_cons_of_mem _ he)).1, later⟩
    · refine List.pairwise_cons.mpr ⟨fun e he => ?_, ih later fun e he => new e (List.mem_cons_of_mem _ he)⟩
      obtain rfl | he := Json.mem_insert he
      · exact (new head (List.mem_cons_self ..)).2
      · exact first e he

end Entries

/-- The shape of a field. -/
def FieldShape.shape : FieldShape → Option Shape
  | .mk _ _ shape _ _ _ => shape

/-! ## Satisfied shapes -/

/-- The json data that a value of a kind lies in memory as. A double that is a whole number may lie there as one. -/
def Node.OfKind (n : Node) : Kind → Prop
  | .bool => ∃ b, n = .bool b
  | .byte => ∃ k : UInt8, n = .int (Int64.ofNat k.toNat)
  | .int => ∃ k : Int32, n = .int k.toInt64
  | .long => ∃ k, n = .int k
  | .double => ∃ x, (Node.double x).Settles n
  | .string => ∃ t, n = .text t
  | .date => ∃ d, n = .text (Layout.internet.format d)
  | .array | .byteArray | .bitmap | .intMap | .queue => ∃ b len, n = .list b len
  | .image | .vectorImage | .canvas | .function => ∃ t, n = .text t
  | .any | .json | .invalid => True
  | .null | .returned | .broken | .continued | .error => False

/-- Texts that are limited in length keep to the limit. A limit of zero is none. -/
def Node.Within (n : Node) (maxLength : Nat) : Prop := ∀ t, n = .text t → 0 < maxLength → t.length ≤ maxLength

variable (strict : Bool) (s : Store)

mutual

/-- Json data satisfies a shape. A record has declared fields only, each of which satisfies what is declared of it, and
all mandatory ones. Strictly, it has no field under two keys, and where an array is declared there is a list of data
that is null or satisfies the shape of the elements. -/
def Shape.Satisfied : Shape → Node → Prop
  | .map _, n => ∃ a, n = .object a
  | .record fields, n => ∃ a es, n = .object a ∧ s.objects[a]? = some es ∧
      (∀ e ∈ es, FieldShape.FirstSatisfied fields e.1 e.2) ∧
      (∀ key f, (fields.find? fun f => f.name.equalFold key) = some f → f.mandatory = true →
        ∃ e ∈ es, e.1.equalFold key = true ∧ e.2.isNull = false) ∧
      (strict = true → es.Pairwise fun e e' => e.1.equalFold e'.1 = false)
  | .array element, n => strict = true → ∃ b len places, n = .list b len ∧ s.buffers[b]? = some places ∧
      ∀ m ∈ places.toList.take len, m.isNull = true ∨ element.Satisfied m

/-- Json data satisfies the field that a key names, the first one of that name. -/
def FieldShape.FirstSatisfied : List FieldShape → Text → Node → Prop
  | [], _, _ => False
  | f :: fs, key, n => if f.name.equalFold key = true then f.Satisfied n else FieldShape.FirstSatisfied fs key n

/-- Json data satisfies a field: it is null and need not be given, or it is of the kind of the field, or satisfies its
shape. -/
def FieldShape.Satisfied : FieldShape → Node → Prop
  | .mk _ kind none mandatory maxLength _, n =>
    n.isNull = true ∧ mandatory = false ∨ n.isNull = false ∧ n.OfKind kind ∧ (kind = .string → n.Within maxLength)
  | .mk _ _ (some shape) mandatory _ _, n =>
    n.isNull = true ∧ mandatory = false ∨ n.isNull = false ∧ shape.Satisfied n

end

variable {strict s} in
theorem FieldShape.firstSatisfied_iff {fields : List FieldShape} {key : Text} {n : Node} :
    FieldShape.FirstSatisfied strict s fields key n ↔
      ∃ f, (fields.find? fun f => f.name.equalFold key) = some f ∧ f.Satisfied strict s n := by
  induction fields with
  | nil => exact ⟨nofun, nofun⟩
  | cons f fs ih =>
    rw [FieldShape.FirstSatisfied, List.find?_cons]
    split
    · rename_i named
      simp [named]
    · rename_i other
      simp only [Bool.not_eq_true] at other
      simp only [other]
      exact ih

/-- A value satisfies a shape: it is an array whose elements are null or satisfy the shape of the elements, or json
data that satisfies the shape. -/
def Shape.Suits : Shape → Value → Prop
  | .array element, .array a =>
    strict = true → ∀ v ∈ (s.array a).cells.toList, v.isNull = true ∨ element.Suits v
  | .array element, v => strict = true → ∃ a n, v = .json a ∧ s.boxes[a]? = some n ∧ (Shape.array element).Satisfied strict s n
  | shape, v => ∃ a n, v = .json a ∧ s.boxes[a]? = some n ∧ shape.Satisfied strict s n

/-- Whether a shape is that of arrays. -/
def Shape.isArray : Shape → Bool
  | .array _ => true
  | _ => false

/-- A value is given for a shape whose json data is looked at: it is null, or a json value that lies in memory and holds
more than null. For the shape of an array, it may also be an empty array. -/
def Store.GivenAs (isArray : Bool) (given : Node → Prop) : Value → Prop
  | .null => True
  | .json a => ∃ n, s.boxes[a]? = some n ∧ n.isNull = false ∧ given n
  | .array a => isArray = true → ∃ d, s.arrays[a]? = some d ∧ d.cells.length = 0
  | _ => isArray = false

mutual

/-- A shape is sound: the fields of its records have different names, whatever the case of letters, and the default of
a field that must be given is not a json value that holds null. -/
def Shape.Sound : Shape → Prop
  | .map _ => True
  | .record fields => (fields.Pairwise fun f g => f.name.equalFold g.name = false) ∧ FieldShape.AllSound fields
  | .array element => element.Sound

/-- All fields are sound. -/
def FieldShape.AllSound : List FieldShape → Prop
  | [] => True
  | f :: fs => f.Sound ∧ FieldShape.AllSound fs

/-- A field is sound. -/
def FieldShape.Sound : FieldShape → Prop
  | .mk _ _ none mandatory _ fallback => mandatory = true → ∀ v, fallback = some v → s.Solid v
  | .mk _ _ (some shape) mandatory _ fallback => shape.Sound ∧ (mandatory = true → ∀ v, fallback = some v → s.Solid v)

end

mutual

/-- Json data is given for a shape in a way that is looked at: an object that is made into a record lies in memory and
has no key twice but for the case of letters, and where an array is declared there is null, or a list that satisfies
the shape already. Defaults are given in the same way. -/
def Shape.Given : Shape → Node → Prop
  | .map _, _ => True
  | .record fields, n => FieldShape.DefaultsGiven fields ∧
      ∀ a, n = .object a → ∃ es, s.objects[a]? = some es ∧ (es.Pairwise fun e e' => e.1.equalFold e'.1 = false) ∧
        ∀ e ∈ es, FieldShape.FirstGiven fields e.1 e.2
  | .array element, n => n.isNull = true ∨ (Shape.array element).Satisfied true s n

/-- Json data is given for the field that a key names. -/
def FieldShape.FirstGiven : List FieldShape → Text → Node → Prop
  | [], _, _ => True
  | f :: fs, key, n => if f.name.equalFold key = true then f.Given n else FieldShape.FirstGiven fs key n

/-- Json data is given for a field. -/
def FieldShape.Given : FieldShape → Node → Prop
  | .mk _ _ none _ _ _, _ => True
  | .mk _ _ (some shape) _ _ _, n => shape.Given n

/-- The defaults of fields are given. -/
def FieldShape.DefaultsGiven : List FieldShape → Prop
  | [] => True
  | f :: fs => f.DefaultGiven ∧ FieldShape.DefaultsGiven fs

/-- The default of a field is given. -/
def FieldShape.DefaultGiven : FieldShape → Prop
  | .mk _ _ (some shape) _ _ (some v) => s.GivenAs shape.isArray (fun n => shape.Given n) v
  | .mk _ _ (some _) _ _ none => True
  | .mk _ _ none _ _ _ => True

end

/-- A value is given for a shape. -/
abbrev Shape.GivenAs (shape : Shape) (v : Value) : Prop := s.GivenAs shape.isArray (fun n => shape.Given s n) v

/-! ## Later memory -/

section Lists

variable {α β : Type} {R : α → β → Prop} {l : List α} {l' : List β}

theorem Cells.toList_of_length {c : Cells} (h : c.length = 0) : c.toList = [] :=
  List.length_eq_zero_iff.mp (c.length_toList.trans h)

theorem forall₂_exists_left (h : List.Forall₂ R l l') {y : β} (hy : y ∈ l') : ∃ x ∈ l, R x y := by
  induction h with
  | nil => cases hy
  | cons head tail ih =>
    obtain rfl | hy := List.mem_cons.mp hy
    · exact ⟨_, List.mem_cons_self .., head⟩
    · obtain ⟨x, hx, related⟩ := ih hy
      exact ⟨x, List.mem_cons_of_mem _ hx, related⟩

theorem forall₂_exists_right (h : List.Forall₂ R l l') {x : α} (hx : x ∈ l) : ∃ y ∈ l', R x y :=
  forall₂_exists_left h.flip hx

/-- Entries with the keys of others are related by keys as those are. -/
theorem pairwise_of_keys {P : Text × Node → Text × Node → Prop} {S : Text → Text → Prop} {es es' : List (Text × Node)}
    (h : List.Forall₂ (fun e e' => e'.1 = e.1 ∧ P e e') es es') (before : es.Pairwise fun e e' => S e.1 e'.1) :
    es'.Pairwise fun e e' => S e.1 e'.1 := by
  induction h with
  | nil => exact .nil
  | cons head tail ih =>
    obtain ⟨first, rest⟩ := List.pairwise_cons.mp before
    refine List.pairwise_cons.mpr ⟨fun e' he' => ?_, ih rest⟩
    obtain ⟨e, he, key, -⟩ := forall₂_exists_left tail he'
    rw [head.1, key]
    exact first e he

end Lists

section Later

variable {strict : Bool} {written : Nat → Prop} {s t : Store}

/-- Objects stay objects, and the like, when data settles. -/
theorem Node.Settles.eq_of_settled {n n' : Node} (h : n.Settles n') (settled : n.settle = n) : n' = n := by
  obtain rfl | rfl := h
  · rfl
  · exact settled

/-- Data that settles stays as it is, or is a double that becomes a whole number. -/
theorem Node.Settles.cases {n n' : Node} (h : n.Settles n') : n' = n ∨ ∃ x k, n = .double x ∧ n' = .int k := by
  obtain rfl | rfl := h
  · exact .inl rfl
  · cases n with
    | double x =>
      by_cases whole : Json.isExactWhole x = true
      · exact .inr ⟨x, _, rfl, if_pos whole⟩
      · exact .inl (if_neg whole)
    | _ => exact .inl rfl

theorem Node.Settles.isNull {n n' : Node} (h : n.Settles n') : n'.isNull = n.isNull := by
  obtain rfl | rfl := h
  · rfl
  · exact n.isNull_settle

theorem Node.OfKind.settles {n n' : Node} {k : Kind} (h : n.OfKind k) (settles : n.Settles n') : n'.OfKind k := by
  cases k with
  | any | json | invalid => trivial
  | null | returned | broken | continued | error => exact h
  | double =>
    obtain ⟨x, first⟩ := h
    exact ⟨x, Node.Settles.trans _ _ _ first settles⟩
  | array | byteArray | bitmap | intMap | queue =>
    obtain ⟨b, len, rfl⟩ := h
    exact ⟨b, len, settles.eq_of_settled rfl⟩
  | _ =>
    obtain ⟨x, rfl⟩ := h
    exact ⟨x, settles.eq_of_settled rfl⟩

/-- Objects are of no kind but those of any data. -/
theorem Node.OfKind.of_object {a : Nat} {n : Node} {k : Kind} (h : (Node.object a).OfKind k) : n.OfKind k := by
  cases k with
  | any | json | invalid => trivial
  | null | returned | broken | continued | error => exact h.elim
  | double =>
    obtain ⟨x, settles⟩ := h
    obtain impossible | ⟨_, _, _, impossible⟩ := settles.cases <;> cases impossible
  | array | byteArray | bitmap | intMap | queue =>
    obtain ⟨b, len, impossible⟩ := h
    cases impossible
  | _ =>
    obtain ⟨x, impossible⟩ := h
    cases impossible

/-- All lists are of the same kinds. -/
theorem Node.OfKind.of_list {b b' len len' : Nat} {k : Kind} (h : (Node.list b len).OfKind k) :
    (Node.list b' len').OfKind k := by
  cases k with
  | any | json | invalid => trivial
  | null | returned | broken | continued | error => exact h.elim
  | double =>
    obtain ⟨x, settles⟩ := h
    obtain impossible | ⟨_, _, _, impossible⟩ := settles.cases <;> cases impossible
  | array | byteArray | bitmap | intMap | queue => exact ⟨b', len', rfl⟩
  | _ =>
    obtain ⟨x, impossible⟩ := h
    cases impossible

theorem Node.Within.settles {n n' : Node} {maxLength : Nat} (h : n.Within maxLength) (settles : n.Settles n') :
    n'.Within maxLength := by
  obtain rfl | ⟨x, k, rfl, rfl⟩ := settles.cases
  · exact h
  · exact fun _ text => nomatch text

mutual

/-- What satisfies a shape still does in later memory. -/
theorem Shape.Satisfied.later (h : s.Later written t) :
    (shape : Shape) → {n n' : Node} → n.Settles n' → shape.Satisfied strict s n → shape.Satisfied strict t n'
  | .map _, _, _, settles, ⟨a, hn⟩ => by
    subst hn
    exact ⟨a, settles.eq_of_settled rfl⟩
  | .record fields, n, n', settles, ⟨a, es, hn, lies, each, mandatory, once⟩ => by
    subst hn
    obtain ⟨es', lies', same⟩ := h.objects a es lies
    refine ⟨a, es', settles.eq_of_settled rfl, lies', fun e' he' => ?_, fun key f hf hm => ?_, fun strictly => ?_⟩
    · obtain ⟨e, he, key, more⟩ := forall₂_exists_left same he'
      rw [key]
      exact FieldShape.FirstSatisfied.later h fields more (each e he)
    · obtain ⟨e, he, named, present⟩ := mandatory key f hf hm
      obtain ⟨e', he', key', more⟩ := forall₂_exists_right same he
      exact ⟨e', he', key' ▸ named, more.isNull ▸ present⟩
    · exact pairwise_of_keys (S := fun k k' => k.equalFold k' = false) same (once strictly)
  | .array element, n, n', settles, list => by
    intro strictly
    obtain ⟨b, len, places, rfl, lies, each⟩ := list strictly
    obtain ⟨places', lies', same⟩ := h.buffers b places lies
    refine ⟨b, len, places', settles.eq_of_settled rfl, lies', fun m' hm' => ?_⟩
    obtain ⟨m, hm, more⟩ := forall₂_exists_left (List.forall₂_take len same) hm'
    rw [more.isNull]
    exact (each m hm).imp_right (Shape.Satisfied.later h element more)

theorem FieldShape.FirstSatisfied.later (h : s.Later written t) :
    (fields : List FieldShape) → {key : Text} → {n n' : Node} → n.Settles n' →
      FieldShape.FirstSatisfied strict s fields key n → FieldShape.FirstSatisfied strict t fields key n'
  | f :: fs, key, n, n', settles, holds => by
    rw [FieldShape.FirstSatisfied] at holds ⊢
    split
    · rename_i named
      rw [if_pos named] at holds
      exact FieldShape.Satisfied.later h f settles holds
    · rename_i other
      rw [if_neg other] at holds
      exact FieldShape.FirstSatisfied.later h fs settles holds

theorem FieldShape.Satisfied.later (h : s.Later written t) :
    (f : FieldShape) → {n n' : Node} → n.Settles n' → f.Satisfied strict s n → f.Satisfied strict t n'
  | .mk _ _ none _ _ _, _, _, settles, holds => by
    simp only [FieldShape.Satisfied, settles.isNull] at holds ⊢
    exact holds.imp_right fun ⟨present, kind, short⟩ =>
      ⟨present, kind.settles settles, fun string => (short string).settles settles⟩
  | .mk _ _ (some shape) _ _ _, _, _, settles, holds => by
    simp only [FieldShape.Satisfied, settles.isNull] at holds ⊢
    exact holds.imp_right fun ⟨present, holds⟩ => ⟨present, Shape.Satisfied.later h shape settles holds⟩

end

theorem Store.GivenAs.later (h : s.Later written t) {isArray : Bool} {given given' : Node → Prop} {v : Value}
    (more : ∀ n, given n → given' n) (as : s.GivenAs isArray given v) : t.GivenAs isArray given' v := by
  cases v with
  | json a =>
    obtain ⟨n, lies, present, holds⟩ := as
    obtain ⟨n', lies', rfl⟩ := h.boxes a n lies
    exact ⟨n, lies', present, more n holds⟩
  | array a =>
    intro array
    obtain ⟨d, lies, empty⟩ := as array
    obtain ⟨d', lies', alike, -⟩ := h.arrays a d lies
    exact ⟨d', lies', alike.length.trans empty⟩
  | _ => exact as

mutual

/-- What is given for a shape still is in later memory. -/
theorem Shape.Given.later (h : s.Later written t) :
    (shape : Shape) → {n n' : Node} → n.Settles n' → shape.Given s n → shape.Given t n'
  | .map _, _, _, _, _ => trivial
  | .record fields, n, n', settles, ⟨defaults, object⟩ => by
    refine ⟨FieldShape.DefaultsGiven.later h fields defaults, fun a ha => ?_⟩
    obtain rfl | ⟨x, k, rfl, rfl⟩ := settles.cases
    · obtain ⟨es, lies, once, each⟩ := object a ha
      obtain ⟨es', lies', same⟩ := h.objects a es lies
      refine ⟨es', lies', pairwise_of_keys (S := fun k k' => k.equalFold k' = false) same once, fun e' he' => ?_⟩
      obtain ⟨e, he, key, more⟩ := forall₂_exists_left same he'
      rw [key]
      exact FieldShape.FirstGiven.later h fields more (each e he)
    · cases ha
  | .array element, n, n', settles, list => by
    simp only [Shape.Given, settles.isNull] at list ⊢
    exact list.imp_right (Shape.Satisfied.later h (.array element) settles)

theorem FieldShape.FirstGiven.later (h : s.Later written t) :
    (fields : List FieldShape) → {key : Text} → {n n' : Node} → n.Settles n' →
      FieldShape.FirstGiven s fields key n → FieldShape.FirstGiven t fields key n'
  | [], _, _, _, _, _ => trivial
  | f :: fs, key, n, n', settles, holds => by
    rw [FieldShape.FirstGiven] at holds ⊢
    split
    · rename_i named
      rw [if_pos named] at holds
      exact FieldShape.Given.later h f settles holds
    · rename_i other
      rw [if_neg other] at holds
      exact FieldShape.FirstGiven.later h fs settles holds

theorem FieldShape.Given.later (h : s.Later written t) :
    (f : FieldShape) → {n n' : Node} → n.Settles n' → f.Given s n → f.Given t n'
  | .mk _ _ none _ _ _, _, _, _, _ => trivial
  | .mk _ _ (some shape) _ _ _, _, _, settles, holds => Shape.Given.later h shape settles holds

theorem FieldShape.DefaultsGiven.later (h : s.Later written t) :
    (fields : List FieldShape) → FieldShape.DefaultsGiven s fields → FieldShape.DefaultsGiven t fields
  | [], _ => trivial
  | f :: fs, ⟨first, rest⟩ => ⟨FieldShape.DefaultGiven.later h f first, FieldShape.DefaultsGiven.later h fs rest⟩

theorem FieldShape.DefaultGiven.later (h : s.Later written t) :
    (f : FieldShape) → f.DefaultGiven s → f.DefaultGiven t
  | .mk _ _ none _ _ _, _ => trivial
  | .mk _ _ (some _) _ _ none, _ => trivial
  | .mk _ _ (some shape) _ _ (some _), as =>
    Store.GivenAs.later h (fun _ given => Shape.Given.later h shape (.refl _) given) as

end

mutual

/-- A shape that is sound is so as long as what lies in memory does. -/
theorem Shape.Sound.kept (h : s.Keeps t) : (shape : Shape) → shape.Sound s → shape.Sound t
  | .map _, _ => trivial
  | .record fields, ⟨apart, each⟩ => ⟨apart, FieldShape.AllSound.kept h fields each⟩
  | .array element, sound => Shape.Sound.kept h element sound

theorem FieldShape.AllSound.kept (h : s.Keeps t) :
    (fields : List FieldShape) → FieldShape.AllSound s fields → FieldShape.AllSound t fields
  | [], _ => trivial
  | f :: fs, ⟨first, rest⟩ => ⟨FieldShape.Sound.kept h f first, FieldShape.AllSound.kept h fs rest⟩

theorem FieldShape.Sound.kept (h : s.Keeps t) : (f : FieldShape) → f.Sound s → f.Sound t
  | .mk _ _ none _ _ _, sound => fun must v hv => (sound must v hv).kept h
  | .mk _ _ (some shape) _ _ _, ⟨inner, sound⟩ =>
    ⟨Shape.Sound.kept h shape inner, fun must v hv => (sound must v hv).kept h⟩

end

/-- A shape that is sound is so in later memory. -/
theorem Shape.Sound.later (h : s.Later written t) (shape : Shape) (sound : shape.Sound s) : shape.Sound t :=
  sound.kept h.keeps

end Later

/-! ## Fields of records -/

section Records

variable {s : Store} {fields : List FieldShape} {f : FieldShape} {inner : Shape}

theorem FieldShape.AllSound.of_mem (h : FieldShape.AllSound s fields) (hf : f ∈ fields) : f.Sound s := by
  induction fields with
  | nil => cases hf
  | cons g fs ih =>
    obtain rfl | hf := List.mem_cons.mp hf
    · exact h.1
    · exact ih h.2 hf

theorem FieldShape.Sound.solid (h : f.Sound s) {v : Value} (hv : f.fallback = some v) (must : f.mandatory = true) :
    s.Solid v := by
  obtain ⟨_, _, _ | shape, _, _, _⟩ := f
  · exact h must v hv
  · exact h.2 must v hv

theorem FieldShape.Sound.shape (h : f.Sound s) (hs : f.shape = some inner) : inner.Sound s := by
  obtain ⟨_, _, _ | shape, _, _, _⟩ := f
  · cases hs
  · cases hs
    exact h.1

theorem FieldShape.DefaultsGiven.of_mem (h : FieldShape.DefaultsGiven s fields) (hf : f ∈ fields)
    (hs : f.shape = some inner) {v : Value} (hv : f.fallback = some v) : inner.GivenAs s v := by
  induction fields with
  | nil => cases hf
  | cons g fs ih =>
    obtain rfl | hf := List.mem_cons.mp hf
    · obtain ⟨_, _, _ | _, _, _, _ | _⟩ := f <;> cases hs
      · cases hv
      · cases hv
        exact h.1
    · exact ih h.2 hf

theorem FieldShape.FirstGiven.of_find? {key : Text} {n : Node} (h : FieldShape.FirstGiven s fields key n)
    (found : (fields.find? fun f => f.name.equalFold key) = some f) (hs : f.shape = some inner) : inner.Given s n := by
  induction fields with
  | nil => cases found
  | cons g fs ih =>
    rw [FieldShape.FirstGiven] at h
    rw [List.find?_cons] at found
    split at found
    · rename_i named
      cases found
      rw [if_pos named] at h
      obtain ⟨_, _, _ | _, _, _, _⟩ := f <;> cases hs
      exact h
    · rename_i other
      rw [if_neg (by simp [other])] at h
      exact ih h found

theorem FieldShape.Satisfied.present {strict : Bool} {n : Node} (h : f.Satisfied strict s n) (must : f.mandatory = true) :
    n.isNull = false := by
  obtain ⟨_, _, _ | _, mandatory, _, _⟩ := f <;> cases (show mandatory = true from must) <;>
    exact h.elim (fun h => nomatch h.2) (·.1)

/-- Fields of different names are found by their own. -/
theorem find?_own (apart : fields.Pairwise fun f g => f.name.equalFold g.name = false) (hf : f ∈ fields) :
    (fields.find? fun g => g.name.equalFold f.name) = some f := by
  induction fields with
  | nil => cases hf
  | cons g fs ih =>
    obtain ⟨first, rest⟩ := List.pairwise_cons.mp apart
    obtain rfl | hf := List.mem_cons.mp hf
    · rw [List.find?_cons, Text.equalFold_refl]
    · rw [List.find?_cons, first f hf]
      exact ih rest hf

theorem FieldShape.depth_le (hf : f ∈ fields) : f.depth ≤ FieldShape.depthAll fields := by
  induction fields with
  | nil => cases hf
  | cons g fs ih =>
    rw [FieldShape.depthAll]
    obtain rfl | hf := List.mem_cons.mp hf
    · exact Nat.le_max_left ..
    · exact Nat.le_trans (ih hf) (Nat.le_max_right ..)

theorem FieldShape.depth_shape (hs : f.shape = some inner) : f.depth = inner.depth + 1 := by
  obtain ⟨_, _, _ | _, _, _, _⟩ := f <;> cases hs
  rfl

end Records

end ScriptEngine
