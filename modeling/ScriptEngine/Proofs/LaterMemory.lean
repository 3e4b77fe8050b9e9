import Mathlib.Data.List.Forall2
import ScriptEngine.Proofs.PreparedArguments
/-!
# Memory that is added to

A conversion of a value makes new data. Of the data that lies in memory already it changes two things only: doubles
that are whole numbers become whole numbers where they lie, and elements of arrays are replaced by others.
-/

namespace ScriptEngine

/-! ## Tables -/

section Tables

variable {α : Type} {R : Nat → α → α → Prop} {xs ys zs : Array α}

/-- Everything in one table lies in another at the same place, changed at most as a relation allows. -/
def Extends (R : Nat → α → α → Prop) (xs ys : Array α) : Prop :=
  ∀ (i : Nat) (x : α), xs[i]? = some x → ∃ y, ys[i]? = some y ∧ R i x y

theorem Extends.refl (h : ∀ i x, R i x x) (xs : Array α) : Extends R xs xs := fun i x hx => ⟨x, hx, h i x⟩

theorem Extends.trans (h : ∀ i x y z, R i x y → R i y z → R i x z) (hxy : Extends R xs ys) (hyz : Extends R ys zs) :
    Extends R xs zs := by
  intro i x hx
  obtain ⟨y, hy, first⟩ := hxy i x hx
  obtain ⟨z, hz, second⟩ := hyz i y hy
  exact ⟨z, hz, h i x y z first second⟩

/-- A table that ends in something new extends what it was. -/
theorem Extends.push (h : ∀ i x, R i x x) (xs : Array α) (new : α) : Extends R xs (xs.push new) := by
  intro i x hx
  obtain ⟨inside, -⟩ := Array.getElem?_eq_some_iff.mp hx
  exact ⟨x, by rw [Array.getElem?_push_lt inside, ← Array.getElem?_eq_getElem inside, hx], h i x⟩

/-- A table with one place changed extends what it was when the relation allows the change. -/
theorem Extends.modify (h : ∀ i x, R i x x) {a : Nat} {f : α → α} (changed : ∀ x, xs[a]? = some x → R a x (f x)) :
    Extends R xs (xs.modify a f) := by
  intro i x hx
  rw [Array.getElem?_modify]
  split
  · rename_i here
    subst here
    exact ⟨f x, by rw [hx]; rfl, changed x hx⟩
  · exact ⟨x, hx, h i x⟩

/-- A table with something put into one place extends what it was when the relation allows the change. -/
theorem Extends.setIfInBounds (h : ∀ i x, R i x x) {a : Nat} {new : α} (changed : ∀ x, xs[a]? = some x → R a x new) :
    Extends R xs (xs.setIfInBounds a new) := by
  intro i x hx
  rw [Array.getElem?_setIfInBounds]
  split
  · rename_i here
    subst here
    obtain ⟨inside, -⟩ := Array.getElem?_eq_some_iff.mp hx
    exact ⟨new, by rw [if_pos inside], changed x hx⟩
  · exact ⟨x, hx, h i x⟩

end Tables

/-! ## Json data that has settled -/

/-- What normalization makes of json data: a double that is exactly a whole number becomes a whole number. -/
def Node.settle : Node → Node
  | .double x => if Json.isExactWhole x then .int (Json.wholeOf x) else .double x
  | n => n

/-- Settled data stays as it is. -/
@[simp]
theorem Node.settle_settle (n : Node) : n.settle.settle = n.settle := by
  cases n with
  | double x =>
    by_cases whole : Json.isExactWhole x = true
    · simp [settle, whole]
    · simp [settle, whole]
  | _ => rfl

/-- Json data as it was, or settled. -/
def Node.Settles (n n' : Node) : Prop := n' = n ∨ n' = n.settle

theorem Node.Settles.refl (n : Node) : n.Settles n := .inl rfl

theorem Node.Settles.trans (n₁ n₂ n₃ : Node) (h : n₁.Settles n₂) (k : n₂.Settles n₃) : n₁.Settles n₃ := by
  obtain rfl | rfl := h
  · exact k
  · obtain rfl | rfl := k
    · exact .inr rfl
    · exact .inr (settle_settle n₁)

/-- Data that may have settled settles to the same. -/
theorem Node.Settles.settle {n n' : Node} (h : n.Settles n') : n'.settle = n.settle := by
  obtain rfl | rfl := h
  · rfl
  · exact settle_settle n

/-- The same keys in the same order, each with its data, which may have settled. -/
def EntriesSettle (es es' : List (Text × Node)) : Prop := List.Forall₂ (fun e e' => e'.1 = e.1 ∧ e.2.Settles e'.2) es es'

/-- The same places, each with its data, which may have settled. -/
def PlacesSettle (b b' : Array Node) : Prop := List.Forall₂ Node.Settles b.toList b'.toList

theorem EntriesSettle.refl (es : List (Text × Node)) : EntriesSettle es es :=
  List.forall₂_same.mpr fun e _ => ⟨rfl, Node.Settles.refl e.2⟩

theorem PlacesSettle.refl (b : Array Node) : PlacesSettle b b := List.forall₂_same.mpr fun n _ => Node.Settles.refl n

/-- Lists that are related place by place to a third are related to each other. -/
theorem forall₂_comp {α β γ : Type} {R : α → β → Prop} {S : β → γ → Prop} {T : α → γ → Prop}
    (comp : ∀ x y z, R x y → S y z → T x z) {l₁ : List α} {l₂ : List β} {l₃ : List γ}
    (h : List.Forall₂ R l₁ l₂) (k : List.Forall₂ S l₂ l₃) : List.Forall₂ T l₁ l₃ := by
  induction h generalizing l₃ with
  | nil =>
    cases k
    exact .nil
  | cons head _ ih =>
    cases k with
    | cons head' tail' => exact .cons (comp _ _ _ head head') (ih tail')

theorem EntriesSettle.trans (es₁ es₂ es₃ : List (Text × Node)) (h : EntriesSettle es₁ es₂) (k : EntriesSettle es₂ es₃) :
    EntriesSettle es₁ es₃ :=
  forall₂_comp (fun _ _ _ h k => ⟨k.1.trans h.1, Node.Settles.trans _ _ _ h.2 k.2⟩) h k

theorem PlacesSettle.trans (b₁ b₂ b₃ : Array Node) (h : PlacesSettle b₁ b₂) (k : PlacesSettle b₂ b₃) :
    PlacesSettle b₁ b₃ := forall₂_comp Node.Settles.trans h k

/-- Places are settled when the first of them are replaced by what they settle to. -/
theorem placesSettle_replaced {b old : Array Node} {len : Nat} {items : List Node} (settled : PlacesSettle b old)
    (all : List.Forall₂ (fun n n' => n' = n.settle) (b.toList.take len) items) :
    PlacesSettle old (items.toArray ++ old.extract items.length old.size) := by
  have taken : b.toList.take len = b.toList.take items.length := by
    rw [← all.length_eq, List.length_take, ← List.take_eq_take_min]
  have first : List.Forall₂ Node.Settles (old.toList.take items.length) items := by
    refine forall₂_comp (fun n₁ n n₂ h h' => ?_) (List.forall₂_take items.length settled).flip (taken ▸ all)
    rw [h']
    exact .inr (Node.Settles.settle h).symm
  have suffix : (old.extract items.length old.size).toList = old.toList.drop items.length := by
    rw [Array.toList_extract, List.extract_eq_take_drop]
    exact List.take_of_length_le (by simp)
  have rest := List.forall₂_same.mpr fun n (_ : n ∈ old.toList.drop items.length) => Node.Settles.refl n
  have both := List.rel_append first rest
  beta_reduce at both
  rw [List.take_append_drop] at both
  unfold PlacesSettle
  rwa [Array.toList_append, suffix]

/-! ## Later memory -/

/-- Two arrays with the same declaration and length, their elements packed in the same way. -/
structure ArrayData.Alike (d d' : ArrayData) : Prop where
  element : d'.element = d.element
  fixed : d'.fixed = d.fixed
  kind : d'.cells.kind = d.cells.kind
  length : d'.cells.length = d.cells.length

/-- What may have become of an array at an address: its elements may have been replaced, but only if it is one of
those that are written to. -/
def ArrayData.Rewritten (written : Nat → Prop) (a : Nat) (d d' : ArrayData) : Prop :=
  d.Alike d' ∧ (¬written a → d' = d)

theorem ArrayData.Rewritten.refl {written : Nat → Prop} (a : Nat) (d : ArrayData) : d.Rewritten written a d :=
  ⟨⟨rfl, rfl, rfl, rfl⟩, fun _ => rfl⟩

theorem ArrayData.Rewritten.trans {written : Nat → Prop} (a : Nat) (d d' d'' : ArrayData)
    (h : d.Rewritten written a d') (k : d'.Rewritten written a d'') : d.Rewritten written a d'' :=
  ⟨⟨k.1.element.trans h.1.element, k.1.fixed.trans h.1.fixed, k.1.kind.trans h.1.kind, k.1.length.trans h.1.length⟩,
    fun out => (k.2 out).trans (h.2 out)⟩

/-- Memory `t` to which data has been added since it was `s`: json values are as they were, objects and lists may have
settled, and only arrays that are written to have got other elements. -/
structure Store.Later (written : Nat → Prop) (s t : Store) : Prop where
  arrays : Extends (fun a => ArrayData.Rewritten written a) s.arrays t.arrays
  boxes : Extends (fun _ n n' => n = n') s.boxes t.boxes
  objects : Extends (fun _ => EntriesSettle) s.objects t.objects
  buffers : Extends (fun _ => PlacesSettle) s.buffers t.buffers
  platform : t.platform = s.platform

/-- An array or a json value lies in memory, and the json value holds more than null. -/
def Store.Solid (s : Store) : Value → Prop
  | .array a => a < s.arrays.size
  | .json a => ∃ n, s.boxes[a]? = some n ∧ n.isNull = false
  | _ => True

/-- The json data that a value gives: numbers, texts and truth values are given as they are, json values give the
data they hold, arrays and queues give lists, and everything else gives a text. -/
def Store.Native (s : Store) : Value → Node → Prop
  | .null, n => n = .null
  | .bool b, n => n = .bool b
  | .byte k, n => n = .int (Int64.ofNat k.toNat)
  | .int k, n => n = .int k.toInt64
  | .long k, n => n = .int k
  | .double x, n => n = .double x
  | .string t, n => n = .text t
  | .date d, n => n = .text (Layout.internet.format d)
  | .json a, n => n = s.box a
  | .array _, n | .queue _, n => ∃ b len, n = .list b len
  | .image _, n | .vectorImage _, n | .canvas _, n | .function _, n => ∃ t, n = .text t

/-- The value that json data is read as. -/
def Store.Reads (s : Store) : Node → Value → Prop
  | .null, v => v = .null
  | .bool b, v => v = .bool b
  | .int k, v => v = .ofInt64 k
  | .double x, v => v = .double x
  | .text t, v => v = .string t
  | n, v => ∃ a, v = .json a ∧ s.boxes[a]? = some n

/-- A json value that holds more than null lies in memory. -/
theorem Store.box_lies {s : Store} {a : Nat} {n : Node} (h : s.box a = n) (present : n.isNull = false) :
    s.boxes[a]? = some n := by
  unfold Store.box at h
  cases lies : s.boxes[a]? with
  | none =>
    rw [lies] at h
    cases h
    cases present
  | some m =>
    rw [lies] at h
    exact congrArg some h

theorem Store.solid_box {t : Store} {v : Value} {n : Node} (present : n.isNull = false)
    (h : ∃ a, v = .json a ∧ t.boxes[a]? = some n) : t.Solid v := by
  obtain ⟨a, rfl, lies⟩ := h
  exact ⟨n, lies, present⟩

theorem Store.solid_array {t : Store} {v : Value} {d : ArrayData} (h : ∃ a, v = .array a ∧ t.arrays[a]? = some d) :
    t.Solid v := by
  obtain ⟨a, rfl, lies⟩ := h
  exact (Array.getElem?_eq_some_iff.mp lies).1

/-- Settled data is null only if it was. -/
theorem Node.isNull_settle (n : Node) : n.settle.isNull = n.isNull := by
  cases n with
  | double x =>
    by_cases whole : Json.isExactWhole x = true
    · rw [Node.settle, if_pos whole]
      rfl
    · rw [Node.settle, if_neg whole]
  | _ => rfl

/-- A value is one that a variable of a kind holds: it is of the kind, or null and the kind has no other value for
null. -/
def Store.Holds (s : Store) (k : Kind) (v : Value) : Prop :=
  k = .invalid ∨ (s.kindOf v).Meets k ∨ v = .null ∧ Value.zero k = .null

/-- The elements of an array are of the kind that it declares. Arrays of anything, and of arrays, hold all values. -/
def Store.HoldsElements (s : Store) (d : ArrayData) : Prop :=
  d.element = .any ∨ d.element = .array ∨ ∀ v ∈ d.cells.toList, s.Holds d.element v

section Later

variable {written written' : Nat → Prop} {s t u : Store}

@[refl]
theorem Store.Later.refl (s : Store) : s.Later written s where
  arrays := .refl ArrayData.Rewritten.refl _
  boxes := .refl (fun _ _ => rfl) _
  objects := .refl (fun _ => EntriesSettle.refl) _
  buffers := .refl (fun _ => PlacesSettle.refl) _
  platform := rfl

theorem Store.Later.trans (h : s.Later written t) (k : t.Later written u) : s.Later written u where
  arrays := .trans ArrayData.Rewritten.trans h.arrays k.arrays
  boxes := .trans (fun _ _ _ _ => Eq.trans) h.boxes k.boxes
  objects := .trans (fun _ => EntriesSettle.trans) h.objects k.objects
  buffers := .trans (fun _ => PlacesSettle.trans) h.buffers k.buffers
  platform := k.platform.trans h.platform

/-- What writes to some arrays only may be said to write to more. -/
theorem Store.Later.weaken (h : s.Later written t) (more : ∀ a, written a → written' a) : s.Later written' t where
  arrays := fun a d hd => by
    obtain ⟨d', hd', alike, kept⟩ := h.arrays a d hd
    exact ⟨d', hd', alike, fun out => kept (mt (more a) out)⟩
  boxes := h.boxes
  objects := h.objects
  buffers := h.buffers
  platform := h.platform

/-- Arrays and json values that lay in memory still do, and the json values hold what they held. -/
structure Store.Keeps (s t : Store) : Prop where
  arrays : s.arrays.size ≤ t.arrays.size
  boxes : ∀ (a : Nat) (n : Node), s.boxes[a]? = some n → t.boxes[a]? = some n

theorem Store.Later.keeps (h : s.Later written t) : s.Keeps t where
  arrays := by
    by_contra less
    obtain ⟨_, lies, -⟩ := h.arrays t.arrays.size _ (Array.getElem?_eq_getElem (Nat.not_le.mp less))
    exact Nat.lt_irrefl _ (Array.getElem?_eq_some_iff.mp lies).1
  boxes := fun a n lies => by
    obtain ⟨n', lies', rfl⟩ := h.boxes a n lies
    exact lies'

theorem Store.Keeps.trans (h : s.Keeps t) (k : t.Keeps u) : s.Keeps u :=
  ⟨Nat.le_trans h.arrays k.arrays, fun a n lies => k.boxes a n (h.boxes a n lies)⟩

/-- What lies in memory still does. -/
theorem Store.Solid.kept {v : Value} (solid : s.Solid v) (h : s.Keeps t) : t.Solid v := by
  cases v with
  | array a => exact Nat.lt_of_lt_of_le solid h.arrays
  | json a =>
    obtain ⟨n, lies, present⟩ := solid
    exact ⟨n, h.boxes a n lies, present⟩
  | _ => trivial

/-- What lies in memory lies in later memory. -/
theorem Store.Solid.later {v : Value} (h : s.Solid v) (later : s.Later written t) : t.Solid v := h.kept later.keeps

end Later

/-- The length of an array is the number of its elements. -/
theorem Cells.length_toList (c : Cells) : c.toList.length = c.length := by
  cases c <;> simp [toList, length]

/-- Putting an element into its place keeps the number of elements. -/
theorem Cells.length_put {c c' : Cells} {i : Nat} {k : Kind} {v : Value} (h : c.put i k v = .ok c') :
    c'.length = c.length := by
  have mapped {r : Except Fault Int} {f : Int → Cells} {n : Nat} (hr : r.map f = .ok c')
      (hf : ∀ x, (f x).length = n) : c'.length = n := by
    cases r with
    | error e => cases hr
    | ok x =>
      cases hr
      exact hf x
  unfold Cells.put at h
  cases c with
  | boxed items =>
    cases h
    exact Array.size_setIfInBounds
  | bytes items | ints items => exact mapped h fun _ => Array.size_setIfInBounds
  | bits octets len =>
    cases v with
    | bool b =>
      cases h
      rfl
    | _ => exact mapped h fun _ => rfl

/-! ## Json texts of objects and lists -/

namespace Json

/-- An object or a list. -/
def IsContainer : Json → Prop
  | .object _ | .list _ => True
  | _ => False

section

variable {number : List UInt8 → Json} {fuel depth n : Nat} {bs rest : List UInt8} {j : Json}

/-- Two steps of reading succeed when both do. -/
theorem read_bind_ok {α β ε : Type} {x : Except ε α} {f : α → Except ε β} {b : β} (h : x >>= f = .ok b) :
    ∃ a, x = .ok a ∧ f a = .ok b := by
  cases x with
  | error e => cases h
  | ok a => exact ⟨a, rfl, h⟩

theorem isContainer_items {done : List Json} (h : readValue.items number fuel depth n done bs = .ok (j, rest)) :
    j.IsContainer := by
  induction n generalizing done bs with
  | zero =>
    rw [readValue.items] at h
    cases h
  | succ n ih =>
    rw [readValue.items] at h
    obtain ⟨⟨v, more⟩, -, h⟩ := read_bind_ok h
    dsimp only at h
    split at h
    · cases h
    · exact ih h
    · cases h
      trivial
    · cases h

theorem isContainer_members {done : List (Text × Json)}
    (h : readValue.members number fuel depth n done bs = .ok (j, rest)) : j.IsContainer := by
  induction n generalizing done bs with
  | zero =>
    rw [readValue.members] at h
    cases h
  | succ n ih =>
    rw [readValue.members] at h
    split at h
    · cases h
    · obtain ⟨⟨key, more⟩, -, h⟩ := read_bind_ok h
      dsimp only at h
      split at h
      · cases h
      · obtain ⟨⟨v, more⟩, -, h⟩ := read_bind_ok h
        dsimp only at h
        split at h
        · cases h
        · exact ih h
        · cases h
          trivial
        · cases h
      · cases h
    · cases h

/-- What begins like an object or a list is read as one. -/
theorem isContainer_readValue {b : UInt8} {more : List UInt8} (opens : b = 0x7B ∨ b = 0x5B)
    (h : readValue number fuel depth (b :: more) = .ok (j, rest)) : j.IsContainer := by
  cases fuel with
  | zero =>
    rw [readValue] at h
    cases h
  | succ fuel =>
    rw [readValue] at h
    obtain rfl | rfl := opens
    · rw [show skipBlanks (0x7B :: more) = 0x7B :: more from rfl] at h
      simp only [show Char.ofNat (0x7B : UInt8).toNat = '\x7b' from rfl] at h
      split at h
      · cases h
      · split at h
        · cases h
          trivial
        · exact isContainer_members h
    · rw [show skipBlanks (0x5B :: more) = 0x5B :: more from rfl] at h
      simp only [show Char.ofNat (0x5B : UInt8).toNat = '[' from rfl] at h
      split at h
      · cases h
      · split at h
        · cases h
          trivial
        · exact isContainer_items h

/-- A text that begins like an object or a list spells one. -/
theorem isContainer_parse {t : Text} (opens : (t.startsWith "\x7b" || t.startsWith "[") = true) (h : parse t = .ok j) :
    j.IsContainer := by
  have first : ∃ b more, t.bytes = b :: more ∧ (b = 0x7B ∨ b = 0x5B) := by
    obtain ⟨bytes⟩ := t
    rw [Bool.or_eq_true] at opens
    cases bytes with
    | nil => obtain opens | opens := opens <;> cases opens
    | cons b more =>
      refine ⟨b, more, rfl, opens.imp (fun h => ?_) fun h => ?_⟩
      · exact (eq_of_beq (Bool.and_eq_true_iff.mp (show (0x7B == b && _) = true from h)).1).symm
      · exact (eq_of_beq (Bool.and_eq_true_iff.mp (show (0x5B == b && _) = true from h)).1).symm
  obtain ⟨b, more, bytes, opens⟩ := first
  unfold parse readFirst at h
  rw [bytes] at h
  split at h
  · cases h
  · rename_i j' rest read
    split at read
    · cases read
    · have container := isContainer_readValue opens read
      split at h
      · cases h
      · cases h
        exact container

end

end Json

namespace StoreM

/-! ## Computations that add to memory -/

section Makes

variable {α β : Type} {written : Nat → Prop} {s : Store} {good : α → Store → Prop} {good' : β → Store → Prop}

/-- From memory `s` a computation leads to later memory, and what it gives is good there. -/
def Makes (written : Nat → Prop) (good : α → Store → Prop) (x : StoreM α) (s : Store) : Prop :=
  s.Later written (x.run.run s).2 ∧ ∀ a, (x.run.run s).1 = .ok a → good a (x.run.run s).2

theorem Makes.mono {good' : α → Store → Prop} {x : StoreM α} (h : Makes written good x s)
    (weaker : ∀ a t, s.Later written t → good a t → good' a t) : Makes written good' x s := ⟨h.1, fun a ha => weaker a _ h.1 (h.2 a ha)⟩

/-- What a computation that succeeds gives is good, in later memory. -/
theorem Makes.of_run {x : StoreM α} {a : α} {t : Store} (h : Makes written good x s) (run : x.run.run s = (.ok a, t)) :
    s.Later written t ∧ good a t := by
  unfold Makes at h
  rw [run] at h
  exact ⟨h.1, h.2 a rfl⟩

/-- A computation that writes to no array that is there only adds to memory. -/
theorem Makes.adds {x : StoreM α} {a : α} {t : Store} (h : Makes (fun _ => False) good x s) (run : x.run.run s = (.ok a, t)) :
    s.Later (fun _ => False) t ∧ good a t := h.of_run run

theorem run_get_bind (f : Store → StoreM β) : (get >>= f).run.run s = (f s).run.run s := rfl

/-- A run gives a result or ends in a fault, as computing it shows. -/
theorem run_of_isOk {x : StoreM α} (given : (x.run.run s).1.isOk = true) : ∃ a, x.run.run s = (.ok a, (x.run.run s).2) := by
  generalize x.run.run s = r at *
  obtain ⟨_ | a, t⟩ := r
  · cases given
  · exact ⟨a, rfl⟩

theorem run_of_not_isOk {x : StoreM α} (failed : (x.run.run s).1.isOk = false) :
    ∃ f, x.run.run s = (.error f, (x.run.run s).2) := by
  generalize x.run.run s = r at *
  obtain ⟨f | _, t⟩ := r
  · exact ⟨f, rfl⟩
  · cases failed

/-- What gives a result is gone on with. -/
theorem bind_of_ok {x : StoreM α} {f : α → StoreM β} {a : α} {t : Store} (run : x.run.run s = (.ok a, t)) :
    (x >>= f).run.run s = (f a).run.run t := by
  rw [ExceptT.run_bind, StateT.run_bind, run]
  rfl

/-- What ends in a fault is not gone on with. -/
theorem bind_of_error {x : StoreM α} {f : α → StoreM β} {e : Fault} {t : Store} (run : x.run.run s = (.error e, t)) :
    (x >>= f).run.run s = (.error e, t) := by
  rw [ExceptT.run_bind, StateT.run_bind, run]
  rfl

theorem makes_get_bind {f : Store → StoreM β} (h : Makes written good' (f s) s) : Makes written good' (get >>= f) s := h

theorem makes_kindOf_bind {v : Value} {f : Kind → StoreM β} (h : Makes written good' (f (s.kindOf v)) s) :
    Makes written good' (kindOf v >>= f) s := h

theorem makes_inspect_bind {v : Value} {f : Text → StoreM β} (h : Makes written good' (f (s.inspect v)) s) :
    Makes written good' (inspect v >>= f) s := h

/-- One computation after another, the second in the memory that the first leads to. -/
theorem makes_bind {x : StoreM α} {f : α → StoreM β} (hx : Makes written good x s)
    (hf : ∀ a t, s.Later written t → good a t → Makes written good' (f a) t) : Makes written good' (x >>= f) s := by
  unfold Makes at hx ⊢
  rw [ExceptT.run_bind, StateT.run_bind]
  obtain ⟨r, t, hr⟩ : ∃ r t, StateT.run (ExceptT.run x) s = (r, t) := ⟨_, _, rfl⟩
  rw [hr] at hx ⊢
  cases r with
  | error e => exact ⟨hx.1, nofun⟩
  | ok a =>
    obtain ⟨later, given⟩ := hf a t hx.1 (hx.2 a rfl)
    exact ⟨hx.1.trans later, given⟩

/-- A computation with a handler, which runs in the memory that the fault leaves. -/
theorem makes_tryCatch {x : StoreM α} {f : Fault → StoreM α} (hx : Makes written good x s)
    (hf : ∀ e t, s.Later written t → Makes written good (f e) t) : Makes written good (tryCatch x f) s := by
  unfold Makes at hx ⊢
  rw [ExceptT.run_tryCatch, StateT.run_bind]
  obtain ⟨r, t, hr⟩ : ∃ r t, StateT.run (ExceptT.run x) s = (r, t) := ⟨_, _, rfl⟩
  rw [hr] at hx ⊢
  cases r with
  | ok a => exact hx
  | error e =>
    obtain ⟨later, given⟩ := hf e t hx.1
    exact ⟨hx.1.trans later, given⟩

theorem makes_pure {a : α} (h : good a s) : Makes written good (pure a) s := by
  refine ⟨.refl s, fun b hb => ?_⟩
  cases hb
  exact h

theorem makes_throw (f : Fault) : Makes written good (throw f) s := ⟨.refl s, nofun⟩

/-- What writes to some arrays only may be said to write to more. -/
theorem Makes.weaken {written' : Nat → Prop} {x : StoreM α} (h : Makes written good x s)
    (more : ∀ a, written a → written' a) : Makes written' good x s := ⟨h.1.weaken more, h.2⟩

/-! ## Json data -/

theorem makes_newBox (n : Node) : Makes written (fun v t => ∃ a, v = .json a ∧ t.boxes[a]? = some n) (newBox n) s := by
  refine ⟨{ Store.Later.refl s with boxes := .push (fun _ _ => rfl) _ _ }, ?_⟩
  intro v hv
  cases hv
  exact ⟨_, rfl, Array.getElem?_push_size⟩

theorem makes_newObject (es : List (Text × Node)) :
    Makes written (fun n t => ∃ a, n = .object a ∧ t.objects[a]? = some es) (newObject es) s := by
  refine ⟨{ Store.Later.refl s with objects := .push (fun _ => EntriesSettle.refl) _ _ }, ?_⟩
  intro n hn
  cases hn
  exact ⟨_, rfl, Array.getElem?_push_size⟩

theorem makes_newList (items : List Node) :
    Makes written (fun n t => ∃ b, n = .list b items.length ∧ t.buffers[b]? = some items.toArray) (newList items) s := by
  refine ⟨{ Store.Later.refl s with buffers := .push (fun _ => PlacesSettle.refl) _ _ }, ?_⟩
  intro n hn
  cases hn
  exact ⟨_, rfl, Array.getElem?_push_size⟩

theorem makes_newGrownList (items : List Node) : Makes written (fun n _ => n.isNull = false) (newGrownList items) s := by
  refine ⟨{ Store.Later.refl s with buffers := .push (fun _ => PlacesSettle.refl) _ _ }, fun n hn => ?_⟩
  cases hn
  rfl

/-- A new array lies behind those of before. -/
theorem makes_newArray (d : ArrayData) :
    Makes written (fun v t => ∃ a, v = .array a ∧ t.arrays[a]? = some d) (newArray d) s := by
  refine ⟨{ (Store.Later.refl s : s.Later written s) with arrays := .push ArrayData.Rewritten.refl _ _ }, ?_⟩
  intro v hv
  cases hv
  exact ⟨_, rfl, Array.getElem?_push_size⟩

/-- Entries are replaced by what they settle to. -/
theorem makes_setObject {a : Nat} {es : List (Text × Node)}
    (settled : ∀ old, s.objects[a]? = some old → EntriesSettle old es) :
    Makes written (fun _ _ => True) (setObject a es) s :=
  ⟨{ Store.Later.refl s with objects := .setIfInBounds (fun _ => EntriesSettle.refl) settled },
    fun _ _ => trivial⟩

/-- Places are replaced by what they settle to. -/
theorem makes_modifyBuffer {b : Nat} {f : Array Node → Array Node}
    (settled : ∀ old, s.buffers[b]? = some old → PlacesSettle old (f old)) :
    Makes written (fun _ _ => True) (modify fun s => { s with buffers := s.buffers.modify b f } : StoreM PUnit) s :=
  ⟨{ Store.Later.refl s with buffers := .modify (fun _ => PlacesSettle.refl) settled },
    fun _ _ => trivial⟩

/-- A packed array is new. -/
theorem makes_repack (target : Kind) (d : ArrayData) : Makes written (fun v t => t.Solid v) (repack target d) s := by
  refine makes_get_bind ?_
  dsimp only
  split
  · exact (makes_newArray _).mono fun _ _ _ => Store.solid_array
  · exact makes_throw _

/-- A computation whose fault is replaced by another. -/
theorem makes_rethrow {x : StoreM α} {g : Fault → Fault} (h : Makes written good x s) :
    Makes written good (tryCatch x fun f => throw (g f)) s := makes_tryCatch h fun _ _ _ => makes_throw _

/-- One computation for every item of a list, when what is good of one stays good in later memory. -/
theorem makes_mapM {f : α → StoreM β} (rel : α → β → Store → Prop)
    (stays : ∀ a b t u, t.Later written u → rel a b t → rel a b u) (l : List α)
    (hf : ∀ a ∈ l, ∀ t, s.Later written t → Makes written (rel a) (f a) t) :
    Makes written (fun bs t => List.Forall₂ (fun a b => rel a b t) l bs) (l.mapM f) s := by
  induction l generalizing s with
  | nil => exact makes_pure .nil
  | cons a l ih =>
    rw [List.mapM_cons]
    refine makes_bind (hf a (List.mem_cons_self ..) s (.refl s)) fun b t later first => ?_
    refine makes_bind (ih fun a ha u next => hf a (List.mem_cons_of_mem _ ha) u (later.trans next)) fun bs u next rest => ?_
    exact makes_pure (.cons (stays _ _ _ _ next first) rest)

mutual

/-- A json tree is put into memory beside what is there. -/
theorem makes_ofTree : (j : Json) → (s : Store) → Makes written (fun n _ => j.IsContainer → n.isNull = false) (ofTree j) s
  | .null, _ | .bool _, _ | .int _, _ | .double _, _ | .text _, _ => makes_pure nofun
  | .list items, s =>
    makes_bind (makes_ofTrees items s) fun ns _ _ _ => (makes_newGrownList ns).mono fun _ _ _ present _ => present
  | .object es, s => by
    refine makes_bind (makes_ofEntries es s) fun ns _ _ _ => (makes_newObject ns).mono fun n _ _ ⟨a, hn, _⟩ _ => ?_
    rw [hn]
    rfl

theorem makes_ofTrees : (js : List Json) → (s : Store) → Makes written (fun _ _ => True) (ofTrees js) s
  | [], _ => makes_pure trivial
  | j :: js, s =>
    makes_bind (makes_ofTree j s) fun _ t _ _ => makes_bind (makes_ofTrees js t) fun _ _ _ _ => makes_pure trivial

theorem makes_ofEntries : (es : List (Text × Json)) → (s : Store) → Makes written (fun _ _ => True) (ofEntries es) s
  | [], _ => makes_pure trivial
  | (_, j) :: es, s =>
    makes_bind (makes_ofTree j s) fun _ t _ _ => makes_bind (makes_ofEntries es t) fun _ _ _ _ => makes_pure trivial

end

/-- Normalization gives settled data. -/
theorem makes_normalizeTo (depth : Nat) (n : Node) : Makes written (fun m _ => m = n.settle) (normalizeTo depth n) s := by
  induction depth generalizing n s with
  | zero => cases n <;> exact makes_pure rfl
  | succ depth ih =>
    cases n with
    | object a =>
      refine makes_get_bind ?_
      cases found : s.objects[a]? with
      | none =>
        rw [Store.object, found, Option.getD_none, List.mapM_nil, pure_bind]
        refine makes_bind (makes_setObject fun old hold => ?_) fun _ _ _ _ => makes_pure rfl
        rw [found] at hold
        cases hold
      | some es₀ =>
        rw [Store.object, found, Option.getD_some]
        refine makes_bind (makes_mapM (fun e e' _ => e' = (e.1, e.2.settle)) ?_ _ ?_) ?_
        · exact fun _ _ _ _ _ h => h
        · exact fun e _ t _ => makes_bind (ih e.2) fun m u _ hm => makes_pure (by rw [hm])
        intro es t later all
        refine makes_bind (makes_setObject fun old hold => ?_) fun _ _ _ _ => makes_pure rfl
        obtain ⟨old', hold', settled⟩ := later.objects a es₀ found
        cases hold.symm.trans hold'
        refine forall₂_comp (fun e e₀ e' h h' => ?_) settled.flip all
        rw [h']
        exact ⟨h.1.symm, .inr h.2.settle.symm⟩
    | list b len =>
      refine makes_get_bind ?_
      cases found : s.buffers[b]? with
      | none =>
        rw [Store.items, Store.buffer, found, Option.getD_none, Array.toList_empty, List.take_nil, List.mapM_nil, pure_bind]
        refine makes_bind (makes_modifyBuffer fun old hold => ?_) fun _ _ _ _ => makes_pure rfl
        rw [found] at hold
        cases hold
      | some b₀ =>
        rw [Store.items, Store.buffer, found, Option.getD_some]
        refine makes_bind (makes_mapM (fun n n' _ => n' = n.settle) ?_ _ ?_) ?_
        · exact fun _ _ _ _ _ h => h
        · exact fun n _ t _ => ih n
        intro items t later all
        refine makes_bind (makes_modifyBuffer fun old hold => ?_) fun _ _ _ _ => makes_pure rfl
        obtain ⟨old', hold', settled⟩ := later.buffers b b₀ found
        cases hold.symm.trans hold'
        exact placesSettle_replaced settled all
    | _ => exact makes_pure rfl

theorem makes_normalize (n : Node) : Makes written (fun m _ => m = n.settle) (normalize n) s :=
  makes_get_bind (makes_normalizeTo _ n)

theorem makes_toNodeTo (depth : Nat) (v : Value) :
    Makes written (fun n _ => 0 < depth → s.Native v n) (toNodeTo depth v) s := by
  induction depth generalizing v s with
  | zero =>
    cases v with
    | json a => exact makes_get_bind (makes_pure fun _ => rfl)
    | array _ | queue _ => exact makes_inspect_bind (makes_pure nofun)
    | image _ | vectorImage _ | canvas _ | function _ => exact makes_inspect_bind (makes_pure fun _ => ⟨_, rfl⟩)
    | _ => exact makes_pure fun _ => rfl
  | succ depth ih =>
    have list (items : List Value) :
        Makes written (fun n _ => ∃ b len, n = .list b len) (do newList (← items.mapM (toNodeTo depth))) s := by
      refine makes_bind (makes_mapM (fun _ _ _ => True) ?_ _ ?_) fun ns t _ _ => ?_
      · exact fun _ _ _ _ _ h => h
      · exact fun v _ t _ => (ih v).mono fun _ _ _ _ => trivial
      · exact (makes_newList ns).mono fun _ _ _ ⟨b, hn, _⟩ => ⟨b, _, hn⟩
    cases v with
    | json a => exact makes_get_bind (makes_pure fun _ => rfl)
    | array a | queue a => exact makes_get_bind ((list _).mono fun _ _ _ h _ => h)
    | image _ | vectorImage _ | canvas _ | function _ => exact makes_inspect_bind (makes_pure fun _ => ⟨_, rfl⟩)
    | _ => exact makes_pure fun _ => rfl

theorem makes_toNode (v : Value) : Makes written (fun n _ => s.Native v n) (toNode v) s :=
  makes_get_bind ((makes_toNodeTo _ v).mono fun _ _ _ h => h (Nat.succ_pos _))

theorem makes_ofNode (n : Node) : Makes written (fun v t => t.Reads n.settle v) (ofNode n) s := by
  refine makes_bind (makes_normalize n) fun m t _ hm => ?_
  subst hm
  cases n.settle with
  | object a | list b len => exact makes_newBox _
  | _ => exact makes_pure rfl

theorem makes_cloneTo (depth : Nat) (n : Node) : Makes written (fun _ _ => True) (cloneTo depth n) s := by
  induction depth generalizing n s with
  | zero => cases n <;> exact makes_pure trivial
  | succ depth ih =>
    cases n with
    | object a =>
      refine makes_get_bind (makes_bind (makes_mapM (fun _ _ _ => True) ?_ _ ?_) fun es t _ _ => ?_)
      · exact fun _ _ _ _ _ h => h
      · exact fun e _ t _ => makes_bind (ih e.2) fun _ _ _ _ => makes_pure trivial
      · exact (makes_newObject es).mono fun _ _ _ _ => trivial
    | list b len =>
      refine makes_get_bind (makes_bind (makes_mapM (fun _ _ _ => True) ?_ _ ?_) fun ns t _ _ => ?_)
      · exact fun _ _ _ _ _ h => h
      · exact fun n _ _ _ => ih n
      · exact (makes_newList ns).mono fun _ _ _ _ => trivial
    | _ => exact makes_pure trivial

/-! ## Conversion -/

theorem makes_parseJson {text : Text} (opens : (text.startsWith "\x7b" || text.startsWith "[") = true) :
    Makes written (fun v t => t.Solid v) (parseJson text) s := by
  unfold parseJson
  split
  · rename_i j read
    refine makes_bind (makes_ofTree j s) fun n _ _ present => (makes_newBox n).mono fun _ _ _ => Store.solid_box ?_
    exact present (Json.isContainer_parse opens read)
  · exact makes_throw _

theorem makes_jsonOfText (text : Text) : Makes written (fun v t => t.Solid v) (jsonOfText text) s := by
  unfold jsonOfText
  dsimp only
  split
  · rename_i opens
    exact makes_parseJson opens
  · exact (makes_newBox _).mono fun _ _ _ => Store.solid_box rfl

/-- A conversion to a kind adds to memory. It gives the value itself, or one that is new or lies in no memory. -/
theorem makes_coerce (v : Value) (target : Kind) :
    Makes written (fun w t => w = v ∨ t.Solid w) (coerce v target) s := by
  have boxed {w : Value} (data : ∀ n, s.Native w n → n.isNull = false) :
      Makes written (fun w t => w = v ∨ t.Solid w) (do newBox (← normalize (← toNode w))) s := by
    refine makes_bind (makes_toNode w) fun n _ _ native => makes_bind (makes_normalize n) fun m _ _ settled => ?_
    refine (makes_newBox m).mono fun _ _ _ h => .inr (Store.solid_box ?_ h)
    rw [settled, Node.isNull_settle]
    exact data n native
  refine makes_kindOf_bind ?_
  split
  · exact makes_pure (.inl rfl)
  split
  · exact makes_pure (.inr (by cases target <;> trivial))
  split
  iterate 6 exact makes_pure (.inr trivial)
  · exact makes_throw _
  · exact makes_inspect_bind (makes_pure (.inr trivial))
  · refine makes_get_bind ?_
    split
    · exact makes_pure (.inr trivial)
    · exact makes_throw _
  · exact (makes_jsonOfText _).mono fun _ _ _ => .inr
  · refine boxed fun n ⟨b, len, hn⟩ => ?_
    rw [hn]
    rfl
  iterate 5
    · refine boxed fun n hn => ?_
      rw [show n = _ from hn]
      rfl
  · exact makes_pure (.inl rfl)
  · refine makes_get_bind ?_
    split
    · refine makes_get_bind (makes_bind (makes_mapM (fun _ _ _ => True) ?_ _ ?_) fun vs _ _ _ => ?_)
      · exact fun _ _ _ _ _ h => h
      · exact fun n _ t _ => (makes_ofNode n).mono fun _ _ _ _ => trivial
      · exact (makes_newArray _).mono fun _ _ _ h => .inr (Store.solid_array h)
    · exact makes_throw _
  iterate 2 exact makes_get_bind ((makes_repack _ _).mono fun _ _ _ => .inr)
  · exact makes_throw _

/-- A value that a kind holds is converted to the kind as it is. -/
theorem coerce_of_holds {k : Kind} {v : Value} (h : s.Holds k v) : (coerce v k).run.run s = (.ok v, s) := by
  unfold coerce
  rw [run_kindOf]
  split
  · rfl
  · rename_i other
    simp only [Bool.or_eq_true, decide_eq_true_eq, not_or] at other
    obtain rfl | (rfl | same | ⟨rfl, array⟩) | ⟨rfl, zero⟩ := h
    · exact absurd rfl other.2
    · exact absurd rfl other.1.2
    · exact absurd same other.1.1
    · cases v with
      | array a =>
        rw [if_neg (Store.kindOf_ne_null rfl)]
        rfl
      | _ => cases array
    · rw [if_pos (show s.kindOf .null = .null from rfl), zero]
      rfl

/-- A conversion that succeeds gives a value that the kind holds. -/
theorem holds_coerce {k : Kind} {v w : Value} {t : Store} (run : (coerce v k).run.run s = (.ok w, t)) : t.Holds k w := by
  by_cases valid : k = .invalid
  · exact .inl valid
  cases present : v.isNull with
  | false =>
    have converted := (gives_coerce (s := s) valid present).2 w (by rw [run])
    rw [run] at converted
    exact .inr (.inl converted.meets)
  | true =>
    cases v with
    | null =>
      have zero : (coerce .null k).run.run s = (.ok (Value.zero k), s) := by cases k <;> rfl
      rw [zero] at run
      cases run
      cases k <;> first | exact .inr (.inr ⟨rfl, rfl⟩) | exact .inr (.inl (.inr (.inl rfl)))
    | _ => cases present

/-! ## Arrays -/

/-- The value as an array with boxed elements holds it: the value itself, or what it is converted to. -/
theorem makes_forElement (v : Value) (element : Kind) (cells : Cells) :
    Makes written (fun w _ => ∀ items, cells = .boxed items → (element = .any ∨ element = .array) ∧ w = v ∨
      element ≠ .any ∧ element ≠ .array ∧ ((coerce v element).run.run s).1 = .ok w) (forElement element cells v) s := by
  unfold forElement
  split
  · split
    · rename_i any
      simp only [Bool.or_eq_true, decide_eq_true_eq] at any
      exact makes_pure fun _ _ => .inl ⟨any, rfl⟩
    · rename_i other
      simp only [Bool.or_eq_true, decide_eq_true_eq, not_or] at other
      exact ⟨(makes_coerce v element).1, fun w hw _ _ => .inr ⟨other.1, other.2, hw⟩⟩
  · rename_i packed
    exact makes_pure fun items boxed => absurd boxed (packed items)

end Makes

section Arrays

variable {s : Store} {a i : Nat} {v : Value}

/-- What has no reason against it can be put into its place. -/
theorem put_of_putFault? {c : Cells} {k : Kind} (h : putFault? c k v = none) : ∃ c', c.put i k v = .ok c' := by
  have mapped {r : Except Fault Int} {f : Int → Cells} {n : Int} (hr : r = .ok n) : ∃ c', r.map f = .ok c' :=
    ⟨f n, by rw [hr]; rfl⟩
  cases c with
  | boxed items => exact ⟨_, rfl⟩
  | bytes items | ints items =>
    simp only [putFault?] at h
    split at h
    · exact mapped ‹_›
    · cases h
  | bits octets len =>
    cases v with
    | bool _ | null => exact ⟨_, rfl⟩
    | _ =>
      simp only [putFault?] at h
      split at h
      · exact mapped (f := fun n : Int => .bits (Bits.set octets i (n = 1)) len) ‹_›
      · cases h

/-- An element is replaced in an array that otherwise stays as it is. -/
theorem makes_arrayPut (a i : Nat) (v : Value) :
    Makes (· = a) (fun _ t => ∀ d items, s.arrays[a]? = some d → d.cells = .boxed items →
      t.arrays[a]? = some { d with cells := .boxed (items.setIfInBounds i v) }) (arrayPut a i v) s := by
  refine makes_kindOf_bind (makes_get_bind ?_)
  split
  · exact makes_throw _
  rename_i fits
  refine ⟨{ (Store.Later.refl s : s.Later (· = a) s) with
    arrays := .modify ArrayData.Rewritten.refl fun d hd => ⟨?_, fun other => absurd rfl other⟩ }, fun _ _ d items hd hc => ?_⟩
  · rw [Store.array, hd, Option.getD_some] at fits
    obtain ⟨c', put⟩ := put_of_putFault? (i := i) fits
    beta_reduce
    rw [put]
    exact ⟨rfl, rfl, Cells.kind_put put, Cells.length_put put⟩
  · change (s.arrays.modify a _)[a]? = _
    rw [Array.getElem?_modify, if_pos rfl, hd]
    simp only [Option.map_some, hc, Cells.put]

/-- An element is written at a place inside an array. -/
theorem makes_arraySet (inside : i < (s.array a).length) (v : Value) :
    Makes (· = a) (fun _ t => ∀ d items, s.arrays[a]? = some d → d.cells = .boxed items →
      ∃ w, ((d.element = .any ∨ d.element = .array) ∧ w = v ∨
          d.element ≠ .any ∧ d.element ≠ .array ∧ ((coerce v d.element).run.run s).1 = .ok w) ∧
        t.arrays[a]? = some { d with cells := .boxed (items.setIfInBounds i w) }) (arraySet a i v) s := by
  have notEnd : ¬((decide ((i : Int) = (s.array a).length) && !(s.array a).fixed) = true) := by
    rw [decide_eq_false (by omega)]
    exact nofun
  have notOut : ¬((decide ((i : Int) < 0) || decide (((s.array a).length : Int) ≤ i)) = true) := by
    rw [decide_eq_false (by omega), decide_eq_false (by omega)]
    exact nofun
  refine makes_get_bind ?_
  dsimp only
  rw [if_neg notEnd]
  refine makes_get_bind ?_
  rw [if_neg notOut]
  -- the conversion makes new data only, so that the array is still the same when the element is put into it
  have converted : Makes (fun _ => False) _ _ s :=
    (makes_forElement v (s.array a).element (s.array a).cells).mono fun w t later h =>
      (⟨later, h⟩ : s.Later (fun _ => False) t ∧ _)
  refine makes_bind (converted.weaken nofun) fun w t _ ⟨later, hw⟩ =>
    (makes_arrayPut a _ w).mono fun _ u _ put d items hd hc => ?_
  obtain ⟨d', hd', -, kept⟩ := later.arrays a d hd
  rw [kept id] at hd'
  refine ⟨w, ?_, put d items hd' hc⟩
  rw [Store.array, hd, Option.getD_some] at hw
  exact hw items hc

end Arrays

end StoreM

end ScriptEngine
