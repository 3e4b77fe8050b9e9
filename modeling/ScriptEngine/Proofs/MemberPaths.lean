import ScriptEngine.Proofs.FoundedData
import ScriptEngine.Proofs.Sharing
/-!
# Members and the paths to them

A path of names leads from one json object to the next. Writing data at a path sets one key of one object: of the last one
on the way that is there. Objects that are missing behind it are made. So a path reads what it did before, unless it passes
that object and goes on from there by the same name.
-/

namespace ScriptEngine

/-! ## Keys of objects -/

theorem Text.compare_self (a : Text) : compare a a = .eq := by
  have same (bs : List UInt8) : Text.compareBytes bs bs = .eq := by
    induction bs with
    | nil => rfl
    | cons b bs ih => rw [Text.compareBytes, if_neg (UInt8.lt_irrefl b), if_neg (UInt8.lt_irrefl b), ih]
  exact same a.bytes

section Keys

variable {α : Type} {name name' key k : Text} {x : α} {es : List (Text × α)}

/-- No two keys agree but for the case of letters. -/
def KeysApart (es : List (Text × α)) : Prop := es.Pairwise fun e f => e.1.equalFold f.1 = false

theorem findKey_fold (h : findKey name es = some key) : key.equalFold name = true := by
  unfold findKey at h
  split at h
  · cases h
    exact Text.equalFold_refl name
  · obtain ⟨e, found, rfl⟩ := Option.map_eq_some_iff.mp h
    have named := List.find?_some found
    exact named

theorem findKey_mem (h : findKey name es = some key) : ∃ e ∈ es, e.1 = key := by
  unfold findKey at h
  split at h
  · rename_i same
    cases h
    obtain ⟨e, he, same⟩ := List.any_eq_true.mp same
    exact ⟨e, he, of_decide_eq_true same⟩
  · obtain ⟨e, found, rfl⟩ := Option.map_eq_some_iff.mp h
    exact ⟨e, List.mem_of_find?_eq_some found, rfl⟩

theorem findKey_eq_none : findKey name es = none ↔ ∀ e ∈ es, e.1.equalFold name = false := by
  rw [← Option.not_isSome_iff_eq_none, findKey_isSome]
  simp only [not_exists, not_and, Bool.not_eq_true]

/-- A key is found by each of its names when no other key is found by them. -/
theorem findKey_eq_some (there : ∃ e ∈ es, e.1 = key) (named : key.equalFold name = true)
    (alone : ∀ e ∈ es, e.1.equalFold name = true → e.1 = key) : findKey name es = some key := by
  obtain ⟨e, he, rfl⟩ := there
  obtain ⟨k, found⟩ := Option.isSome_iff_exists.mp (findKey_isSome.mpr ⟨e, he, named⟩)
  obtain ⟨e', he', rfl⟩ := findKey_mem found
  rw [found, alone e' he' (findKey_fold found)]

/-- Of keys that agree with none of each other one is found by a name. -/
theorem KeysApart.alone (apart : KeysApart es) {e : Text × α} (he : e ∈ es) (named : e.1.equalFold name = true) :
    ∀ e' ∈ es, e'.1.equalFold name = true → e'.1 = e.1 := by
  intro e' he' named'
  have agree : e.1.equalFold e'.1 = true := by rw [Text.equalFold_congr named, Text.equalFold_comm, named']
  have agree' : e'.1.equalFold e.1 = true := by rw [Text.equalFold_comm, agree]
  obtain ⟨i, hi, rfl⟩ := List.getElem_of_mem he
  obtain ⟨j, hj, rfl⟩ := List.getElem_of_mem he'
  obtain before | rfl | after := Nat.lt_trichotomy i j
  · rw [List.pairwise_iff_getElem.mp apart i j hi hj before] at agree
    cases agree
  · rfl
  · rw [List.pairwise_iff_getElem.mp apart j i hj hi after] at agree'
    cases agree'

/-- The data of an entry lies under its key, which finds it. -/
theorem KeysApart.lookup (apart : KeysApart es) {e : Text × α} (he : e ∈ es) :
    findKey e.1 es = some e.1 ∧ Json.lookup e.1 es = some e.2 := by
  refine ⟨findKey_eq_some ⟨e, he, rfl⟩ (Text.equalFold_refl _) fun e' he' named => apart.alone he (Text.equalFold_refl _) e' he' named, ?_⟩
  induction es with
  | nil => cases he
  | cons head rest ih =>
    obtain ⟨first, later⟩ := List.pairwise_cons.mp apart
    obtain rfl | he := List.mem_cons.mp he
    · rw [Json.lookup, if_pos rfl]
    · rw [Json.lookup, if_neg, ih later he]
      intro same
      have other := first e he
      rw [same, Text.equalFold_refl] at other
      cases other

/-- Names that agree find the same key. -/
theorem KeysApart.findKey_congr (apart : KeysApart es) (agree : name.equalFold name' = true) : findKey name es = findKey name' es := by
  have agrees (k : Text) : k.equalFold name = k.equalFold name' := by
    rw [Text.equalFold_comm, Text.equalFold_congr agree, Text.equalFold_comm]
  cases found : findKey name' es with
  | none =>
    rw [findKey_eq_none] at found ⊢
    exact fun e he => (agrees e.1).trans (found e he)
  | some key =>
    obtain ⟨e, he, rfl⟩ := findKey_mem found
    have named := (agrees e.1).trans (findKey_fold found)
    exact findKey_eq_some ⟨e, he, rfl⟩ named (apart.alone he named)

theorem Json.lookup_isSome : (Json.lookup key es).isSome = true ↔ ∃ e ∈ es, e.1 = key := by
  induction es with
  | nil => simp [Json.lookup]
  | cons e rest ih =>
    rw [Json.lookup]
    split
    · rename_i same
      exact iff_of_true rfl ⟨e, List.mem_cons_self .., same⟩
    · rename_i other
      rw [ih, List.exists_mem_cons_iff, or_iff_right other]

/-- A key that is found has data. -/
theorem lookup_of_findKey (h : findKey name es = some key) : ∃ x, Json.lookup key es = some x :=
  Option.isSome_iff_exists.mp (Json.lookup_isSome.mpr (findKey_mem h))

theorem Json.lookup_insert_self : Json.lookup key (Json.insert key x es) = some x := by
  induction es with
  | nil => simp [Json.insert, Json.lookup]
  | cons e rest ih =>
    unfold Json.insert
    split
    · rw [Json.lookup, if_pos rfl]
    · rw [Json.lookup, if_pos rfl]
    · rename_i after
      have ne : e.1 ≠ key := by
        rintro rfl
        rw [Text.compare_self] at after
        cases after
      rw [Json.lookup, if_neg ne, ih]

theorem Json.lookup_insert_ne (ne : k ≠ key) : Json.lookup k (Json.insert key x es) = Json.lookup k es := by
  induction es with
  | nil =>
    simp [Json.insert, Json.lookup, Ne.symm ne]
  | cons e rest ih =>
    unfold Json.insert
    split
    · rw [Json.lookup, if_neg (Ne.symm ne)]
    · rename_i same
      rw [Json.lookup, Json.lookup, if_neg (Ne.symm ne), if_neg]
      rw [← Text.eq_of_compare same]
      exact Ne.symm ne
    · rw [Json.lookup, Json.lookup, ih]

/-- A key that is set is found by each name of it, when no other key is. -/
theorem findKey_insert (named : key.equalFold name = true) (alone : ∀ e ∈ es, e.1.equalFold key = true → e.1 = key) :
    findKey name (Json.insert key x es) = some key := by
  refine findKey_eq_some ⟨_, Json.self_mem_insert, rfl⟩ named fun e he agrees => ?_
  obtain rfl | he := Json.mem_insert he
  · rfl
  · refine alone e he ?_
    rw [Text.equalFold_congr agrees, Text.equalFold_comm, named]

/-- Setting a key leaves what is found by other names. -/
theorem findKey_insert_ne (other : key.equalFold name = false) : findKey name (Json.insert key x es) = findKey name es := by
  have ne {e : Text × α} (named : e.1.equalFold name = true) : e.1 ≠ key := by
    rintro rfl
    rw [other] at named
    cases named
  have found (p : Text × α → Bool) (hp : ∀ e, p e = true → e.1 ≠ key) : (Json.insert key x es).find? p = es.find? p := by
    have skip (y : α) : p (key, y) = false := Bool.eq_false_iff.mpr fun h => hp _ h rfl
    induction es with
    | nil => rw [Json.insert, List.find?_cons_of_neg (by simp [skip])]
    | cons e rest ih =>
      unfold Json.insert
      split
      · rw [List.find?_cons_of_neg (by simp [skip])]
      · rename_i same
        rw [List.find?_cons_of_neg (by simp [skip]), List.find?_cons_of_neg]
        obtain ⟨k', v'⟩ := e
        cases Text.eq_of_compare same
        simp [skip]
      · rw [List.find?_cons, List.find?_cons, ih]
  have some? (p : Text × α → Bool) (l : List (Text × α)) : l.any p = (l.find? p).isSome := by
    induction l with
    | nil => rfl
    | cons e rest ih =>
      rw [List.any_cons, List.find?_cons]
      cases hp : p e with
      | true => rfl
      | false => rw [Bool.false_or, ih]
  unfold findKey
  rw [some?, some?, found (fun e => decide (e.1 = name)), found (fun e => e.1.equalFold name) fun e h => ne h]
  exact fun e h => ne (of_decide_eq_true h ▸ Text.equalFold_refl _)

/-- The key that a name is written under: the one that it finds, or itself. -/
def keyFor (name : Text) (es : List (Text × α)) : Text := (findKey name es).getD name

theorem keyFor_fold : (keyFor name es).equalFold name = true := by
  unfold keyFor
  cases found : findKey name es with
  | none => exact Text.equalFold_refl name
  | some key => exact findKey_fold found

/-- No other key of an object agrees with the one that a name is written under. -/
theorem KeysApart.keyFor_alone (apart : KeysApart es) : ∀ e ∈ es, e.1.equalFold (keyFor name es) = true → e.1 = keyFor name es := by
  intro e he agrees
  unfold keyFor at agrees ⊢
  cases found : findKey name es with
  | none =>
    rw [found, Option.getD_none, findKey_eq_none.mp found e he] at agrees
    cases agrees
  | some key =>
    rw [found, Option.getD_some] at agrees
    obtain ⟨e', he', rfl⟩ := findKey_mem found
    exact apart.alone he' (Text.equalFold_refl e'.1) e he agrees

end Keys

/-! ## Paths -/

/-- One of two paths is no part of the other: there is a place where they have names that do not agree. -/
def Diverges (p q : List Text) : Prop := ∃ (j : Nat) (y z : Text), p[j]? = some y ∧ q[j]? = some z ∧ y.equalFold z = false

/-- Paths of names that agree. -/
abbrev Agree : List Text → List Text → Prop := List.Forall₂ fun y z => y.equalFold z = true

section Paths

variable {p q p' q' : List Text} {y z : Text}

theorem diverges_cons : Diverges (y :: p) (z :: q) ↔ y.equalFold z = false ∨ Diverges p q := by
  constructor
  · rintro ⟨_ | j, a, b, ha, hb, ne⟩
    · cases ha
      cases hb
      exact .inl ne
    · exact .inr ⟨j, a, b, ha, hb, ne⟩
  · rintro (ne | ⟨j, a, b, ha, hb, ne⟩)
    · exact ⟨0, y, z, rfl, rfl, ne⟩
    · exact ⟨j + 1, a, b, ha, hb, ne⟩

theorem not_diverges_nil_left : ¬Diverges [] q := by
  rintro ⟨j, y, z, impossible, -⟩
  cases impossible

theorem not_diverges_nil_right : ¬Diverges p [] := by
  rintro ⟨j, y, z, -, impossible, -⟩
  cases impossible

/-- Paths that do not diverge agree as far as both go. -/
theorem agree_take (h : ¬Diverges p q) {i : Nat} (hp : i ≤ p.length) (hq : i ≤ q.length) : Agree (p.take i) (q.take i) := by
  induction i generalizing p q with
  | zero => exact .nil
  | succ i ih =>
    obtain - | ⟨y, p⟩ := p
    · cases hp
    obtain - | ⟨z, q⟩ := q
    · cases hq
    rw [diverges_cons, not_or] at h
    exact .cons (Bool.eq_true_of_not_eq_false h.1) (ih h.2 (Nat.le_of_succ_le_succ hp) (Nat.le_of_succ_le_succ hq))

/-- Behind parts that agree paths diverge as they do. -/
theorem diverges_append (h : Agree p q) : Diverges (p ++ p') (q ++ q') ↔ Diverges p' q' := by
  induction h with
  | nil => rfl
  | cons same _ ih =>
    rw [List.cons_append, List.cons_append, diverges_cons, ih, or_iff_right]
    rw [same]
    exact nofun

end Paths

namespace Store

variable {s t : Store} {root n m x : Node} {a o d : Nat} {key name : Text} {p q r pre rest path : List Text} {base : Text}

/-- The data that a path of names leads to. -/
def member? (s : Store) : Node → List Text → Option Node
  | n, [] => some n
  | .object a, name :: rest => (findKey name (s.object a)).bind fun key =>
    s.member? ((Json.lookup key (s.object a)).getD .null) rest
  | _, _ :: _ => none

theorem member?_nil : s.member? n [] = some n := by cases n <;> rfl

theorem member?_object : s.member? (.object a) (name :: rest) = (findKey name (s.object a)).bind fun key =>
    s.member? ((Json.lookup key (s.object a)).getD .null) rest := rfl

/-- A path that goes on leads from an object by a key of it. -/
theorem member?_cons (h : s.member? n (name :: rest) = some m) : ∃ a key x, n = .object a ∧ findKey name (s.object a) = some key ∧
    Json.lookup key (s.object a) = some x ∧ s.member? x rest = some m := by
  cases n with
  | object a =>
    obtain ⟨key, found, inner⟩ := Option.bind_eq_some_iff.mp h
    obtain ⟨x, lies⟩ := lookup_of_findKey found
    rw [lies] at inner
    exact ⟨a, key, x, rfl, found, lies, inner⟩
  | _ => cases h

theorem member?_append : s.member? n (p ++ q) = (s.member? n p).bind (s.member? · q) := by
  induction p generalizing n with
  | nil => rw [List.nil_append, member?_nil, Option.bind_some]
  | cons name rest ih =>
    cases n with
    | object a =>
      rw [List.cons_append, member?_object, member?_object, Option.bind_assoc]
      exact congrArg _ (funext fun key => ih)
    | _ => rfl

/-- What lies under a key of an object lies in it. -/
theorem inner_of_lookup (h : Json.lookup key (s.object a) = some x) : s.Inner x (.object a) :=
  List.mem_map_of_mem (f := (·.2)) (Json.mem_of_lookup h)

/-- What a path leads to lies in what it starts from. -/
theorem within_of_member? (h : s.member? n p = some m) : s.Within m n := by
  induction p generalizing n with
  | nil =>
    rw [member?_nil] at h
    cases h
    exact .refl
  | cons name rest ih =>
    obtain ⟨a, key, x, rfl, -, lies, inner⟩ := member?_cons h
    exact (ih inner).tail (inner_of_lookup lies)

theorem inside_of_member? (h : s.member? n p = some m) (ne : p ≠ []) : Relation.TransGen s.Inner m n := by
  obtain - | ⟨name, rest⟩ := p
  · exact absurd rfl ne
  · obtain ⟨a, key, x, rfl, -, lies, inner⟩ := member?_cons h
    exact .tail' (within_of_member? inner) (inner_of_lookup lies)

/-- No path leads through the same object twice. -/
def LeadsOnce (s : Store) (n : Node) : Prop :=
  ∀ p q a, s.member? n p = some (.object a) → s.member? n (p ++ q) = some (.object a) → q = []

/-- Through data that does not contain itself paths lead once. -/
theorem leadsOnce_of_acc (ends : Acc s.Inner n) : s.LeadsOnce n := by
  intro p q a first again
  by_contra ne
  rw [member?_append, first, Option.bind_some] at again
  have inside := inside_of_member? again ne
  have acc {m : Node} (within : s.Within m n) : Acc s.Inner m := by
    induction within using Relation.ReflTransGen.head_induction_on with
    | refl => exact ends
    | head inner _ ih => exact ih.inv inner
  exact apart_of_acc (acc (within_of_member? first)) inside

/-- No object that a path leads to has two keys that agree but for the case of letters. -/
def KeysApart (s : Store) (n : Node) : Prop := ∀ p a, s.member? n p = some (.object a) → ScriptEngine.KeysApart (s.object a)

/-- Paths that agree lead to the same. -/
theorem member?_congr (apart : s.KeysApart n) (agree : Agree p q) : s.member? n p = s.member? n q := by
  induction agree generalizing n with
  | nil => rfl
  | @cons y z p q same _ ih =>
    cases n with
    | object a =>
      rw [member?_object, member?_object, (apart [] a member?_nil).findKey_congr same]
      cases found : findKey z (s.object a) with
      | none => rfl
      | some key => exact ih fun p b h => apart (z :: p) b (by rw [member?_object, found, Option.bind_some, h])
    | _ => rfl

end Store

namespace Eval

variable {s t : Store} {n m : Node} {a d : Nat} {key name base : Text} {p q r path : List Text}

theorem followMember_nil : followMember base path s d [] n = .ok (some n) := by cases n <;> rfl

theorem followMember_object : followMember base path s d (name :: r) (.object a) = match findKey name (s.object a) with
    | none => .ok none
    | some key => followMember base path s (d + 1) r ((Json.lookup key (s.object a)).getD .null) := rfl

/-- A member is followed by the path of names to it. -/
theorem followMember_append (h : s.member? n p = some m) :
    followMember base path s d (p ++ r) n = followMember base path s (d + p.length) r m := by
  induction p generalizing n d with
  | nil =>
    rw [Store.member?_nil] at h
    cases h
    rfl
  | cons name rest ih =>
    obtain ⟨a, key, x, rfl, found, lies, inner⟩ := Store.member?_cons h
    rw [List.cons_append, followMember_object, found]
    dsimp only
    rw [lies, Option.getD_some, ih inner, List.length_cons, Nat.add_assoc, Nat.add_comm 1]

/-- What a path leads to is what is read. -/
theorem followMember_of_member? (h : s.member? n p = some m) : followMember base path s d p n = .ok (some m) := by
  have all : followMember base path s d (p ++ []) n = followMember base path s (d + p.length) [] m := followMember_append h
  rwa [List.append_nil, followMember_nil] at all

end Eval

/-! ## Writes at paths -/

namespace Store

/-- What is put under a key so that the names that are left of a path lead to data: the data itself, or the first of new
objects. -/
def linkTo (n : Node) (next : Nat) : List Text → Node
  | [] => n
  | _ :: _ => .object next

/-- New objects one in the other, each with one of the names of a path for its key, that lead to data. -/
def links (n : Node) : Nat → List Text → List (List (Text × Node))
  | _, [] => []
  | next, name :: rest => [(name, linkTo n (next + 1) rest)] :: links n (next + 1) rest

/-- A key of an object is set to data, or to new objects that lead to the data by names. -/
def withMember (s : Store) (o : Nat) (key : Text) (rest : List Text) (n : Node) : Store :=
  let objects := s.objects ++ (links n s.objects.size rest).toArray
  { s with objects := objects.setIfInBounds o (Json.insert key (linkTo n s.objects.size rest) (s.object o)) }

variable {s t : Store} {root n m x : Node} {a o d next : Nat} {key name y : Text} {p q r pre rest path : List Text} {base : Text}

/-- The objects that there are then. -/
theorem objects_withMember (inside : o < s.objects.size) (i : Nat) : (s.withMember o key rest n).objects[i]? =
    if i = o then some (Json.insert key (linkTo n s.objects.size rest) (s.object o))
    else if i < s.objects.size then s.objects[i]? else (links n s.objects.size rest)[i - s.objects.size]? := by
  rw [withMember, Array.getElem?_setIfInBounds, Array.getElem?_append, Array.size_append]
  split
  · rename_i same
    rw [if_pos same.symm, if_pos (by omega)]
  · rename_i other
    rw [if_neg (Ne.symm other)]
    simp

theorem object_withMember_self (inside : o < s.objects.size) :
    (s.withMember o key rest n).object o = Json.insert key (linkTo n s.objects.size rest) (s.object o) := by
  rw [object, objects_withMember inside, if_pos rfl, Option.getD_some]

theorem object_withMember_new {i : Nat} {es : List (Text × Node)} (inside : o < s.objects.size)
    (lies : (links n s.objects.size rest)[i]? = some es) : (s.withMember o key rest n).object (s.objects.size + i) = es := by
  rw [object, objects_withMember inside, if_neg (by omega), if_neg (by omega), Nat.add_sub_cancel_left, lies, Option.getD_some]

/-- The first name of a path that is left leads to a new object, in which the next leads on. -/
theorem withMember_withMember {s' : Store} (inside : o < s.objects.size)
    (made : s' = { s with objects := (s.objects.push []).setIfInBounds o (Json.insert key (.object s.objects.size) (s.object o)) }) :
    s'.withMember s.objects.size name rest n = s.withMember o key (name :: rest) n := by
  have size : s'.objects.size = s.objects.size + 1 := by simp [made]
  have empty : s'.object s.objects.size = [] := by
    rw [made, object, Array.getElem?_setIfInBounds_ne (Nat.ne_of_lt inside), Array.getElem?_push_size, Option.getD_some]
  have objects : (s'.withMember s.objects.size name rest n).objects = (s.withMember o key (name :: rest) n).objects := by
    refine Array.ext_getElem? fun i => ?_
    rw [objects_withMember (by omega), objects_withMember inside, size, empty]
    obtain before | rfl | after := Nat.lt_trichotomy i s.objects.size
    · rw [if_neg (Nat.ne_of_lt before), if_pos (by omega), if_pos before, made, Array.getElem?_setIfInBounds, Array.size_push,
        Array.getElem?_push, if_neg (Nat.ne_of_lt before)]
      simp only [eq_comm (a := o), if_pos (show o < s.objects.size + 1 by omega), linkTo]
    · rw [if_pos rfl, if_neg (Nat.ne_of_gt inside), if_neg (Nat.lt_irrefl _), Nat.sub_self]
      rfl
    · obtain ⟨k, rfl⟩ : ∃ k, i = s.objects.size + 1 + k := ⟨i - s.objects.size - 1, by omega⟩
      have step : s.objects.size + 1 + k - s.objects.size = k + 1 := by omega
      rw [if_neg (by omega), if_neg (by omega), if_neg (by omega), if_neg (by omega), step, links, List.getElem?_cons_succ,
        Nat.add_sub_cancel_left]
  have same : s'.withMember s.objects.size name rest n = { s with objects := (s'.withMember s.objects.size name rest n).objects } := by
    rw [withMember, made]
  rw [same, objects, withMember]

end Store

namespace Eval

open StoreM

variable {s t : Store} {n m : Node} {a o d : Nat} {key name base : Text} {p q r rest path names : List Text}

/-- Below an object that holds nothing a write makes the objects that are missing. -/
theorem setBelow_empty (inside : a < s.objects.size) (empty : s.object a = []) :
    (setBelow base path n d (name :: rest) a).run.run s = (.ok (), s.withMember a name rest n) := by
  induction rest generalizing a d name s with
  | nil =>
    have written : (setBelow base path n d [name] a).run.run s =
        (.ok (), { s with objects := s.objects.setIfInBounds a (Json.insert ((findKey name (s.object a)).getD name) n (s.object a)) }) := rfl
    rw [written, empty]
    simp [Store.withMember, Store.links, Store.linkTo, findKey, empty]
  | cons second rest ih =>
    rw [setBelow, run_get_bind]
    · have none : findKey name (s.object a) = none := by simp [empty, findKey]
      dsimp only
      rw [none, Option.getD_none, empty]
      let s' : Store := { s with objects := (s.objects.push []).setIfInBounds a (Json.insert name (.object s.objects.size) []) }
      have run : (setBelow base path n (d + 1) (second :: rest) s.objects.size).run.run s' =
          (.ok (), s'.withMember s.objects.size second rest n) := by
        refine ih (by simp [s']) ?_
        rw [Store.object, Array.getElem?_setIfInBounds_ne (Nat.ne_of_lt inside), Array.getElem?_push_size, Option.getD_some]
      refine Eq.trans (show _ = (setBelow base path n (d + 1) (second :: rest) s.objects.size).run.run s' from rfl) (run.trans ?_)
      rw [Store.withMember_withMember inside (by rw [empty])]
    · exact List.cons_ne_nil _ _

/-- A write at a path below an object fails and leaves memory alone, or sets one key of the last object on the way that is
there. -/
theorem setBelow_run (inside : ∀ p o, s.member? (.object a) p = some (.object o) → o < s.objects.size) (some_ : names ≠ []) :
    (∃ f, (setBelow base path n d names a).run.run s = (.error f, s)) ∨
      ∃ pre name rest o, names = pre ++ name :: rest ∧ s.member? (.object a) pre = some (.object o) ∧
        (rest ≠ [] → (Json.lookup (keyFor name (s.object o)) (s.object o)).getD .null = .null) ∧
        (setBelow base path n d names a).run.run s = (.ok (), s.withMember o (keyFor name (s.object o)) rest n) := by
  have here := inside [] a Store.member?_nil
  induction names generalizing a d with
  | nil => exact absurd rfl some_
  | cons name rest ih =>
    obtain - | ⟨second, rest⟩ := rest
    · refine .inr ⟨[], name, [], a, rfl, Store.member?_nil, fun h => absurd rfl h, ?_⟩
      have written : (setBelow base path n d [name] a).run.run s =
        (.ok (), { s with objects := s.objects.setIfInBounds a (Json.insert ((findKey name (s.object a)).getD name) n (s.object a)) }) := rfl
      rw [written]
      simp [Store.withMember, Store.links, Store.linkTo, keyFor]
    · rw [setBelow, run_get_bind]
      · dsimp only
        split
        · -- the way goes on
          rename_i o found
          have step : s.member? (.object a) [name] = some (.object o) := by
            rw [Store.member?_object]
            cases key : findKey name (s.object a) with
            | none =>
              rw [key, Option.getD_none] at found
              cases lies : Json.lookup name (s.object a) with
              | none =>
                rw [lies] at found
                cases found
              | some x =>
                obtain ⟨e, he, rfl⟩ := Json.lookup_isSome.mp (Option.isSome_iff_exists.mpr ⟨x, lies⟩)
                have absent := findKey_eq_none.mp key e he
                rw [Text.equalFold_refl] at absent
                cases absent
            | some key' =>
              rw [key, Option.getD_some] at found
              rw [Option.bind_some, found, Store.member?_nil]
          have onward {p : List Text} {m : Node} (h : s.member? (.object o) p = some m) : s.member? (.object a) (name :: p) = some m := by
            rw [show name :: p = [name] ++ p from rfl, Store.member?_append, step, Option.bind_some, h]
          obtain failed | ⟨pre, last, after, o', names, reached, open_, run⟩ := ih (a := o) (d := d + 1)
            (fun p o' h => inside _ o' (onward h)) (List.cons_ne_nil _ _) (inside _ o step)
          · exact .inl failed
          · exact .inr ⟨name :: pre, last, after, o', congrArg _ names, onward reached, open_, run⟩
        · -- the rest of the way is made
          rename_i missing
          refine .inr ⟨[], name, second :: rest, a, rfl, Store.member?_nil, fun _ => missing, ?_⟩
          let key := keyFor name (s.object a)
          let s' : Store := { s with objects := (s.objects.push []).setIfInBounds a (Json.insert key (.object s.objects.size) (s.object a)) }
          have run : (setBelow base path n (d + 1) (second :: rest) s.objects.size).run.run s' =
              (.ok (), s'.withMember s.objects.size second rest n) := by
            refine setBelow_empty (by simp [s']) ?_
            rw [Store.object, Array.getElem?_setIfInBounds_ne (Nat.ne_of_lt here), Array.getElem?_push_size, Option.getD_some]
          refine Eq.trans (show _ = (setBelow base path n (d + 1) (second :: rest) s.objects.size).run.run s' from rfl) (run.trans ?_)
          rw [Store.withMember_withMember here rfl]
        · exact .inl ⟨_, rfl⟩
      · exact List.cons_ne_nil _ _

end Eval

/-! ## What is read after a write -/

namespace Store

/-- What writing data at a path below an object leaves. One key of an object that the path leads through is set, and no
other key that agrees with it is there; all else that was there is as it was. The path reads the data. Other paths read
what they did, also if that is a fault or nothing, as long as they reach the object only where the path does. -/
structure Put (s : Store) (root : Node) (path : List Text) (n : Node) (o : Nat) (t : Store) : Prop where
  inside : o < s.objects.size
  along : ∃ k < path.length, s.member? root (path.take k) = some (.object o)
  rest : ∃ bs, t = { s with objects := t.objects, buffers := s.buffers ++ bs }
  objects : ∀ a < s.objects.size, a ≠ o → t.objects[a]? = s.objects[a]?
  set : ∃ key x, t.object o = Json.insert key x (s.object o) ∧ ∀ e ∈ s.object o, e.1.equalFold key = true → e.1 = key
  reads : t.member? root path = some n
  others : ∀ q, Diverges path q → (∀ j, s.member? root (q.take j) = some (.object o) → ¬Diverges path (q.take j)) →
    ∀ base d, Eval.followMember base q t d q root = Eval.followMember base q s d q root

variable {s t : Store} {root n m x : Node} {a o d next : Nat} {key name y : Text} {p q r pre rest path : List Text} {base : Text}

/-- A path reads the same up to where it reaches an object, if no other was changed. -/
theorem followMember_same (same : ∀ a < s.objects.size, a ≠ o → t.object a = s.object a)
    (inside : ∀ p a, s.member? x p = some (.object a) → a < s.objects.size)
    (before : ∀ j < p.length, s.member? x (p.take j) ≠ some (.object o))
    (last : ∀ m, s.member? x p = some m →
      Eval.followMember base path t (d + p.length) r m = Eval.followMember base path s (d + p.length) r m) :
    Eval.followMember base path t d (p ++ r) x = Eval.followMember base path s d (p ++ r) x := by
  induction p generalizing x d with
  | nil => exact last x member?_nil
  | cons name rest ih =>
    cases x with
    | object a =>
      have here := inside [] a member?_nil
      have ne : a ≠ o := fun same => before 0 (Nat.zero_lt_succ _) (by rw [List.take_zero, member?_nil, same])
      rw [List.cons_append, Eval.followMember_object, Eval.followMember_object, same a here ne]
      cases found : findKey name (s.object a) with
      | none => rfl
      | some key =>
        have onward (p : List Text) : s.member? (.object a) (name :: p) =
            s.member? ((Json.lookup key (s.object a)).getD .null) p := by rw [member?_object, found, Option.bind_some]
        refine ih (fun p b h => inside (name :: p) b ((onward p).trans h)) (fun j hj h => ?_) fun m h => ?_
        · exact before (j + 1) (Nat.succ_lt_succ hj) ((onward _).trans h)
        · have step := last m ((onward rest).trans h)
          rwa [List.length_cons, Nat.add_comm rest.length, ← Nat.add_assoc] at step
    | _ => rfl

/-- A path that does not reach an object before its end reads the same, if no other was changed. -/
theorem followMember_aside (same : ∀ a < s.objects.size, a ≠ o → t.object a = s.object a)
    (inside : ∀ p a, s.member? x p = some (.object a) → a < s.objects.size)
    (before : ∀ j < p.length, s.member? x (p.take j) ≠ some (.object o)) :
    Eval.followMember base path t d p x = Eval.followMember base path s d p x := by
  have all : Eval.followMember base path t d (p ++ []) x = Eval.followMember base path s d (p ++ []) x :=
    followMember_same same inside before fun m _ => by rw [Eval.followMember_nil, Eval.followMember_nil]
  rwa [List.append_nil] at all

/-- A path leads to the same up to where it reaches an object, if no other was changed. -/
theorem member?_same (same : ∀ a < s.objects.size, a ≠ o → t.object a = s.object a)
    (inside : ∀ p a, s.member? x p = some (.object a) → a < s.objects.size)
    (before : ∀ j < p.length, s.member? x (p.take j) ≠ some (.object o)) : t.member? x p = s.member? x p := by
  induction p generalizing x with
  | nil => rw [member?_nil, member?_nil]
  | cons name rest ih =>
    cases x with
    | object a =>
      have here := inside [] a member?_nil
      have ne : a ≠ o := fun same => before 0 (Nat.zero_lt_succ _) (by rw [List.take_zero, member?_nil, same])
      rw [member?_object, member?_object, same a here ne]
      cases found : findKey name (s.object a) with
      | none => rfl
      | some key =>
        have onward (p : List Text) : s.member? (.object a) (name :: p) =
            s.member? ((Json.lookup key (s.object a)).getD .null) p := by rw [member?_object, found, Option.bind_some]
        exact ih (fun p b h => inside (name :: p) b ((onward p).trans h)) fun j hj h =>
          before (j + 1) (Nat.succ_lt_succ hj) ((onward _).trans h)
    | _ => rfl

/-- New objects one in the other lead to the data at the end. -/
theorem member?_links (lies : ∀ (i : Nat) es, (links n next rest)[i]? = some es → t.object (next + i) = es) :
    t.member? (linkTo n next rest) rest = some n := by
  induction rest generalizing next with
  | nil => exact member?_nil
  | cons name rest ih =>
    have here : t.object next = [(name, linkTo n (next + 1) rest)] := lies 0 _ rfl
    have there : t.member? (linkTo n (next + 1) rest) rest = some n := ih fun i es h => by
      rw [Nat.add_assoc, Nat.add_comm 1]
      exact lies (i + 1) es h
    rw [linkTo, member?_object, here]
    simpa [findKey, Json.lookup] using there

/-- A path that does not follow new objects to their end reads nothing there. -/
theorem followMember_links (lies : ∀ (i : Nat) es, (links n next rest)[i]? = some es → t.object (next + i) = es)
    (diverges : Diverges rest q) : Eval.followMember base path t d q (linkTo n next rest) = .ok none := by
  induction rest generalizing next q d with
  | nil => exact absurd diverges not_diverges_nil_left
  | cons name rest ih =>
    obtain - | ⟨y, q⟩ := q
    · exact absurd diverges not_diverges_nil_right
    have here : t.object next = [(name, linkTo n (next + 1) rest)] := lies 0 _ rfl
    rw [linkTo, Eval.followMember_object, here]
    cases found : findKey y [(name, linkTo n (next + 1) rest)] with
    | none => rfl
    | some key =>
      obtain ⟨e, he, rfl⟩ := findKey_mem found
      rw [List.mem_singleton] at he
      subst he
      have agrees := findKey_fold found
      dsimp only at agrees
      rw [diverges_cons, agrees, or_iff_right (by decide)] at diverges
      simp only [Json.lookup, if_pos, Option.getD_some]
      refine ih (fun i es h => ?_) diverges
      rw [Nat.add_assoc, Nat.add_comm 1]
      exact lies (i + 1) es h

/-- Setting a key of an object that a path leads to puts data at the path. -/
theorem put_withMember (once : s.LeadsOnce root) (apart : s.KeysApart root)
    (inside : ∀ p a, s.member? root p = some (.object a) → a < s.objects.size) (reached : s.member? root pre = some (.object o))
    (open_ : rest ≠ [] → (Json.lookup (keyFor name (s.object o)) (s.object o)).getD .null = .null) :
    s.Put root (pre ++ name :: rest) n o (s.withMember o (keyFor name (s.object o)) rest n) := by
  have here := inside pre o reached
  have keys := apart pre o reached
  let t := s.withMember o (keyFor name (s.object o)) rest n
  have unchanged (a : Nat) (ha : a < s.objects.size) (ne : a ≠ o) : t.objects[a]? = s.objects[a]? := by
    rw [objects_withMember here, if_neg ne, if_pos ha]
  have same (a : Nat) (ha : a < s.objects.size) (ne : a ≠ o) : t.object a = s.object a := by
    rw [object, object, unchanged a ha ne]
  have entries : t.object o = _ := object_withMember_self here
  have lies (i : Nat) (es : List (Text × Node)) (h : (links n s.objects.size rest)[i]? = some es) : t.object (s.objects.size + i) = es :=
    object_withMember_new here h
  -- a path to the object does not lead through it before
  have first {p : List Text} (h : s.member? root p = some (.object o)) : ∀ j < p.length, s.member? root (p.take j) ≠ some (.object o) := by
    intro j hj again
    have none := once _ (p.drop j) o again (by rw [List.take_append_drop, h])
    rw [List.drop_eq_nil_iff] at none
    omega
  have along : (pre ++ name :: rest).take pre.length = pre := List.take_left
  refine ⟨here, ⟨pre.length, by simp, by rw [along, reached]⟩, ⟨#[], ?_⟩, unchanged, ⟨_, _, entries, keys.keyFor_alone⟩, ?_, ?_⟩
  · rw [Array.append_empty]
    rfl
  · rw [member?_append, member?_same same inside (first reached), reached, Option.bind_some, member?_object, entries,
      findKey_insert keyFor_fold keys.keyFor_alone, Option.bind_some, Json.lookup_insert_self, Option.getD_some]
    exact member?_links lies
  · intro q diverges only base d
    by_cases passes : ∃ j < q.length, s.member? root (q.take j) = some (.object o)
    · obtain ⟨j, hj, hit⟩ := passes
      have agree {i : Nat} (hi : i ≤ j) (hp : i ≤ (pre ++ name :: rest).length) :
          s.member? root (q.take i) = s.member? root ((pre ++ name :: rest).take i) := by
        have agrees := agree_take (only j hit) hp (by rw [List.length_take]; omega)
        rw [List.take_take, Nat.min_eq_left hi] at agrees
        exact (member?_congr apart agrees).symm
      -- it reaches the object where the path that is written does
      obtain rfl : j = pre.length := by
        obtain before | same | after := Nat.lt_trichotomy j pre.length
        · refine absurd ?_ (first reached j before)
          rw [← hit, agree (Nat.le_refl j) (by simp; omega), List.take_append_of_le_length (Nat.le_of_lt before)]
        · exact same
        · refine absurd ?_ (first hit pre.length (by rw [List.length_take]; omega))
          rw [List.take_take, Nat.min_eq_left (Nat.le_of_lt after), agree (Nat.le_of_lt after) (by simp), along, reached]
      obtain ⟨y, after, split⟩ : ∃ y after, q = q.take pre.length ++ y :: after := by
        refine ⟨q[pre.length], q.drop (pre.length + 1), ?_⟩
        rw [List.getElem_cons_drop, List.take_append_drop]
      have agrees : Agree pre (q.take pre.length) := by
        have agrees := agree_take (only pre.length hit) (i := pre.length) (by simp) (by rw [List.length_take]; omega)
        rwa [along, List.take_take, Nat.min_self] at agrees
      rw [split] at diverges ⊢
      rw [diverges_append agrees, diverges_cons] at diverges
      refine followMember_same same inside (fun i hi => first hit i hi) fun m h => ?_
      cases hit.symm.trans h
      rw [Eval.followMember_object, Eval.followMember_object, entries]
      cases other : name.equalFold y with
      | false =>
        -- from there it goes on by another name
        have ne : (keyFor name (s.object o)).equalFold y = false := by rw [Text.equalFold_congr keyFor_fold, other]
        rw [findKey_insert_ne ne]
        cases found : findKey y (s.object o) with
        | none => rfl
        | some k =>
          have apart_ : k ≠ keyFor name (s.object o) := by
            rintro rfl
            rw [findKey_fold found] at ne
            cases ne
          dsimp only
          rw [Json.lookup_insert_ne apart_]
          obtain ⟨x, under⟩ := lookup_of_findKey found
          rw [under, Option.getD_some]
          have onward (p : List Text) : s.member? root (q.take pre.length ++ y :: p) = s.member? x p := by
            rw [member?_append, hit, Option.bind_some, member?_object, found, Option.bind_some, under, Option.getD_some]
          have never (p : List Text) : s.member? x p ≠ some (.object o) := fun again => by
            have none := once _ _ o hit ((onward p).trans again)
            cases none
          exact followMember_aside same (fun p a h => inside _ a ((onward p).trans h)) fun i _ => never _
      | true =>
        -- it goes on by the same name, and there was nothing
        have diverges : Diverges rest after := diverges.resolve_left (by rw [other]; exact nofun)
        have some_ : rest ≠ [] := by
          rintro rfl
          exact not_diverges_nil_left diverges
        obtain ⟨z, after, rfl⟩ : ∃ z after', after = z :: after' := by
          cases after with
          | nil => exact absurd diverges not_diverges_nil_right
          | cons z after => exact ⟨z, after, rfl⟩
        have agrees : (keyFor name (s.object o)).equalFold y = true := by rw [Text.equalFold_congr keyFor_fold, other]
        rw [findKey_insert agrees keys.keyFor_alone, ← keys.findKey_congr other]
        dsimp only
        rw [Json.lookup_insert_self, Option.getD_some, followMember_links lies diverges]
        cases found : findKey name (s.object o) with
        | none => rfl
        | some k =>
          have nothing := open_ some_
          rw [keyFor, found, Option.getD_some] at nothing
          dsimp only
          rw [nothing]
          rfl
    · rw [not_exists] at passes
      exact followMember_aside same inside fun j hj h => passes j ⟨hj, h⟩

end Store

end ScriptEngine
