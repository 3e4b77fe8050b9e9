import ScriptEngine.Proofs.ArraySizes
import ScriptEngine.Proofs.FitAgain
import ScriptEngine.Proofs.PathWrites
import ScriptEngine.Proofs.PlaceWrites
import ScriptEngine.Proofs.SafeData
/-!
# Writes to elements of containers

A write to an element of a container changes the slot that the element is read from, and no other. Only where it makes a json
list longer it changes the json value that was indexed, too, as a longer list is other data than a shorter one.
-/

namespace ScriptEngine

/-- What an element of a container is read from: an element of an array, a place of json data, or the data of a json value. -/
inductive Slot where
  | element (array i : Nat)
  | place (p : Place)
  | box (address : Nat)

/-- The step that an index of json data stands for. -/
def Value.step? : Value → Option Path.Step
  | .string k => some (.key k)
  | v => v.toInt64?.map fun n => .index n.toInt

namespace Value

variable {k : Value} {i : Int} {n : Int64} {key : Text}

theorem step?_of_toInt64? (index : k.toInt64? = some n) : k.step? = some (.index n.toInt) := by
  cases k <;> first | cases index; rfl | cases index

theorem string_of_step? (index : k.step? = some (.key key)) : k = .string key := by
  cases k <;> first | cases index; rfl | cases index

theorem toInt64?_of_step? (index : k.step? = some (.index i)) : ∃ n, k.toInt64? = some n ∧ n.toInt = i := by
  cases k <;> first | cases index; exact ⟨_, rfl, rfl⟩ | cases index

end Value

/-- A step names an entry of an object, or an item of a list. -/
theorem Node.cases_place? {n : Node} {step : Path.Step} {p : Place} (h : n.place? step = some p) :
    (∃ o key, n = .object o ∧ step = .key key ∧ p = .entry o key) ∨
      ∃ b len, ∃ i < len, n = .list b len ∧ step = .index i ∧ p = .item b i := by
  cases n with
  | object o =>
    cases step with
    | key key =>
      cases h
      exact .inl ⟨o, key, rfl, rfl, rfl⟩
    | index i => cases h
  | list b len =>
    obtain ⟨i, less, rfl, rfl⟩ := place?_list_iff.mp h
    exact .inr ⟨b, len, i, less, rfl, rfl, rfl⟩
  | _ => cases step <;> cases h

/-- Data with places is not null. -/
theorem Node.isNull_of_place? {n : Node} {step : Path.Step} {p : Place} (h : n.place? step = some p) : n.isNull = false := by
  obtain ⟨o, key, rfl, -⟩ | ⟨b, len, i, -, rfl, -⟩ := cases_place? h <;> rfl

namespace Store

variable {s t u : Store} {changed : Slot → Prop}

/-- The slots that reading an element looks at. -/
inductive Looks (s : Store) : Value → Value → Slot → Prop
  | element {a i : Nat} {k : Value} {n : Int64} (index : k.toInt64? = some n) (here : n.toInt = i) :
    Looks s (.array a) k (.element a i)
  | box (b : Nat) (k : Value) : Looks s (.json b) k (.box b)
  | place {b : Nat} {k : Value} {step : Path.Step} {p : Place} (index : k.step? = some step)
    (here : (s.box b).place? step = some p) : Looks s (.json b) k (.place p)

/-- The slots that writing an element changes. A list that gets longer is other data of its json value. -/
inductive Alters (s : Store) : Value → Value → Slot → Prop
  | element {a i : Nat} {k : Value} {n : Int64} (index : k.toInt64? = some n) (here : n.toInt = i) :
    Alters s (.array a) k (.element a i)
  | place {b : Nat} {k : Value} {step : Path.Step} {p : Place} (index : k.step? = some step)
    (here : (s.box b).place? step = some p ∨ (s.box b).behind? step = some p) : Alters s (.json b) k (.place p)
  | box {b : Nat} {k : Value} {step : Path.Step} {p : Place} (index : k.step? = some step)
    (behind : (s.box b).behind? step = some p) : Alters s (.json b) k (.box b)

/-- Memory `t` in which slots show what they did in `s`, but that data may have settled and that some slots were changed. -/
structure KeepsBut (changed : Slot → Prop) (s t : Store) : Prop where
  elements : ∀ a i v, (s.array a).cells.get? i = some v → ¬changed (.element a i) → (t.array a).cells.get? i = some v
  boxes : ∀ b n, s.boxes[b]? = some n → ¬changed (.box b) → t.boxes[b]? = some n
  places : ∀ p n, s.at? p = some n → ¬changed (.place p) → ∃ n', t.at? p = some n' ∧ n.Settles n'
  /-- A key that a name finds is found until a key that agrees with the name is set. -/
  keys : ∀ a name key, findKey name (s.object a) = some key →
    (∀ k : Text, k.equalFold name = true → ¬changed (.place (.entry a k))) → findKey name (t.object a) = some key
  size : s.boxes.size ≤ t.boxes.size

theorem KeepsBut.refl (s : Store) : s.KeepsBut changed s where
  elements _ _ _ here _ := here
  boxes _ _ lies _ := lies
  places _ n lies _ := ⟨n, lies, .refl n⟩
  keys _ _ _ found _ := found
  size := Nat.le_refl _

theorem KeepsBut.trans (h : s.KeepsBut changed t) (k : t.KeepsBut changed u) : s.KeepsBut changed u where
  elements a i v here kept := k.elements a i v (h.elements a i v here kept) kept
  boxes b n lies kept := k.boxes b n (h.boxes b n lies kept) kept
  places p n lies kept := by
    obtain ⟨n', lies', first⟩ := h.places p n lies kept
    obtain ⟨n'', lies'', second⟩ := k.places p n' lies' kept
    exact ⟨n'', lies'', .trans _ _ _ first second⟩
  keys a name key found kept := k.keys a name key (h.keys a name key found kept) kept
  size := Nat.le_trans h.size k.size

/-! ## Memory that is only added to -/

/-- Entries that settle keep their keys, each with its data, which may have settled. -/
theorem lookup_settles {es es' : List (Text × Node)} (h : EntriesSettle es es') {k : Text} {n : Node}
    (lies : Json.lookup k es = some n) : ∃ n', Json.lookup k es' = some n' ∧ n.Settles n' := by
  induction h with
  | nil => cases lies
  | @cons e e' _ _ head _ ih =>
    rw [Json.lookup] at lies ⊢
    rw [head.1]
    split at lies
    · cases lies
      rw [if_pos ‹_›]
      exact ⟨_, rfl, head.2⟩
    · rw [if_neg ‹_›]
      exact ih lies

/-- The key that a name finds depends on the keys alone. -/
theorem findKey_congr {es es' : List (Text × Node)} (keys : es'.map (·.1) = es.map (·.1)) (name : Text) :
    findKey name es' = findKey name es := by
  have any (es : List (Text × Node)) : es.any (·.1 = name) = (es.map (·.1)).any (· = name) := by
    rw [List.any_map]
    rfl
  have find (es : List (Text × Node)) : (es.find? fun e => e.1.equalFold name).map (·.1) = (es.map (·.1)).find? (·.equalFold name) := by
    rw [List.find?_map]
    rfl
  rw [findKey, findKey, any, any, find, find, keys]

/-- Memory shows what it did where only arrays were written to, and what is kept of their elements is where it was. -/
theorem LaterBut.keepsBut {written : Container → Prop} (h : s.LaterBut written t) (arrays : ∀ c, written c → ∃ a, c = .array a)
    (elements : ∀ a, written (.array a) → ∀ i v, (s.array a).cells.get? i = some v → ¬changed (.element a i) →
      (t.array a).cells.get? i = some v) : s.KeepsBut changed t := by
  -- nothing else that memory holds was written to
  have noBox (b : Nat) : ¬written (.box b) := by
    intro wrote
    obtain ⟨_, same⟩ := arrays _ wrote
    cases same
  have noObject (a : Nat) : ¬written (.object a) := by
    intro wrote
    obtain ⟨_, same⟩ := arrays _ wrote
    cases same
  have noBuffer (b : Nat) : ¬written (.buffer b) := by
    intro wrote
    obtain ⟨_, same⟩ := arrays _ wrote
    cases same
  refine ⟨?elements, ?boxes, ?places, ?keys, ?size⟩
  case elements =>
    intro a i v here kept
    by_cases wrote : written (.array a)
    · exact elements a wrote i v here kept
    cases lies : s.arrays[a]? with
    | none =>
      rw [array, lies] at here
      cases here
    | some d => rwa [array, h.arrays a d lies wrote, ← lies, ← array]
  case boxes =>
    intro b n lies _
    exact h.boxes b n lies (noBox b)
  case places =>
    intro p n lies _
    cases p with
    | entry a k =>
      cases there : s.objects[a]? with
      | none =>
        rw [at?, object, there] at lies
        cases lies
      | some es =>
        obtain ⟨es', there', settled⟩ := h.objects a es there (noObject a)
        rw [at?, object, there, Option.getD_some] at lies
        rw [at?, object, there', Option.getD_some]
        exact lookup_settles settled lies
    | item b i =>
      cases there : s.buffers[b]? with
      | none =>
        rw [at?, buffer, there] at lies
        cases lies
      | some places =>
        obtain ⟨places', there', settled⟩ := h.buffers b places there (noBuffer b)
        rw [at?, buffer, there, Option.getD_some, ← Array.getElem?_toList] at lies
        rw [at?, buffer, there', Option.getD_some, ← Array.getElem?_toList]
        exact forall₂_getElem? settled.flip lies
  case keys =>
    intro a name key found _
    cases there : s.objects[a]? with
    | none =>
      rw [object, there] at found
      cases found
    | some es =>
      obtain ⟨es', there', settled⟩ := h.objects a es there (noObject a)
      rw [object, there, Option.getD_some] at found
      rw [object, there', Option.getD_some, findKey_congr (keys_of_forall₂ (settled.imp fun _ _ e => e.1)), found]
  case size =>
    by_contra less
    have lies := h.boxes t.boxes.size _ (Array.getElem?_eq_getElem (Nat.not_le.mp less)) (noBox _)
    exact Nat.lt_irrefl _ (Array.getElem?_eq_some_iff.mp lies).1

/-- Memory that is only added to shows what it did. -/
theorem Later.keepsBut (h : s.Later (fun _ => False) t) : s.KeepsBut changed t :=
  (h.but fun _ _ none => none).keepsBut (fun _ => False.elim) fun _ => False.elim

/-! ## The same data -/

/-- Two values, one in memory `s` and one in memory `t`, match: they are the same, or json values that were made since memory had
a number of them, and hold the same data. -/
def Matches (old : Nat) (s t : Store) (v w : Value) : Prop :=
  w = v ∨ ∃ b b' n, v = .json b ∧ w = .json b' ∧ old ≤ b ∧ old ≤ b' ∧ s.boxes[b]? = some n ∧ t.boxes[b']? = some n

/-- They still match in memory that was only added to. -/
theorem Matches.later {old : Nat} {written : Nat → Prop} {s' t' : Store} {v w : Value} (h : s.Matches old t v w) (first : s.Later written s')
    (second : t.Later written t') : s'.Matches old t' v w := by
  obtain rfl | ⟨b, b', n, rfl, rfl, new, new', lies, lies'⟩ := h
  · exact .inl rfl
  · exact .inr ⟨b, b', n, rfl, rfl, new, new', first.keeps.boxes b n lies, second.keeps.boxes b' n lies'⟩

/-- What one piece of json data is read as in two memories matches, when it is read as something new. -/
theorem matches_of_reads {old : Nat} {n : Node} {v w : Value} (reads : s.Reads n v) (reads' : t.Reads n w)
    (new : ∀ b, v = .json b → old ≤ b) (new' : ∀ b, w = .json b → old ≤ b) : s.Matches old t v w := by
  cases n with
  | object a =>
    obtain ⟨b, rfl, lies⟩ := reads
    obtain ⟨b', rfl, lies'⟩ := reads'
    exact .inr ⟨b, b', _, rfl, rfl, new b rfl, new' b' rfl, lies, lies'⟩
  | list a len =>
    obtain ⟨b, rfl, lies⟩ := reads
    obtain ⟨b', rfl, lies'⟩ := reads'
    exact .inr ⟨b, b', _, rfl, rfl, new b rfl, new' b' rfl, lies, lies'⟩
  | _ => exact .inl (Eq.trans reads' reads.symm)

end Store

/-! ## Reading elements -/

section Reading

variable {s t r : Store} {changed : Slot → Prop} {a b old : Nat} {c c' k v w : Value} {n : Node} {step : Path.Step} {p : ScriptEngine.Place}

namespace StoreM

/-- Json data is read as what it settles to. An object or a list is read as a new json value. -/
theorem does_ofNode_new (n : Node) (s : Store) :
    Does (fun _ => False) (fun v t => t.Reads n.settle v ∧ ∀ b, v = .json b → s.boxes.size ≤ b) (ofNode n) s := by
  obtain ⟨v, t, run, later, reads⟩ : Does (fun _ => False) (fun v t => t.Reads n.settle v) (ofNode n) s := does_ofNode n
  refine ⟨v, t, run, later, reads, ?_⟩
  obtain ⟨m, u, normalized, run⟩ := Signature.run_bind_ok run
  obtain ⟨settled, -⟩ := (makes_normalize n).adds normalized
  have kept : s.KeepsBut (fun _ => False) u := settled.keepsBut
  cases m with
  | object a =>
    cases run
    rintro _ ⟨⟩
    exact kept.size
  | list a len =>
    cases run
    rintro _ ⟨⟩
    exact kept.size
  | int i =>
    cases run
    rw [Value.ofInt64]
    split
    all_goals
      rintro _ ⟨⟩
  | _ =>
    cases run
    rintro _ ⟨⟩

end StoreM

namespace Eval

open StoreM

theorem run_placeOf_bind {α : Type} {i : Int64} (index : k.toInt64? = some i) (f : Int → StoreM α) (s : Store) :
    (placeOf k >>= f).run.run s = (f i.toInt).run.run s := by
  rw [placeOf, index]
  rfl

theorem done_placeOf {i : Int} (run : (placeOf k).run.run s = (.ok i, t)) : t = s ∧ ∃ n, k.toInt64? = some n ∧ i = n.toInt := by
  rw [placeOf] at run
  split at run
  · cases run
    exact ⟨rfl, _, ‹_›, rfl⟩
  · cases run

theorem done_keyOf {key : Text} (run : (keyOf k).run.run s = (.ok key, t)) : t = s ∧ k = .string key := by
  unfold keyOf at run
  split at run
  · cases run
    exact ⟨rfl, rfl⟩
  · cases run

/-- An element of an array that is read. -/
theorem done_readIndex_array (run : (readIndex (.array a) k).run.run s = (.ok w, t)) :
    t = s ∧ ∃ (n : Int64) (i : Nat), k.toInt64? = some n ∧ n.toInt = i ∧ (s.array a).cells.get? i = some w := by
  obtain ⟨j, u, index, run⟩ := Signature.run_bind_ok run
  obtain ⟨rfl, n, number, rfl⟩ := done_placeOf index
  rw [arrayGet, run_get_bind] at run
  dsimp only at run
  split at run
  · rename_i here
    split at here
    · cases here
    cases run
    exact ⟨rfl, n, n.toInt.toNat, number, by omega, here⟩
  · cases run

theorem run_readIndex_array {n : Int64} {i : Nat} (index : k.toInt64? = some n) (here : n.toInt = i)
    (lies : (s.array a).cells.get? i = some w) : (readIndex (.array a) k).run.run s = (.ok w, s) := by
  rw [readIndex, run_placeOf_bind index, here, arrayGet, run_get_bind]
  dsimp only
  rw [if_neg (by omega), Int.toNat_natCast, lies]
  rfl

/-- An element of json data that is read, and is not null for there being none. -/
theorem done_readIndex_json (present : w ≠ .null) (run : (readIndex (.json b) k).run.run s = (.ok w, t)) :
    ∃ step p x, k.step? = some step ∧ (s.box b).place? step = some p ∧ s.at? p = some x ∧ (ofNode x).run.run s = (.ok w, t) := by
  rw [readIndex, run_get_bind] at run
  split at run
  · rename_i o box
    obtain ⟨key, u, keyed, found⟩ := Signature.run_bind_ok run
    obtain ⟨rfl, rfl⟩ := done_keyOf keyed
    split at found
    · exact ⟨.key key, .entry o key, _, rfl, by rw [box]; rfl, ‹_›, found⟩
    · cases found
      exact absurd rfl present
  · rename_i buffer len box
    obtain ⟨j, u, index, run⟩ := Signature.run_bind_ok run
    obtain ⟨rfl, n, number, rfl⟩ := done_placeOf index
    split at run
    · rename_i x here
      split at here
      · cases here
      rw [Store.items, List.getElem?_take] at here
      split at here
      · refine ⟨.index n.toInt, .item buffer n.toInt.toNat, x, Value.step?_of_toInt64? number, ?_, ?_, run⟩
        · rw [box, Node.place?, if_pos (by omega)]
        · rwa [Store.at?, ← Array.getElem?_toList]
      · cases here
    · cases run
  · cases run

/-- An element of json data is read from its place. -/
theorem run_readIndex_json {x : Node} (index : k.step? = some step) (place : (s.box b).place? step = some p) (lies : s.at? p = some x) :
    (readIndex (.json b) k).run.run s = (ofNode x).run.run s := by
  rw [readIndex, run_get_bind]
  obtain ⟨o, key, box, rfl, rfl⟩ | ⟨buffer, len, i, less, box, rfl, rfl⟩ := Node.cases_place? place
  · rw [box, Value.string_of_step? index]
    have found : Json.lookup key (s.object o) = some x := lies
    dsimp only [keyOf]
    rw [pure_bind, found]
  · obtain ⟨n, number, here⟩ := Value.toInt64?_of_step? index
    rw [box]
    dsimp only
    rw [run_placeOf_bind number, here, if_neg (by omega), Int.toNat_natCast, Store.items, List.getElem?_take, if_pos less,
      Array.getElem?_toList, show (s.buffer buffer)[i]? = some x from lies]

/-- A character of a text is the same in every memory. -/
theorem done_readIndex_string {text : Text} (run : (readIndex (.string text) k).run.run s = (.ok w, t)) :
    t = s ∧ ∀ r : Store, (readIndex (.string text) k).run.run r = (.ok w, r) := by
  obtain ⟨j, u, index, run⟩ := Signature.run_bind_ok run
  obtain ⟨rfl, n, number, rfl⟩ := done_placeOf index
  dsimp only at run
  split at run
  · rename_i ch here
    cases run
    refine ⟨rfl, fun r => ?_⟩
    rw [readIndex, run_placeOf_bind number]
    dsimp only
    rw [here]
    rfl
  · cases run

/-- Reading an element changes nothing but that data settles. -/
theorem makes_readIndex (c k : Value) (s : Store) : Makes (fun _ => False) (fun _ _ => True) (readIndex c k) s := by
  have place (s : Store) : Makes (fun _ => False) (fun _ _ => True) (placeOf k) s := by
    unfold placeOf
    split
    · exact makes_pure trivial
    · exact makes_kindOf_bind (makes_throw _)
  have key (s : Store) : Makes (fun _ => False) (fun _ _ => True) (keyOf k) s := by
    unfold keyOf
    split
    · exact makes_pure trivial
    · exact makes_kindOf_bind (makes_throw _)
  have node (n : Node) (s : Store) : Makes (fun _ => False) (fun _ _ => True) (ofNode n) s :=
    (makes_ofNode n).mono fun _ _ _ _ => trivial
  unfold readIndex
  split
  · refine makes_bind (place s) fun i t _ _ => makes_get_bind ?_
    dsimp only
    split
    · exact makes_pure trivial
    · exact makes_throw _
  · refine makes_bind (place s) fun i t _ _ => ?_
    dsimp only
    split
    · exact makes_pure trivial
    · exact makes_throw _
  · refine makes_get_bind ?_
    split
    · refine makes_bind (key s) fun i t _ _ => ?_
      split
      · exact node _ t
      · exact makes_pure trivial
    · refine makes_bind (place s) fun i t _ _ => ?_
      split
      · exact node _ t
      · exact makes_throw _
    · exact makes_throw _
  · exact makes_kindOf_bind (makes_throw _)

/-- An element is read again where the container matches and what is looked at was not changed. -/
theorem readIndex_again (run : (readIndex c k).run.run s = (.ok w, t)) (present : w ≠ .null) (same : s.Matches old r c c')
    (kept : s.KeepsBut changed r) (aside : ∀ slot, s.Looks c k slot → ¬changed slot) (new : old ≤ s.boxes.size) :
    ∃ w' u, (readIndex c' k).run.run r = (.ok w', u) ∧ t.Matches old u w w' := by
  have plain (other : ∀ b, c ≠ .json b) : c' = c := same.resolve_right fun ⟨b, _, _, json, _⟩ => other b json
  cases c with
  | array a =>
    cases plain nofun
    obtain ⟨rfl, n, i, index, here, lies⟩ := done_readIndex_array run
    have still := kept.elements a i w lies (aside _ (.element index here))
    exact ⟨w, r, run_readIndex_array index here still, .inl rfl⟩
  | string text =>
    cases plain nofun
    exact ⟨w, r, (done_readIndex_string run).2 r, .inl rfl⟩
  | json b =>
    obtain ⟨step, p, x, index, place, lies, read⟩ := done_readIndex_json present run
    have holds := Node.isNull_of_place? place
    obtain ⟨b', rfl, box⟩ : ∃ b', c' = .json b' ∧ r.box b' = s.box b := by
      obtain rfl | ⟨_, b', n, ⟨⟩, rfl, -, -, lies, lies'⟩ := same
      · refine ⟨b, rfl, ?_⟩
        rw [Store.box, kept.boxes b _ (Store.box_lies rfl holds) (aside _ (.box b k)), Option.getD_some]
      · exact ⟨b', rfl, by rw [Store.box, lies', Store.box, lies]⟩
    obtain ⟨x', lies', settles⟩ := kept.places p x lies (aside _ (.place index place))
    obtain ⟨w₀, t₀, read₀, -, reads, fresh⟩ := does_ofNode_new x s
    cases read.symm.trans read₀
    obtain ⟨w', u, read', -, reads', fresh'⟩ := does_ofNode_new x' r
    rw [settles.settle] at reads'
    refine ⟨w', u, (run_readIndex_json index (box ▸ place) lies').trans read', ?_⟩
    exact Store.matches_of_reads reads reads' (fun b h => Nat.le_trans new (fresh b h))
      fun b h => Nat.le_trans (Nat.le_trans new kept.size) (fresh' b h)
  | _ => cases run

end Eval

end Reading

/-! ## Changes of one slot -/

namespace Store

variable {s : Store} {changed : Slot → Prop} {a b i : Nat} {key : Text} {x : Node}

/-- A key of an object is set. -/
theorem keepsBut_insert (inside : a < s.objects.size) (here : changed (.place (.entry a key))) :
    s.KeepsBut changed { s with objects := s.objects.setIfInBounds a (Json.insert key x (s.object a)) } where
  elements _ _ _ lies _ := lies
  boxes _ _ lies _ := lies
  places p n lies kept := by
    refine ⟨n, ?_, .refl n⟩
    rwa [at?_insert inside, if_neg]
    rintro rfl
    exact kept here
  keys a' name k found kept := by
    rw [object_setIfInBounds inside]
    by_cases same : a' = a
    · subst same
      rw [if_pos rfl, findKey_insert_ne, found]
      exact Bool.eq_false_iff.mpr fun agrees => kept key agrees here
    · rwa [if_neg same]
  size := Nat.le_refl _

/-- A place of a buffer is written. -/
theorem keepsBut_setPlace (inside : i < (s.buffer b).size) (here : changed (.place (.item b i))) :
    s.KeepsBut changed { s with buffers := s.buffers.modify b fun old => old.setIfInBounds i x } where
  elements _ _ _ lies _ := lies
  boxes _ _ lies _ := lies
  places p n lies kept := by
    refine ⟨n, ?_, .refl n⟩
    rwa [at?_setPlace inside, if_neg]
    rintro rfl
    exact kept here
  keys _ _ _ found _ := found
  size := Nat.le_refl _

theorem at?_boxes (s : Store) (boxes : Array Node) (p : Place) : Store.at? { s with boxes := boxes } p = s.at? p := by
  cases p <;> rfl

/-- What lies at a place lies in memory. -/
theorem in_of_at? {p : Place} {n : Node} (lies : s.at? p = some n) : p.In s := by
  by_contra out
  cases p with
  | entry a k =>
    rw [at?, object, Array.getElem?_eq_none (Nat.not_lt.mp out)] at lies
    cases lies
  | item b i =>
    rw [at?, buffer, Array.getElem?_eq_none (Nat.not_lt.mp out)] at lies
    cases lies

/-- A list is made longer, and put into its json value. -/
theorem keepsBut_longer {len : Nat} (whole : s.Whole) (there : (Node.list a len).In s) (valid : x.In s)
    (here : changed (.place (.item a len))) (box : changed (.box b)) (n : Node) :
    s.KeepsBut changed { (s.longer a len x).2 with boxes := (s.longer a len x).2.boxes.setIfInBounds b n } := by
  have longer := lengthens_longer whole there valid
  generalize s.longer a len x = grown at longer ⊢
  obtain ⟨a', t⟩ := grown
  rw [longer.only]
  refine ⟨fun _ _ _ lies _ => lies, fun b' m lies kept => ?_, fun p m lies kept => ⟨m, ?_, .refl m⟩, fun _ _ _ found _ => found, ?_⟩
  · change (s.boxes.setIfInBounds b n)[b']? = _
    rw [Array.getElem?_setIfInBounds, if_neg]
    · exact lies
    · rintro rfl
      exact kept box
  · have still := longer.kept p (in_of_at? lies) (by rintro rfl; exact kept here)
    rw [longer.only] at still
    exact (at?_boxes _ _ p).trans (still.trans lies)
  · exact Nat.le_of_eq Array.size_setIfInBounds.symm

end Store

/-! ## Writing elements -/

/-- What an element reads after a value was written to it. In an array it is what the elements of the array convert the value to. In
json data it is the json data of the value, and the container is the same data as before, unless it got longer. -/
inductive Store.Stored (s : Store) : Value → Value → Value → Store → Prop
  | element {a i : Nat} {k v w : Value} {n : Int64} {t : Store} (index : k.toInt64? = some n) (here : n.toInt = i)
    (converts : (s.readied a i).Converts (s.array a).element v w) (lies : (t.array a).cells.get? i = some w) :
    Stored s (.array a) k v t
  | place {b : Nat} {k v : Value} {step : Path.Step} {p : Place} {x : Node} {t u : Store} (index : k.step? = some step)
    (place : (t.box b).place? step = some p) (data : (StoreM.toNode v).run.run s = (.ok x, u)) (lies : t.at? p = some x)
    (same : (s.box b).behind? step = none → t.box b = s.box b) : Stored s (.json b) k v t

section Writing

variable {s t : Store} {a b i : Nat} {c k v : Value}

/-- What an array of a kind holds for a value does not depend on the bits that are not in use. -/
theorem Store.converts_of_forElement {element : Kind} {cells : Cells} {u w : Value} (fits : cells.FitsFor element)
    (run : (StoreM.forElement element cells v).run.run s = (.ok u, t)) (packs : element.Packs u w) : s.Converts element v w := by
  cases cells with
  | bits octets len =>
    obtain ⟨rfl, -⟩ := fits
    have off : (Cells.bits #[] 0).LaidFor .bitmap := ⟨rfl, Nat.zero_le _, fun _ _ => Bits.get_empty⟩
    exact (converts_iff off).mpr ⟨u, t, run, packs⟩
  | boxed items => exact (converts_iff (c := .boxed items) fits).mpr ⟨u, t, run, packs⟩
  | bytes items => exact (converts_iff (c := .bytes items) fits).mpr ⟨u, t, run, packs⟩
  | ints items => exact (converts_iff (c := .ints items) fits).mpr ⟨u, t, run, packs⟩

/-- An array with a place for what is written to it: it lies in memory as it did, but that it may be longer by one. -/
theorem Store.array_readied (s : Store) (a : Nat) (i : Int) : (s.readied a i).array a = s.array a ∨
    (s.readied a i).array a = { s.array a with cells := (s.array a).cells.grow (s.array a).element 1 } := by
  rw [readied]
  split
  · cases lies : s.arrays[a]? with
    | none =>
      left
      change ((s.arrays.modify a _)[a]?).getD default = _
      rw [Array.getElem?_modify, if_pos rfl, lies, array, lies]
      rfl
    | some d =>
      right
      change ((s.arrays.modify a _)[a]?).getD default = _
      rw [Array.getElem?_modify, if_pos rfl, lies, array, lies]
      rfl
  · exact .inl rfl

theorem Cells.lt_of_get? {cells : Cells} {x : Value} (lies : cells.get? i = some x) : i < cells.length := by
  rw [get?_eq] at lies
  exact cells.length_toList ▸ (List.getElem?_eq_some_iff.mp lies).1

/-- Elements are as they were when an array is made longer. -/
theorem Cells.get?_grow {cells : Cells} {element : Kind} {x : Value} (fits : cells.FitsFor element) (lies : cells.get? i = some x) (n : Nat) :
    (cells.grow element n).get? i = some x := by
  have inside := lt_of_get? lies
  rw [get?_eq_under element inside] at lies
  rwa [get?_eq_under element (by rw [length_grow]; omega), under_grow fits]

/-- An array with an element lies in memory. -/
theorem Store.array_lies (inside : i < (s.array a).length) : s.arrays[a]? = some (s.array a) := by
  rw [array] at inside ⊢
  cases lies : s.arrays[a]? with
  | none =>
    rw [lies] at inside
    cases inside
  | some d => rfl

namespace Eval

open StoreM

/-- A write to an array that succeeds is one inside it, or just behind the end. What the value is converted to lies at its place
then, and all other elements are as they were. -/
theorem arraySet_stored {i : Int} (fits : (s.array a).cells.FitsFor (s.array a).element)
    (run : (arraySet a i v).run.run s = (.ok (), t)) : ∃ (j : Nat) (w : Value), i = j ∧
      (s.readied a j).Converts (s.array a).element v w ∧ (t.array a).cells.get? j = some w ∧
      ∀ i x, i ≠ j → (s.array a).cells.get? i = some x → (t.array a).cells.get? i = some x := by
  rw [arraySet_readied, run_get_bind] at run
  dsimp only at run
  split at run
  · cases run
  rename_i inside
  rw [Bool.or_eq_true, decide_eq_true_eq, decide_eq_true_eq, not_or] at inside
  obtain ⟨j, rfl⟩ := Int.eq_ofNat_of_zero_le (Int.not_lt.mp inside.1)
  rw [Int.toNat_natCast] at run
  have inside : j < ((s.readied a j).array a).length := by omega
  obtain ⟨u, t', element, put⟩ := Signature.run_bind_ok run
  obtain ⟨same, fits', still⟩ : ((s.readied a j).array a).element = (s.array a).element ∧
      ((s.readied a j).array a).cells.FitsFor (s.array a).element ∧
      ∀ i x, (s.array a).cells.get? i = some x → ((s.readied a j).array a).cells.get? i = some x := by
    obtain same | grown := s.array_readied a j
    · rw [same]
      exact ⟨rfl, fits, fun _ _ => id⟩
    · rw [grown]
      exact ⟨rfl, Cells.fitsFor_grow fits 1, fun i x lies => Cells.get?_grow fits lies 1⟩
  obtain ⟨c, stored, lies⟩ := done_arrayPut (forElement_keeps (Store.array_lies inside) element) put
  obtain ⟨-, packs, others⟩ := Cells.under_put fits' inside stored
  have length : c.length = ((s.readied a j).array a).length := Cells.length_put stored
  have now : (t.array a).cells = c := by rw [Store.array, lies, Option.getD_some]
  rw [now]
  refine ⟨j, _, rfl, Store.converts_of_forElement fits element packs, Cells.get?_eq_under _ (length.symm ▸ inside), fun i x ne here => ?_⟩
  have here := still i x here
  have there := Cells.lt_of_get? here
  rw [Cells.get?_eq_under (s.array a).element there] at here
  rwa [Cells.get?_eq_under (s.array a).element (length.symm ▸ there), others i ne]

/-- The json data of a value is put into memory beside what is there. -/
theorem done_toNode {x : Node} {u : Store} (whole : s.Whole) (data : (toNode v).run.run s = (.ok x, u)) :
    s.Grew u ∧ u.Whole ∧ x.In u ∧ s.Later (fun _ => False) u := by
  obtain ⟨course, whole', given⟩ := safe_toNode v whole
  rw [data] at course whole' given
  exact ⟨course.grew, whole', given x rfl, ((makes_toNode v).adds data).1⟩

/-- **Elements are written.** A write to an element that succeeds leaves all slots but its own as they were, and in its own slot
what is stored for the value. -/
theorem writeIndex_stored (whole : s.Whole) (fits : ∀ a, c = .array a → (s.array a).cells.FitsFor (s.array a).element)
    (run : (writeIndex c k v).run.run s = (.ok (), t)) : s.Stored c k v t ∧ s.KeepsBut (s.Alters c k) t := by
  cases c with
  | array a =>
    obtain ⟨i, u, index, set⟩ := Signature.run_bind_ok run
    obtain ⟨rfl, n, number, rfl⟩ := done_placeOf index
    obtain ⟨j, w, here, converts, lies, others⟩ := arraySet_stored (fits a rfl) set
    refine ⟨.element number here converts lies, (laterBut_arraySet set).keepsBut (fun c same => ⟨a, same.symm⟩) ?_⟩
    rintro _ ⟨⟩ i x lies kept
    exact others i x (fun same => kept (same ▸ .element number here)) lies
  | json b =>
    have there := whole.box b
    unfold writeIndex at run
    rw [run_get_bind] at run
    split at run
    · rename_i o box
      obtain ⟨key, u, keyed, set⟩ := Signature.run_bind_ok run
      obtain ⟨rfl, rfl⟩ := done_keyOf keyed
      obtain ⟨x, u', data, set⟩ := Signature.run_bind_ok set
      obtain ⟨grew, -, -, later⟩ := done_toNode whole data
      rw [box] at there
      have inside : o < u'.objects.size := there.grew grew
      have same : u'.box b = u.box b := by
        rw [Store.box, later.keeps.boxes b _ (Store.box_lies box rfl), Option.getD_some, box]
      have place : (u.box b).place? (.key key) = some (.entry o key) := by
        rw [box]
        rfl
      cases set
      refine ⟨.place rfl ((congrArg (·.place? (.key key)) same).trans place) data ?_ fun _ => same, ?_⟩
      · rw [Store.at?_insert inside, if_pos rfl]
      · exact later.keepsBut.trans (Store.keepsBut_insert inside (.place rfl (.inl place)))
    · rename_i buffer len box
      obtain ⟨i, u, index, run⟩ := Signature.run_bind_ok run
      obtain ⟨rfl, n, number, rfl⟩ := done_placeOf index
      have lies := Store.box_lies box rfl
      have step := Value.step?_of_toInt64? number
      rw [box] at there
      split at run
      · rename_i atEnd
        obtain ⟨x, u', data, run⟩ := Signature.run_bind_ok run
        obtain ⟨grew, whole', valid, later⟩ := done_toNode whole data
        obtain ⟨m, u'', appended, run⟩ := Signature.run_bind_ok run
        cases (run_append buffer len x u').symm.trans appended
        cases run
        have there' := there.grew grew
        have longer := Store.lengthens_longer whole' there' valid
        have behind : (u.box b).behind? (.index n.toInt) = some (.item buffer len) := by
          rw [box, atEnd]
          exact if_pos rfl
        refine ⟨.place step ?_ data ((Store.at?_boxes ..).trans longer.last) fun none => ?_, later.keepsBut.trans ?_⟩
        · have inside : b < u'.boxes.size := (Array.getElem?_eq_some_iff.mp (later.keeps.boxes b _ lies)).1
          have now : Store.box { (u'.longer buffer len x).2 with
              boxes := (u'.longer buffer len x).2.boxes.setIfInBounds b (.list (u'.longer buffer len x).1 (len + 1)) } b =
              .list (u'.longer buffer len x).1 (len + 1) := by
            rw [Store.box, Array.getElem?_setIfInBounds_self_of_lt (by rwa [longer.only]), Option.getD_some]
          exact (congrArg (·.place? (.index n.toInt)) now).trans (atEnd ▸ Node.place?_item (Nat.lt_succ_self len))
        · cases behind.symm.trans none
        · exact Store.keepsBut_longer whole' there' valid (.place step (.inr behind)) (.box step behind) _
      split at run
      · rename_i inside
        obtain ⟨x, u', data, run⟩ := Signature.run_bind_ok run
        obtain ⟨grew, -, -, later⟩ := done_toNode whole data
        rw [Bool.and_eq_true, decide_eq_true_eq, decide_eq_true_eq] at inside
        have room : n.toInt.toNat < (u'.buffer buffer).size := Nat.lt_of_lt_of_le (by omega) (there.grew grew).2
        have same : u'.box b = u.box b := by
          rw [Store.box, later.keeps.boxes b _ lies, Option.getD_some, box]
        have place : (u.box b).place? (.index n.toInt) = some (.item buffer n.toInt.toNat) := by
          rw [box]
          exact if_pos inside
        cases run
        refine ⟨.place step ((congrArg (·.place? (.index n.toInt)) same).trans place) data ?_ fun _ => same, ?_⟩
        · rw [Store.at?_setPlace room, if_pos rfl]
        · exact later.keepsBut.trans (Store.keepsBut_setPlace room (.place step (.inl place)))
      · cases run
    · cases run
  | _ => cases run

end Eval

end Writing

end ScriptEngine
