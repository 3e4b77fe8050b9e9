import ScriptEngine.Proofs.MemberPaths
import ScriptEngine.Proofs.WholeMemory
import ScriptEngine.Store.Path
/-!
# The places that paths lead through

A step of a path leads from json data to a place of memory: to an entry of an object, or to a place of the buffer that a list
lies in. What a path reads is settled by the places that it leads through. So a write elsewhere leaves it alone, and two paths
can be told apart by the places they have in common.
-/

namespace ScriptEngine

/-- A place of memory that holds json data: what lies under a key of an object, or a place of a buffer. -/
inductive Place where
  | entry (object : Nat) (key : Text)
  | item (buffer i : Nat)
deriving DecidableEq

/-- A place of an object or a buffer that lies in memory. -/
def Place.In (s : Store) : Place → Prop
  | entry a _ => a < s.objects.size
  | item b _ => b < s.buffers.size

theorem Place.In.grew {s t : Store} {p : Place} (there : p.In s) (h : s.Grew t) : p.In t := by
  cases p with
  | entry a k => exact Nat.lt_of_lt_of_le there h.objects
  | item b i => exact Nat.lt_of_lt_of_le there h.buffers

/-- The place that a step names in json data. A key names a place of every object, a number only those of the list. -/
def Node.place? : Node → Path.Step → Option Place
  | .object a, .key k => some (.entry a k)
  | .list b len, .index i => if 0 ≤ i ∧ i < len then some (.item b i.toNat) else none
  | _, _ => none

/-- The place that a step names just behind a list. -/
def Node.behind? : Node → Path.Step → Option Place
  | .list b len, .index i => if i = len then some (.item b len) else none
  | _, _ => none

namespace Store

variable {s t : Store} {n m : Node} {p : Place} {step : Path.Step} {q rest steps steps' : List Path.Step} {k : Nat}

/-- What lies at a place. -/
def at? (s : Store) : Place → Option Node
  | .entry a k => Json.lookup k (s.object a)
  | .item b i => (s.buffer b)[i]?

/-- A step leads to what lies at its place. -/
theorem stepInto?_eq (s : Store) (n : Node) (step : Path.Step) : s.stepInto? n step = (n.place? step).bind s.at? := by
  cases step with
  | key k => cases n <;> rfl
  | index i =>
    cases n with
    | list b len =>
      rw [stepInto?, Node.place?]
      by_cases low : i < 0
      · rw [if_pos low, if_neg fun h => absurd h.1 (Int.not_le.mpr low)]
        rfl
      rw [if_neg low, items, List.getElem?_take]
      by_cases high : i.toNat < len
      · rw [if_pos high, if_pos ⟨by omega, by omega⟩, Option.bind_some, at?, Array.getElem?_toList]
      · rw [if_neg high, if_neg fun h => high (by omega)]
        rfl
    | _ => rfl

theorem follow?_cons : s.follow? n (step :: rest) = (s.stepInto? n step).bind (s.follow? · rest) := rfl

/-- Steps that go on lead from null to nothing. -/
theorem follow?_null (goes : steps ≠ []) : s.follow? .null steps = none := by
  obtain - | ⟨step, rest⟩ := steps
  · exact absurd rfl goes
  · cases step <;> rfl

theorem follow?_append : s.follow? n (steps ++ rest) = (s.follow? n steps).bind (s.follow? · rest) := by
  induction steps generalizing n with
  | nil => rfl
  | cons step steps ih =>
    rw [List.cons_append, follow?_cons, follow?_cons, Option.bind_assoc]
    exact congrArg _ (funext fun m => ih)

/-- The places that steps lead through, as far as they go. The last of them may be a key that is not there. -/
def route (s : Store) : Node → List Path.Step → List Place
  | _, [] => []
  | n, step :: rest =>
    match n.place? step with
    | some p => p :: route s ((s.at? p).getD .null) rest
    | none => []

/-- The place just behind a list that steps lead to, where the list would get longer. -/
def spare? (s : Store) : Node → List Path.Step → Option Place
  | _, [] => none
  | n, step :: rest =>
    match n.place? step with
    | some p => spare? s ((s.at? p).getD .null) rest
    | none => n.behind? step

/-- The places that steps lead through, and the place just behind a list that they lead to. -/
def passed (s : Store) (n : Node) (steps : List Path.Step) : List Place := s.route n steps ++ (s.spare? n steps).toList

section Route

variable (rest)

theorem route_some (h : n.place? step = some p) : s.route n (step :: rest) = p :: s.route ((s.at? p).getD .null) rest := by
  rw [route, h]

theorem route_none (h : n.place? step = none) : s.route n (step :: rest) = [] := by
  rw [route, h]

theorem spare?_some (h : n.place? step = some p) : s.spare? n (step :: rest) = s.spare? ((s.at? p).getD .null) rest := by
  rw [spare?, h]

theorem spare?_none (h : n.place? step = none) : s.spare? n (step :: rest) = n.behind? step := by
  rw [spare?, h]

theorem passed_some (h : n.place? step = some p) : s.passed n (step :: rest) = p :: s.passed ((s.at? p).getD .null) rest := by
  rw [passed, route_some rest h, spare?_some rest h, List.cons_append]
  rfl

theorem passed_none (h : n.place? step = none) : s.passed n (step :: rest) = (n.behind? step).toList := by
  rw [passed, route_none rest h, spare?_none rest h, List.nil_append]

end Route

/-- Null has no places. -/
theorem route_null : s.route .null steps = [] := by
  obtain - | ⟨step, rest⟩ := steps
  · rfl
  · exact route_none rest (by cases step <;> rfl)

theorem spare?_null : s.spare? .null steps = none := by
  obtain - | ⟨step, rest⟩ := steps
  · rfl
  · cases step <;> rfl

theorem passed_null : s.passed .null steps = [] := by
  rw [passed, route_null, spare?_null]
  rfl

/-- Steps read the same, through the same places, where all their places hold the same. -/
theorem follow?_congr (same : ∀ p ∈ s.route n steps, t.at? p = s.at? p) :
    t.follow? n steps = s.follow? n steps ∧ t.route n steps = s.route n steps := by
  induction steps generalizing n with
  | nil => exact ⟨rfl, rfl⟩
  | cons step rest ih =>
    rw [follow?_cons, follow?_cons, stepInto?_eq, stepInto?_eq]
    cases place : n.place? step with
    | none => exact ⟨rfl, by rw [route_none rest place, route_none rest place]⟩
    | some p =>
      rw [route_some rest place] at same ⊢
      have here := same p List.mem_cons_self
      rw [route_some rest place, Option.bind_some, Option.bind_some, here]
      obtain ⟨reads, places⟩ := ih fun q hq => same q (List.mem_cons_of_mem _ hq)
      refine ⟨?_, congrArg _ places⟩
      cases lies : s.at? p with
      | none => rfl
      | some m =>
        rw [lies, Option.getD_some] at reads
        exact reads

/-- A place that a step names in data in memory lies in memory. -/
theorem place_in (there : n.In s) (h : n.place? step = some p) : p.In s := by
  cases step with
  | key k =>
    cases n with
    | object a =>
      cases h
      exact there
    | _ => cases h
  | index i =>
    cases n with
    | list b len =>
      rw [Node.place?] at h
      split at h
      · cases h
        exact there.1
      · cases h
    | _ => cases h

/-- What lies at a place of whole memory is in memory. -/
theorem Whole.at? (h : s.Whole) (p : Place) : ((s.at? p).getD .null).In s := by
  cases lies : s.at? p with
  | none => trivial
  | some n =>
    cases p with
    | entry a k => exact h.object (Json.mem_of_lookup lies)
    | item b i => exact h.buffer (Array.mem_of_getElem? lies)

/-- Steps lead through places in memory. -/
theorem route_in (whole : s.Whole) (there : n.In s) : ∀ p ∈ s.route n steps, p.In s := by
  induction steps generalizing n with
  | nil => nofun
  | cons step rest ih =>
    cases place : n.place? step with
    | none =>
      rw [route_none rest place]
      nofun
    | some p =>
      rw [route_some rest place]
      intro q hq
      obtain rfl | hq := List.mem_cons.mp hq
      · exact place_in there place
      · exact ih (whole.at? p) q hq

/-- Steps that begin alike begin with the same places. -/
theorem route_of_isPrefix (h : (s.route n q)[k]? = some p) (alike : q.take (k + 1) <+: steps) : (s.route n steps)[k]? = some p := by
  induction k generalizing n q steps with
  | zero =>
    obtain - | ⟨step, q⟩ := q
    · cases h
    obtain ⟨rest, rfl⟩ := alike
    rw [List.take_succ_cons, List.take_zero, List.singleton_append]
    cases place : n.place? step with
    | none =>
      rw [route_none q place] at h
      cases h
    | some p' =>
      rw [route_some q place] at h
      rw [route_some _ place]
      exact h
  | succ k ih =>
    obtain - | ⟨step, q⟩ := q
    · cases h
    rw [List.take_succ_cons] at alike
    obtain ⟨rest, rfl⟩ := alike
    rw [List.cons_append]
    cases place : n.place? step with
    | none =>
      rw [route_none q place] at h
      cases h
    | some p' =>
      rw [route_some q place] at h
      rw [route_some _ place]
      exact ih h (List.prefix_append _ _)

/-- Steps meet a place that a write along others may change only as far as they are the same steps. -/
def Aside (s : Store) (n : Node) (steps q : List Path.Step) : Prop :=
  ∀ k p, (s.route n q)[k]? = some p → p ∈ s.passed n steps → q.take (k + 1) <+: steps

/-- What holds of steps holds of what follows the first of them, which is the same. -/
theorem Aside.tail (h : s.Aside n (step :: rest) (step :: q)) (place : n.place? step = some p) :
    s.Aside ((s.at? p).getD .null) rest q := by
  intro k p' here passes
  have alike := h (k + 1) p' (by rw [route_some q place]; exact here)
    (by rw [passed_some rest place]; exact List.mem_cons_of_mem _ passes)
  exact (List.prefix_cons_inj step).mp alike

/-! ## Writes to places -/

section Writes

variable {a b i : Nat} {x : Node} {k : Text} {es : List (Text × Node)} {places : Array Node}

/-- A place of a buffer that is written holds what was written, and all other places what they held. -/
theorem at?_setPlace (inside : i < (s.buffer b).size) (p : Place) :
    Store.at? { s with buffers := s.buffers.modify b fun old => old.setIfInBounds i x } p =
      if p = .item b i then some x else s.at? p := by
  cases p with
  | entry a k => rfl
  | item b' i' =>
    have there : b < s.buffers.size := by
      by_contra out
      rw [buffer, Array.getElem?_eq_none (Nat.not_lt.mp out)] at inside
      cases inside
    rw [at?, at?, buffer_modify]
    by_cases same : b = b'
    · subst same
      rw [if_pos ⟨rfl, there⟩, Array.getElem?_setIfInBounds]
      by_cases place : i = i'
      · subst place
        rw [if_pos rfl, if_pos rfl, if_pos inside]
      · rw [if_neg place, if_neg fun h => place (Place.item.inj h).2.symm]
    · rw [if_neg fun h => same h.1, if_neg fun h => same (Place.item.inj h).1.symm]

theorem object_setIfInBounds (inside : a < s.objects.size) (a' : Nat) :
    Store.object { s with objects := s.objects.setIfInBounds a es } a' = if a' = a then es else s.object a' := by
  rw [object, object, Array.getElem?_setIfInBounds]
  by_cases same : a = a'
  · subst same
    rw [if_pos rfl, if_pos rfl, if_pos inside, Option.getD_some]
  · rw [if_neg same, if_neg (Ne.symm same)]

/-- A key of an object that is set holds what was set, and all other places what they held. -/
theorem at?_insert (inside : a < s.objects.size) (p : Place) :
    Store.at? { s with objects := s.objects.setIfInBounds a (Json.insert k x (s.object a)) } p =
      if p = .entry a k then some x else s.at? p := by
  cases p with
  | item b i => rfl
  | entry a' k' =>
    rw [at?, at?, object_setIfInBounds inside]
    by_cases same : a' = a
    · subst same
      rw [if_pos rfl]
      by_cases key : k' = k
      · subst key
        rw [if_pos rfl, Json.lookup_insert_self]
      · rw [if_neg fun h => key (Place.entry.inj h).2, Json.lookup_insert_ne key]
    · rw [if_neg same, if_neg fun h => same (Place.entry.inj h).1]

/-- A new object leaves all places that there are. -/
theorem at?_pushObject (old : p.In s) : Store.at? { s with objects := s.objects.push es } p = s.at? p := by
  cases p with
  | item b i => rfl
  | entry a k =>
    have inside : a < s.objects.size := old
    rw [at?, at?, object, object, Array.getElem?_push_lt inside, ← Array.getElem?_eq_getElem inside]

/-- So does a new buffer. -/
theorem at?_pushBuffer (old : p.In s) : Store.at? { s with buffers := s.buffers.push places } p = s.at? p := by
  cases p with
  | entry a k => rfl
  | item b i =>
    have inside : b < s.buffers.size := old
    rw [at?, at?, buffer, buffer, Array.getElem?_push_lt inside, ← Array.getElem?_eq_getElem inside]

end Writes

end Store

end ScriptEngine
