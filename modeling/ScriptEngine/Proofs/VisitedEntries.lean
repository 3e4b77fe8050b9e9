import Mathlib.Data.List.Perm.Basic
import ScriptEngine.Proofs.MemberWrites
import ScriptEngine.Proofs.ReadValues
/-!
# Entries that are visited in any order

A name that is no key of an object stands for the first key visited that agrees with it but for the case of letters. Entries need
not be visited in the order in which they are kept, and not in the same order each time. Which key a name stands for depends on
the order only when several keys agree with it and it is none of them. Where that is not so along a path, reads and writes at the
path are the same for all orders.
-/

namespace ScriptEngine

/-! ## Orders of visits -/

section Orders

variable {α β : Type} [Inhabited α] [Inhabited β] {places : List Nat} {es : List α} {os : List β} {R : α → β → Prop}

/-- What lies at places of a list, as they are gone through in an order. -/
def visited (places : List Nat) (es : List α) : List α := places.map fun i => es.getD i default

/-- What was given at places that were gone through in an order, each at its place. -/
def arranged (places : List Nat) (given : List α) : List α :=
  (List.range places.length).map fun i => given.getD (places.idxOf i) default

/-- The order in which things are kept is one to visit them in. -/
theorem visited_range (es : List α) : visited (List.range es.length) es = es := by
  refine List.ext_getElem (by simp [visited]) fun i _ inside => ?_
  simp only [visited, List.getElem_map, List.getElem_range]
  exact List.getD_eq_getElem _ _ inside

/-- A visit misses nothing and visits nothing twice. -/
theorem visited_perm (perm : places.Perm (List.range es.length)) : (visited places es).Perm es := by
  have same : (visited places es).Perm (visited (List.range es.length) es) := perm.map _
  rwa [visited_range] at same

/-- Lists that correspond do so when both are visited in one order. -/
theorem forall₂_visited (all : List.Forall₂ R es os) (perm : places.Perm (List.range es.length)) :
    List.Forall₂ R (visited places es) (visited places os) := by
  rw [visited, visited, List.forall₂_map_left_iff, List.forall₂_map_right_iff]
  refine List.forall₂_same.mpr fun i here => ?_
  have inside : i < es.length := List.mem_range.mp (perm.mem_iff.mp here)
  have inside' : i < os.length := all.length_eq ▸ inside
  rw [List.getD_eq_getElem _ _ inside, List.getD_eq_getElem _ _ inside']
  exact (List.forall₂_iff_get.mp all).2 i inside inside'

/-- What corresponds to a list as it is visited corresponds to the list when it is back in place. -/
theorem forall₂_arranged {given : List β} (perm : places.Perm (List.range es.length))
    (all : List.Forall₂ R (visited places es) given) : List.Forall₂ R es (arranged places given) := by
  have size : places.length = es.length := by rw [perm.length_eq, List.length_range]
  have given_size : places.length = given.length := by rw [← all.length_eq, visited, List.length_map]
  refine forall₂_of_each (by rw [arranged, List.length_map, List.length_range, size]) fun i e g he hg => ?_
  obtain ⟨inside, rfl⟩ := List.getElem?_eq_some_iff.mp he
  have there : i ∈ places := perm.mem_iff.mpr (List.mem_range.mpr inside)
  have visit : places.idxOf i < places.length := List.idxOf_lt_length_of_mem there
  have lies : (visited places es)[places.idxOf i]? = some es[i] := by
    rw [visited, List.getElem?_map, List.getElem?_eq_getElem visit, List.getElem_idxOf visit, Option.map_some,
      List.getD_eq_getElem _ _ inside]
  have back : given[places.idxOf i]? = some g := by
    rw [List.getElem?_eq_getElem (given_size ▸ visit), ← List.getD_eq_getElem _ default (given_size ▸ visit)]
    rw [arranged, List.getElem?_map, List.getElem?_range (size ▸ inside)] at hg
    exact hg
  exact each_of_forall₂ all _ _ _ lies back

/-- What is given in the order in which things are kept is in place. -/
theorem arranged_range (given : List α) : arranged (List.range given.length) given = given := by
  have same : List.Forall₂ Eq given (arranged (List.range given.length) given) :=
    forall₂_arranged (.refl _) (by rw [visited_range]; exact List.forall₂_eq_eq_eq ▸ rfl)
  exact (List.forall₂_eq_eq_eq ▸ same : given = _).symm

end Orders

/-- How the entries of objects are visited. At each step and in each memory the places of the entries are gone through in an
order of their own. -/
structure Visits where
  places : Nat → Store → List (Text × Node) → List Nat
  perm : ∀ step s es, (places step s es).Perm (List.range es.length)

namespace Visits

variable {step : Nat} {s : Store} {es : List (Text × Node)}

/-- Entries in the order in which they are visited. -/
def order (visits : Visits) (step : Nat) (s : Store) (es : List (Text × Node)) : List (Text × Node) :=
  visited (visits.places step s es) es

/-- The visits that go through entries in the order in which they are kept. -/
def stored : Visits := ⟨fun _ _ es => List.range es.length, fun _ _ _ => .refl _⟩

/-- The visits that go through entries backwards. -/
def reversed : Visits := ⟨fun _ _ es => (List.range es.length).reverse, fun _ _ _ => List.reverse_perm _⟩

theorem order_perm (visits : Visits) : (visits.order step s es).Perm es := visited_perm (visits.perm step s es)

@[simp]
theorem order_stored : stored.order step s es = es := visited_range es

end Visits

/-! ## Names -/

section Names

variable {α : Type} {name : Text} {es es' : List (Text × α)}

/-- A name is clear among entries: it is a key itself, or all keys that agree with it are one. -/
def ClearIn (name : Text) (es : List (Text × α)) : Prop :=
  (∃ e ∈ es, e.1 = name) ∨
    ∀ e ∈ es, ∀ e' ∈ es, e.1.equalFold name = true → e'.1.equalFold name = true → e.1 = e'.1

theorem clearIn_single (few : es.length ≤ 1) : ClearIn name es := by
  refine .inr fun e he e' he' _ _ => ?_
  cases es with
  | nil => cases he
  | cons x rest =>
    obtain rfl : rest = [] := List.eq_nil_of_length_eq_zero (Nat.le_zero.mp (Nat.le_of_succ_le_succ few))
    rw [List.mem_singleton.mp he, List.mem_singleton.mp he']

/-- A name that is a key stands for it. -/
theorem findKey_exact (exact : ∃ e ∈ es, e.1 = name) : findKey name es = some name := by
  obtain ⟨e, he, rfl⟩ := exact
  rw [findKey, if_pos (List.any_eq_true.mpr ⟨e, he, decide_eq_true rfl⟩)]

/-- A name that is no key stands for the first key that agrees with it. -/
theorem findKey_first {e : Text × α} (other : ∀ x ∈ e :: es, x.1 ≠ name) (named : e.1.equalFold name = true) :
    findKey name (e :: es) = some e.1 := by
  have none : ¬((e :: es).any (·.1 = name)) = true := by
    rw [List.any_eq_true]
    rintro ⟨x, hx, same⟩
    exact other x hx (of_decide_eq_true same)
  rw [findKey, if_neg none, List.find?_cons_of_pos (by exact named), Option.map_some]

/-- A name that is clear stands for the same key in every order. -/
theorem ClearIn.findKey_perm (clear : ClearIn name es) (perm : es'.Perm es) : findKey name es' = findKey name es := by
  obtain exact | alone := clear
  · obtain ⟨e, he, same⟩ := exact
    rw [findKey_exact ⟨e, he, same⟩, findKey_exact ⟨e, perm.mem_iff.mpr he, same⟩]
  · cases found : findKey name es with
    | none =>
      rw [findKey_eq_none] at found ⊢
      exact fun e he => found e (perm.mem_iff.mp he)
    | some key =>
      obtain ⟨e, he, rfl⟩ := findKey_mem found
      have named := findKey_fold found
      exact findKey_eq_some ⟨e, perm.mem_iff.mpr he, rfl⟩ named fun e' he' named' =>
        alone e' (perm.mem_iff.mp he') e he named' named

/-- A name stands for the same key in every order exactly if it is clear. -/
theorem findKey_orders : (∀ es', es'.Perm es → findKey name es' = findKey name es) ↔ ClearIn name es := by
  refine ⟨fun same => ?_, fun clear _ perm => clear.findKey_perm perm⟩
  by_cases exact : ∃ e ∈ es, e.1 = name
  · exact .inl exact
  · refine .inr fun e he e' he' named named' => ?_
    -- an order in which an entry comes first finds its key
    have first {x : Text × α} (hx : x ∈ es) (named : x.1.equalFold name = true) : some x.1 = findKey name es := by
      obtain ⟨before, after, split⟩ := List.append_of_mem hx
      have perm : (x :: (before ++ after)).Perm es := by
        rw [split]
        exact List.perm_middle.symm
      rw [← same _ perm, findKey_first (fun y hy eq => exact ⟨y, perm.mem_iff.mp hy, eq⟩) named]
    exact Option.some.inj ((first he named).trans (first he' named').symm)

/-- A name that stands for no key is none itself. -/
theorem lookup_of_absent (absent : findKey name es = none) : Json.lookup name es = none := by
  rw [← Option.not_isSome_iff_eq_none, Json.lookup_isSome]
  rintro ⟨e, he, rfl⟩
  have other := findKey_eq_none.mp absent e he
  rw [Text.equalFold_refl] at other
  cases other

end Names

namespace Store

/-- Each name on a path is clear in the object that it is looked up in. -/
def ClearAlong (s : Store) : List Text → Node → Prop
  | [], _ => True
  | name :: rest, .object a => ClearIn name (s.object a) ∧
      ∀ key, findKey name (s.object a) = some key → s.ClearAlong rest ((Json.lookup key (s.object a)).getD .null)
  | _ :: _, _ => True

/-- An object that was just made for a name holds nothing, or only itself when its address was in use before. -/
def Blank (s : Store) (a : Nat) : Prop := s.object a = [] ∨ ∃ key, s.object a = [(key, .object a)]

/-- Every path is clear from an object that was just made. -/
theorem Blank.clearAlong {s : Store} {a : Nat} (blank : s.Blank a) (names : List Text) : s.ClearAlong names (.object a) := by
  induction names with
  | nil => exact trivial
  | cons name rest ih =>
    obtain empty | ⟨k, single⟩ := blank
    · refine ⟨empty ▸ clearIn_single (Nat.zero_le 1), fun key found => ?_⟩
      rw [empty] at found
      cases found
    · refine ⟨single ▸ clearIn_single (Nat.le_refl 1), fun key found => ?_⟩
      rw [single] at found ⊢
      obtain ⟨e, he, rfl⟩ := findKey_mem found
      rw [List.mem_singleton.mp he, Json.lookup, if_pos rfl, Option.getD_some]
      exact ih

end Store

/-- What is done with a result is done alike when it is for the result that there is. -/
theorem Exec.bind_congr_done {α β : Type} {x : Exec α} {f g : α → Exec β} {m : Machine}
    (same : ∀ a k, x m = .done a k → f a k = g a k) : (x >>= f) m = (x >>= g) m := by
  change andThen x f m = andThen x g m
  unfold andThen
  split
  · exact same _ _ ‹_›
  all_goals rfl

/-- A computation on memory in two parts. -/
theorem Exec.lift_bind {α β : Type} (x : StoreM α) (f : α → StoreM β) :
    (liftM (x >>= f) : Exec β) = liftM x >>= fun a => liftM (f a) := by
  funext m
  obtain ⟨r, t, run⟩ : ∃ r t, x.run.run m.store = (r, t) := ⟨_, _, rfl⟩
  cases r with
  | error e => rw [Exec.bind_of_failed (Exec.lift_error run), Exec.lift_error (StoreM.bind_of_error run)]
  | ok a =>
    have goes : (x >>= f).run.run m.store = (f a).run.run t := StoreM.bind_of_ok run
    rw [Exec.bind_of_done (Exec.lift_ok run)]
    obtain ⟨r, u, rest⟩ : ∃ r u, (f a).run.run t = (r, u) := ⟨_, _, rfl⟩
    cases r with
    | error e => exact (Exec.lift_error (goes.trans rest)).trans (Exec.lift_error (m := { m with store := t }) rest).symm
    | ok b => exact (Exec.lift_ok (goes.trans rest)).trans (Exec.lift_ok (m := { m with store := t }) rest).symm

namespace Eval

/-! ## Members -/

variable (visits : ScriptEngine.Visits) (base : Text) (path : List Text)

/-- Follows the names of a member, each looked up in entries as they are visited. -/
def followMemberBy (s : Store) : Nat → List Text → Node → Except Fault (Option Node)
  | _, [], n => .ok (some n)
  | done, name :: rest, n =>
    match n with
    | .null => .ok none
    | .object a =>
      let entries := s.object a
      match findKey name (visits.order done s entries) with
      | none => .ok none
      | some key => followMemberBy s (done + 1) rest ((Json.lookup key entries).getD .null)
    | _ => .error (notObject (memberName base path done))

/-- The value of a member, its names looked up in entries as they are visited. -/
def readMemberBy (line : Nat) : Exec Value :=
  Exec.atLine line do
    let b ← memberBase base path
    let s := (← get).store
    match ← Exec.ofExcept (followMemberBy visits base path s 0 path (s.box b)) with
    | some n => StoreM.ofNode n
    | none => pure .null

/-- Writes a node at a path below an object, names looked up in entries as they are visited. -/
def setBelowBy (v : Node) : Nat → List Text → Nat → StoreM Unit
  | _, [], _ => pure ()
  | done, [name], a => do
    let s ← get
    let entries := s.object a
    StoreM.setObject a (Json.insert ((findKey name (visits.order done s entries)).getD name) v entries)
  | done, name :: rest, a => do
    let s ← get
    let entries := s.object a
    let key := (findKey name (visits.order done s entries)).getD name
    match (Json.lookup key entries).getD .null with
    | .object next => setBelowBy v (done + 1) rest next
    | .null =>
      match ← StoreM.newObject [] with
      | .object next =>
        StoreM.setObject a (Json.insert key (.object next) entries)
        setBelowBy v (done + 1) rest next
      | _ => pure ()
    | _ => throw (notObject (memberName base path (done + 1)))

variable {visits base path}
variable {s t : Store} {names : List Text} {n : Node} {a done : Nat}

theorem followMemberBy_stored (done : Nat) (n : Node) :
    followMemberBy .stored base path s done names n = followMember base path s done names n := by
  induction names generalizing done n with
  | nil => rfl
  | cons name rest ih =>
    cases n with
    | object a =>
      rw [followMemberBy, followMember, Visits.order_stored]
      cases findKey name (s.object a) with
      | none => rfl
      | some key => exact ih _ _
    | _ => rfl

/-- With the entries visited in the order of their keys a member is read as it is. -/
theorem readMemberBy_stored (line : Nat) : readMemberBy .stored base path line = readMember line base path := by
  unfold readMemberBy readMember
  refine congrArg (Exec.atLine line) (bind_congr fun b => bind_congr fun m => ?_)
  dsimp only
  rewrite [followMemberBy_stored]
  rfl

theorem setBelowBy_stored (v : Node) (done a : Nat) :
    setBelowBy .stored base path v done names a = setBelow base path v done names a := by
  induction names generalizing done a with
  | nil => rfl
  | cons name rest ih =>
    cases rest with
    | nil => simp only [setBelowBy, setBelow, Visits.order_stored]
    | cons second rest =>
      rw [setBelowBy, setBelow]
      · refine bind_congr fun t => ?_
        dsimp only
        rewrite [Visits.order_stored]
        cases (Json.lookup ((findKey name (t.object a)).getD name) (t.object a)).getD .null with
        | object next => exact ih ..
        | null =>
          refine bind_congr fun made => ?_
          cases made with
          | object next => exact bind_congr fun _ => ih ..
          | _ => rfl
        | _ => rfl
      all_goals exact List.cons_ne_nil _ _

/-- Along a clear path a member is followed to the same data in every order. -/
theorem followMemberBy_clear (clear : s.ClearAlong names n) :
    followMemberBy visits base path s done names n = followMember base path s done names n := by
  induction names generalizing done n with
  | nil => rfl
  | cons name rest ih =>
    cases n with
    | object a =>
      obtain ⟨here, further⟩ := clear
      rw [followMemberBy, followMember, here.findKey_perm visits.order_perm]
      cases found : findKey name (s.object a) with
      | none => rfl
      | some key => exact ih (further key found)
    | _ => rfl

/-- Along a clear path a member is read in every order as it is in that of the keys. -/
theorem readMemberBy_clear {m : Machine} {line : Nat}
    (clear : ∀ b k, memberBase base path m = .done b k → k.store.ClearAlong path (k.store.box b)) :
    readMemberBy visits base path line m = readMember line base path m := by
  refine Exec.atLine_congr (Exec.bind_congr_done fun b k found => ?_)
  rewrite [Exec.run_get_bind, Exec.run_get_bind, followMemberBy_clear (clear b k found)]
  rfl

/-- The object that is made for a name that is not there is blank. -/
theorem blank_made (s : Store) (a : Nat) (key : Text) :
    Store.Blank { s with objects := (s.objects.push []).setIfInBounds a (Json.insert key (.object s.objects.size) (s.object a)) }
      s.objects.size := by
  by_cases here : a = s.objects.size
  · subst here
    refine .inr ⟨key, ?_⟩
    simp [Store.object, Json.insert]
  · refine .inl ?_
    simp [Store.object, here]

/-- Along a clear path data is written in every order as it is in that of the keys. -/
theorem setBelowBy_clear (v : Node) (clear : s.ClearAlong names (.object a)) :
    (setBelowBy visits base path v done names a).run.run s = (setBelow base path v done names a).run.run s := by
  induction names generalizing done a s with
  | nil => rfl
  | cons name rest ih =>
    obtain ⟨here, further⟩ := clear
    have same : findKey name (visits.order done s (s.object a)) = findKey name (s.object a) := here.findKey_perm visits.order_perm
    cases rest with
    | nil =>
      rw [setBelowBy, setBelow, StoreM.run_get_bind, StoreM.run_get_bind]
      dsimp only
      rw [same]
    | cons second rest =>
      rw [setBelowBy, setBelow, StoreM.run_get_bind, StoreM.run_get_bind]
      · dsimp only
        rw [same]
        cases lies : (Json.lookup ((findKey name (s.object a)).getD name) (s.object a)).getD .null with
        | object next =>
          refine ih ?_
          cases found : findKey name (s.object a) with
          | some key =>
            rw [found, Option.getD_some] at lies
            exact lies ▸ further key found
          | none =>
            rw [found, Option.getD_none, lookup_of_absent found] at lies
            cases lies
        -- below an object that was just made nothing is there to agree with
        | null => exact ih ((blank_made s a _).clearAlong _)
        | _ => rfl
      all_goals exact List.cons_ne_nil _ _

end Eval

end ScriptEngine
