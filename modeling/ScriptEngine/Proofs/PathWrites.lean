import ScriptEngine.Proofs.JsonPlaces
import ScriptEngine.Proofs.SafeData
/-!
# Writes at paths

A write at a path goes down along its steps, makes what is missing, and on the way back puts each container into the place that
the step led to. So it changes places that the path passes, and no others. When the path passes no place twice it reads what was
written; and other paths read what they did unless they meet one of its places in another way. A write that fails has changed
nothing, except perhaps for a place behind the end of a list.
-/

namespace ScriptEngine

/-- The places of a new buffer for a list with one more item. -/
def Store.grownPlaces (s : Store) (b len : Nat) (x : Node) : Array Node :=
  ((s.buffer b).extract 0 len).push x ++ Array.replicate (s.platform.spare len) Node.null

/-- Where a list with one more item lies, and memory with it: in its buffer if there is a place, and otherwise in a new one. -/
def Store.longer (s : Store) (b len : Nat) (x : Node) : Nat × Store :=
  if len < (s.buffer b).size then (b, { s with buffers := s.buffers.modify b fun old => old.setIfInBounds len x })
  else (s.buffers.size, { s with buffers := s.buffers.push (s.grownPlaces b len x) })

namespace StoreM

variable {s t : Store} {n v : Node} {a b len i : Nat} {k : Text} {rest steps : List Path.Step}

/-- Writes a node behind some steps from a place of a list. -/
def setItem (b len i : Nat) (rest : List Path.Step) (v : Node) : StoreM Node := do
  let child := ((← get).buffer b)[i]?.getD .null
  let child ← setAlong child rest v
  setPlace b i child
  pure (.list b len)

/-- Writes a node behind some steps from a key of an object. -/
theorem run_setAlong_object : (setAlong (.object a) (.key k :: rest) v).run.run s = (do
    let child ← setAlong ((Json.lookup k (s.object a)).getD .null) rest v
    let entries := (← get).object a
    setObject a (Json.insert k child entries)
    pure (.object a) : StoreM Node).run.run s := rfl

/-- An object that is missing is made when what lies in it has been. -/
theorem run_setAlong_null_key : (setAlong .null (.key k :: rest) v).run.run s = (do
    newObject (Json.insert k (← setAlong .null rest v) []) : StoreM Node).run.run s := rfl

theorem run_append (b len : Nat) (x : Node) (s : Store) :
    (append b len x).run.run s = (.ok (.list (s.longer b len x).1 (len + 1)), (s.longer b len x).2) := by
  rw [append, run_get_bind, Store.longer]
  dsimp only
  split <;> rfl

/-- Writes a node behind some steps from a list, which gets longer when the place is just behind it. -/
theorem run_setAlong_list (i : Int) : (setAlong (.list b len) (.index i :: rest) v).run.run s =
    if i < 0 || (len : Int) < i then
      (.error (Fault.badIndex ("json index " ++ toString i ++ " out of bounds for length " ++ toString len)), s)
    else if i = len then
      (setItem (s.longer b len .null).1 (len + 1) len rest v).run.run (s.longer b len .null).2
    else (setItem b len i.toNat rest v).run.run s := by
  unfold setAlong
  dsimp only
  rw [pure_bind]
  dsimp only
  split
  · rfl
  split
  · rename_i same
    rw [ExceptT.run_bind, StateT.run_bind, run_append]
    cases same
    rfl
  · rfl

/-- A list that is missing is made first. -/
theorem run_setAlong_null_index (i : Int) : (setAlong .null (.index i :: rest) v).run.run s =
    (setAlong (.list s.buffers.size 0) (.index i :: rest) v).run.run { s with buffers := s.buffers.push #[] } := by
  rfl

end StoreM

/-! ## One step of a write -/

/-- A list got a place for one more item, which holds the item. -/
structure Store.Lengthens (s : Store) (b len : Nat) (x : Node) (s₁ : Store) (b₁ : Nat) : Prop where
  whole : s₁.Whole
  there : (Node.list b₁ (len + 1)).In s₁
  grew : s.Grew s₁
  only : s₁ = { s with buffers := s₁.buffers }
  last : s₁.at? (.item b₁ len) = some x
  first : ∀ i < len, s₁.at? (.item b₁ i) = s.at? (.item b i)
  kept : ∀ p : Place, p.In s → p ≠ .item b len → s₁.at? p = s.at? p
  place : b₁ = b ∨ s.buffers.size ≤ b₁

/-- What a step of a write makes ready before it goes on with what it leads to. -/
structure Store.Readies (s : Store) (n : Node) (step : Path.Step) (s₁ : Store) (child : Node) : Prop where
  whole : s₁.Whole
  there : child.In s₁
  grew : s.Grew s₁
  only : s₁ = { s with buffers := s₁.buffers }
  found : child = (s.stepInto? n step).getD .null
  same : s₁ = s ∨ child = .null
  kept : ∀ p : Place, p.In s → n.behind? step ≠ some p → s₁.at? p = s.at? p

/-- How a step of a write ends when what follows it has been written: what it led to is put into its place, in the container
or in a new one. -/
structure Store.Ends (s : Store) (n : Node) (step : Path.Step) (s₁ t₁ : Store) (child : Node) (t : Store) (n' : Node) (place : Place) :
    Prop where
  grew : t₁.Grew t
  boxes : t.boxes = t₁.boxes
  named : n'.place? step = some place
  holds : t.at? place = some child
  others : ∀ p : Place, p.In t₁ → p ≠ place → t.at? p = t₁.at? p
  old : n.place? step = some place ∨ n.behind? step = some place ∨ ¬place.In s
  fresh : place.In s₁ ∨ ¬place.In t₁
  aside : ∀ step', step' ≠ step → (∀ p, n.place? step' = some p → t.at? p = s.at? p) →
    t.stepInto? n' step' = s.stepInto? n step' ∧ ∀ p, n'.place? step' = some p → n.place? step' = some p ∨ ¬p.In s

section Step

variable {s s₁ t t₁ : Store} {n n' v x child : Node} {a b b₁ len i : Nat} {k : Text} {step : Path.Step} {rest steps : List Path.Step}
  {r : Except Fault Node}

theorem Store.lengthens_longer (whole : s.Whole) (there : (Node.list b len).In s) (valid : x.In s) :
    s.Lengthens b len x (s.longer b len x).2 (s.longer b len x).1 := by
  have run := StoreM.run_append b len x s
  obtain ⟨course, whole', given⟩ := StoreM.safe_append there valid whole
  rw [run] at course whole' given
  have grown : ∀ i ≤ len, (s.grownPlaces b len x)[i]? = if i = len then some x else (s.buffer b)[i]? := by
    intro i inside
    have fits : len ≤ (s.buffer b).size := there.2
    have size : ((s.buffer b).extract 0 len).size = len := by rw [Array.size_extract, Nat.min_eq_left fits, Nat.sub_zero]
    rw [Store.grownPlaces, Array.getElem?_append_left (by rw [Array.size_push, size]; omega), Array.getElem?_push, size]
    split
    · rfl
    · rw [Array.getElem?_extract, if_pos (by omega), Nat.zero_add]
  by_cases room : len < (s.buffer b).size
  · have here : s.longer b len x = (b, { s with buffers := s.buffers.modify b fun old => old.setIfInBounds len x }) :=
      if_pos room
    rw [here] at course whole' given ⊢
    refine ⟨whole', given _ rfl, course.grew, rfl, ?_, fun i less => ?_, fun p _ other => ?_, .inl rfl⟩
    · rw [Store.at?_setPlace room, if_pos rfl]
    · rw [Store.at?_setPlace room, if_neg fun same => Nat.ne_of_lt less (Place.item.inj same).2]
    · rw [Store.at?_setPlace room, if_neg other]
  · have here : s.longer b len x =
        (s.buffers.size, { s with buffers := s.buffers.push (s.grownPlaces b len x) }) := if_neg room
    rw [here] at course whole' given ⊢
    have buffer : Store.buffer { s with buffers := s.buffers.push (s.grownPlaces b len x) } s.buffers.size =
        s.grownPlaces b len x := by
      rw [Store.buffer, Array.getElem?_push_size, Option.getD_some]
    refine ⟨whole', given _ rfl, course.grew, rfl, ?_, fun i less => ?_, fun p old _ => Store.at?_pushBuffer old, .inr (Nat.le_refl _)⟩
    · rw [Store.at?, buffer, grown len (Nat.le_refl _), if_pos rfl]
    · rw [Store.at?, buffer, grown i (Nat.le_of_lt less), if_neg (Nat.ne_of_lt less), Store.at?]

/-- A write from a place of a list goes on with what lies there, and puts what comes of it into the place. -/
theorem StoreM.setItem_cases (run : (setItem b len i rest v).run.run s = (r, t)) :
    (∃ f, r = .error f ∧ (setAlong ((s.at? (.item b i)).getD .null) rest v).run.run s = (.error f, t)) ∨
    ∃ child' t₁, r = .ok (.list b len) ∧ (setAlong ((s.at? (.item b i)).getD .null) rest v).run.run s = (.ok child', t₁) ∧
      t = { t₁ with buffers := t₁.buffers.modify b fun old => old.setIfInBounds i child' } := by
  rw [setItem, run_get_bind] at run
  dsimp only at run
  rw [ExceptT.run_bind, StateT.run_bind] at run
  change ((setAlong ((s.at? (.item b i)).getD .null) rest v).run.run s >>= _) = _ at run
  generalize (setAlong ((s.at? (.item b i)).getD .null) rest v).run.run s = result at run ⊢
  obtain ⟨f | child', t₁⟩ := result
  · cases run
    exact .inl ⟨f, rfl, rfl⟩
  · cases run
    exact .inr ⟨child', t₁, rfl, rfl, rfl⟩

/-- Steps that name the same places in a container as before lead to the same. -/
theorem Store.aside_of_place? {step' : Path.Step} (same : n'.place? step' = n.place? step')
    (kept : ∀ p, n.place? step' = some p → t.at? p = s.at? p) :
    t.stepInto? n' step' = s.stepInto? n step' ∧ ∀ p, n'.place? step' = some p → n.place? step' = some p ∨ ¬p.In s := by
  refine ⟨?_, fun p named => .inl (same ▸ named)⟩
  rw [stepInto?_eq, stepInto?_eq, same]
  cases named : n.place? step' with
  | none => rfl
  | some p => exact kept p named

theorem Node.place?_item (less : i < len) : (Node.list b len).place? (.index i) = some (.item b i) := by
  rw [place?, if_pos ⟨Int.natCast_nonneg i, Int.ofNat_lt.mpr less⟩, Int.toNat_natCast]

theorem Node.place?_list_iff {p : Place} : (Node.list b len).place? step = some p ↔ ∃ j < len, step = .index j ∧ p = .item b j := by
  constructor
  · intro named
    cases step with
    | key k => cases named
    | index j =>
      rw [place?] at named
      split at named
      · rename_i inside
        cases named
        exact ⟨j.toNat, by omega, by rw [Int.toNat_of_nonneg inside.1], rfl⟩
      · cases named
  · rintro ⟨j, less, rfl, rfl⟩
    exact place?_item less

/-- A step that ends by putting something into a place of a list. -/
theorem Store.ends_item (list : (Node.list b₁ len).In s₁) (less : i < len) (grew : s₁.Grew t₁)
    (old : n.place? (.index i) = some (.item b₁ i) ∨ n.behind? (.index i) = some (.item b₁ i) ∨ s.buffers.size ≤ b₁)
    (aside : ∀ step', step' ≠ .index i → (Node.list b₁ len).place? step' = n.place? step' ∨
      s.buffers.size ≤ b₁ ∧ ∀ j < len, step' = .index j → t₁.at? (.item b₁ j) = s.stepInto? n step')
    (none : s.buffers.size ≤ b₁ → ∀ step', (∀ j < len, step' ≠ .index j) → s.stepInto? n step' = none) :
    s.Ends n (.index i) s₁ t₁ child { t₁ with buffers := t₁.buffers.modify b₁ fun old => old.setIfInBounds i child }
      (.list b₁ len) (.item b₁ i) := by
  have list' := list.grew grew
  have room : i < (t₁.buffer b₁).size := Nat.lt_of_lt_of_le less list'.2
  have others (p : Place) (ne : p ≠ .item b₁ i) :
      Store.at? { t₁ with buffers := t₁.buffers.modify b₁ fun old => old.setIfInBounds i child } p = t₁.at? p := by
    rw [at?_setPlace room, if_neg ne]
  refine ⟨grew_put (.place b₁ i) child, rfl, Node.place?_item less, ?_, fun p _ ne => others p ne, ?_, .inl list.1, ?_⟩
  · rw [at?_setPlace room, if_pos rfl]
  · exact old.imp_right (Or.imp_right Nat.not_lt.mpr)
  · intro step' ne kept
    obtain same | ⟨new, same⟩ := aside step' ne
    · exact aside_of_place? same kept
    · refine ⟨?_, fun p named => .inr ?_⟩
      · rw [stepInto?_eq]
        cases named : (Node.list b₁ len).place? step' with
        | none =>
          refine (none new step' fun j inside same => ?_).symm
          rw [same, Node.place?_item inside] at named
          cases named
        | some p =>
          obtain ⟨j, inside, rfl, rfl⟩ := Node.place?_list_iff.mp named
          rw [Option.bind_some, others _ fun same => ne (by rw [(Place.item.inj same).2]), same j inside rfl]
      · obtain ⟨j, -, -, rfl⟩ := Node.place?_list_iff.mp named
        exact Nat.not_lt.mpr new

/-- A write along steps refuses the first of them and changes no place; or it makes something ready and goes on with what the
step leads to, and then ends as that does. -/
def Store.Proceeds (s : Store) (n v : Node) (step : Path.Step) (rest : List Path.Step) (r : Except Fault Node) (t : Store) : Prop :=
  (∃ f, r = .error f ∧ s.Grew t ∧ t = { s with buffers := t.buffers } ∧ ∀ p : Place, p.In s → t.at? p = s.at? p) ∨
  ∃ s₁ child, s.Readies n step s₁ child ∧
    ((∃ f, r = .error f ∧ (StoreM.setAlong child rest v).run.run s₁ = (.error f, t)) ∨
    ∃ child' t₁ n' place, r = .ok n' ∧ (StoreM.setAlong child rest v).run.run s₁ = (.ok child', t₁) ∧
      ((∀ p : Place, p.In s₁ → child = .null → t₁.at? p = s₁.at? p) → s.Ends n step s₁ t₁ child' t n' place))

namespace StoreM

theorem proceeds_object (whole : s.Whole) (there : (Node.object a).In s) (valid : v.In s)
    (run : (setAlong (.object a) (.key k :: rest) v).run.run s = (r, t)) : s.Proceeds (.object a) v (.key k) rest r t := by
  have lies : ((Json.lookup k (s.object a)).getD .null).In s := whole.at? (.entry a k)
  refine .inr ⟨s, _, ⟨whole, lies, .refl s, rfl, rfl, .inl rfl, fun _ _ _ => rfl⟩, ?_⟩
  obtain ⟨course, -, given⟩ := safe_setAlong rest lies valid whole
  rw [run_setAlong_object, ExceptT.run_bind, StateT.run_bind] at run
  generalize (setAlong ((Json.lookup k (s.object a)).getD .null) rest v).run.run s = result at run course given ⊢
  obtain ⟨f | child', t₁⟩ := result
  · cases run
    exact .inl ⟨f, rfl, rfl⟩
  cases run
  have inside : a < t₁.objects.size := Nat.lt_of_lt_of_le there course.grew.objects
  have others (p : Place) (ne : p ≠ .entry a k) :
      Store.at? { t₁ with objects := t₁.objects.setIfInBounds a (Json.insert k child' (t₁.object a)) } p = t₁.at? p := by
    rw [Store.at?_insert inside, if_neg ne]
  refine .inr ⟨child', t₁, .object a, .entry a k, rfl, rfl, fun _ => ⟨?_, rfl, rfl, ?_, fun p _ => others p, .inl rfl, .inl there, ?_⟩⟩
  · exact ⟨by simp, Nat.le_refl _, fun _ => Nat.le_refl _⟩
  · rw [Store.at?_insert inside, if_pos rfl]
  · exact fun step' _ kept => Store.aside_of_place? rfl kept

theorem proceeds_null_key (whole : s.Whole) (valid : v.In s) (run : (setAlong .null (.key k :: rest) v).run.run s = (r, t)) :
    s.Proceeds .null v (.key k) rest r t := by
  refine .inr ⟨s, .null, ⟨whole, trivial, .refl s, rfl, rfl, .inl rfl, fun _ _ _ => rfl⟩, ?_⟩
  obtain ⟨course, -, -⟩ := safe_setAlong rest (show Valid s Node.null from trivial) valid whole
  rw [run_setAlong_null_key, ExceptT.run_bind, StateT.run_bind] at run
  generalize (setAlong .null rest v).run.run s = result at run course ⊢
  obtain ⟨f | child', t₁⟩ := result
  · cases run
    exact .inl ⟨f, rfl, rfl⟩
  cases run
  have new : ¬t₁.objects.size < s.objects.size := Nat.not_lt.mpr course.grew.objects
  have here (k' : Text) : Store.at? { t₁ with objects := t₁.objects.push (Json.insert k child' []) } (.entry t₁.objects.size k') =
      if k = k' then some child' else none := by
    rw [Store.at?, Store.object, Array.getElem?_push_size, Option.getD_some]
    rfl
  refine .inr ⟨child', t₁, .object t₁.objects.size, .entry t₁.objects.size k, rfl, rfl, fun _ =>
    ⟨?_, rfl, rfl, ?_, fun p old _ => Store.at?_pushObject old, .inr (.inr new), .inr (Nat.lt_irrefl _), fun step' ne _ => ?_⟩⟩
  · exact ⟨by simp, Nat.le_refl _, fun _ => Nat.le_refl _⟩
  · rw [here, if_pos rfl]
  · cases step' with
    | index i => exact ⟨rfl, fun p placed => by cases placed⟩
    | key k' =>
      refine ⟨(here k').trans (if_neg fun same => ne (by rw [same])), fun p named => .inr ?_⟩
      cases named
      exact new

/-- A write to a place of a list, in memory in which there is such a place. -/
theorem proceeds_setItem {i : Nat} (valid : v.In s) (ready : s.Readies n (.index i) s₁ child)
    (list : (Node.list b₁ len).In s₁) (less : i < len) (lies : (s₁.at? (.item b₁ i)).getD .null = child)
    (old : n.place? (.index i) = some (.item b₁ i) ∨ n.behind? (.index i) = some (.item b₁ i) ∨ s.buffers.size ≤ b₁)
    (aside : ∀ step', step' ≠ .index i → (Node.list b₁ len).place? step' = n.place? step' ∨
      s.buffers.size ≤ b₁ ∧ child = .null ∧ ∀ j < len, step' = .index j → s₁.at? (.item b₁ j) = s.stepInto? n step')
    (none : s.buffers.size ≤ b₁ → ∀ step', (∀ j < len, step' ≠ .index j) → s.stepInto? n step' = none)
    (run : (setItem b₁ len i rest v).run.run s₁ = (r, t)) : s.Proceeds n v (.index i) rest r t := by
  subst lies
  refine .inr ⟨s₁, _, ready, ?_⟩
  obtain failed | ⟨child', t₁, rfl, below, rfl⟩ := setItem_cases run
  · exact .inl failed
  have course := (safe_setAlong rest ready.there (valid.grew ready.grew) ready.whole).1
  rw [below] at course
  refine .inr ⟨child', t₁, .list b₁ len, .item b₁ i, rfl, below, fun kept => ?_⟩
  refine Store.ends_item list less course.grew old (fun step' ne => ?_) none
  refine (aside step' ne).imp_right fun ⟨new, null, same⟩ => ⟨new, fun j inside here => ?_⟩
  rw [kept (.item b₁ j) list.1 null]
  exact same j inside here

theorem proceeds_list {i : Int} (whole : s.Whole) (there : (Node.list b len).In s) (valid : v.In s)
    (run : (setAlong (.list b len) (.index i :: rest) v).run.run s = (r, t)) : s.Proceeds (.list b len) v (.index i) rest r t := by
  rw [run_setAlong_list] at run
  split at run
  · cases run
    exact .inl ⟨_, rfl, .refl s, rfl, fun _ _ => rfl⟩
  rename_i inside
  rw [Bool.or_eq_true, decide_eq_true_eq, decide_eq_true_eq, not_or] at inside
  obtain ⟨j, rfl⟩ := Int.eq_ofNat_of_zero_le (Int.not_lt.mp inside.1)
  split at run
  · rename_i atEnd
    cases Int.ofNat_inj.mp atEnd
    have longer := Store.lengthens_longer whole there (show Node.In s .null from trivial)
    generalize s.longer b len .null = made at run longer
    obtain ⟨b₁, s₁⟩ := made
    dsimp only at run longer
    have behind : (Node.list b len).behind? (.index len) = some (.item b len) := if_pos rfl
    have last : (Node.list b len).place? (.index len) = none := if_neg fun h => Int.lt_irrefl _ h.2
    refine proceeds_setItem valid ⟨longer.whole, show Node.In s₁ .null from trivial, longer.grew, longer.only, ?_, .inr rfl, fun p old ne => ?_⟩
      longer.there (Nat.lt_succ_self len) ?_ ?_ (fun step' ne => ?_) (fun _ step' out => ?_) run
    · rw [Store.stepInto?_eq, last]
      rfl
    · exact longer.kept p old fun same => ne (behind.trans (congrArg some same.symm))
    · rw [longer.last]
      rfl
    · exact .inr (longer.place.imp_left fun (same : b₁ = b) => by rw [same, behind])
    · obtain rfl | new := longer.place
      · refine .inl (Option.ext fun p => ?_)
        rw [Node.place?_list_iff, Node.place?_list_iff]
        refine exists_congr fun j => and_congr_left fun ⟨same, _⟩ => ?_
        have other : j ≠ len := fun h => ne (h ▸ same)
        omega
      · refine .inr ⟨new, rfl, fun j inside same => ?_⟩
        have less : j < len := Nat.lt_of_le_of_ne (Nat.le_of_lt_succ inside) fun h => ne (h ▸ same)
        rw [longer.first j less, same, Store.stepInto?_eq, Node.place?_item less, Option.bind_some]
    · rw [Store.stepInto?_eq, show (Node.list b len).place? step' = none from ?_]
      · rfl
      refine Option.eq_none_iff_forall_ne_some.mpr fun p named => ?_
      obtain ⟨j, less, same, -⟩ := Node.place?_list_iff.mp named
      exact out j (Nat.lt_succ_of_lt less) same
  · rename_i before
    have less : j < len := by omega
    rw [Int.toNat_natCast] at run
    exact proceeds_setItem valid ⟨whole, whole.at? (.item b j), .refl s, rfl,
      by rw [Store.stepInto?_eq, Node.place?_item less]; rfl, .inl rfl, fun _ _ _ => rfl⟩ there less rfl
      (.inl (Node.place?_item less)) (fun _ _ => .inl rfl) (fun out => absurd there.1 (Nat.not_lt.mpr out)) run

theorem proceeds_null_index {i : Int} (whole : s.Whole) (valid : v.In s)
    (run : (setAlong .null (.index i :: rest) v).run.run s = (r, t)) : s.Proceeds .null v (.index i) rest r t := by
  rw [run_setAlong_null_index, run_setAlong_list] at run
  have empty : ∀ n ∈ (#[] : Array Node), n.In s := fun n hn => absurd hn (Array.not_mem_empty n)
  have grew := (Store.adds_buffer empty).grew
  split at run
  · cases run
    exact .inl ⟨_, rfl, grew, rfl, fun p old => Store.at?_pushBuffer old⟩
  rename_i inside
  rw [Bool.or_eq_true, decide_eq_true_eq, decide_eq_true_eq, not_or] at inside
  obtain rfl : i = 0 := by omega
  rw [if_pos (show (0 : Int) = (0 : Nat) from rfl)] at run
  have there : (Node.list s.buffers.size 0).In { s with buffers := s.buffers.push #[] } := by
    simp [Node.In, Store.buffer]
  have longer := Store.lengthens_longer (whole_push whole empty) there (show Node.In _ .null from trivial)
  generalize Store.longer { s with buffers := s.buffers.push #[] } s.buffers.size 0 .null = made at run longer
  obtain ⟨b₁, s₁⟩ := made
  dsimp only at run longer
  have new : s.buffers.size ≤ b₁ := by
    obtain rfl | new := longer.place
    · exact Nat.le_refl _
    · exact Nat.le_trans (by simp) new
  refine proceeds_setItem valid ⟨longer.whole, show Node.In s₁ .null from trivial, grew.trans longer.grew, ?_, rfl, .inr rfl, fun p old _ => ?_⟩
    longer.there Nat.zero_lt_one ?_ (.inr (.inr new)) (fun step' ne => ?_) (fun _ step' _ => ?_) run
  · exact longer.only
  · rw [longer.kept p (old.grew grew) ?_, Store.at?_pushBuffer old]
    rintro rfl
    exact Nat.lt_irrefl _ old
  · rw [longer.last]
    rfl
  · refine .inr ⟨new, rfl, fun j inside same => ?_⟩
    cases Nat.lt_one_iff.mp inside
    exact absurd same ne
  · cases step' <;> rfl

/-- What one step of a write does. -/
theorem setAlong_cons (whole : s.Whole) (there : n.In s) (valid : v.In s)
    (run : (setAlong n (step :: rest) v).run.run s = (r, t)) : s.Proceeds n v step rest r t := by
  cases step with
  | key k =>
    cases n with
    | object a => exact proceeds_object whole there valid run
    | null => exact proceeds_null_key whole valid run
    | _ =>
      cases run
      exact .inl ⟨_, rfl, .refl s, rfl, fun _ _ => rfl⟩
  | index i =>
    cases n with
    | list b len => exact proceeds_list whole there valid run
    | null => exact proceeds_null_index whole valid run
    | _ =>
      cases run
      exact .inl ⟨_, rfl, .refl s, rfl, fun _ _ => rfl⟩

end StoreM

end Step

/-! ## Writes along steps -/

/-- What a write along steps leaves. A place that the steps do not pass holds what it held. If they pass no place twice, they
read what was written, and other steps that turn off them and meet none of their places in another way read what they did. -/
structure Store.Wrote (s : Store) (n v : Node) (steps : List Path.Step) (t : Store) (n' : Node) : Prop where
  whole : t.Whole
  there : n'.In t
  grew : s.Grew t
  boxes : t.boxes = s.boxes
  kept : ∀ p : Place, p.In s → p ∉ s.passed n steps → t.at? p = s.at? p
  reads : (s.passed n steps).Nodup → t.follow? n' steps = some v ∧ ∀ p ∈ t.route n' steps, p ∈ s.passed n steps ∨ ¬p.In s
  others : (s.passed n steps).Nodup → ∀ q, ¬steps <+: q → ¬q <+: steps → s.Aside n steps q →
    t.follow? n' q = s.follow? n q ∧ ∀ p ∈ t.route n' q, p ∈ s.route n q ∨ p ∈ s.passed n steps ∨ ¬p.In s

section Along

variable {s s₁ t t₁ : Store} {n n' v child child' : Node} {p place : Place} {step : Path.Step} {rest steps q : List Path.Step}
  {r : Except Fault Node}

namespace Store

/-- A step that names the place behind a list names none in it. -/
theorem place?_of_behind? (h : n.behind? step = some p) : n.place? step = none := by
  cases step with
  | key k => cases n <;> cases h
  | index i =>
    cases n with
    | list b len =>
      rw [Node.behind?] at h
      split at h
      · rename_i same
        exact if_neg fun inside => by omega
      · cases h
    | _ => cases h

theorem mem_passed_of_place? (h : n.place? step = some p) : p ∈ s.passed n (step :: rest) := by
  rw [passed_some rest h]
  exact List.mem_cons_self

theorem mem_passed_of_behind? (h : n.behind? step = some p) : p ∈ s.passed n (step :: rest) := by
  rw [passed_none rest (place?_of_behind? h), h]
  exact List.mem_singleton_self p

theorem route_subset_passed : s.route n steps ⊆ s.passed n steps := List.subset_append_left _ _

/-- The places that a write may change lie in memory. -/
theorem passed_in (whole : s.Whole) (there : n.In s) : ∀ p ∈ s.passed n steps, p.In s := by
  induction steps generalizing n with
  | nil => nofun
  | cons step rest ih =>
    cases named : n.place? step with
    | some p =>
      rw [passed_some rest named]
      intro q hq
      obtain rfl | hq := List.mem_cons.mp hq
      · exact place_in there named
      · exact ih (whole.at? p) q hq
    | none =>
      rw [passed_none rest named]
      intro q hq
      rw [Option.mem_toList] at hq
      cases step with
      | key k => cases n <;> cases hq
      | index i =>
        cases n with
        | list b len =>
          rw [Node.behind?] at hq
          split at hq
          · cases hq
            exact there.1
          · cases hq
        | _ => cases hq

namespace Readies

/-- A write goes on with nothing, or with what lies at a place that was there, in memory as it was. -/
theorem cases (ready : s.Readies n step s₁ child) :
    child = .null ∨ s₁ = s ∧ ∃ p, n.place? step = some p ∧ child = (s.at? p).getD .null := by
  obtain same | null := ready.same
  · have found := ready.found
    rw [stepInto?_eq] at found
    cases named : n.place? step with
    | none =>
      rw [named] at found
      exact .inl found
    | some p =>
      rw [named] at found
      exact .inr ⟨same, p, rfl, found⟩
  · exact .inl null

theorem passed_subset (ready : s.Readies n step s₁ child) : s₁.passed child rest ⊆ s.passed n (step :: rest) := by
  obtain rfl | ⟨rfl, p, named, rfl⟩ := ready.cases
  · rw [passed_null]
    exact List.nil_subset _
  · rw [passed_some rest named]
    exact List.subset_cons_self _ _

theorem route_subset (ready : s.Readies n step s₁ child) : s₁.route child q ⊆ s.route n (step :: q) := by
  obtain rfl | ⟨rfl, p, named, rfl⟩ := ready.cases
  · rw [route_null]
    exact List.nil_subset _
  · rw [route_some q named]
    exact List.subset_cons_self _ _

theorem nodup (ready : s.Readies n step s₁ child) (once : (s.passed n (step :: rest)).Nodup) : (s₁.passed child rest).Nodup := by
  obtain rfl | ⟨rfl, p, named, rfl⟩ := ready.cases
  · rw [passed_null]
    exact List.nodup_nil
  · rw [passed_some rest named] at once
    exact once.of_cons

theorem aside (ready : s.Readies n step s₁ child) (h : s.Aside n (step :: rest) (step :: q)) : s₁.Aside child rest q := by
  obtain rfl | ⟨rfl, p, named, rfl⟩ := ready.cases
  · intro k p here
    rw [route_null] at here
    cases here
  · exact h.tail named

/-- Steps that go on behind the first read what they read from there. -/
theorem follow? (ready : s.Readies n step s₁ child) (goes : q ≠ []) : s₁.follow? child q = s.follow? n (step :: q) := by
  rw [follow?_cons]
  have found := ready.found
  obtain rfl | ⟨rfl, p, named, -⟩ := ready.cases
  · rw [follow?_null goes]
    cases into : s.stepInto? n step with
    | none => rfl
    | some m =>
      rw [into] at found
      rw [Option.bind_some, ← show Node.null = m from found, follow?_null goes]
  · cases into : s₁.stepInto? n step with
    | none =>
      rw [into] at found
      rw [found, Option.getD_none, follow?_null goes]
      rfl
    | some m =>
      rw [into] at found
      rw [found]
      rfl

/-- The place of a step is none that the steps behind it pass. -/
theorem place_notMem (ready : s.Readies n step s₁ child) (whole : s.Whole) (there : n.In s)
    (once : (s.passed n (step :: rest)).Nodup) (old : n.place? step = some place ∨ n.behind? step = some place ∨ ¬place.In s) :
    place ∉ s₁.passed child rest := by
  intro again
  have passes := ready.passed_subset again
  obtain rfl | ⟨rfl, p, named, rfl⟩ := ready.cases
  · rw [passed_null] at again
    cases again
  · obtain here | behind | new := old
    · cases named.symm.trans here
      rw [passed_some rest named] at once
      exact (List.nodup_cons.mp once).1 again
    · cases named.symm.trans (place?_of_behind? behind)
    · exact new (passed_in whole there _ passes)

/-- Nor one that other steps lead through behind it, when they are aside. -/
theorem place_notMem_route (ready : s.Readies n step s₁ child) (whole : s.Whole) (there : n.In s)
    (once : (s.passed n (step :: rest)).Nodup) (old : n.place? step = some place ∨ n.behind? step = some place ∨ ¬place.In s)
    (aside : s.Aside n (step :: rest) (step :: q)) : place ∉ s₁.route child q := by
  intro again
  have apart := ready.place_notMem whole there once old
  obtain rfl | ⟨rfl, p, named, rfl⟩ := ready.cases
  · rw [route_null] at again
    cases again
  obtain here | behind | new := old
  · cases named.symm.trans here
    obtain ⟨k, meets⟩ := List.mem_iff_getElem?.mp again
    have alike := aside (k + 1) place (by rw [route_some q named]; exact meets) (mem_passed_of_place? named)
    rw [List.take_succ_cons, List.prefix_cons_inj] at alike
    exact apart (route_subset_passed (List.mem_of_getElem? (route_of_isPrefix meets alike)))
  · cases named.symm.trans (place?_of_behind? behind)
  · exact new (route_in whole ready.there place again)

end Readies

/-- Steps that turn off at once read what they did, and through the same places. -/
theorem follow?_turned {step' : Path.Step} (whole : s.Whole) (there : n.In s) (ne : step' ≠ step)
    (kept : ∀ p : Place, p.In s → p ∉ s.passed n (step :: rest) → t.at? p = s.at? p)
    (ends : (∀ p, n.place? step' = some p → t.at? p = s.at? p) →
      t.stepInto? n' step' = s.stepInto? n step' ∧ ∀ p, n'.place? step' = some p → n.place? step' = some p ∨ ¬p.In s)
    (aside : s.Aside n (step :: rest) (step' :: q)) :
    t.follow? n' (step' :: q) = s.follow? n (step' :: q) ∧
      ∀ p ∈ t.route n' (step' :: q), p ∈ s.route n (step' :: q) ∨ ¬p.In s := by
  have far {k : Nat} {p : Place} (meets : (s.route n (step' :: q))[k]? = some p) : p ∉ s.passed n (step :: rest) := fun passes =>
    ne (List.cons_prefix_cons.mp (aside k p meets passes)).1
  obtain ⟨into, places⟩ := ends fun p named => kept p (place_in there named)
    (far (k := 0) (by rw [route_some q named]; rfl))
  have first {p : Place} (named : n'.place? step' = some p) : p ∈ s.route n (step' :: q) ∨ ¬p.In s := by
    refine (places p named).imp_left fun here => ?_
    rw [route_some q here]
    exact List.mem_cons_self
  have onward {m : Node} (found : s.stepInto? n step' = some m) : ∃ p, s.route n (step' :: q) = p :: s.route m q ∧
      t.follow? m q = s.follow? m q ∧ t.route m q = s.route m q := by
    rw [stepInto?_eq] at found
    obtain ⟨p, named, lies⟩ := Option.bind_eq_some_iff.mp found
    have route : s.route n (step' :: q) = p :: s.route m q := by rw [route_some q named, lies, Option.getD_some]
    refine ⟨p, route, follow?_congr fun p' hp => ?_⟩
    obtain ⟨k, meets⟩ := List.mem_iff_getElem?.mp hp
    refine kept p' (route_in whole there p' (route ▸ List.mem_cons_of_mem p hp)) (far (k := k + 1) ?_)
    rw [route]
    exact meets
  rw [follow?_cons, follow?_cons, into]
  cases found : s.stepInto? n step' with
  | none =>
    refine ⟨rfl, fun p hp => ?_⟩
    cases named : n'.place? step' with
    | none =>
      rw [route_none q named] at hp
      cases hp
    | some p' =>
      rw [stepInto?_eq, named, found] at into
      rw [route_some q named, show t.at? p' = none from into, Option.getD_none, route_null, List.mem_singleton] at hp
      exact hp ▸ first named
  | some m =>
    obtain ⟨p, route, reads, same⟩ := onward found
    refine ⟨reads, fun p' hp => ?_⟩
    rw [stepInto?_eq, found] at into
    obtain ⟨p'', named, lies⟩ := Option.bind_eq_some_iff.mp into
    rw [route_some q named, lies, Option.getD_some, same] at hp
    obtain rfl | hp := List.mem_cons.mp hp
    · exact first named
    · rw [route]
      exact .inl (List.mem_cons_of_mem p hp)

/-- A step wrote what the steps behind it wrote, at its place. -/
theorem Wrote.cons (whole : s.Whole) (there : n.In s) (ready : s.Readies n step s₁ child) (h : s₁.Wrote child v rest t₁ child')
    (ends : s.Ends n step s₁ t₁ child' t n' place) (whole' : t.Whole) (there' : n'.In t) :
    s.Wrote n v (step :: rest) t n' := by
  have kept (p : Place) (old : p.In s) (out : p ∉ s.passed n (step :: rest)) : t.at? p = s.at? p := by
    have other : p ≠ place := by
      rintro rfl
      obtain here | behind | new := ends.old
      · exact out (mem_passed_of_place? here)
      · exact out (mem_passed_of_behind? behind)
      · exact new old
    have old₁ := old.grew ready.grew
    rw [ends.others p (old₁.grew h.grew) other, h.kept p old₁ fun inside => out (ready.passed_subset inside)]
    exact ready.kept p old fun behind => out (mem_passed_of_behind? behind)
  have through {q : List Path.Step} : t.follow? n' (step :: q) = t.follow? child' q ∧ t.route n' (step :: q) = place :: t.route child' q := by
    rw [follow?_cons, stepInto?_eq, route_some q ends.named, ends.named, Option.bind_some, ends.holds]
    exact ⟨rfl, rfl⟩
  -- what lies behind the step is as it was written, since no place of it is the place of the step
  have behind {q : List Path.Step} (apart : place ∉ s₁.route child q) (once : (s.passed n (step :: rest)).Nodup)
      (places : ∀ p ∈ t₁.route child' q, p ∈ s₁.route child q ∨ p ∈ s₁.passed child rest ∨ ¬p.In s₁) :
      t.follow? child' q = t₁.follow? child' q ∧ t.route child' q = t₁.route child' q := by
    refine follow?_congr fun p hp => ?_
    have inside := route_in h.whole h.there p hp
    refine ends.others p inside ?_
    rintro rfl
    obtain here | passes | new := places p hp
    · exact apart here
    · exact ready.place_notMem whole there once ends.old passes
    · exact ends.fresh.elim new (absurd inside)
  have old (p : Place) (new : ¬p.In s₁) : ¬p.In s := fun old => new (old.grew ready.grew)
  have first : place ∈ s.passed n (step :: rest) ∨ ¬place.In s := by
    obtain here | behind | new := ends.old
    · exact .inl (mem_passed_of_place? here)
    · exact .inl (mem_passed_of_behind? behind)
    · exact .inr new
  refine ⟨whole', there', (ready.grew.trans h.grew).trans ends.grew, ?_, kept, fun once => ?_, fun once q after before aside => ?_⟩
  · rw [ends.boxes, h.boxes, ready.only]
  · obtain ⟨reads, places⟩ := h.reads (ready.nodup once)
    have apart : place ∉ s₁.route child rest := fun again =>
      ready.place_notMem whole there once ends.old (route_subset_passed again)
    obtain ⟨same, route⟩ := behind apart once fun p hp => .inr (places p hp)
    rw [through.1, through.2, same, route]
    refine ⟨reads, fun p hp => ?_⟩
    obtain rfl | hp := List.mem_cons.mp hp
    · exact first
    · exact (places p hp).imp (fun passes => ready.passed_subset passes) (old p)
  · obtain - | ⟨step', q⟩ := q
    · exact absurd List.nil_prefix before
    by_cases same : step' = step
    · subst same
      rw [List.prefix_cons_inj] at after before
      have goes : q ≠ [] := fun nil => before (nil ▸ List.nil_prefix)
      obtain ⟨reads, places⟩ := h.others (ready.nodup once) q after before (ready.aside aside)
      have apart := ready.place_notMem_route whole there once ends.old aside
      obtain ⟨same, route⟩ := behind apart once places
      rw [through.1, through.2, same, route, reads, ready.follow? goes]
      refine ⟨rfl, fun p hp => ?_⟩
      obtain rfl | hp := List.mem_cons.mp hp
      · exact .inr first
      · obtain here | passes | new := places p hp
        · exact .inl (ready.route_subset here)
        · exact .inr (.inl (ready.passed_subset passes))
        · exact .inr (.inr (old p new))
    · obtain ⟨reads, places⟩ := follow?_turned whole there same kept (ends.aside step' same) aside
      exact ⟨reads, fun p hp => (places p hp).imp_right .inr⟩

/-- A write that is refused behind a step is refused, and changes at most what is behind the list that it leads to. -/
theorem Readies.spare?_ne (ready : s.Readies n step s₁ child) (out : s.spare? n (step :: rest) ≠ some p) :
    s₁.spare? child rest ≠ some p ∧ n.behind? step ≠ some p := by
  have behind : n.behind? step ≠ some p := fun behind => out ((spare?_none rest (place?_of_behind? behind)).trans behind)
  refine ⟨?_, behind⟩
  obtain rfl | ⟨rfl, p', named, rfl⟩ := ready.cases
  · rw [spare?_null]
    exact nofun
  · rwa [spare?_some rest named] at out

end Store

namespace StoreM

/-- **A write along steps.** What it writes is read by the steps, and other steps read what they did. -/
theorem wrote_setAlong (whole : s.Whole) (there : n.In s) (valid : v.In s) (run : (setAlong n steps v).run.run s = (.ok n', t)) :
    s.Wrote n v steps t n' := by
  induction steps generalizing s n t n' with
  | nil =>
    cases run
    exact ⟨whole, valid, .refl s, rfl, fun _ _ _ => rfl, fun _ => ⟨rfl, nofun⟩, fun _ q after => absurd List.nil_prefix after⟩
  | cons step rest ih =>
    obtain ⟨-, whole', given⟩ := safe_setAlong (step :: rest) there valid whole
    rw [run] at whole' given
    obtain ⟨f, impossible, -⟩ | ⟨s₁, child, ready, ⟨f, impossible, -⟩ | ⟨child', t₁, m, place, same, below, ends⟩⟩ :=
      setAlong_cons whole there valid run
    · cases impossible
    · cases impossible
    cases same
    have h := ih ready.whole ready.there (valid.grew ready.grew) below
    refine .cons whole there ready h (ends fun p old null => h.kept p old ?_) whole' (given n' rfl)
    rw [null, Store.passed_null]
    exact nofun

/-- A write along steps that fails leaves objects as they are, and at most one place of lists holds something else: one
just behind a list, where the list was to become longer. -/
theorem failed_setAlong {f : Fault} (whole : s.Whole) (there : n.In s) (valid : v.In s)
    (run : (setAlong n steps v).run.run s = (.error f, t)) :
    t = { s with buffers := t.buffers } ∧ ∀ p : Place, p.In s → s.spare? n steps ≠ some p → t.at? p = s.at? p := by
  induction steps generalizing s n with
  | nil => cases run
  | cons step rest ih =>
    obtain ⟨-, -, -, only, kept⟩ | ⟨s₁, child, ready, ⟨_, same, below⟩ | ⟨_, _, _, _, impossible, -⟩⟩ :=
      setAlong_cons whole there valid run
    · exact ⟨only, fun p old _ => kept p old⟩
    · cases same
      obtain ⟨only, kept⟩ := ih ready.whole ready.there (valid.grew ready.grew) below
      refine ⟨by rw [only, ready.only], fun p old out => ?_⟩
      obtain ⟨inside, behind⟩ := ready.spare?_ne out
      rw [kept p (old.grew ready.grew) inside, ready.kept p old behind]
    · cases impossible

end StoreM

end Along

/-! ## Writes at paths of json values -/

/-- What writing data at a path of a json value leaves. Neither of two paths goes on from the other when they turn off from each
other at some step. -/
structure Store.PathWritten (s : Store) (box : Nat) (path : Text) (v : Node) (r : Except Fault Unit) (t : Store) : Prop where
  /-- A path that passes no place twice reads what was written. -/
  reads : r = .ok () → ∃ steps, Path.parse path = .ok steps ∧
    ((s.passed (s.box box) steps).Nodup → t.pathGet? (t.box box) path = some v)
  /-- Other paths that turn off from it read what they did, when they meet no place of it in another way. -/
  others : r = .ok () → ∀ q steps steps', Path.parse path = .ok steps → Path.parse q = .ok steps' → ¬steps <+: steps' →
    ¬steps' <+: steps → (s.passed (s.box box) steps).Nodup → s.Aside (s.box box) steps steps' →
      t.pathGet? (t.box box) q = s.pathGet? (s.box box) q
  /-- A write that fails leaves all places but one that is just behind a list. -/
  fails : ∀ f, r = .error f → t = { s with buffers := t.buffers } ∧
    ∀ p : Place, p.In s → (∀ steps, Path.parse path = .ok steps → s.spare? (s.box box) steps ≠ some p) → t.at? p = s.at? p
  /-- So all paths read what they did that do not lead through it. -/
  still : ∀ f, r = .error f → ∀ q, (∀ steps steps', Path.parse path = .ok steps → Path.parse q = .ok steps' →
    ∀ p ∈ s.route (s.box box) steps', s.spare? (s.box box) steps ≠ some p) → t.pathGet? (t.box box) q = s.pathGet? (s.box box) q

section Documents

variable {s t : Store} {box : Nat} {path : Text} {v : Node} {r : Except Fault Unit}

theorem Store.pathGet?_of_parse {n : Node} {q : Text} {steps : List Path.Step} (parsed : Path.parse q = .ok steps) :
    s.pathGet? n q = s.follow? n steps := by
  rw [pathGet?, parsed]

/-- A path that is none reads nothing. -/
theorem Store.pathGet?_of_error {n : Node} {q : Text} {f : Fault} (parsed : Path.parse q = .error f) : s.pathGet? n q = none := by
  rw [pathGet?, parsed]

/-- What a write along the steps of a path does to a json value. -/
theorem StoreM.pathSet_cases (run : (pathSet box path v).run.run s = (r, t)) :
    (∃ f, Path.parse path = .error f ∧ r = .error f ∧ t = s) ∨
    ∃ steps, Path.parse path = .ok steps ∧
      ((∃ f, r = .error f ∧ (setAlong (s.box box) steps v).run.run s = (.error f, t)) ∨
      ∃ n t', r = .ok () ∧ (setAlong (s.box box) steps v).run.run s = (.ok n, t') ∧
        t = { t' with boxes := t'.boxes.setIfInBounds box n }) := by
  unfold pathSet at run
  split at run
  · rename_i f parsed
    cases run
    exact .inl ⟨f, parsed, rfl, rfl⟩
  · rename_i parsed
    cases run
    exact .inr ⟨[], parsed, .inr ⟨v, s, rfl, rfl, rfl⟩⟩
  · rename_i steps _ parsed
    refine .inr ⟨steps, parsed, ?_⟩
    rw [run_get_bind, ExceptT.run_bind, StateT.run_bind] at run
    generalize (setAlong (s.box box) steps v).run.run s = result at run ⊢
    obtain ⟨f | n, t'⟩ := result
    · cases run
      exact .inl ⟨f, rfl, rfl⟩
    · cases run
      exact .inr ⟨n, t', rfl, rfl, rfl⟩

/-- **Json values are written at paths.** What is written is read at the path, other paths read what they did, and a write that
fails leaves the json value as it was. Only data that the path reaches in two ways is changed for both. -/
theorem StoreM.pathSet_written (whole : s.Whole) (inside : box < s.boxes.size) (valid : v.In s)
    (run : (pathSet box path v).run.run s = (r, t)) : s.PathWritten box path v r t := by
  have there : (s.box box).In s := whole.box box
  obtain ⟨f, parsed, rfl, rfl⟩ | ⟨steps, parsed, ⟨f, rfl, below⟩ | ⟨n, t', rfl, below, rfl⟩⟩ := pathSet_cases run
  · refine ⟨?_, ?_, fun _ _ => ⟨rfl, fun _ _ _ => rfl⟩, fun _ _ _ _ => rfl⟩
    · intro done
      cases done
    · intro done
      cases done
  · obtain ⟨only, kept⟩ := failed_setAlong whole there valid below
    have same : t.box box = s.box box := by rw [only]; rfl
    refine ⟨?_, ?_, fun _ _ => ⟨only, fun p old out => kept p old (out steps parsed)⟩, fun _ _ q out => ?_⟩
    · intro done
      cases done
    · intro done
      cases done
    cases other : Path.parse q with
    | error g => rw [Store.pathGet?_of_error other, Store.pathGet?_of_error other]
    | ok steps' =>
      rw [Store.pathGet?_of_parse other, Store.pathGet?_of_parse other, same]
      exact (Store.follow?_congr fun p hp => kept p (Store.route_in whole there p hp) (out steps steps' parsed other p hp)).1
  · have wrote := wrote_setAlong whole there valid below
    have now : Store.box { t' with boxes := t'.boxes.setIfInBounds box n } box = n := by
      rw [Store.box, Array.getElem?_setIfInBounds_self_of_lt (by rwa [wrote.boxes]), Option.getD_some]
    have same (steps : List Path.Step) (m : Node) :
        Store.follow? { t' with boxes := t'.boxes.setIfInBounds box n } m steps = t'.follow? m steps :=
      (Store.follow?_congr fun p _ => by cases p <;> rfl).1
    refine ⟨fun _ => ⟨steps, parsed, fun once => ?_⟩, fun _ q steps₁ steps' parsed₁ other after before once aside => ?_, ?_, ?_⟩
    · rw [Store.pathGet?_of_parse parsed, now, same]
      exact (wrote.reads once).1
    · cases parsed.symm.trans parsed₁
      rw [Store.pathGet?_of_parse other, Store.pathGet?_of_parse other, now, same]
      exact (wrote.others once steps' after before aside).1
    · intro _ failed
      cases failed
    · intro _ failed
      cases failed

/-- An object below a new place of a list. -/
theorem StoreM.pathSet_behind_list : ∃ s t : Store, s.Whole ∧ 0 < s.boxes.size ∧ (Node.int 7).In s ∧
    (pathSet 0 "a[1].c" (.int 7)).run.run s = (.ok (), t) ∧ s.PathWritten 0 "a[1].c" (.int 7) (.ok ()) t ∧
    t.pathGet? (t.box 0) "a[1].c" = some (.int 7) := by
  let s : Store := { Store.initial with boxes := #[.object 0], objects := #[[("a", .list 0 1)]], buffers := #[#[.int 1]] }
  have whole : s.Whole := by decide
  have parsed : Path.parse "a[1].c" = .ok [.key "a", .index 1, .key "c"] := rfl
  obtain ⟨t, run⟩ : ∃ t, (pathSet 0 "a[1].c" (.int 7)).run.run s = (.ok (), t) := ⟨_, rfl⟩
  have written := pathSet_written whole Nat.zero_lt_one (show (Node.int 7).In s from trivial) run
  obtain ⟨steps, parsed', reads⟩ := written.reads rfl
  cases parsed.symm.trans parsed'
  exact ⟨s, t, whole, Nat.zero_lt_one, trivial, run, written, reads (by decide)⟩

/-- An object that lies under two keys shows what is written below one of them below the other, too. -/
theorem StoreM.pathSet_shared : ∃ s t : Store, s.Whole ∧ (pathSet 0 "a.c" (.int 2)).run.run s = (.ok (), t) ∧
    Path.parse "a.c" = .ok [.key "a", .key "c"] ∧ Path.parse "b.c" = .ok [.key "b", .key "c"] ∧
    ¬[Path.Step.key "a", .key "c"] <+: [.key "b", .key "c"] ∧ ¬[Path.Step.key "b", .key "c"] <+: [.key "a", .key "c"] ∧
    s.pathGet? (s.box 0) "b.c" = some (.int 1) ∧ t.pathGet? (t.box 0) "b.c" = some (.int 2) := by
  let s : Store := { Store.initial with
    boxes := #[.object 0], objects := #[[("a", .object 1), ("b", .object 1)], [("c", .int 1)]] }
  exact ⟨s, _, by decide, rfl, rfl, rfl, by decide, by decide, rfl, rfl⟩

end Documents

end ScriptEngine
