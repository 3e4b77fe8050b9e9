import ScriptEngine.Proofs.AssignedShapes
import ScriptEngine.Proofs.ElementWrites
import ScriptEngine.Proofs.MemberWrites
import ScriptEngine.Proofs.WholeNumbers
import ScriptEngine.Proofs.WholeRuns
/-!
# Elements that are assigned to

An element of a container is assigned to through a chain of members and indices, and is read through the same chain afterwards.
Evaluating the chain again leads to the same container, or to a json value that shows the same data, since a list or an object
inside another is wrapped in a new json value each time it is read. So an assignment is lost in one case: where it makes a list
inside other json data longer, only the wrapper knows.
-/

namespace ScriptEngine

namespace Store

variable {s t : Store} {changed : Slot → Prop} {n n' m : Node} {path : List Text}

/-- The slots that following the names of a member looks at. A name finds a key of which all keys that agree with it are rivals. -/
inductive Passes (s : Store) : Node → List Text → Slot → Prop
  | here {a : Nat} {name k : Text} {rest : List Text} (agrees : k.equalFold name = true) :
    Passes s (.object a) (name :: rest) (.place (.entry a k))
  | inside {a : Nat} {name key : Text} {rest : List Text} {n : Node} {slot : Slot} (found : findKey name (s.object a) = some key)
    (lies : Json.lookup key (s.object a) = some n) (inner : Passes s n rest slot) : Passes s (.object a) (name :: rest) slot

theorem Passes.entry {slot : Slot} (h : s.Passes n path slot) : ∃ a k, slot = .place (.entry a k) := by
  induction h with
  | here => exact ⟨_, _, rfl⟩
  | inside _ _ _ ih => exact ih

/-- A member is found again where what is passed on the way to it was not changed. -/
theorem member?_again (found : s.member? n path = some m) (kept : s.KeepsBut changed t)
    (aside : ∀ slot, s.Passes n path slot → ¬changed slot) (settles : n.Settles n') :
    ∃ m', t.member? n' path = some m' ∧ m.Settles m' := by
  induction path generalizing n n' with
  | nil =>
    rw [member?_nil] at found ⊢
    cases found
    exact ⟨n', rfl, settles⟩
  | cons name rest ih =>
    obtain ⟨a, key, x, rfl, named, lies, inner⟩ := member?_cons found
    obtain rfl : n' = .object a := settles.elim id id
    have named' := kept.keys a name key named fun k agrees => aside _ (.here agrees)
    obtain ⟨x', lies', settles'⟩ := kept.places (.entry a key) x lies (aside _ (.here (findKey_fold named)))
    rw [member?_object, named', Option.bind_some, show Json.lookup key (t.object a) = some x' from lies', Option.getD_some]
    exact ih inner (fun slot passes => aside slot (.inside named lies passes)) settles'

end Store

namespace Eval

open StoreM

section

variable {m m' k l : Machine} {base : Text} {path : List Text} {v w : Value} {s : Store} {n x : Node} {d line : Nat}

theorem Reads.trans (h : Reads m k) (h' : Reads k l) : Reads m l :=
  ⟨h'.scope.trans h.scope, h'.frames.trans h.frames, h.store.trans h'.store⟩

/-- What is read at a path is what it leads to. -/
theorem member?_of_followMember {names : List Text} (h : followMember base path s d names x = .ok (some n)) : s.member? x names = some n := by
  induction names generalizing x d with
  | nil =>
    rw [followMember_nil] at h
    cases h
    exact Store.member?_nil
  | cons name rest ih =>
    cases x with
    | object a =>
      rw [followMember_object] at h
      rw [Store.member?_object]
      split at h
      · cases h
      · rw [‹findKey name _ = some _›]
        exact ih h
    | _ => cases h

/-- A member that is read, and is not null for there being none. -/
theorem done_readMember (present : w ≠ .null) (run : readMember line base path m = .done w m') :
    ∃ a b c n t, m.store.lookup? m.scope base = some (a, b) ∧ b.value = .json c ∧
      m.store.member? (m.store.box c) path = some n ∧ (ofNode n).run.run m.store = (.ok w, t) ∧ m' = { m with store := t } := by
  obtain ⟨c, _, based, -⟩ := Exec.done_bind (Exec.done_atLine run)
  obtain ⟨-, a, b, found, json⟩ := done_memberBase based
  rw [readMember_eq found json] at run
  obtain ⟨o, m₀, followed, last⟩ := Exec.done_bind (Exec.done_atLine run)
  unfold Exec.ofExcept at followed
  split at followed
  · rename_i follows
    cases followed
    cases o with
    | none =>
      cases last
      exact absurd rfl present
    | some n =>
      obtain ⟨t, read, rfl⟩ := Exec.done_lift last
      exact ⟨a, b, c, n, t, found, json, member?_of_followMember follows, read, rfl⟩
  · cases followed

/-- A member is read from what its path leads to. -/
theorem run_readMember {a c : Nat} {b : Binding} {t : Store} (found : m.store.lookup? m.scope base = some (a, b)) (json : b.value = .json c)
    (leads : m.store.member? (m.store.box c) path = some n) (read : (ofNode n).run.run m.store = (.ok w, t)) :
    readMember line base path m = .done w { m with store := t } := by
  rw [readMember_eq found json, followMember_of_member? leads]
  exact Exec.atLine_of_done ((Exec.bind_of_done rfl).trans (Exec.lift_ok read))

/-- Reading an element only reads. -/
theorem reads_readIndex {container index : Value} (run : (liftM (readIndex container index) : Exec Value) m = .done w m') : Reads m m' := by
  obtain ⟨t, read, rfl, frames⟩ := Exec.done_beside (code_readIndex _ _) run
  exact ⟨rfl, frames, ((makes_readIndex container index m.store).adds read).1⟩

/-- The slots that reading a member of a variable looks at. -/
inductive MemberLooks (m : Machine) (base : Text) (path : List Text) : Slot → Prop
  | box {a c : Nat} {b : Binding} (found : m.store.lookup? m.scope base = some (a, b)) (json : b.value = .json c) :
    MemberLooks m base path (.box c)
  | passes {a c : Nat} {b : Binding} {slot : Slot} (found : m.store.lookup? m.scope base = some (a, b)) (json : b.value = .json c)
    (inner : m.store.Passes (m.store.box c) path slot) : MemberLooks m base path slot

/-- The same variables are in sight, with the same values. -/
structure SameNames (m m' : Machine) : Prop where
  scope : m'.scope = m.scope
  frames : m'.store.frames = m.store.frames

theorem SameNames.lookup? (h : SameNames m m') (name : Text) : m'.store.lookup? m'.scope name = m.store.lookup? m.scope name := by
  rw [h.scope, Store.lookup_of_frames h.frames]

theorem SameNames.bound {name : Text} (h : SameNames m m') (bound : m.Bound name v) : m'.Bound name v := by
  obtain ⟨a, b, found, value⟩ := bound
  exact ⟨a, b, (h.lookup? name).trans found, value⟩

theorem done_nameValue {name : Text} (run : nameValue line name m = .done v m') : m' = m ∧ m.Bound name v := by
  obtain ⟨s, value, rfl⟩ := Exec.done_lift (Exec.done_atLine run)
  obtain ⟨rfl, a, b, found, bound⟩ := StoreM.run_valueOf value
  exact ⟨rfl, a, b, found, bound⟩

/-- A member is read again where what is looked at was not changed. -/
theorem readMember_again {changed : Slot → Prop} (run : readMember line base path m = .done w k) (present : w ≠ .null)
    (names : SameNames m m') (kept : m.store.KeepsBut changed m'.store) (aside : ∀ slot, MemberLooks m base path slot → ¬changed slot) :
    ∃ w' l, readMember line base path m' = .done w' l ∧ k.store.Matches m.store.boxes.size l.store w w' := by
  obtain ⟨a, b, c, n, t, found, json, leads, read, rfl⟩ := done_readMember present run
  have found' := (names.lookup? base).trans found
  have holds : m.store.boxes[c]? = some (m.store.box c) := by
    refine Store.box_lies rfl ?_
    cases box : m.store.box c with
    | null =>
      rw [box] at leads
      cases path with
      | nil =>
        cases leads
        cases read
        exact absurd rfl present
      | cons => cases leads
    | _ => rfl
  have box : m'.store.box c = m.store.box c := by
    rw [Store.box, kept.boxes c _ holds (aside _ (.box found json)), Option.getD_some]
  obtain ⟨n', leads', settles⟩ := Store.member?_again leads kept (fun slot passes => aside slot (.passes found json passes)) (.refl _)
  obtain ⟨w₀, t₀, read₀, -, reads, new⟩ := does_ofNode_new n m.store
  cases read.symm.trans read₀
  obtain ⟨w', t', read', -, reads', new'⟩ := does_ofNode_new n' m'.store
  rw [settles.settle] at reads'
  refine ⟨w', _, run_readMember found' json (box ▸ leads') read', ?_⟩
  exact Store.matches_of_reads reads reads' new fun b h => Nat.le_trans kept.size (new' b h)

end

/-! ## Chains -/

/-- A chain of indices: a variable or a member of one, followed by indices that are good. -/
inductive Chain (good : Expr → Prop) : Expr → Prop
  | name (mark : Mark) (n : Text) : Chain good (.name mark n)
  | member (mark : Mark) (base : Text) (path : List Text) : Chain good (.member mark base path)
  | index {mark : Mark} {c key : Expr} (inner : Chain good c) (side : good key) : Chain good (.index mark c key)

/-- As long as memory is only read after `m`, evaluating an expression only reads, and the expression has the same value again as
long as memory is only read after `m'`. -/
def Repeats (m m' : Machine) (e : Expr) : Prop :=
  ∀ {fuel : Nat} {v : Value} {k k' : Machine}, Reads m k → run fuel (.expr e) k = .done v k' →
    Reads k k' ∧ ∀ l, Reads m' l → ∃ l', run fuel (.expr e) l = .done v l' ∧ Reads l l'

/-- The slots that evaluating a chain looks at. -/
inductive Visits : Nat → Machine → Expr → Slot → Prop
  | member {fuel : Nat} {m : Machine} {mark : Mark} {base : Text} {path : List Text} {slot : Slot} (looks : MemberLooks m base path slot) :
    Visits fuel m (.member mark base path) slot
  | inner {fuel : Nat} {m : Machine} {mark : Mark} {c key : Expr} {slot : Slot} (inner : Visits fuel m c slot) :
    Visits (fuel + 1) m (.index mark c key) slot
  | index {fuel : Nat} {m m₁ m₂ : Machine} {mark : Mark} {c key : Expr} {container index : Value} {slot : Slot}
    (first : run fuel (.expr c) m = .done container m₁) (second : run fuel (.expr key) m₁ = .done index m₂)
    (looks : m₂.store.Looks container index slot) : Visits (fuel + 1) m (.index mark c key) slot

section

variable {m m' m₁ : Machine} {changed : Slot → Prop} {c : Expr} {v : Value} {fuel : Nat}

/-- **Chains lead to the same data again.** Evaluating a chain only reads. In memory where the slots that it looks at show what they
did it leads to the container that it led to, or to a new json value that shows the same data. -/
theorem chain_again (changed : Slot → Prop) (chain : Chain (Repeats m m') c) (run₁ : run fuel (.expr c) m = .done v m₁) (present : v ≠ .null) :
    Reads m m₁ ∧ (SameNames m m' → m₁.store.KeepsBut changed m'.store → (∀ slot, Visits fuel m c slot → ¬changed slot) →
      ∃ v' l, run fuel (.expr c) m' = .done v' l ∧ Reads m' l ∧ m₁.store.Matches m.store.boxes.size l.store v v') := by
  induction chain generalizing fuel v m₁ with
  | name mark n =>
    cases fuel with
    | zero => cases run₁
    | succ fuel =>
      obtain ⟨rfl, bound⟩ := done_nameValue run₁
      exact ⟨.refl _, fun names _ _ => ⟨v, m', nameValue_of_bound mark.line (names.bound bound), .refl m', .inl rfl⟩⟩
  | member mark base path =>
    cases fuel with
    | zero => cases run₁
    | succ fuel =>
      have reads := reads_readMember run₁
      refine ⟨reads, fun names kept aside => ?_⟩
      have kept := reads.store.keepsBut.trans kept
      obtain ⟨v', l, run', same⟩ := readMember_again run₁ present names kept fun slot looks => aside slot (.member looks)
      exact ⟨v', l, run', reads_readMember run', same⟩
  | @index mark c key inner side ih =>
    cases fuel with
    | zero => cases run₁
    | succ fuel =>
      obtain ⟨container, m₂, first, run₁⟩ := Exec.done_bind run₁
      obtain ⟨index, m₃, second, last⟩ := Exec.done_bind run₁
      obtain ⟨t, read, rfl⟩ := Exec.done_lift last
      have held : container ≠ .null := by
        rintro rfl
        cases read
      obtain ⟨reads, again⟩ := ih first held
      obtain ⟨calm, repeats⟩ := side reads second
      have later := reads_readIndex last
      refine ⟨(reads.trans calm).trans later, fun names kept aside => ?_⟩
      have kept₃ := later.store.keepsBut.trans kept
      obtain ⟨container', l₂, first', reads', same⟩ :=
        again names (calm.store.keepsBut.trans kept₃) fun slot visits => aside slot (.inner visits)
      obtain ⟨l₃, second', calm'⟩ := repeats l₂ reads'
      have before : m.store.KeepsBut changed _ := (reads.trans calm).store.keepsBut
      obtain ⟨v', u, read', same'⟩ := readIndex_again read present (same.later calm.store calm'.store)
        (kept₃.trans (reads'.trans calm').store.keepsBut) (fun slot looks => aside slot (.index first second looks)) before.size
      have last' := Exec.lift_ok read'
      have run' : run (fuel + 1) (.expr (.index mark c key)) m' = .done v' { l₃ with store := u } :=
        (Exec.bind_of_done first').trans ((Exec.bind_of_done second').trans last')
      exact ⟨v', _, run', (reads'.trans calm').trans (reads_readIndex last'), same'⟩

end

/-! ### Indices that only read -/

/-- The value that is written out in an expression, wherever it is evaluated. What a date names depends on the zone of the host. -/
def literal? : Expr → Option Value
  | .int _ n => some (.int n)
  | .long _ n => some (.long n)
  | .double _ x => some (.double x)
  | .string _ t => some (.string t)
  | .bool _ b => some (.bool b)
  | .null _ => some .null
  | _ => none

section

variable {m m' : Machine}

/-- What is written out is the same everywhere. -/
theorem repeats_literal {e : Expr} {w : Value} (literal : literal? e = some w) : Repeats m m' e := by
  have value (fuel : Nat) (k : Machine) : run (fuel + 1) (.expr e) k = .done w k := by
    cases e <;> cases literal <;> rfl
  intro fuel v k k' _ evaluated
  cases fuel with
  | zero => cases evaluated
  | succ fuel =>
    cases (value fuel k).symm.trans evaluated
    exact ⟨.refl k, fun l _ => ⟨l, value fuel l, .refl l⟩⟩

end

/-! ## Assignments -/

/-- The parts of an assignment to an element: a container, an index and a value are evaluated one after the other, and then the
element is written. -/
structure Assigned (fuel : Nat) (m : Machine) (c i e : Expr) (container index v : Value) (k m' : Machine) : Prop where
  parts : ∃ m₁ m₂, run fuel (.expr c) m = .done container m₁ ∧ run fuel (.expr i) m₁ = .done index m₂ ∧ run fuel (.expr e) m₂ = .done v k
  write : (liftM (writeIndex container index v) : Exec Unit) k = .done () m'

/-- What is stored for a value that is written to an element in memory `s`, and read back in memory `t`: what an array converts the
value to, or what the json data of the value is read as. -/
def StoredForm (s : Store) (container index v : Value) (t : Store) (w : Value) : Prop :=
  match container with
  | .array a => ∃ (n : Int64) (j : Nat), index.toInt64? = some n ∧ n.toInt = j ∧ (s.readied a j).Converts (s.array a).element v w
  | _ => ∃ x u, (toNode v).run.run s = (.ok x, u) ∧ t.Reads x.settle w

section

variable {m m' : Machine} {mark mark' : Mark} {c i e : Expr} {v : Value} {fuel : Nat}

/-- An assignment to an element is made of its parts. -/
theorem assigned_of_run (run₁ : run (fuel + 1) (.expr (.assign mark .set (.index mark' c i) e)) m = .done v m') :
    ∃ container index k, Assigned fuel m c i e container index v k m' := by
  obtain ⟨container, m₁, first, run₁⟩ := Exec.done_bind run₁
  obtain ⟨index, m₂, second, run₁⟩ := Exec.done_bind run₁
  obtain ⟨w, k, third, run₁⟩ := Exec.done_bind run₁
  obtain ⟨_, m₃, put, ⟨⟩⟩ := Exec.done_bind run₁
  exact ⟨container, index, k, ⟨m₁, m₂, first, second, third⟩, put⟩

/-- Evaluating an expression keeps memory whole. -/
theorem onward_evaluated {k : Machine} (onward : m.Onward k) (careful : m.host.plugins.Careful)
    (evaluated : run fuel (.expr e) k = .done v m') : m.Onward m' := by
  have guarded := keeps_run (onward.plugins ▸ careful) fuel (.expr e) k.store k rfl onward.whole rfl
  exact onward.trans (guarded.onward (show (run fuel (.expr e) k).EndsAt m' by rw [evaluated]; rfl))

/-- **An element reads what was assigned to it.** After an assignment to an element through a chain of members and indices, the
element is read through the chain, and is what was stored for the value: what an array converts it to, or what its json data is read
as. The indices and the value only read, and the indices have the same values again. The chain does not go through the element
itself. And where a list gets longer, the json value that it belongs to was there before the chain was evaluated. -/
theorem assigned_read (run₁ : run (fuel + 1) (.expr (.assign mark .set (.index mark' c i) e)) m = .done v m')
    (chain : Chain (Repeats m m') (.index mark' c i)) (value : ∀ w k k', Reads m k → run fuel (.expr e) k = .done w k' → Reads k k')
    (careful : m.host.plugins.Careful) (whole : m.store.Whole) :
    ∃ container index k, Assigned fuel m c i e container index v k m' ∧
      ((∀ slot, Visits fuel m c slot → ¬k.store.Alters container index slot) →
        (∀ b, container = .json b → k.store.Alters container index (.box b) → b < m.store.boxes.size) →
        (∀ a, container = .array a → (k.store.array a).cells.FitsFor (k.store.array a).element) →
        ∃ w m'', run (fuel + 1) (.expr (.index mark' c i)) m' = .done w m'' ∧ Reads m' m'' ∧
          StoredForm k.store container index v m''.store w) := by
  obtain ⟨container, index, k, assigned⟩ := assigned_of_run run₁
  refine ⟨container, index, k, assigned, fun aside shared fits => ?_⟩
  obtain ⟨⟨m₁, m₂, first, second, third⟩, write⟩ := assigned
  have held : container ≠ .null := by
    rintro rfl
    cases write
  obtain ⟨t, written, rfl, frames⟩ := Exec.done_beside (code_writeIndex _ _ _) write
  obtain - | - | ⟨inner, side⟩ := chain
  obtain ⟨reads, again⟩ := chain_again (k.store.Alters container index) inner first held
  obtain ⟨calm, repeats⟩ := side reads second
  have last := value v m₂ k (reads.trans calm) third
  have before := (reads.trans calm).trans last
  have begins : m.Onward m := ⟨.refl, whole, rfl⟩
  have there := onward_evaluated (onward_evaluated (onward_evaluated begins careful first) careful second) careful third
  obtain ⟨stored, kept⟩ := writeIndex_stored there.whole fits written
  have names : SameNames m { k with store := t } := ⟨before.scope, frames.trans before.frames⟩
  obtain ⟨container', l₂, first', reads', same⟩ := again names ((calm.trans last).store.keepsBut.trans kept) aside
  obtain ⟨l₃, second', calm'⟩ := repeats l₂ reads'
  have after := (reads'.trans calm').store
  suffices read : ∃ w u, (readIndex container' index).run.run l₃.store = (.ok w, u) ∧ StoredForm k.store container index v u w by
    obtain ⟨w, u, read, form⟩ := read
    have lifted := Exec.lift_ok read
    exact ⟨w, _, (Exec.bind_of_done first').trans ((Exec.bind_of_done second').trans lifted),
      (reads'.trans calm').trans (reads_readIndex lifted), form⟩
  have same := same.later (calm.trans last).store calm'.store
  have unchanged₃ : t.KeepsBut (fun _ => False) l₃.store := after.keepsBut
  cases stored with
  | @element a j _ _ w n _ number here converts lies =>
    obtain rfl : container' = .array a := same.resolve_right fun ⟨_, _, _, json, _⟩ => nomatch json
    have lies' := unchanged₃.elements a j w lies id
    exact ⟨w, _, run_readIndex_array number here lies', n, j, number, here, converts⟩
  | @place b _ _ step p x _ u number place data lies unchanged =>
    obtain ⟨b', rfl, box⟩ : ∃ b', container' = .json b' ∧ l₃.store.box b' = t.box b := by
      obtain rfl | ⟨_, b', n, ⟨⟩, rfl, new, -, holds, holds'⟩ := same
      · have holds := Store.box_lies rfl (Node.isNull_of_place? place)
        exact ⟨b, rfl, by rw [Store.box, after.keeps.boxes b _ holds, Option.getD_some]⟩
      · have here : k.store.box b = n := by rw [Store.box, holds, Option.getD_some]
        have there : l₃.store.box b' = n := by rw [Store.box, holds', Option.getD_some]
        refine ⟨b', rfl, ?_⟩
        -- a list that gets longer is that of a json value that was there, which the chain leads to itself
        cases behind : (k.store.box b).behind? step with
        | none => rw [unchanged behind, here, there]
        | some q => exact absurd (shared b rfl (.box number behind)) (Nat.not_lt.mpr new)
    obtain ⟨x', lies', settles⟩ := unchanged₃.places p x lies id
    obtain ⟨w, u', read, -, form, -⟩ := does_ofNode_new x' l₃.store
    rw [settles.settle] at form
    exact ⟨w, u', (run_readIndex_json number (box ▸ place) lies').trans read, x, u, data, form⟩

/-- The item of a list inside an object is assigned to and read. -/
theorem inner_item_read :
    let mark : Mark := ⟨"", 1⟩
    let item : Expr := .index mark (.member mark "j" ["l"]) (.int mark 0)
    ∃ m m' : Machine, run 2 (.expr (.assign mark .set item (.int mark 2))) m = .done (.int 2) m' ∧ Chain (Repeats m m') item ∧
      (∀ w k k', Reads m k → run 1 (.expr (.int mark 2)) k = .done w k' → Reads k k') ∧ m.host.plugins.Careful ∧ m.store.Whole ∧
      ∃ m'', run 2 (.expr item) m' = .done (.int 2) m'' := by
  intro mark item
  let m : Machine := { Machine.initial (Host.initial default default) 10 "" with
    store := { Store.initial with
      boxes := #[.object 0]
      objects := #[[("l", .list 0 1)]]
      buffers := #[#[.int 1]]
      frames := #[⟨[("j", ⟨.json 0, false, none, none⟩)], none⟩] } }
  let m₁ : Machine := { m with store := { m.store with boxes := #[.object 0, .list 0 1] } }
  let m' : Machine := { m₁ with store := { m₁.store with buffers := #[#[.int 2]] } }
  have run₁ : run 2 (.expr (.assign mark .set item (.int mark 2))) m = .done (.int 2) m' := rfl
  have chain : Chain (Repeats m m') item := .index (.member ..) (repeats_literal rfl)
  have value (w : Value) (k k' : Machine) (reads : Reads m k) (evaluated : run 1 (.expr (.int mark 2)) k = .done w k') : Reads k k' :=
    have repeats : Repeats m m' (.int mark 2) := repeats_literal rfl
    (repeats reads evaluated).1
  have careful : m.host.plugins.Careful := nofun
  have whole : m.store.Whole := by decide
  refine ⟨m, m', run₁, chain, value, careful, whole, ?_⟩
  obtain ⟨container, index, k, ⟨⟨_, _, first, second, third⟩, -⟩, reads⟩ := assigned_read run₁ chain value careful whole
  cases (show run 1 (.expr (.member mark "j" ["l"])) m = .done (.json 1) m₁ from rfl).symm.trans first
  cases second
  cases third
  have notBehind {step : Path.Step} {p : ScriptEngine.Place} (index : (Value.int 0).step? = some step)
      (behind : (m₁.store.box 1).behind? step = some p) : False := by
    cases index
    cases behind
  have aside (slot : Slot) (visits : Visits 1 m (.member mark "j" ["l"]) slot) : ¬m₁.store.Alters (.json 1) (.int 0) slot := by
    intro alters
    obtain ⟨looks⟩ := visits
    cases alters with
    | box index behind => exact notBehind index behind
    | place index here =>
      have here := here.resolve_right (notBehind index)
      cases index
      cases here
      obtain - | ⟨-, -, inner⟩ := looks
      obtain ⟨a, k, impossible⟩ := inner.entry
      cases impossible
  have shared (b : Nat) (_ : Value.json 1 = .json b) (alters : m₁.store.Alters (.json 1) (.int 0) (.box b)) : b < m.store.boxes.size := by
    obtain - | - | ⟨index, behind⟩ := alters
    exact (notBehind index behind).elim
  obtain ⟨w, m'', read, -, x, u, data, same⟩ := reads aside shared nofun
  cases data
  obtain rfl : w = .int 2 := same
  exact ⟨m'', read⟩

/-- An item that is put behind the end of a list inside an object is gone: the list is made longer for the json value alone that
wraps it while the assignment runs, and the element has no place when it is read. -/
theorem append_lost :
    let mark : Mark := ⟨"", 1⟩
    let item : Expr := .index mark (.member mark "j" ["l"]) (.int mark 1)
    ∃ m m' m'' : Machine, ∃ f, m.store.Whole ∧ run 2 (.expr (.assign mark .set item (.int mark 2))) m = .done (.int 2) m' ∧
      run 2 (.expr item) m' = .failed f m'' := by
  intro mark item
  let m : Machine := { Machine.initial (Host.initial default default) 10 "" with
    store := { Store.initial with
      boxes := #[.object 0]
      objects := #[[("l", .list 0 1)]]
      buffers := #[#[.int 1]]
      frames := #[⟨[("j", ⟨.json 0, false, none, none⟩)], none⟩] } }
  let m' : Machine := { m with store := { m.store with boxes := #[.object 0, .list 1 2], buffers := #[#[.int 1], #[.int 1, .int 2]] } }
  exact ⟨m, m', _, _, by decide, rfl, rfl⟩

end

end Eval

end ScriptEngine
