import ScriptEngine.Eval
import ScriptEngine.Proofs.PlaceWrites
/-!
# Shapes of variables that are assigned to

An assignment to a variable or a member of it makes the variable's value fit what was declared. It leaves other variables
as they fit, unless they share what is written to.
-/

namespace ScriptEngine

namespace Machine

/-- A variable in sight was declared with a shape and has a value. -/
def Shaped (m : Machine) (name : Text) (shape : Shape) (v : Value) : Prop :=
  ∃ a b, m.store.lookup? m.scope name = some (a, b) ∧ b.shape = some shape ∧ b.value = v

/-- A variable in sight was declared with a shape that takes its value. When the shape is steady, and the dates in the value have
years of four digits and offsets that show, the value is made to fit again without a fault, and the same data comes out. -/
structure Conforms (m : Machine) (name : Text) (shape : Shape) (v : Value) : Prop where
  shaped : m.Shaped name shape v
  takes : shape.Takes m.store v
  again : shape.Steady → shape.Dated m.store v → ∃ w t, (StoreM.conform shape v).run.run m.store = (.ok w, t) ∧ m.store.AlikeValue t v w

/-- A value that a steady shape takes is made to fit again. -/
theorem Conforms.of_takes {m : Machine} {name : Text} {shape : Shape} {v : Value} (shaped : m.Shaped name shape v)
    (takes : shape.Takes m.store v) : m.Conforms name shape v where
  shaped := shaped
  takes := takes
  again := fun steady dated =>
    have ⟨w, t, run, _, alike⟩ := StoreM.does_conform steady takes dated
    ⟨w, t, run, alike⟩

end Machine

namespace Eval

/-! ## Places -/

/-- A place that is assigned to. -/
inductive Place where
  | name (line : Nat) (name : Text)
  | index (container key : Value)
  | member (line : Nat) (base : Text) (path : List Text)

namespace Place

/-- The value at a place. -/
def read : Place → Exec Value
  | name line n => nameValue line n
  | index c k => readIndex c k
  | member line base path => readMember line base path

/-- Writes a value to a place. -/
def put : Place → Value → Exec Unit
  | name _ n, v => do
    let _ ← assignName n v
  | index c k, v => writeIndex c k v
  | member line base path, v => writeMember line base path v

/-- The variable that is assigned to, by its name or that of a member. -/
def assigned? : Place → Option Text
  | name _ n => some n
  | index .. => none
  | member _ base _ => some base

/-- The containers that a write of a value to a place may change. -/
def Touches (m : Machine) (v : Value) : Place → Container → Prop
  | name _ n, c => ∃ a b, m.store.lookup? m.scope n = some (a, b) ∧ b.Refits v c
  | index container _, c => m.store.Outer container c
  | member _ base _, c => ∃ a b, m.store.lookup? m.scope base = some (a, b) ∧ b.Below m.store c

/-- The variable that is assigned to, if it was declared with a shape, can be given a value. -/
def Ready (m : Machine) (v : Value) (p : Place) : Prop :=
  ∀ n a b shape, p.assigned? = some n → m.store.lookup? m.scope n = some (a, b) → b.shape = some shape →
    b.Declared m.store shape ∧ shape.Admits m.store v

end Place

variable (rec : Runner)

/-- The place that the target of an assignment names. -/
def target : Expr → Exec Place
  | .name mark n => pure (.name mark.line n)
  | .index _ container key => do
    let c ← evaluate rec container
    let k ← evaluate rec key
    pure (.index c k)
  | .member mark base path => pure (.member mark.line base path)
  | t => throw (Fault.wrongType ("cannot assign to " ++ t.render))

/-- The operator of a step by one. -/
def stepOperator : StepOp → BinaryOp
  | .increment => .add
  | .decrement => .sub

/-- The place that an assignment or a step writes to, and the value that it writes. -/
def operands : Expr → Exec (Place × Value)
  | .assign _ op t e => do
    let p ← target rec t
    let v ← newValue rec op p.read e
    pure (p, v)
  | .step _ op t => do
    let p ← target rec t
    let old ← p.read
    let v ← binary (stepOperator op) old (.int 1)
    pure (p, v)
  | e => throw (Fault.wrongType ("cannot assign to " ++ e.render))

/-- An expression that assigns to something. -/
def Assigns : Expr → Prop
  | .assign .. | .step .. => True
  | _ => False

/-- What reading changes in a machine: data may settle, and new data may come. -/
structure Reads (m m' : Machine) : Prop where
  scope : m'.scope = m.scope
  frames : m'.store.frames = m.store.frames
  store : m.store.Later (fun _ => False) m'.store

section

variable {rec} {m m' : Machine} {w : Value}

theorem Reads.refl (m : Machine) : Reads m m := ⟨rfl, rfl, .refl _⟩

/-- Reading a member changes nothing but that data settles. -/
theorem reads_readMember {line : Nat} {base : Text} {path : List Text} (run : readMember line base path m = .done w m') :
    Reads m m' := by
  obtain ⟨b, _, found, inner⟩ := Exec.done_bind (Exec.done_atLine run)
  obtain ⟨rfl, -⟩ := done_memberBase found
  obtain ⟨n, m₀, followed, last⟩ := Exec.done_bind (Exec.run_get_bind _ ▸ inner)
  unfold Exec.ofExcept at followed
  split at followed
  · cases followed
    split at last
    · obtain ⟨s, read, rfl, frames⟩ := Exec.done_beside (StoreM.code_ofNode _) last
      exact ⟨rfl, frames, ((StoreM.makes_ofNode _).of_run read).1⟩
    · cases last
      exact .refl _
  · cases followed

/-- An assignment runs its operands, writes, and then only reads. -/
theorem expression_puts {e : Expr} (assigns : Assigns e) (run : expression rec e m = .done w m') :
    ∃ p v m₁ m₂, operands rec e m = .done (p, v) m₁ ∧ p.put v m₁ = .done () m₂ ∧ Reads m₂ m' := by
  cases e with
  | assign mark op t value =>
    cases t with
    | name mark n =>
      obtain ⟨v, m₁, value, run⟩ := Exec.done_bind run
      refine ⟨.name mark.line n, v, m₁, m', ?_, ?_, .refl m'⟩
      · exact (Exec.bind_of_done (x := target rec (.name mark n)) rfl).trans (Exec.bind_of_done value)
      · exact Exec.bind_of_done run
    | index mark container key =>
      obtain ⟨c, _, container, run⟩ := Exec.done_bind run
      obtain ⟨k, m₀, key, run⟩ := Exec.done_bind run
      obtain ⟨v, m₁, value, run⟩ := Exec.done_bind run
      obtain ⟨_, m₂, put, ⟨⟩⟩ := Exec.done_bind run
      refine ⟨.index c k, w, m₁, m', ?_, put, .refl m'⟩
      have found : target rec (.index mark _ _) m = .done (.index c k) m₀ :=
        (Exec.bind_of_done container).trans (Exec.bind_of_done key)
      exact (Exec.bind_of_done found).trans (Exec.bind_of_done value)
    | member mark base path =>
      obtain ⟨v, m₁, value, run⟩ := Exec.done_bind run
      obtain ⟨_, m₂, put, run⟩ := Exec.done_bind run
      refine ⟨.member mark.line base path, v, m₁, m₂, ?_, put, reads_readMember run⟩
      exact (Exec.bind_of_done (x := target rec (.member mark base path)) rfl).trans (Exec.bind_of_done value)
    | _ => cases run
  | step mark op t =>
    cases t with
    | name mark n =>
      obtain ⟨old, _, value, run⟩ := Exec.done_bind run
      obtain ⟨v, m₁, stepped, run⟩ := Exec.done_bind run
      obtain ⟨x, m₂, put, run⟩ := Exec.done_bind run
      cases run
      refine ⟨.name mark.line n, v, m₁, m', ?_, Exec.bind_of_done put, .refl m'⟩
      refine (Exec.bind_of_done (x := target rec (.name mark n)) rfl).trans ((Exec.bind_of_done value).trans ?_)
      exact Exec.bind_of_done stepped
    | index mark container key =>
      obtain ⟨c, _, container, run⟩ := Exec.done_bind run
      obtain ⟨k, m₀, key, run⟩ := Exec.done_bind run
      obtain ⟨old, _, value, run⟩ := Exec.done_bind run
      obtain ⟨v, m₁, stepped, run⟩ := Exec.done_bind run
      obtain ⟨_, m₂, put, ⟨⟩⟩ := Exec.done_bind run
      refine ⟨.index c k, v, m₁, m', ?_, put, .refl m'⟩
      have found : target rec (.index mark _ _) m = .done (.index c k) m₀ :=
        (Exec.bind_of_done container).trans (Exec.bind_of_done key)
      exact (Exec.bind_of_done found).trans ((Exec.bind_of_done value).trans (Exec.bind_of_done stepped))
    | member mark base path =>
      obtain ⟨old, _, value, run⟩ := Exec.done_bind run
      obtain ⟨v, m₁, stepped, run⟩ := Exec.done_bind run
      obtain ⟨_, m₂, put, run⟩ := Exec.done_bind run
      cases run
      refine ⟨.member mark.line base path, v, m₁, m', ?_, put, .refl m'⟩
      refine (Exec.bind_of_done (x := target rec (.member mark base path)) rfl).trans ?_
      exact (Exec.bind_of_done value).trans (Exec.bind_of_done stepped)
    | _ => cases run
  | _ => cases assigns

/-- What a write to a place leaves: other variables are bound to what they were, and the one that is assigned to has a
value that its shape takes. -/
structure Wrote (p : Place) (v : Value) (m m' : Machine) : Prop where
  scope : m'.scope = m.scope
  objects : m.store.KeepsObjects m'.store
  memory : m.store.LaterBut (p.Touches m v) m'.store
  others : ∀ n, p.assigned? ≠ some n → m'.store.lookup? m'.scope n = m.store.lookup? m.scope n
  assigned : ∀ n a b, p.assigned? = some n → m.store.lookup? m.scope n = some (a, b) →
    ∃ x, m'.store.lookup? m'.scope n = some (a, { b with value := x }) ∧ ∀ shape, b.shape = some shape → shape.Takes m'.store x

theorem wrote_put {p : Place} {v : Value} {r : Unit} (ready : p.Ready m v) (run : p.put v m = .done r m') : Wrote p v m m' := by
  cases p with
  | name line n =>
    obtain ⟨w, _, run, ⟨⟩⟩ := Exec.done_bind run
    obtain ⟨scope, objects, memory, others, assigned⟩ := done_assignName (fun a b shape => ready n a b shape rfl) run
    refine ⟨scope, objects, memory, fun other ne => others other fun same => ne (congrArg some same.symm), ?_⟩
    rintro _ a b ⟨⟩ found
    exact assigned a b found
  | index c k =>
    obtain ⟨t, written, rfl, frames⟩ := Exec.done_beside (code_writeIndex c k v) run
    obtain ⟨but, objects⟩ := laterBut_writeIndex written
    exact ⟨rfl, objects, but, fun n _ => Store.lookup_of_frames frames _ n, fun _ _ _ h => nomatch h⟩
  | member line base path =>
    obtain ⟨a, b, found, scope, frames, objects, but, takes⟩ := done_writeMember
      (fun a b shape found hs => have ⟨declared, _⟩ := ready base a b shape rfl found hs; ⟨declared.sound, declared.plain⟩) run
    have same (n : Text) : m'.store.lookup? m'.scope n = m.store.lookup? m.scope n := by
      rw [scope, Store.lookup_of_frames frames]
    refine ⟨scope, objects, but.weaken fun c here => ⟨a, b, found, here⟩, fun n _ => same n, ?_⟩
    rintro _ a' b' ⟨⟩ found'
    cases found.symm.trans found'
    exact ⟨b.value, (same base).trans found, takes⟩

/-- A map is taken as long as json values that hold objects do so. -/
theorem takes_map {s t : Store} {sorted : Bool} {v : Value} (objects : s.KeepsObjects t) (takes : (Shape.map sorted).Takes s v) :
    (Shape.map sorted).Takes t v := by
  obtain ⟨-, none⟩ | ⟨a, n, rfl, lies, o, rfl⟩ := takes
  · exact absurd rfl (none sorted)
  · obtain ⟨o', lies'⟩ := objects a o lies
    exact .inr ⟨a, _, rfl, lies', o', rfl⟩

/-- After an assignment the variable that is assigned to, by its name or a member, conforms to the shape that it was
declared with. Every other variable conforms that did so when the value was written, if it is a map or reaches nothing
that the write may change, and has the value that it had. -/
theorem assigned_conforms {e : Expr} {p : Place} {v old : Value} {m₁ : Machine} {n : Text} {shape : Shape} (assigns : Assigns e)
    (run : expression rec e m = .done w m') (given : operands rec e m = .done (p, v) m₁) (ready : p.Ready m₁ v)
    (shaped : m₁.Shaped n shape old)
    (kept : p.assigned? = some n ∨ shape.Takes m₁.store old ∧
      ((∃ sorted, shape = .map sorted) ∨ ∀ c, m₁.store.Holding old c → ¬p.Touches m₁ v c)) :
    ∃ new, m'.Conforms n shape new ∧ (p.assigned? = some n ∨ new = old) := by
  obtain ⟨_, _, _, m₂, given', put, reads⟩ := expression_puts assigns run
  cases given.symm.trans given'
  have wrote := wrote_put ready put
  obtain ⟨a, b, found, hs, rfl⟩ := shaped
  -- reading afterwards keeps variables and what their shapes take
  have done {b' : Binding} (found : m₂.store.lookup? m₂.scope n = some (a, b')) (hs : b'.shape = some shape)
      (takes : shape.Takes m₂.store b'.value) : m'.Conforms n shape b'.value := by
    refine .of_takes ⟨a, b', ?_, hs, rfl⟩ ?_
    · rw [reads.scope, Store.lookup_of_frames reads.frames, found]
    · exact takes.kept (reads.store.but fun _ _ => False.elim) fun _ _ => not_false
  by_cases assigned : p.assigned? = some n
  · obtain ⟨x, found, takes⟩ := wrote.assigned n a b assigned found
    exact ⟨x, done found hs (takes shape hs), .inl assigned⟩
  · obtain ⟨takes, apart⟩ := kept.resolve_left assigned
    refine ⟨b.value, done ((wrote.others n assigned).trans found) hs ?_, .inr rfl⟩
    obtain ⟨sorted, rfl⟩ | apart := apart
    · exact takes_map wrote.objects takes
    · exact takes.kept wrote.memory apart

theorem assigned_conforms_member :
    let mark : Mark := ⟨"r", 1⟩
    let shape : Shape := .record [.mk "a" .int none true 0 none]
    let m : Machine := { Machine.initial (Host.initial default default) 10 "" with
      store := { Store.initial with
        boxes := #[.object 0]
        objects := #[[("a", .int 1)]]
        frames := #[⟨[("r", ⟨.json 0, false, some .json, some shape⟩)], none⟩] } }
    let e : Expr := .assign mark .set (.member mark "r" ["a"]) (.int mark 2)
    ∃ w m' new, expression (run 1) e m = .done w m' ∧ (Place.member 1 "r" ["a"]).Ready m (.int 2) ∧
      m.Shaped "r" shape (.json 0) ∧ m'.Conforms "r" shape new := by
  intro mark shape m e
  have ready : (Place.member 1 "r" ["a"]).Ready m (.int 2) := by
    rintro _ a b _ ⟨⟩ ⟨⟩ ⟨⟩
    exact ⟨⟨nofun, ⟨List.pairwise_singleton .., nofun, trivial⟩, nofun, trivial⟩, nofun⟩
  have shaped : m.Shaped "r" shape (.json 0) := ⟨0, _, rfl, rfl, rfl⟩
  obtain ⟨w, m', run⟩ := Outcome.isDone_iff.mp (show (expression (run 1) e m).isDone = true by decide +kernel)
  obtain ⟨new, conforms, -⟩ := assigned_conforms (e := e) trivial run rfl ready shaped (.inl rfl)
  exact ⟨w, m', new, run, ready, shaped, conforms⟩

/-- An element of a json value is written without a look at the shape that the variable was declared with. -/
theorem element_breaks_shape :
    let mark : Mark := ⟨"r", 1⟩
    let shape : Shape := .record [.mk "a" .int none true 0 none]
    let m : Machine := { Machine.initial (Host.initial default default) 10 "" with
      store := { Store.initial with
        boxes := #[.object 0]
        objects := #[[("a", .int 1)]]
        frames := #[⟨[("r", ⟨.json 0, false, some .json, some shape⟩)], none⟩] } }
    let e : Expr := .assign mark .set (.index mark (.name mark "r") (.string mark "b")) (.int mark 2)
    m.Conforms "r" shape (.json 0) ∧ ∃ m', expression (run 1) e m = .done (.int 2) m' ∧ m'.Shaped "r" shape (.json 0) ∧
      ∃ f t, (StoreM.conform shape (.json 0)).run.run m'.store = (.error f, t) := by
  intro mark shape m e
  refine ⟨.of_takes ⟨0, _, rfl, rfl, rfl⟩ ?_, _, rfl, ⟨0, _, rfl, rfl, rfl⟩, _, _, rfl⟩
  refine .inr ⟨0, .object 0, rfl, rfl, 0, [("a", .int 1)], rfl, rfl, ?_, ?_⟩
  · simp only [List.mem_singleton, forall_eq]
    exact FieldShape.firstTakes_iff.mpr ⟨_, rfl, .inr ⟨rfl, ⟨1, rfl⟩, nofun, nofun, nofun⟩⟩
  · simp only [List.mem_singleton, forall_eq]
    exact fun _ => ⟨_, rfl, by decide⟩

end

end Eval

end ScriptEngine
