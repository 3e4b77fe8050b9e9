import ScriptEngine.Proofs.CodeMemory
import ScriptEngine.Proofs.Conforming
/-!
# Definitions of variables

Variables are made by definitions of several sorts and changed by assignments, in any order, while frames come and go.
What is declared of a variable follows from the definitions of its name in its frame: the last of them decides, but for
a constant, which keeps what was declared before.
-/

namespace ScriptEngine

/-- A way in which a name is defined. -/
inductive Definition where
  | plain
  | typed (kind : Kind)
  | shaped (kind : Kind) (shape : Shape)
  | constant
  | global

namespace Definition

/-- The kind that a definition declares. -/
def kind? : Definition → Option Kind
  | typed k | shaped k _ => some k
  | _ => none

/-- The shape that a definition declares. -/
def shape? : Definition → Option Shape
  | shaped _ shape => some shape
  | _ => none

/-- The definition whose declaration is in force: the last one that is not of a constant. -/
def inForce : List Definition → Option Definition
  | [] => none
  | constant :: ds => inForce ds
  | d :: _ => some d

/-- A definition that is not of a constant is in force. -/
theorem inForce_cons {d : Definition} (other : d ≠ constant) (ds : List Definition) : inForce (d :: ds) = some d := by
  cases d with
  | constant => exact absurd rfl other
  | _ => rfl

/-- What declares no kind declares no shape. -/
theorem shapeless {d : Option Definition} (kindless : d.bind kind? = none) : d.bind shape? = none := by
  cases d with
  | none => rfl
  | some d =>
    cases d with
    | shaped k shape => cases kindless
    | _ => rfl

end Definition

/-- The definitions so far, each with its frame and name, the last one first. -/
abbrev History := List ((Nat × Text) × Definition)

/-- The definitions of a name in a frame, the last one first. -/
def History.of (h : History) (place : Nat × Text) : List Definition := (h.filter fun e => e.1 = place).map (·.2)

theorem History.of_cons_self (h : History) (place : Nat × Text) (d : Definition) :
    History.of ((place, d) :: h) place = d :: h.of place := by simp [History.of]

theorem History.of_cons_ne (h : History) {place other : Nat × Text} (d : Definition) (ne : place ≠ other) :
    History.of ((place, d) :: h) other = h.of other := by simp [History.of, ne]

namespace Scope

/-- What is done to variables: frames are opened and closed, names defined in the top frame or the global one, and
variables assigned to. -/
inductive Operation where
  | push
  | pushFrom (outer : Nat)
  | pop
  | define (name : Text) (v : Value)
  | defineTyped (name : Text) (kind : Kind) (v : Value)
  | defineShaped (name : Text) (kind : Kind) (shape : Shape) (v : Value)
  | defineConst (name : Text) (v : Value)
  | assign (name : Text) (v : Value)
  | defineGlobal (name : Text) (v : Value)

namespace Operation

/-- The scope that an operation leaves. -/
def run (e : Scope) : Operation → StoreM Scope
  | push => StoreM.push e
  | pushFrom outer => StoreM.pushFrom e (some outer)
  | pop =>
    match e.pop with
    | .ok rest => pure rest
    | .error f => throw f
  | define name v => do
    StoreM.define e name v
    pure e
  | defineTyped name kind v => do
    StoreM.defineTyped e name kind v
    pure e
  | defineShaped name kind shape v => do
    StoreM.defineShaped e name kind shape v
    pure e
  | defineConst name v => do
    StoreM.defineConst e name v
    pure e
  | assign name v => do
    StoreM.assign e name v
    pure e
  | defineGlobal name v => do
    StoreM.defineGlobal e name v
    pure e

/-- The definition that an operation makes when it succeeds. -/
def defines (e : Scope) : Operation → History
  | define name _ => [((e.top, name), .plain)]
  | defineTyped name kind _ => [((e.top, name), .typed kind)]
  | defineShaped name kind shape _ => [((e.top, name), .shaped kind shape)]
  | defineConst name _ => [((e.top, name), .constant)]
  | defineGlobal name _ => [((e.global, name), .global)]
  | _ => []

end Operation

end Scope

/-- A value is no array, or one that lies in memory. -/
def Store.Placed (s : Store) : Value → Prop
  | .array a => a < s.arrays.size
  | _ => True

/-- An operation can be asked for: its values and its frame lie in memory, and only names that are not in sight are
defined in the global frame. -/
def Scope.Operation.Valid (e : Scope) (s : Store) : Scope.Operation → Prop
  | push | pop => True
  | pushFrom outer => outer < s.frames.size
  | define _ v | defineTyped _ _ v | defineShaped _ _ _ v | defineConst _ v | assign _ v => s.Placed v
  | defineGlobal name v => s.lookup? e name = none ∧ s.Placed v

/-- Arrays are still of their kinds. -/
def Store.KeepsKinds (s t : Store) : Prop := Extends (fun _ d d' => d'.cells.kind = d.cells.kind) s.arrays t.arrays

theorem Store.KeepsKinds.refl (s : Store) : s.KeepsKinds s := fun _ d hd => ⟨d, hd, rfl⟩

/-- Memory has changed beside the variables: frames are as they were, and arrays are still of their kinds. -/
structure Store.Beside (s t : Store) : Prop where
  frames : t.frames = s.frames
  kinds : s.KeepsKinds t

/-- The scopes and memories that operations lead to from a new global frame, with the definitions that succeeded.
Between operations memory may change beside the variables. -/
inductive Made : History → Scope → Store → Prop
  | start {s : Store} (new : s.frames = #[⟨[], none⟩]) : Made [] Scope.initial s
  | beside {h : History} {e : Scope} {s t : Store} (made : Made h e s) (changed : s.Beside t) : Made h e t
  | done {h : History} {e e' : Scope} {s t : Store} (made : Made h e s) (op : Scope.Operation) (valid : op.Valid e s)
      (run : (op.run e).run.run s = (.ok e', t)) : Made (op.defines e ++ h) e' t
  | failed {h : History} {e : Scope} {s t : Store} {f : Fault} (made : Made h e s) (op : Scope.Operation)
      (valid : op.Valid e s) (run : (op.run e).run.run s = (.error f, t)) : Made h e t

/-! ## Values and kinds -/

section Values

variable {s t : Store} {written : Nat → Prop}

/-- Arrays keep their kinds in memory that is added to. -/
theorem Store.Later.kinds (h : s.Later written t) : s.KeepsKinds t := by
  intro a d hd
  obtain ⟨d', hd', alike, -⟩ := h.arrays a d hd
  exact ⟨d', hd', alike.kind⟩

/-- Memory that is added to without touching frames has changed beside the variables. -/
theorem Store.Later.beside (h : s.Later written t) (code : t.code = s.code) : s.Beside t :=
  ⟨congrArg Prod.snd code, h.kinds⟩

/-- A value that lies in memory stays there while arrays keep their kinds, and is of the same kind. -/
theorem Store.Placed.kept (kinds : s.KeepsKinds t) {v : Value}
    (placed : s.Placed v) : t.Placed v ∧ t.kindOf v = s.kindOf v := by
  cases v with
  | array a =>
    obtain ⟨d, lies, same⟩ := kinds a s.arrays[a] (Array.getElem?_eq_getElem placed)
    refine ⟨(Array.getElem?_eq_some_iff.mp lies).1, ?_⟩
    rw [kindOf, kindOf, Store.array, Store.array, lies, Array.getElem?_eq_getElem placed]
    exact same
  | _ => exact ⟨trivial, rfl⟩

/-- A kind still holds a value while arrays keep their kinds. -/
theorem Store.Holds.kept {k : Kind} {v : Value} (holds : s.Holds k v)
    (kinds : s.KeepsKinds t) (placed : s.Placed v) :
    t.Holds k v := by
  unfold Holds at holds ⊢
  rwa [(placed.kept kinds).2]

/-- A kind that holds a json value holds all of them. -/
theorem Store.Holds.json {k : Kind} {a : Nat} (h : s.Holds k (.json a)) (t : Store) (b : Nat) : t.Holds k (.json b) :=
  h.imp id (Or.imp id fun h => nomatch h.1)

/-- A new value lies in memory. -/
theorem Store.Solid.placed {v : Value} (h : s.Solid v) : s.Placed v := by
  cases v with
  | array a => exact h
  | _ => trivial

namespace StoreM

/-- A json object is converted to few kinds only. -/
theorem kind_of_coerced_object {k : Kind} {a o : Nat} {w : Value} (box : s.boxes[a]? = some (.object o))
    (run : (coerce (.json a) k).run.run s = (.ok w, t)) : k = .string ∨ s.Holds k (.json a) := by
  cases k with
  | string => exact .inl rfl
  | any => exact .inr (.inr (.inl (.inl rfl)))
  | invalid => exact .inr (.inl rfl)
  | json => exact .inr (.inr (.inl (.inr (.inl rfl))))
  | array =>
    have other : s.box a = .object o := by
      rw [Store.box, box, Option.getD_some]
    unfold coerce at run
    dsimp only at run
    rw [show kindOf (.json a) = pure Kind.json from rfl, pure_bind, if_neg (by decide), if_neg (by decide), run_get_bind,
      other] at run
    cases run
  | _ => cases run

/-- A value that lies in memory is converted to one that the kind holds. -/
theorem makes_held {v : Value} (placed : s.Placed v) (k : Kind) :
    Makes written (fun w t => t.Placed w ∧ t.Holds k w) (coerce v k) s := by
  have converted : Makes written (fun w t => w = v ∨ t.Solid w) (coerce v k) s := makes_coerce v k
  obtain ⟨later, given⟩ := converted
  refine ⟨later, fun w hw => ⟨?_, holds_coerce (Prod.ext hw rfl)⟩⟩
  obtain rfl | solid := given w hw
  · exact (placed.kept later.kinds).1
  · exact solid.placed

/-- What a held value becomes so that it fits a shape is held too, when the kind of a map holds json values. -/
theorem makes_conform_held {shape : Shape} {k : Kind} {v : Value} (placed : s.Placed v) (held : s.Holds k v)
    (ofMap : ∀ sorted, shape = .map sorted → s.Holds k (.json 0)) :
    Makes (fun _ => True) (fun w t => t.Placed w ∧ t.Holds k w) (conform shape v) s := by
  refine (makes_conform shape v).mono fun w t later fit => ?_
  obtain rfl | ⟨solid, a, rfl, ⟨b, rfl⟩ | ⟨-, sorted, rfl⟩⟩ := fit.same_or_json
  · exact ⟨(placed.kept later.kinds).1, held.kept later.kinds placed⟩
  · exact ⟨trivial, held.json t a⟩
  · exact ⟨trivial, (ofMap sorted rfl).json t a⟩

/-- A value that is converted, made to fit and converted again is held by the kind, which then holds json values if the
shape is of a map. -/
theorem makes_shaped {v : Value} (placed : s.Placed v) (k : Kind) (shape : Shape) :
    Makes (fun _ => True) (fun w t => t.Placed w ∧ t.Holds k w ∧ ∀ sorted, shape = .map sorted → t.Holds k (.json 0))
      (do
        let w ← coerce v k
        let w ← conform shape w
        coerce w k) s := by
  refine makes_bind (makes_held placed k) fun w₀ t₀ _ ⟨placed₀, held₀⟩ => ?_
  refine makes_bind (makes_conform shape w₀) fun w₁ t₁ later₁ fit => ?_
  have placed₁ : t₁.Placed w₁ := by
    obtain rfl | ⟨solid, -⟩ := fit.same_or_json
    · exact (placed₀.kept later₁.kinds).1
    · exact solid.placed
  have again : Makes (fun _ => True) (fun w t => t.Placed w ∧ t.Holds k w) (coerce w₁ k) t₁ := makes_held placed₁ k
  refine ⟨again.1, fun w hw => ?_⟩
  obtain ⟨placed', held'⟩ := again.2 w hw
  refine ⟨placed', held', fun sorted hs => ?_⟩
  obtain ⟨a, o, rfl, box⟩ := fit.map sorted hs
  obtain rfl | holds := kind_of_coerced_object box (Prod.ext hw rfl)
  · -- a text is no value of a map, and null becomes a text
    have text : t₀.kindOf w₀ = .string := by
      obtain impossible | (impossible | same | ⟨impossible, -⟩) | ⟨-, impossible⟩ := held₀
      · cases impossible
      · cases impossible
      · exact same
      · cases impossible
      · cases impossible
    obtain rfl | ⟨-, _, -, ⟨b, rfl⟩ | ⟨rfl, -⟩⟩ := fit.same_or_json
    all_goals cases text
  · exact holds.json _ 0

end StoreM

end Values

/-! ## Bindings -/

/-- A name that is set is found with its new binding, and other names with the ones they had. -/
theorem lookup_setBinding (name other : Text) (b : Binding) (bs : List (Text × Binding)) :
    (setBinding name b bs).lookup other = if other = name then some b else bs.lookup other := by
  have head (n : Text) (c : Binding) (rest : List (Text × Binding)) :
      List.lookup other ((n, c) :: rest) = if other = n then some c else rest.lookup other := by
    rw [List.lookup_cons]
    split
    · rename_i same
      rw [if_pos (eq_of_beq same)]
    · rename_i ne
      rw [if_neg (ne_of_beq_false ne)]
  induction bs with
  | nil => exact head name b []
  | cons old rest ih =>
    obtain ⟨n, old⟩ := old
    rw [setBinding]
    split
    · rename_i here
      subst here
      rw [head, head]
      split <;> rfl
    · rename_i elsewhere
      rw [head, head, ih]
      split
      · rename_i same
        rw [if_neg (same ▸ elsewhere)]
      · rfl

/-- Memory with the bindings of a frame changed. -/
def Store.withBindings (s : Store) (a : Nat) (f : List (Text × Binding) → List (Text × Binding)) : Store :=
  { s with frames := s.frames.modify a fun fr => { fr with bindings := f fr.bindings } }

namespace Store

variable {s : Store} {a b : Nat} {f : List (Text × Binding) → List (Text × Binding)}

@[simp]
theorem size_withBindings : (s.withBindings a f).frames.size = s.frames.size := Array.size_modify

@[simp]
theorem outer_withBindings : ((s.withBindings a f).frame b).outer = (s.frame b).outer := by
  rw [frame, frame, withBindings, Array.getElem?_modify]
  split
  · cases s.frames[b]? <;> rfl
  · rfl

theorem bindings_withBindings_self (inside : a < s.frames.size) :
    ((s.withBindings a f).frame a).bindings = f (s.frame a).bindings := by
  rw [frame, frame, withBindings, Array.getElem?_modify, if_pos rfl, Array.getElem?_eq_getElem inside]
  rfl

theorem bindings_withBindings_ne (ne : a ≠ b) : ((s.withBindings a f).frame b).bindings = (s.frame b).bindings := by
  rw [frame, frame, withBindings, Array.getElem?_modify, if_neg ne]

/-- A frame with variables lies in memory. -/
theorem inside_of_lookup {name : Text} {b : Binding} (found : (s.frame a).bindings.lookup name = some b) :
    a < s.frames.size := by
  by_contra outside
  rw [frame, Array.getElem?_eq_none (Nat.not_lt.mp outside)] at found
  cases found

/-- The frame that a name is found in has a variable of the name. -/
theorem lookup_of_lookupTo {name : Text} {c : Nat} {b : Binding} {fuel : Nat} :
    s.lookupTo name fuel a = some (c, b) → (s.frame c).bindings.lookup name = some b := by
  induction fuel generalizing a with
  | zero => exact nofun
  | succ fuel ih =>
    intro found
    rw [lookupTo] at found
    split at found
    · cases found
      assumption
    · split at found
      · exact ih found
      · cases found

/-- A name that is not found from a frame on is not in the global frame, when frames lead outward to it. -/
theorem global_of_lookupTo {name : Text} {fuel : Nat} (outward : ∀ a, 0 < a → a < s.frames.size → ∃ o < a, (s.frame a).outer = some o)
    (inside : a < s.frames.size) (enough : a < fuel) :
    s.lookupTo name fuel a = none → (s.frame 0).bindings.lookup name = none := by
  induction fuel generalizing a with
  | zero => omega
  | succ fuel ih =>
    intro missing
    rw [lookupTo] at missing
    split at missing
    · cases missing
    · rename_i none
      by_cases zero : a = 0
      · rwa [zero] at none
      · obtain ⟨o, less, outer⟩ := outward a (Nat.pos_of_ne_zero zero) inside
        rw [outer] at missing
        exact ih (Nat.lt_trans less inside) (by omega) missing

end Store

/-! ## What definitions leave -/

section Regular

variable {h h' : History} {e : Scope} {s t : Store} {ds : List Definition} {b : Binding}

/-- A kind and a shape that are declared hold a value; if the shape is of a map, the kind holds json values. -/
def Store.Fits (s : Store) (k : Kind) (shape : Option Shape) (v : Value) : Prop :=
  s.Holds k v ∧ ∀ sorted, shape = some (.map sorted) → s.Holds k (.json 0)

/-- A variable is as the definitions of its name say: the last decides whether it is constant, the one in force what is
declared. The value fits what is declared, but for a constant. -/
structure Store.Described (s : Store) (ds : List Definition) (b : Binding) : Prop where
  constant : b.constant = true ↔ ds.head? = some .constant
  kind : b.kind = (Definition.inForce ds).bind Definition.kind?
  shape : b.shape = (Definition.inForce ds).bind Definition.shape?
  placed : s.Placed b.value
  fits : ds.head? ≠ some .constant → ∀ k, b.kind = some k → s.Fits k b.shape b.value

/-- A name has a variable only after a definition, and then the variable is as the definitions say. -/
def Store.Follows (s : Store) (ds : List Definition) : Option Binding → Prop
  | none => ds = []
  | some b => ds ≠ [] ∧ s.Described ds b

/-- What holds of scopes and memories that operations lead to: the scope ends in the global frame, frames lead outward
to it, and variables are as the definitions of their names say. -/
structure Regular (h : History) (e : Scope) (s : Store) : Prop where
  global : e.global = Scope.globalFrame
  inside : ∀ a ∈ e.frames, a < s.frames.size
  outward : ∀ a, 0 < a → a < s.frames.size → ∃ o < a, (s.frame a).outer = some o
  follows : ∀ a name, s.Follows (h.of (a, name)) ((s.frame a).bindings.lookup name)

/-- A variable stays as its definitions say while arrays keep their kinds. -/
theorem Store.Described.kept (described : s.Described ds b)
    (kinds : s.KeepsKinds t) : t.Described ds b where
  constant := described.constant
  kind := described.kind
  shape := described.shape
  placed := (described.placed.kept kinds).1
  fits := fun last k hk =>
    have ⟨holds, ofMap⟩ := described.fits last k hk
    ⟨holds.kept kinds described.placed, fun sorted hs => (ofMap sorted hs).json t 0⟩

theorem Store.Follows.kept {b : Option Binding} (follows : s.Follows ds b)
    (kinds : s.KeepsKinds t) : t.Follows ds b := by
  cases b with
  | none => exact follows
  | some b => exact ⟨follows.1, follows.2.kept kinds⟩

/-- Changes beside the variables keep what holds. -/
theorem Regular.beside (reg : Regular h e s) (changed : s.Beside t) : Regular h e t := by
  have frame (a : Nat) : t.frame a = s.frame a := by rw [Store.frame, Store.frame, changed.frames]
  refine ⟨reg.global, ?_, ?_, fun a name => ?_⟩
  · rw [changed.frames]
    exact reg.inside
  · simp only [changed.frames, frame]
    exact reg.outward
  · rw [frame]
    exact (reg.follows a name).kept changed.kinds

/-- The frames of a scope lie in memory. -/
theorem Regular.top_inside (reg : Regular h e s) : e.top < s.frames.size := reg.inside _ e.top_mem

theorem Regular.global_inside (reg : Regular h e s) : e.global < s.frames.size := reg.inside _ e.global_mem

/-- A new frame without variables keeps what holds. -/
theorem Regular.opened (reg : Regular h e s) {outer : Nat} (inside : outer < s.frames.size) :
    Regular h (e.add s.frames.size) { s with frames := s.frames.push ⟨[], some outer⟩ } := by
  have frame (a : Nat) (ha : a < s.frames.size) :
      ({ s with frames := s.frames.push ⟨[], some outer⟩ } : Store).frame a = s.frame a := by
    simp [Store.frame, Array.getElem?_push_lt ha, Array.getElem?_eq_getElem ha]
  refine ⟨reg.global, ?_, ?_, fun a name => ?_⟩
  · intro a ha
    rw [Array.size_push]
    obtain rfl | ha := List.mem_cons.mp ha
    · exact Nat.lt_succ_self _
    · exact Nat.lt_succ_of_lt (reg.inside a ha)
  · intro a positive ha
    rw [Array.size_push] at ha
    obtain old | rfl := Nat.lt_succ_iff_lt_or_eq.mp ha
    · rw [frame a old]
      exact reg.outward a positive old
    · exact ⟨outer, inside, by simp [Store.frame]⟩
  · by_cases ha : a < s.frames.size
    · rw [frame a ha]
      exact (reg.follows a name).kept (.refl s)
    · -- neither the new frame nor those behind it have variables, as no name was defined there
      have before := reg.follows a name
      rw [Store.frame, Array.getElem?_eq_none (Nat.not_lt.mp ha)] at before
      have empty : (({ s with frames := s.frames.push ⟨[], some outer⟩ } : Store).frame a).bindings = [] := by
        rw [Store.frame, Array.getElem?_push, Array.getElem?_eq_none (Nat.not_lt.mp ha)]
        split <;> rfl
      rw [empty]
      exact before

/-- A variable that is set as the definitions say keeps what holds. -/
theorem Regular.bound (reg : Regular h e s) {a : Nat} {name : Text} {f : List (Text × Binding) → List (Text × Binding)}
    (inside : a < s.frames.size) (set : f (s.frame a).bindings = setBinding name b (s.frame a).bindings)
    (here : h'.of (a, name) ≠ [] ∧ s.Described (h'.of (a, name)) b)
    (others : ∀ p, p ≠ (a, name) → h'.of p = h.of p) : Regular h' e (s.withBindings a f) := by
  have kinds : s.KeepsKinds (s.withBindings a f) := .refl s
  refine ⟨reg.global, ?_, ?_, fun c n => ?_⟩
  · rw [Store.size_withBindings]
    exact reg.inside
  · simp only [Store.size_withBindings, Store.outer_withBindings]
    exact reg.outward
  by_cases same : a = c
  · subst same
    rw [Store.bindings_withBindings_self inside, set, lookup_setBinding]
    split
    · rename_i same
      subst same
      exact ⟨here.1, here.2.kept kinds⟩
    · rename_i ne
      rw [others _ (by simp [ne])]
      exact (reg.follows a n).kept kinds
  · rw [Store.bindings_withBindings_ne same, others _ fun h => same (Prod.ext_iff.mp h).1.symm]
    exact (reg.follows c n).kept kinds

/-- A new variable that fits what its definition declares is as the definition says. -/
theorem Store.Described.new {d : Definition} {v : Value} (other : d ≠ .constant) (placed : s.Placed v)
    (fits : ∀ k, d.kind? = some k → s.Fits k d.shape? v) : s.Described (d :: ds) ⟨v, false, d.kind?, d.shape?⟩ where
  constant := by simp [other]
  kind := by rw [Definition.inForce_cons other]; rfl
  shape := by rw [Definition.inForce_cons other]; rfl
  placed := placed
  fits := fun _ => fits

/-- A constant keeps what was declared of its name before. -/
theorem Store.Described.constantly {old : Option Binding} {v : Value} (before : s.Follows ds old) (placed : s.Placed v) :
    s.Described (.constant :: ds) ⟨v, true, old.bind (·.kind), old.bind (·.shape)⟩ := by
  have declared : old.bind (·.kind) = (Definition.inForce ds).bind Definition.kind? ∧
      old.bind (·.shape) = (Definition.inForce ds).bind Definition.shape? := by
    cases old with
    | none =>
      rw [show ds = [] from before]
      exact ⟨rfl, rfl⟩
    | some b => exact ⟨before.2.kind, before.2.shape⟩
  exact ⟨by simp, declared.1, declared.2, placed, fun last => absurd rfl last⟩

/-! ## Operations -/

/-- A value is made without touching frames, and a variable of the scope set to it. What holds is kept, also when the
value can not be made. -/
theorem Regular.set (reg : Regular h e s) (h' : History) (name : Text) {x : StoreM Value}
    {good : Value → Store → Prop} {a : Nat} {f : Value → List (Text × Binding) → List (Text × Binding)} {b : Value → Binding}
    {r : Except Fault Scope} (inside : a < s.frames.size) (makes : StoreM.Makes (fun _ => True) good x s)
    (code : StoreM.Leaves Store.code x)
    (set : ∀ w, f w (s.frame a).bindings = setBinding name (b w) (s.frame a).bindings)
    (here : h'.of (a, name) ≠ [] ∧ ∀ w t, s.Later (fun _ => True) t → good w t → t.Described (h'.of (a, name)) (b w))
    (others : ∀ p, p ≠ (a, name) → h'.of p = h.of p)
    (run : (do
      let w ← x
      StoreM.modifyFrame a (f w)
      pure e : StoreM Scope).run.run s = (r, t)) :
    (∀ e', r = .ok e' → Regular h' e' t) ∧ ∀ fault, r = .error fault → Regular h e t := by
  have changed (u : Store) (hu : (x.run.run s).2 = u) : s.Beside u := hu ▸ makes.1.beside (code s)
  refine ⟨?_, ?_⟩
  · rintro e' rfl
    obtain ⟨w, u, made, run⟩ := Signature.run_bind_ok run
    cases run
    obtain ⟨later, given⟩ := makes.of_run made
    have still := changed u (congrArg Prod.snd made)
    refine (reg.beside still).bound (f := f w) ?_ ?_ ⟨here.1, here.2 w u later given⟩ others
    · rwa [still.frames]
    · rw [Store.frame, still.frames]
      exact set w
  · rintro fault rfl
    obtain failed | ⟨w, u, -, run⟩ := Signature.run_bind_error run
    · exact reg.beside (changed t (congrArg Prod.snd failed))
    · cases run

/-- A value of kind `source` that is assigned to a variable, made to fit what is declared of it. -/
def StoreM.refit (name : Text) (source : Kind) (b : Binding) (v : Value) : StoreM Value := do
  let w ← match b.kind with
    | none => pure v
    | some k =>
      tryCatch (coerce v k) fun _ =>
        throw (Fault.wrongType ("cannot assign " ++ source.name ++ " to " ++ k.name ++ " variable '" ++ name ++ "'"))
  match b.shape with
  | none => pure w
  | some shape => conform shape w

/-- An assignment to a variable that is not constant refits the value and sets the variable. -/
theorem StoreM.run_assign {name : Text} {a : Nat} {v : Value} (found : s.lookup? e name = some (a, b))
    (assignable : b.constant = false) : (assign e name v).run.run s = (do
      let w ← refit name (s.kindOf v) b v
      modifyFrame a (setBinding name { b with value := w }) : StoreM Unit).run.run s := by
  obtain ⟨value, constant, kind, shape⟩ := b
  subst assignable
  unfold assign
  rw [run_get_bind, found, refit]
  -- with kind and shape known, both sides are the same steps
  cases kind with
  | none => cases shape <;> rfl
  | some k =>
    dsimp only
    rw [bind_assoc]
    cases shape <;> rfl

/-- A name that is not defined is not assigned to. -/
theorem StoreM.run_assign_missing {name : Text} {v : Value} (missing : s.lookup? e name = none) :
    (assign e name v).run.run s = (.error (undefined name), s) := by
  unfold assign
  rw [run_get_bind, missing]
  rfl

/-- A constant is not assigned to. -/
theorem StoreM.run_assign_constant {name : Text} {a : Nat} {v : Value} (found : s.lookup? e name = some (a, b))
    (constant : b.constant = true) :
    (assign e name v).run.run s = (.error (Fault.wrongType ("Cannot reassign constant '" ++ name ++ "'")), s) := by
  obtain ⟨value, _, kind, shape⟩ := b
  subst constant
  unfold assign
  rw [run_get_bind, found]
  rfl

/-- A value that is assigned is refitted in later memory, and what is declared of the variable holds it there. -/
theorem StoreM.makes_refit {name : Text} {source : Kind} {v : Value} (placed : s.Placed v)
    (shapeless : b.kind = none → b.shape = none)
    (ofMap : ∀ k, b.kind = some k → ∀ sorted, b.shape = some (.map sorted) → s.Holds k (.json 0)) :
    Makes (fun _ => True) (fun w t => t.Placed w ∧ ∀ k, b.kind = some k → t.Fits k b.shape w) (refit name source b v) s := by
  obtain ⟨value, constant, kind, shape⟩ := b
  dsimp only at *
  cases kind with
  | none =>
    cases shape with
    | none => exact makes_pure ⟨placed, nofun⟩
    | some shape => cases shapeless rfl
  | some k =>
    refine makes_bind (makes_rethrow (makes_held placed k)) fun w t later ⟨placed, held⟩ => ?_
    cases shape with
    | none =>
      refine makes_pure ⟨placed, fun k' hk => ?_⟩
      cases hk
      exact ⟨held, nofun⟩
    | some shape =>
      have holdsJson (u : Store) (sorted : Bool) (hs : shape = .map sorted) : u.Holds k (.json 0) :=
        (ofMap k rfl sorted (congrArg some hs)).json u 0
      refine (makes_conform_held placed held (holdsJson t)).mono fun w' u _ ⟨placed, held⟩ => ⟨placed, fun k' hk => ?_⟩
      cases hk
      exact ⟨held, fun sorted hs => holdsJson u sorted (Option.some.inj hs)⟩

/-- Refitting a value changes neither functions nor frames. -/
theorem StoreM.code_refit (name : Text) (source : Kind) (b : Binding) (v : Value) :
    Leaves Store.code (refit name source b v) := by
  obtain ⟨value, constant, kind, shape⟩ := b
  have shaped (w : Value) : Leaves Store.code (match shape with
      | none => pure w
      | some shape => conform shape w) := by
    cases shape with
    | none => exact leaves_pure w
    | some shape => exact code_conform shape w
  cases kind with
  | none => exact leaves_bind (leaves_pure v) shaped
  | some k => exact leaves_bind (leaves_tryCatch (code_coerce v k) fun _ => leaves_throw _) shaped

/-- What two computations do in the same way from some memory, they do in the same way before others. -/
theorem StoreM.run_bind_congr {α β : Type} {x y : StoreM α} (same : x.run.run s = y.run.run s) (f : α → StoreM β) :
    (x >>= f).run.run s = (y >>= f).run.run s := by
  rw [ExceptT.run_bind, StateT.run_bind, same, ExceptT.run_bind, StateT.run_bind]

/-- A definition that declares what it gives to a variable keeps what holds. -/
theorem Regular.defined (reg : Regular h e s) {a : Nat} {name : Text} {d : Definition} {x : StoreM Value}
    {f : Value → List (Text × Binding) → List (Text × Binding)} {r : Except Fault Scope} (inside : a < s.frames.size)
    (other : d ≠ .constant) (code : StoreM.Leaves Store.code x)
    (makes : StoreM.Makes (fun _ => True) (fun w t => t.Placed w ∧ ∀ k, d.kind? = some k → t.Fits k d.shape? w) x s)
    (set : ∀ w, f w (s.frame a).bindings = setBinding name ⟨w, false, d.kind?, d.shape?⟩ (s.frame a).bindings)
    (run : (do
      let w ← x
      StoreM.modifyFrame a (f w)
      pure e : StoreM Scope).run.run s = (r, t)) :
    (∀ e', r = .ok e' → Regular (((a, name), d) :: h) e' t) ∧ ∀ fault, r = .error fault → Regular h e t := by
  refine reg.set _ name inside makes code set ⟨?_, fun w u _ ⟨placed, fits⟩ => ?_⟩ (fun p ne => ?_) run
  · rw [History.of_cons_self]
    exact List.cons_ne_nil _ _
  · rw [History.of_cons_self]
    exact .new other placed fits
  · exact History.of_cons_ne h d ne.symm

/-- The binding that a constant gets: what was declared of the name stays. -/
theorem StoreM.defineConst_eq (e : Scope) (name : Text) (v : Value) :
    defineConst e name v = modifyFrame e.top fun bs =>
      setBinding name ⟨v, true, (bs.lookup name).bind (·.kind), (bs.lookup name).bind (·.shape)⟩ bs := by
  unfold defineConst
  congr
  funext bs
  cases bs.lookup name <;> rfl

/-- The binding that a name of the global frame gets: what was declared of it stays. -/
theorem StoreM.defineGlobal_eq (e : Scope) (name : Text) (v : Value) :
    defineGlobal e name v = modifyFrame e.global fun bs =>
      setBinding name ⟨v, (bs.lookup name).elim false (·.constant), (bs.lookup name).bind (·.kind),
        (bs.lookup name).bind (·.shape)⟩ bs := by
  unfold defineGlobal
  congr
  funext bs
  cases bs.lookup name <;> rfl

/-- Every operation keeps what holds, when it succeeds and when it fails. -/
theorem Regular.step (reg : Regular h e s) {op : Scope.Operation} (valid : op.Valid e s) {r : Except Fault Scope}
    (run : (op.run e).run.run s = (r, t)) :
    (∀ e', r = .ok e' → Regular (op.defines e ++ h) e' t) ∧ ∀ fault, r = .error fault → Regular h e t := by
  cases op with
  | push =>
    cases run
    exact ⟨fun _ h => Except.ok.inj h ▸ reg.opened reg.top_inside, by rintro _ ⟨⟩⟩
  | pushFrom outer =>
    cases run
    exact ⟨fun _ h => Except.ok.inj h ▸ reg.opened valid, by rintro _ ⟨⟩⟩
  | pop =>
    obtain ⟨_ | ⟨a, rest⟩, global⟩ := e
    · cases run
      exact ⟨by rintro _ ⟨⟩, fun _ _ => reg⟩
    · cases run
      exact ⟨fun _ h => Except.ok.inj h ▸ ⟨reg.global, fun c hc => reg.inside c (List.mem_cons_of_mem _ hc), reg.outward, reg.follows⟩,
        by rintro _ ⟨⟩⟩
  | define name v =>
    exact reg.defined (d := .plain) (x := pure v) reg.top_inside (by rintro ⟨⟩) (StoreM.leaves_pure v)
      (StoreM.makes_pure ⟨valid, by rintro _ ⟨⟩⟩) (fun _ => rfl) run
  | defineTyped name kind v =>
    refine reg.defined (d := .typed kind) reg.top_inside (by rintro ⟨⟩) (StoreM.code_coerce v kind)
      ((StoreM.makes_held valid kind).mono fun w u _ made => ⟨made.1, fun k hk => ?_⟩) (fun _ => rfl) ?_
    · cases hk
      exact ⟨made.2, by rintro _ ⟨⟩⟩
    · rw [← run, Scope.Operation.run, StoreM.defineTyped, bind_assoc]
      rfl
  | defineShaped name kind shape v =>
    refine reg.defined (d := .shaped kind shape) reg.top_inside (by rintro ⟨⟩) ?_
      ((StoreM.makes_shaped valid kind shape).mono fun w u _ made => ⟨made.1, fun k hk => ?_⟩)
      (fun _ => rfl) ?_
    · exact StoreM.leaves_bind (StoreM.code_coerce v kind) fun w =>
        StoreM.leaves_bind (StoreM.code_conform shape w) fun w => StoreM.code_coerce w kind
    · cases hk
      exact ⟨made.2.1, fun sorted hs => made.2.2 sorted (Option.some.inj hs)⟩
    · rw [← run, Scope.Operation.run, StoreM.defineShaped]
      simp only [bind_assoc]
      rfl
  | defineConst name v =>
    have made : StoreM.Makes (fun _ => True) (fun w t => t = s ∧ t.Placed w) (pure v) s := StoreM.makes_pure ⟨rfl, valid⟩
    rw [Scope.Operation.run, StoreM.defineConst_eq] at run
    refine reg.set _ name
      (f := fun w bs => setBinding name ⟨w, true, (bs.lookup name).bind (·.kind), (bs.lookup name).bind (·.shape)⟩ bs)
      reg.top_inside made (StoreM.leaves_pure v)
      (fun _ => rfl) ⟨?_, fun w u _ made => ?_⟩ (fun p ne => History.of_cons_ne h _ ne.symm) run
    · rw [Scope.Operation.defines, List.singleton_append, History.of_cons_self]
      exact List.cons_ne_nil _ _
    · rw [Scope.Operation.defines, List.singleton_append, History.of_cons_self]
      exact .constantly (made.1 ▸ reg.follows e.top name) made.2
  | defineGlobal name v =>
    have unseen : (s.frame e.global).bindings.lookup name = none := by
      rw [reg.global]
      exact Store.global_of_lookupTo reg.outward reg.top_inside (Nat.lt_succ_of_lt reg.top_inside) valid.1
    rw [Scope.Operation.run, StoreM.defineGlobal_eq] at run
    refine reg.defined (d := .global) (x := pure v) reg.global_inside (by rintro ⟨⟩) (StoreM.leaves_pure v)
      (StoreM.makes_pure ⟨valid.2, by rintro _ ⟨⟩⟩)
      (f := fun w bs => setBinding name ⟨w, (bs.lookup name).elim false (·.constant), (bs.lookup name).bind (·.kind),
        (bs.lookup name).bind (·.shape)⟩ bs) (fun w => ?_) run
    rw [unseen]
    rfl
  | assign name v =>
    have failed {fault : Fault} (fails : (StoreM.assign e name v).run.run s = (.error fault, s)) :
        (∀ e', r = .ok e' → Regular h e' t) ∧ ∀ fault, r = .error fault → Regular h e t := by
      rw [Scope.Operation.run, ExceptT.run_bind, StateT.run_bind, fails] at run
      cases run
      exact ⟨by rintro _ ⟨⟩, fun _ _ => reg⟩
    cases found : s.lookup? e name with
    | none => exact failed (StoreM.run_assign_missing found)
    | some place =>
      obtain ⟨a, b⟩ := place
      cases constant : b.constant with
      | true => exact failed (StoreM.run_assign_constant found constant)
      | false =>
        have bound := Store.lookup_of_lookupTo found
        have before := reg.follows a name
        rw [bound] at before
        obtain ⟨defined, described⟩ := before
        have last : (h.of (a, name)).head? ≠ some .constant := fun last => by
          have := described.constant.mpr last
          rw [constant] at this
          cases this
        rw [Scope.Operation.run, StoreM.run_bind_congr (StoreM.run_assign found constant), bind_assoc] at run
        have shapeless : b.kind = none → b.shape = none := by
          rw [described.shape, described.kind]
          exact Definition.shapeless
        refine reg.set h name (b := fun w => { b with value := w }) (Store.inside_of_lookup bound)
          (StoreM.makes_refit valid shapeless fun k hk => (described.fits last k hk).2) (StoreM.code_refit _ _ b v)
          (fun _ => rfl) ⟨defined, fun w u _ made => ?_⟩ (fun _ _ => rfl) run
        exact ⟨described.constant, described.kind, described.shape, made.1, fun _ => made.2⟩

/-- What holds of a new global frame. -/
theorem Regular.start (new : s.frames = #[⟨[], none⟩]) : Regular [] Scope.initial s := by
  refine ⟨rfl, ?_, ?_, fun a name => ?_⟩
  · rw [new]
    decide
  · intro a positive inside
    rw [new] at inside
    exact absurd positive (Nat.not_lt.mpr (Nat.lt_succ_iff.mp inside))
  · rw [Store.frame, new]
    cases a <;> rfl

/-- What operations keep holds of all scopes and memories that they lead to. -/
theorem Made.regular (made : Made h e s) : Regular h e s := by
  induction made with
  | start new => exact .start new
  | beside _ changed ih => exact ih.beside changed
  | done _ op valid run ih => exact (ih.step valid run).1 _ rfl
  | failed _ op valid run ih => exact (ih.step valid run).2 _ rfl

/-- A definition that is in force and declares a kind or nothing. -/
theorem Store.Described.of_last {d : Definition} (described : s.Described (d :: ds) b)
    (undeclared : d = .constant → (Definition.inForce ds).bind Definition.kind? = none) :
    b.kind = d.kind? ∧ b.shape = d.shape? := by
  rw [described.kind, described.shape]
  cases d with
  | constant => exact ⟨undeclared rfl, Definition.shapeless (undeclared rfl)⟩
  | _ => exact ⟨rfl, rfl⟩

end Regular

/-- After any operations, a name has a variable in a frame only if it was defined there, and the variable is constant
just when the last definition was of a constant. Its kind and shape are those that the last definition declares, and
its value is converted to its kind as it is; unless the last definition is of a constant whose name was declared with a
kind before. -/
theorem Made.binding_follows_last {h : History} {e : Scope} {s : Store} (made : Made h e s) (a : Nat) (name : Text) :
    match (s.frame a).bindings.lookup name with
    | none => h.of (a, name) = []
    | some b => ∃ d older, h.of (a, name) = d :: older ∧ (b.constant = true ↔ d = .constant) ∧
        ((d = .constant → (Definition.inForce older).bind Definition.kind? = none) →
          b.kind = d.kind? ∧ b.shape = d.shape? ∧
          ∀ k, b.kind = some k → (StoreM.coerce b.value k).run.run s = (.ok b.value, s)) := by
  have follows := made.regular.follows a name
  split <;> rename_i found <;> rw [found] at follows
  · exact follows
  rename_i b
  obtain ⟨defined, described⟩ := follows
  obtain ⟨d, older, definitions⟩ := List.exists_cons_of_ne_nil defined
  rw [definitions] at described
  refine ⟨d, older, definitions, by simpa using described.constant, fun undeclared => ?_⟩
  obtain ⟨kind, shape⟩ := described.of_last undeclared
  refine ⟨kind, shape, fun k hk => StoreM.coerce_of_holds (described.fits (fun last => ?_) k hk).1⟩
  -- a constant has no kind
  obtain rfl : d = .constant := Option.some.inj last
  cases kind.symm.trans hk

/-- A name that is defined again with a kind and assigned to then holds what it is assigned, converted to the kind. -/
theorem Made.binding_follows_last_typed : ∃ h e s, Made h e s ∧ h.of (0, "x") = [.typed .long, .plain] ∧
    ∃ b, (s.frame 0).bindings.lookup ("x" : Text) = some b ∧ b.kind = some .long ∧
      (StoreM.coerce b.value .long).run.run s = (.ok b.value, s) := by
  have made : Made _ _ _ := ((Made.start (s := Store.initial) rfl).done (.define "x" (.bool true)) trivial rfl).done
    (.defineTyped "x" .long (.int 7)) trivial rfl |>.done (.assign "x" (.byte 5)) trivial rfl
  refine ⟨_, _, _, made, rfl, _, rfl, rfl, ?_⟩
  obtain ⟨d, older, definitions, -, declared⟩ := made.binding_follows_last 0 "x"
  cases definitions
  exact (declared nofun).2.2 _ rfl

/-- A constant of a name that had a kind has that kind, though its value need not be of it. -/
theorem Made.constant_keeps_kind : ∃ h e s, Made h e s ∧ h.of (0, "x") = [.constant, .typed .int] ∧
    ∃ b, (s.frame 0).bindings.lookup ("x" : Text) = some b ∧ b.kind = some .int ∧
      (StoreM.coerce b.value .int).run.run s ≠ (.ok b.value, s) := by
  have made : Made _ _ _ := ((Made.start (s := Store.initial) rfl).done (.defineTyped "x" .int (.int 1)) trivial rfl).done
    (.defineConst "x" (.string "s")) trivial rfl
  refine ⟨_, _, _, made, rfl, _, rfl, rfl, fun same => ?_⟩
  cases congrArg Prod.fst same

end ScriptEngine
