import ScriptEngine.Store.Conform
/-!
# Scopes of variables

Variables live in frames. A scope is the stack of the frames in use; a name is looked up in the top
frame and then outward through the frames around it, which for a function are those it was declared in
and not those it was called from.
-/

namespace ScriptEngine

/-- The frames in use: those that were opened, top first, and below them the global frame. -/
structure Scope where
  inner : List Nat
  global : Nat
deriving Inhabited

namespace Scope

/-- The address of the global frame of a new memory. -/
def globalFrame : Nat := 0

/-- A scope with the global frame alone. -/
def initial : Scope := ⟨[], globalFrame⟩

/-- The top frame. -/
def top (e : Scope) : Nat := e.inner.head?.getD e.global

/-- All frames, top first. -/
def frames (e : Scope) : List Nat := e.inner ++ [e.global]

/-- The number of frames. -/
def length (e : Scope) : Nat := e.inner.length + 1

/-- The scope with the global frame alone. -/
def detach (e : Scope) : Scope := ⟨[], e.global⟩

/-- The scope with one more frame on top. -/
def add (e : Scope) (a : Nat) : Scope := { e with inner := a :: e.inner }

/-- The scope without its top frame. -/
def pop (e : Scope) : Except Fault Scope :=
  match e.inner with
  | _ :: rest => .ok { e with inner := rest }
  | [] => .error (Fault.ofClass .internal "cannot pop the global frame")

/-- The scope behind an attempt to drop its top frame. -/
def popped (e : Scope) : Scope :=
  match e.pop with
  | .ok rest => rest
  | .error _ => e

/-- The scope cut back to a number of frames, but never without the global one. -/
def unwind (e : Scope) (depth : Nat) : Scope := { e with inner := e.inner.drop (e.length - max depth 1) }

theorem top_mem (e : Scope) : e.top ∈ e.frames := by
  obtain ⟨_ | ⟨a, rest⟩, global⟩ := e
  · exact List.mem_singleton_self _
  · exact List.mem_cons_self

theorem global_mem (e : Scope) : e.global ∈ e.frames := List.mem_append_right _ (List.mem_singleton_self _)

@[simp] theorem popped_add (e : Scope) (a : Nat) : (e.add a).popped = e := rfl

@[simp] theorem unwind_length (e : Scope) : e.unwind e.length = e := by
  have room : 1 ≤ e.length := Nat.le_add_left ..
  rw [unwind, Nat.max_eq_left room, Nat.sub_self, List.drop_zero]

end Scope

namespace Store

/-- The frames outward from one, itself first, at most `fuel` of them. -/
def chainTo (s : Store) : Nat → Nat → List Nat
  | 0, _ => []
  | fuel + 1, a =>
    match (s.frame a).outer with
    | none => [a]
    | some b => a :: chainTo s fuel b

/-- The frame in which a name is found from a frame outward, and its binding. -/
def lookupTo (s : Store) (name : Text) : Nat → Nat → Option (Nat × Binding)
  | 0, _ => none
  | fuel + 1, a =>
    let f := s.frame a
    match f.bindings.lookup name with
    | some b => some (a, b)
    | none =>
      match f.outer with
      | some o => lookupTo s name fuel o
      | none => none

/-- The frame and binding that a name has in a scope. -/
def lookup? (s : Store) (e : Scope) (name : Text) : Option (Nat × Binding) :=
  s.lookupTo name (s.frames.size + 1) e.top

/-- The variables in sight, those of inner frames hiding those of outer ones, in rising order of
names. -/
def visible (s : Store) (e : Scope) : List (Text × Value) :=
  (s.chainTo (s.frames.size + 1) e.top).foldr (fun a acc =>
    (s.frame a).bindings.foldr (fun (n, b) acc => Json.insert n b.value acc) acc) []

end Store

/-- Bindings with a name set; a name keeps its place. -/
def setBinding (name : Text) (b : Binding) : List (Text × Binding) → List (Text × Binding)
  | [] => [(name, b)]
  | (n, old) :: rest => if n = name then (n, b) :: rest else (n, old) :: setBinding name b rest

namespace StoreM

/-- The fault of a name that is not defined. -/
def undefined (name : Text) : Fault := Fault.badName ("undefined variable '" ++ name ++ "'")

/-- Changes the bindings of a frame. -/
def modifyFrame (a : Nat) (f : List (Text × Binding) → List (Text × Binding)) : StoreM Unit :=
  modify fun s => { s with frames := s.frames.modify a fun fr => { fr with bindings := f fr.bindings } }

/-- Opens a frame inside the top one. -/
def push (e : Scope) : StoreM Scope := do
  let a ← newFrame ⟨[], some e.top⟩
  pure (e.add a)

/-- Opens a frame inside a given one. -/
def pushFrom (e : Scope) (outer : Option Nat) : StoreM Scope := do
  let a ← newFrame ⟨[], outer⟩
  pure (e.add a)

/-- Defines a variable in the top frame. Whatever was declared of the name there is forgotten. -/
def define (e : Scope) (name : Text) (v : Value) : StoreM Unit :=
  modifyFrame e.top (setBinding name ⟨v, false, none, none⟩)

/-- Defines a variable of a declared kind in the top frame. -/
def defineTyped (e : Scope) (name : Text) (kind : Kind) (v : Value) : StoreM Unit := do
  let w ← coerce v kind
  modifyFrame e.top (setBinding name ⟨w, false, some kind, none⟩)

/-- Defines a variable of a declared kind and shape in the top frame. -/
def defineShaped (e : Scope) (name : Text) (kind : Kind) (shape : Shape) (v : Value) :
    StoreM Unit := do
  let w ← coerce v kind
  let w ← conform shape w
  let w ← coerce w kind
  modifyFrame e.top (setBinding name ⟨w, false, some kind, some shape⟩)

/-- Defines a constant in the top frame. What was declared of the name there stays. -/
def defineConst (e : Scope) (name : Text) (v : Value) : StoreM Unit :=
  modifyFrame e.top fun bs =>
    match bs.lookup name with
    | some b => setBinding name { b with value := v, constant := true } bs
    | none => setBinding name ⟨v, true, none, none⟩ bs

/-- Gives a name a value in the global frame. What was declared of the name there stays. -/
def defineGlobal (e : Scope) (name : Text) (v : Value) : StoreM Unit :=
  modifyFrame e.global fun bs =>
    match bs.lookup name with
    | some b => setBinding name { b with value := v } bs
    | none => setBinding name ⟨v, false, none, none⟩ bs

/-- The value of a name. -/
def valueOf (e : Scope) (name : Text) : StoreM Value := do
  match (← get).lookup? e name with
  | some (_, b) => pure b.value
  | none => throw (undefined name)

/-- Gives the nearest variable of a name a new value, which is made to fit what was declared of it. -/
def assign (e : Scope) (name : Text) (v : Value) : StoreM Unit := do
  let s ← get
  match s.lookup? e name with
  | none => throw (undefined name)
  | some (a, b) =>
    if b.constant then throw (Fault.wrongType ("Cannot reassign constant '" ++ name ++ "'"))
    let source := s.kindOf v
    let v ← match b.kind with
      | none => pure v
      | some k =>
        tryCatch (coerce v k) fun _ =>
          throw (Fault.wrongType ("cannot assign " ++ source.name ++ " to " ++ k.name
            ++ " variable '" ++ name ++ "'"))
    let v ← match b.shape with
      | none => pure v
      | some shape => conform shape v
    modifyFrame a (setBinding name { b with value := v })

end StoreM

end ScriptEngine
