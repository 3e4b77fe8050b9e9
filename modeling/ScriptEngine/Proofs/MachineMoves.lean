import ScriptEngine.Proofs.Constructs
import ScriptEngine.Proofs.Performed
/-!
# Moves of a machine

What a machine can do while it runs scripts, told once: it changes data, records what is being run, opens a frame inside
one that it knows, goes to the global frame and back, declares a function, calls a plugin, and begins to run the file of an
import. Whatever runs from a machine, and at every point of it, the machine has only made such moves.

No move takes the mark of a file away, and nothing goes back behind a move: what is marked where a part of a run ends is
marked at every later point. This is seen from the run cut short, by a crash in the place of the part. A computation and
the same computation cut short are followed side by side.
-/

namespace ScriptEngine

namespace Machine

/-- A frame that a machine can open a frame inside: its top frame, or one that a function was declared in. -/
def Knows (m : Machine) (outer : Nat) : Prop := outer = m.scope.top ∨ ∃ a, outer = (m.store.function a).frame

/-- The path of the file that an import names. -/
def importPath (m : Machine) (name : Text) : Text :=
  if FileName.isAbsolute name then name else FileName.join [m.importDir, name]

/-- The absolute path of that file, by which it is known. -/
def importKey (m : Machine) (name : Text) : Text := FileName.clean (m.host.files.absolute (m.importPath name))

/-- The program in the file that an import names, or why there is none. -/
def importProgram (m : Machine) (line : Nat) (name : Text) : Except Fault Program :=
  match m.host.files.read (m.importPath name) with
  | .error t =>
    let verb := if t = .isDirectory then "read " else "open "
    .error ((Eval.cannotImport (if t = .notFound then Fault.notFoundError else Fault.ioError) name
      (verb ++ m.importPath name ++ ": " ++ t.message)).atLine line)
  | .ok content =>
    if content.isValid then
      match Program.parse m.catalog content with
      | (p, []) => .ok p
      | (_, f :: _) =>
        .error { f with message := f.message ++ " (in " ++ name ++ " line " ++ toString f.line ++ ")", line := line }
    else .error ((Eval.cannotImport Fault.parseError name "not valid UTF-8").atLine line)

/-- The machine on which the statements of an imported file start: the file is marked as imported. -/
def marked (m : Machine) (name : Text) : Machine :=
  let host := m.host.log ⟨.debug, "import", [("path", .text (m.importPath name))]⟩
  { m with imported := m.importKey name :: m.imported, host := host }

/-- A machine leads to another by moves. Listed are the files whose running began on the way, the last one first. -/
inductive Leads : Machine → List Text → Machine → Prop where
  /-- Data and the world around are changed. -/
  | beside {m k : Machine} (h : m.Beside k) : Leads m [] k
  /-- What is being run is recorded. -/
  | recorded (m : Machine) (calls : List CallEntry) (depth : Nat) : Leads m [] { m with calls := calls, depth := depth }
  /-- A host sets the variables of owners. -/
  | owned (m : Machine) (owners : List (Text × List (Text × Value))) : Leads m [] { m with owners := owners }
  /-- A function is declared in the top frame. -/
  | declared {m : Machine} {f : FunctionData} (h : f.frame = m.scope.top) :
    Leads m [] { m with store := { m.store with functions := m.store.functions.push f } }
  /-- A plugin is called. -/
  | plugged {m : Machine} {p : Plugin} (h : p ∈ m.host.plugins.entries) (args : List Value) :
    Leads m [] { m with store := (p.run args m.store).2 }
  /-- A frame is opened inside one that was known. -/
  | opened {m k : Machine} {files : List Text} {outer : Nat} (h : Leads m files k) (known : m.Knows outer) :
    Leads m files (k.opened outer)
  /-- The global frame alone is in use. -/
  | detached (m : Machine) : Leads m [] { m with scope := m.scope.detach }
  /-- The frames of before are in use again. -/
  | back {m k : Machine} {files : List Text} (h : Leads m files k) : Leads m files { k with scope := m.scope }
  /-- The running of a file begins that is not marked and holds a program. -/
  | imports {m : Machine} {line : Nat} {name : Text} {p : Program} (fresh : m.importKey name ∉ m.imported)
    (read : m.importProgram line name = .ok p) : Leads m [m.importKey name] (m.marked name)
  | trans {m l k : Machine} {files more : List Text} (h : Leads m files l) (h' : Leads l more k) :
    Leads m (more ++ files) k

/-- A machine leads to another, whatever files are run on the way. -/
def Precedes (m k : Machine) : Prop := ∃ files, m.Leads files k

theorem Precedes.refl (m : Machine) : m.Precedes m := ⟨[], .beside (.refl m)⟩

theorem Precedes.trans {m l k : Machine} (h : m.Precedes l) (h' : l.Precedes k) : m.Precedes k :=
  have ⟨_, first⟩ := h
  have ⟨_, second⟩ := h'
  ⟨_, first.trans second⟩

theorem Beside.precedes {m k : Machine} (h : m.Beside k) : m.Precedes k := ⟨_, .beside h⟩

theorem Precedes.back {m k : Machine} (h : m.Precedes k) : m.Precedes { k with scope := m.scope } :=
  have ⟨_, h⟩ := h
  ⟨_, h.back⟩

theorem Precedes.recorded {m k : Machine} (h : m.Precedes k) (calls : List CallEntry) (depth : Nat) :
    m.Precedes { k with calls := calls, depth := depth } := h.trans ⟨_, .recorded k calls depth⟩

theorem Precedes.opened {m k : Machine} (h : m.Precedes k) {outer : Nat} (known : m.Knows outer) :
    m.Precedes (k.opened outer) :=
  have ⟨_, h⟩ := h
  ⟨_, h.opened known⟩

/-- Moves neither add nor take away a plugin. -/
theorem Leads.plugins {m k : Machine} {files : List Text} (h : m.Leads files k) : k.host.plugins = m.host.plugins := by
  induction h with
  | beside h => exact h.plugins
  | opened _ _ ih => exact ih
  | back _ ih => exact ih
  | trans _ _ ih ih' => exact ih'.trans ih
  | imports => exact Exec.plugins_log _ _
  | _ => rfl

/-- The files whose running began are marked, in this order, and no others. -/
theorem Leads.imported {m k : Machine} {files : List Text} (h : m.Leads files k) : k.imported = files ++ m.imported := by
  induction h with
  | beside h => exact h.imported
  | opened _ _ ih => exact ih
  | back _ ih => exact ih
  | trans _ _ ih ih' => rw [ih', ih, List.append_assoc]
  | _ => rfl

/-- A file that is marked stays so. -/
theorem Precedes.imported {m k : Machine} {file : Text} (h : m.Precedes k) (marked : file ∈ m.imported) :
    file ∈ k.imported := by
  obtain ⟨files, leads⟩ := h
  rw [leads.imported]
  exact List.mem_append_right files marked

end Machine

/-! ## Outcomes -/

/-- An outcome that is led to by moves. A result or a fault leaves the frames in use as they were. -/
def Outcome.Moves {α : Type} (m : Machine) : Outcome α → Prop
  | .done _ k | .failed _ k => m.Precedes k ∧ k.scope = m.scope
  | .crashed _ k => m.Precedes k
  | .outOfFuel => True

/-- How runs are cut short: they crash, but only where a file gets marked. -/
structure Cut where
  file : Text
  why : Text
  stop : Machine

/-- A machine that is past the cut: the file is marked. -/
def Cut.Passed (c : Cut) (m : Machine) : Prop := c.file ∈ m.imported

/-- An outcome that is led to by moves, and the outcome of the run cut short: that is the same, or the crash, and then
the file is marked in the end. So it is when it was marked before. -/
structure Outcome.Cuts {α : Type} (c : Cut) (m : Machine) (before : Prop) (r r' : Outcome α) : Prop where
  moves : r.Moves m
  kept : before → r.Ends c.Passed
  cut : r' = r ∨ r' = .crashed c.why c.stop ∧ r.Ends c.Passed

namespace Outcome

variable {α β : Type} {c : Cut} {m k : Machine} {before : Prop} {r r' : Outcome α}

/-- What is led to from a machine with the same frames in use is led to from the machine before. -/
theorem Moves.after (h : r.Moves k) (later : m.Precedes k) (scope : k.scope = m.scope) : r.Moves m := by
  cases r with
  | done a l => exact ⟨later.trans h.1, h.2.trans scope⟩
  | failed f l => exact ⟨later.trans h.1, h.2.trans scope⟩
  | crashed why l => exact later.trans h
  | outOfFuel => trivial

/-- Moves keep a file marked. -/
theorem Moves.passed (h : r.Moves m) (passed : c.Passed m) : r.Ends c.Passed := by
  cases r with
  | done a l => exact h.1.imported passed
  | failed f l => exact h.1.imported passed
  | crashed why l => exact h.imported passed
  | outOfFuel => trivial

/-- What is not cut short. -/
theorem Moves.uncut (h : r.Moves m) (kept : before → r.Ends c.Passed) : r.Cuts c m before r := ⟨h, kept, .inl rfl⟩

theorem Cuts.after (h : r.Cuts c k before r') (later : m.Precedes k) (scope : k.scope = m.scope) :
    r.Cuts c m before r' := ⟨h.moves.after later scope, h.kept, h.cut⟩

/-- What is kept when a file was marked at one point is kept when it was before. -/
theorem Cuts.weaken {later : Prop} (h : r.Cuts c m later r') (hb : before → later) : r.Cuts c m before r' :=
  ⟨h.moves, fun b => h.kept (hb b), h.cut⟩

/-- What is done with an outcome, and not with a crash. -/
theorem Cuts.next {next next' : Outcome α → Outcome β} (h : r.Cuts c k before r')
    (crashes : next' (.crashed c.why c.stop) = .crashed c.why c.stop)
    (goes : (next r).Cuts c m (r.Ends c.Passed) (next' r)) : (next r).Cuts c m before (next' r') := by
  obtain same | ⟨crashed, passed⟩ := h.cut
  -- not cut short here: what follows may still be
  · rw [same]
    exact ⟨goes.moves, fun hb => goes.kept (h.kept hb), goes.cut⟩
  · rw [crashed]
    exact ⟨goes.moves, fun hb => goes.kept (h.kept hb), .inr ⟨crashes, goes.kept passed⟩⟩

end Outcome

namespace Exec

variable {α β : Type} {c : Cut} {m k : Machine} {before : Prop}

/-- A computation that makes moves only, however it ends, and the same computation cut short. -/
def Moves (c : Cut) (x x' : Exec α) : Prop := ∀ m, (x m).Cuts c m (c.Passed m) (x' m)

/-! ## Putting computations together -/

/-- A computation that is not cut short. -/
theorem moves_uncut {x : Exec α} (hx : ∀ m, (x m).Moves m) : Moves c x x := fun m => (hx m).uncut (hx m).passed

@[grind ←]
theorem moves_pure (a : α) : Moves c (pure a) (pure a) := moves_uncut fun m => ⟨.refl m, rfl⟩

@[grind ←]
theorem moves_throw (f : Fault) : Moves c (throw f : Exec α) (throw f) := moves_uncut fun m => ⟨.refl m, rfl⟩

@[grind ←]
theorem moves_get : Moves c (get : Exec Machine) get := moves_uncut fun m => ⟨.refl m, rfl⟩

/-- What would follow a fault does not matter. -/
@[grind ←]
theorem moves_throw_bind (e : Fault) (f f' : α → Exec β) :
    Moves c ((throw e : Exec α) >>= f) ((throw e : Exec α) >>= f') := moves_throw (α := β) e

/-- A local computation makes one move. -/
theorem moves_of_local {x : Exec α} (hx : ∀ p, Local p x) : Moves c x x := by
  refine moves_uncut fun m => ?_
  have ends := hx _ m rfl
  generalize x m = r at ends ⊢
  cases r with
  | done a k => exact ⟨ends.precedes, ends.scope⟩
  | failed f k => exact ⟨ends.precedes, ends.scope⟩
  | crashed why k => exact ends.precedes
  | outOfFuel => trivial

/-- A computation on memory that leaves functions alone, and how frames lie in each other, makes one move. -/
@[grind ←]
theorem moves_lift {x : StoreM α} (hx : StoreM.Leaves Store.lexical x) : Moves c (liftM x : Exec α) (liftM x) :=
  moves_of_local fun _ => local_lift hx

/-- One computation after another makes moves, when the second does where the first gets. -/
theorem bind_moves {x x' : Exec α} {f f' : α → Exec β} (hx : (x k).Cuts c m before (x' k))
    (hf : ∀ a l, m.Precedes l → l.scope = m.scope → (f a l).Cuts c m (c.Passed l) (f' a l)) :
    ((x >>= f) k).Cuts c m before ((x' >>= f') k) := by
  change (andThen x f k).Cuts c m before (andThen x' f' k)
  unfold andThen
  generalize x k = r, x' k = r' at hx
  have moves := hx.moves
  apply hx.next
  · rfl
  cases r with
  | done a l => exact hf a l moves.1 moves.2
  | _ => exact Outcome.Moves.uncut moves id

@[grind ←]
theorem moves_bind {x x' : Exec α} {f f' : α → Exec β} (hx : Moves c x x') (hf : ∀ a, Moves c (f a) (f' a)) :
    Moves c (x >>= f) (x' >>= f') :=
  fun m => bind_moves (hx m) fun a k later scope => (hf a k).after later scope

/-- A computation that begins with a look at the machine makes moves when it does so from every machine that is seen. -/
theorem moves_get_bind {f f' : Machine → Exec β} (hf : ∀ m, (f m m).Cuts c m (c.Passed m) (f' m m)) :
    Moves c (get >>= f) (get >>= f') := hf

/-- So does one that begins with a look at the world around. -/
theorem moves_host_bind {f f' : Host → Exec β} (hf : ∀ m, (f m.host m).Cuts c m (c.Passed m) (f' m.host m)) :
    Moves c (host >>= f) (host >>= f') := hf

@[grind ←]
theorem moves_tryCatch {x x' : Exec α} {f f' : Fault → Exec α} (hx : Moves c x x') (hf : ∀ e, Moves c (f e) (f' e)) :
    Moves c (tryCatch x f) (tryCatch x' f') := by
  intro m
  have first := hx m
  change (rescue x f m).Cuts c m _ (rescue x' f' m)
  unfold rescue
  generalize x m = r, x' m = r' at first
  apply first.next
  · rfl
  cases r with
  | failed e k => exact (hf e k).after first.moves.1 first.moves.2
  | _ => exact Outcome.Moves.uncut first.moves id

@[grind ←]
theorem moves_atLine {x x' : Exec α} (line : Nat) (hx : Moves c x x') : Moves c (atLine line x) (atLine line x') := by
  intro m
  have first := hx m
  unfold atLine
  generalize x m = r, x' m = r' at first
  apply first.next
  · rfl
  cases r with
  | _ => exact Outcome.Moves.uncut first.moves id

/-- A computation in another scope makes moves when the scope can be gone to by moves, and the scope from before is in use again
behind it. -/
theorem rescoped_moves {x x' : Exec α} {scope : Scope} {after : Machine → Machine}
    (hx : (x { k with scope := scope }).Cuts c { k with scope := scope } before (x' { k with scope := scope }))
    (inner : m.Precedes { k with scope := scope }) (back : ∀ l : Machine, l.scope = scope → after l = { l with scope := m.scope }) :
    (within (fun l => { l with scope := scope }) after x k).Cuts c m before
      (within (fun l => { l with scope := scope }) after x' k) := by
  unfold within
  generalize x { k with scope := scope } = r, x' { k with scope := scope } = r' at hx
  apply hx.next
  · rfl
  have moves := hx.moves
  cases r with
  | done a l =>
    dsimp only
    rw [back l moves.2]
    exact Outcome.Moves.uncut ⟨(inner.trans moves.1).back, rfl⟩ id
  | failed f l =>
    dsimp only
    rw [back l moves.2]
    exact Outcome.Moves.uncut ⟨(inner.trans moves.1).back, rfl⟩ id
  | crashed why l => exact Outcome.Moves.uncut (inner.trans moves) id
  | outOfFuel => exact Outcome.Moves.uncut trivial id

theorem inScope_moves {x x' : Exec α} {scope : Scope}
    (hx : (x { k with scope := scope }).Cuts c { k with scope := scope } before (x' { k with scope := scope }))
    (inner : m.Precedes { k with scope := scope }) (same : k.scope = m.scope) :
    (inScope scope x k).Cuts c m before (inScope scope x' k) := rescoped_moves hx inner fun _ _ => by rw [same]

/-- A computation in a frame that is opened inside one known before makes moves. -/
theorem opened_moves {x y : Scope → Exec α} {outer : Nat}
    (hx : (x (k.opened outer).scope (k.opened outer)).Cuts c (k.opened outer) before
      (y (k.opened outer).scope (k.opened outer)))
    (known : m.Knows outer) (later : m.Precedes k) (same : k.scope = m.scope) :
    ((do let scope ← (liftM (StoreM.pushFrom k.scope (some outer)) : Exec Scope); popping scope (x scope)) k).Cuts c m
      before ((do let scope ← (liftM (StoreM.pushFrom k.scope (some outer)) : Exec Scope); popping scope (y scope)) k) :=
  rescoped_moves (k := { k with store := (k.opened outer).store }) hx (later.opened known) fun _ top =>
    same ▸ Machine.popped_of_add top

/-- Behind a fault there are no frames to drop. -/
@[grind ←]
theorem moves_unwinding {x x' : Exec α} (hx : Moves c x x') : Moves c (unwinding x) (unwinding x') := by
  intro m
  have first := hx m
  unfold unwinding
  dsimp only
  generalize x m = r, x' m = r' at first
  apply first.next
  · rfl
  cases r with
  | failed e k =>
    have moves := first.moves
    dsimp only
    rw [← moves.2, Scope.unwind_length]
    exact Outcome.Moves.uncut moves id
  | _ => exact Outcome.Moves.uncut first.moves id

@[grind ←]
theorem moves_inFrame {x x' : Exec α} (hx : Moves c x x') : Moves c (inFrame x) (inFrame x') :=
  fun m => opened_moves (x := fun _ => x) (y := fun _ => x') (hx _) (.inl rfl) (.refl m) rfl

/-- A computation makes moves between changes of what is recorded as being run. -/
theorem within_moves {x x' : Exec α} {start after : Machine → Machine}
    (hx : (x (start k)).Cuts c m before (x' (start k)))
    (ha : ∀ l, ∃ calls depth, after l = { l with calls := calls, depth := depth }) :
    (within start after x k).Cuts c m before (within start after x' k) := by
  have ended {l : Machine} (h : m.Precedes l ∧ l.scope = m.scope) :
      m.Precedes (after l) ∧ (after l).scope = m.scope := by
    obtain ⟨calls, depth, same⟩ := ha l
    rw [same]
    exact ⟨h.1.recorded calls depth, h.2⟩
  have kept {l : Machine} (h : c.Passed l) : c.Passed (after l) := by
    obtain ⟨calls, depth, same⟩ := ha l
    rw [same]
    exact h
  unfold within
  generalize x (start k) = r, x' (start k) = r' at hx
  apply hx.next
  · rfl
  refine Outcome.Moves.uncut ?_ ?_
  · have moves := hx.moves
    cases r with
    | done a l => exact ended moves
    | failed f l => exact ended moves
    | crashed why l => exact moves
    | outOfFuel => trivial
  · cases r with
    | done a l => exact kept
    | failed f l => exact kept
    | _ => exact id

@[grind ←]
theorem moves_recorded {x x' : Exec α} (kind name : Text) (line : Nat) (hx : Moves c x x') :
    Moves c (recorded kind name line x) (recorded kind name line x') :=
  fun m =>
    have begun := (Machine.Precedes.refl m).recorded (⟨kind, name, line⟩ :: m.calls) m.depth
    within_moves ((hx { m with calls := ⟨kind, name, line⟩ :: m.calls }).after begun rfl) fun l => ⟨_, l.depth, rfl⟩

end Exec

/-! ## Imports -/

/-- An import of a file that is marked does nothing. Another reads the file, and runs its statements in the global frame
once the file is marked; when there is no program to be run, nothing is changed. -/
theorem Eval.importFile_eq (rec : Eval.Runner) (line : Nat) (name : Text) (m : Machine) :
    Eval.importFile rec line name m =
      if m.importKey name ∈ m.imported then .done () m
      else match m.importProgram line name with
        | .error f => .failed f m
        | .ok p => (Exec.inScope m.scope.detach (Eval.program rec p) >>= fun _ => pure ()) (m.marked name) := by
  unfold Eval.importFile Machine.importProgram Machine.marked Machine.importKey Machine.importPath Machine.catalog
  rw [Exec.run_get_bind]
  generalize (if FileName.isAbsolute name then name else FileName.join [m.importDir, name]) = path
  generalize FileName.clean (m.host.files.absolute path) = key
  by_cases known : key ∈ m.imported
  · rw [if_pos (List.contains_iff_mem.mpr known), if_pos known]
    rfl
  rw [if_neg fun h => known (List.contains_iff_mem.mp h), if_neg known]
  cases m.host.files.read path with
  | error t => rfl
  | ok content =>
    dsimp only
    change (if (!content.isValid) = true then _ else _ : Exec Unit) m = _
    cases content.isValid with
    | false => rfl
    | true =>
      rw [if_neg (by decide), if_pos rfl]
      generalize Program.parse _ content = parsed
      obtain ⟨p, fs⟩ := parsed
      cases fs <;> rfl

namespace Eval

open Exec

/-- Runners that make moves only, and the same runners with their runs cut short. -/
def Runner.Moves (c : Cut) (rec rec' : Runner) : Prop := ∀ t, Exec.Moves c (rec t) (rec' t)

section Constructs

variable {c : Cut} {rec rec' : Runner}

/-! ## Calls of script functions -/

theorem moves_defineFunction (name : Text) (params : List Param) (result : Option TypeSpec) (body : Block) :
    Exec.Moves c (defineFunction name params result body) (defineFunction name params result body) := by
  refine moves_get_bind fun m => ?_
  have declared : m.Precedes { m with store := { m.store with
      functions := m.store.functions.push ⟨name, params, result, body, m.scope.top⟩ } } := ⟨_, .declared rfl⟩
  have stored : ((liftM (StoreM.newFunction ⟨name, params, result, body, m.scope.top⟩) : Exec Value) m).Moves m :=
    ⟨declared, rfl⟩
  exact bind_moves (stored.uncut id) fun f k later same => (moves_lift (lexical_define _ name f) k).after later same

/-- Moves go along with every construct. -/
theorem moves_constructs (c : Cut) : FullCongruence fun _ x x' => Exec.Moves c x x' where
  gives := moves_pure
  fails := moves_throw
  next := moves_bind
  line line _ _ hx := moves_atLine line hx
  catches := moves_tryCatch
  logs _ _ _ := moves_of_local fun _ => local_log _ _ _
  kind v := moves_of_local fun _ => local_kindOf v
  name line name := moves_of_local fun _ => local_nameValue line name
  rename name v := moves_of_local fun _ => local_assignName name v
  member line base path := moves_of_local fun _ => local_readMember line base path
  remember line base path v := moves_of_local fun _ => local_writeMember line base path v
  index c k := moves_lift (code_readIndex c k).lexical
  reindex c k v := moves_lift (code_writeIndex c k v).lexical
  one op v := moves_lift (code_unary op v).lexical
  two op a b := moves_lift (code_binary op a b).lexical
  length v := moves_lift (code_lengthOf v).lexical
  array vs := moves_lift (StoreM.code_newArrayOf vs).lexical
  sized name dims v := moves_lift (code_initialArray name dims v).lexical
  queue := moves_lift (StoreM.code_newQueue []).lexical
  date _ := moves_of_local fun _ => local_look _
  declares line name kind shape v constant :=
    moves_bind moves_get fun _ => moves_atLine line (moves_lift (lexical_declareAs _ name kind shape v constant))
  binds _ _ _ _ _ _ _ rest := moves_bind moves_get fun _ => moves_bind (moves_of_local fun _ => local_declareParam _ _ _ _ _ _) fun _ => rest
  stops := moves_uncut fun _ => trivial
  result f line flow := moves_of_local fun _ => local_resultOf f line flow
  unwinds := moves_unwinding
  framed := moves_inFrame
  records kind name line _ _ hx := moves_recorded kind name line hx
  checks := moves_of_local fun _ => local_checkInterrupt
  times _ := moves_of_local fun _ => local_onTimers _
  looks rest := moves_host_bind fun m => rest m.host m
  items v := moves_lift (code_sequence v).lexical
  shows v := moves_of_local fun _ => local_inspect v
  prints _ := moves_of_local fun _ => local_onHost fun _ same => same
  raises _ := moves_bind moves_get fun _ => moves_throw _
  defines name v _ _ rest := moves_bind moves_get fun _ => moves_bind (moves_lift (lexical_define _ name v)) fun _ => rest

/-- A call makes moves when its frame is opened inside one known before. -/
theorem apply_moves (h : Runner.Moves c rec rec') (f : FunctionData) {outer : Nat} (args : List Value) (names : List Text)
    (line : Nat) {m k : Machine} (known : m.Knows outer) (later : m.Precedes k) (same : k.scope = m.scope) :
    (apply rec f outer args names line k).Cuts c m (c.Passed k) (apply rec' f outer args names line k) := by
  unfold apply
  refine bind_moves ((moves_get k).after later same) fun m' k later same => ?_
  split
  · exact (moves_throw_bind _ _ _ k).after later same
  refine bind_moves ((moves_atLine line (moves_of_local fun _ => local_ofExcept _) k).after later same)
    fun bound k later same => ?_
  -- the call is recorded and the depth is counted around the body
  refine within_moves (within_moves ?_ fun l => ⟨_, l.depth, rfl⟩) fun l => ⟨l.calls, _, rfl⟩
  have later := later.recorded (⟨"call", f.name, line⟩ :: k.calls) (k.depth + 1)
  rw [run_get_bind, run_get_bind]
  refine opened_moves ?_ known later same
  exact (moves_constructs c).called (fun s => h (.stmt s)) (fun e => h (.expr e)) f line _ _

/-- A call by name makes moves. -/
theorem moves_functionCall (h : Runner.Moves c rec rec') (line : Nat) (name : Text) (args : List Expr) (names : List Text) :
    Exec.Moves c (functionCall rec line name args names) (functionCall rec' line name args names) := by
  refine moves_get_bind fun m => ?_
  cases m.store.lookup? m.scope name with
  | none => exact moves_throw _ m
  | some found =>
    obtain ⟨a, b⟩ := found
    dsimp only
    cases b.value with
    | function a =>
      refine bind_moves ((moves_constructs c).evaluateAll (fun e => h (.expr e)) args m) fun vs k later same => ?_
      exact apply_moves h _ vs names line (.inr ⟨a, rfl⟩) later same
    | _ => exact moves_throw _ m

/-! ## Calls of builtins -/

/-- A call of a plugin makes moves. -/
theorem callPlugin_moves (p : Plugin) (args : List Value) {m : Machine} (hp : p ∈ m.host.plugins.entries) :
    (Builtin.callPlugin p args m).Cuts c m (c.Passed m) (Builtin.callPlugin p args m) := by
  unfold Builtin.callPlugin
  refine bind_moves (moves_lift (StoreM.code_prepare p.signature args).lexical m) fun vs k later same => ?_
  rw [run_get_bind]
  -- evaluating the arguments has not changed which plugins there are
  have ⟨_, leads⟩ := later
  have plugged : m.Precedes { k with store := (p.run vs k.store).2 } :=
    later.trans ⟨_, .plugged (leads.plugins ▸ hp) vs⟩
  have stored : ((modify fun m => { m with store := (p.run vs k.store).2 } : Exec PUnit) k).Moves m := ⟨plugged, same⟩
  refine bind_moves (stored.uncut id) fun _ l later same => ?_
  cases (p.run vs k.store).1 with
  | ok v => exact (moves_pure _ l).after later same
  | error e => exact (moves_throw _ l).after later same

theorem moves_call {sleep sleep' : Nat → Exec Unit} (hs : ∀ span, Exec.Moves c (sleep span) (sleep' span))
    (name : Text) (args : List Value) :
    Exec.Moves c (Builtin.call sleep name args) (Builtin.call sleep' name args) := by
  unfold Builtin.call
  dsimp only
  split
  · refine moves_host_bind fun m => ?_
    cases found : m.host.plugins.find? name.lower with
    | none => exact moves_throw _ m
    | some p => exact callPlugin_moves p args (List.mem_of_find?_eq_some found)
  · cases Builtin.find? name.lower with
    | none => exact moves_throw _
    | some b =>
      exact moves_bind (moves_lift (StoreM.code_prepare _ _).lexical) fun vs =>
        (moves_constructs c).builtinRun hs fun awake => moves_of_local (Builtin.local_run awake sleep ⟨vs⟩)

/-! ## Source texts -/

/-- The statements of a source text make moves. -/
theorem moves_program (h : Runner.Moves c rec rec') (p : Program) : Exec.Moves c (program rec p) (program rec' p) :=
  (moves_constructs c).program (fun s => h (.stmt s)) moves_defineFunction p

/-- An import makes moves: the file is marked, and its statements run in the global frame. -/
theorem moves_importFile (h : Runner.Moves c rec rec') (line : Nat) (name : Text) :
    Exec.Moves c (importFile rec line name) (importFile rec' line name) := by
  intro m
  rw [importFile_eq, importFile_eq]
  by_cases fresh : m.importKey name ∈ m.imported
  · rw [if_pos fresh, if_pos fresh]
    exact moves_pure () m
  rw [if_neg fresh, if_neg fresh]
  cases read : m.importProgram line name with
  | error f => exact moves_throw f m
  | ok p =>
    have marked : m.Precedes (m.marked name) := ⟨_, .imports fresh read⟩
    have inner : m.Precedes { m.marked name with scope := m.scope.detach } := marked.trans ⟨_, .detached (m.marked name)⟩
    have ran := inScope_moves (moves_program h p _) inner rfl
    refine (bind_moves ran fun _ k later same => (moves_pure () k).after later same).weaken fun passed => ?_
    exact List.mem_cons_of_mem _ passed

/-! ## Callbacks of timers -/

/-- A callback stands for a function in memory, which is not changed when it is looked for. -/
theorem resolveCallback_ends (v : Value) (m : Machine) :
    (∃ a, resolveCallback v m = .done (m.store.function a) m) ∨ ∃ f, resolveCallback v m = .failed f m := by
  unfold resolveCallback
  rw [run_get_bind]
  cases v with
  | function a => exact .inl ⟨a, rfl⟩
  | string t =>
    dsimp only
    cases m.store.lookup? m.scope t.trim.lower with
    | none => exact .inr ⟨_, rfl⟩
    | some found =>
      obtain ⟨b, binding⟩ := found
      dsimp only
      cases binding.value with
      | function a => exact .inl ⟨a, rfl⟩
      | _ => exact .inr ⟨_, rfl⟩
  | _ => exact .inr ⟨_, rfl⟩

/-- The callback of a tick makes moves: its frames are opened in the global frame, the first one inside the frame that the
callback was declared in. -/
theorem moves_callbackOf (h : Runner.Moves c rec rec') (t : Timer.Tick) : Exec.Moves c (callbackOf rec t) (callbackOf rec' t) := by
  refine moves_get_bind fun m => inScope_moves ?_ ⟨_, .detached m⟩ rfl
  change Outcome.Cuts c _ (c.Passed { m with scope := m.scope.detach }) _ _
  generalize { m with scope := m.scope.detach } = k
  rcases resolveCallback_ends t.callback k with ⟨a, found⟩ | ⟨f, missing⟩
  · rw [bind_of_done found, bind_of_done found, run_get_bind, run_get_bind]
    refine opened_moves ?_ (.inr ⟨a, rfl⟩) (.refl k) rfl
    change Outcome.Cuts c _ (c.Passed (k.opened (k.store.function a).frame)) _ _
    generalize k.opened (k.store.function a).frame = l
    refine bind_moves (moves_of_local (fun _ => local_defineAll _) l) fun _ n later same => ?_
    exact bind_moves (apply_moves h _ _ _ _ (.inl rfl) later same) fun _ n later same =>
      (moves_pure () n).after later same
  · have fails {α : Type} (g : FunctionData → Exec α) : (resolveCallback t.callback >>= g) k = .failed f k := by
      change andThen (resolveCallback t.callback) g k = _
      rw [andThen, missing]
    rw [fails, fails]
    exact moves_throw f k

/-- A tick makes moves: the faults of its callback are logged. -/
theorem moves_runTick (h : Runner.Moves c rec rec') (t : Timer.Tick) : Exec.Moves c (runTick rec t) (runTick rec' t) :=
  moves_tryCatch (moves_callbackOf h t) fun _ => moves_bind moves_get fun _ => moves_of_local fun _ => local_log _ _ _

/-! ## Runs -/

/-- One level of running a part makes moves when the levels below do. -/
theorem moves_step (h : Runner.Moves c rec rec') (fuel : Nat) (t : Task) : Exec.Moves c (step fuel rec t) (step fuel rec' t) := by
  have along := moves_constructs c
  have parts (e : Expr) : Exec.Moves c (evaluate rec e) (evaluate rec' e) := h (.expr e)
  cases t with
  | expr e =>
    have objects := along.objectOf parts (fun v => moves_lift (StoreM.code_toNode v).lexical)
      (fun es => moves_lift (StoreM.code_newObject es).lexical) (fun n => moves_lift (StoreM.code_normalize n).lexical)
      fun n => moves_lift (StoreM.code_newBox n).lexical
    exact along.expression parts objects
      (fun mark name _ _ result _ vs =>
        along.builtinCall result (along.reports (moves_call (fun span => h (.sleep span)) name vs) name mark.line))
      (moves_functionCall h)
  | stmt s => exact along.statement (fun s => h (.stmt s)) parts moves_defineFunction (moves_importFile h) fuel s
  | sleep span => exact moves_host_bind fun m => along.waitUntil (moves_runTick h) fuel _ m

end Constructs

/-- Every run makes moves. -/
theorem moves_run (c : Cut) (fuel : Nat) : Runner.Moves c (run fuel) (run fuel) := by
  induction fuel with
  | zero => exact fun _ => moves_uncut fun _ => trivial
  | succ fuel ih => exact moves_step ih fuel

theorem run_moves (fuel : Nat) (t : Task) (m : Machine) : (run fuel t m).Moves m :=
  (moves_run ⟨"", "", m⟩ fuel t m).moves

/-! ## The points of a run -/

/-- A computation makes moves only, but for the parts that it runs. -/
def Moving {α : Type} (F : Runner → Exec α) : Prop :=
  ∀ c rec rec', Runner.Moves c rec rec' → Exec.Moves c (F rec) (F rec')

/-- A computation asks for one part, and for another one later: when the first crashes, the other is not asked for. -/
def AsksBefore {α : Type} (F : Runner → Exec α) (rec : Runner) (m : Machine) (u : Task) (k : Machine) (v : Task)
    (l : Machine) : Prop :=
  Asks F rec m v l ∧ ∀ why why', F ((rec.crashingAt u k why).crashingAt v l why') m = .crashed why k

section Points

variable {α : Type} {F : Runner → Exec α} {around : Task → Prop} {n j i : Nat} {t u v : Task} {m k l : Machine}
  {file : Text}

theorem moving_step (fuel : Nat) (t : Task) : Moving fun rec => step fuel rec t := fun _ _ _ h => moves_step h fuel t

/-- A crash in the place of a part is an outcome that is led to. -/
theorem crashingAt_moves (n : Nat) (u : Task) (k : Machine) (why : Text) (t : Task) (m : Machine) :
    ((run n).crashingAt u k why t m).Moves m := by
  by_cases same : t = u ∧ m = k
  · obtain ⟨rfl, rfl⟩ := same
    rw [crashingAt_self]
    exact Machine.Precedes.refl m
  · rw [crashingAt_other _ _ same]
    exact run_moves n t m

/-- Where a computation asks for a part, the machine has been led to by moves. -/
theorem asked_precedes (hF : Moving F) (asked : Asks F (run n) m u k) : m.Precedes k := by
  have ends := (hF ⟨"", "", m⟩ _ _ (fun t => moves_uncut (crashingAt_moves n u k "" t)) m).moves
  rwa [asked ""] at ends

/-- So it has at every part that a run performs. -/
theorem performed_precedes (performed : Performs around n t m j u k) : m.Precedes k := by
  induction performed with
  | here n t m => exact .refl m
  | inside outer asked rest ih => exact (asked_precedes (moving_step _ _) asked).trans ih

/-- Crashes are told apart by their reasons. -/
theorem crashed_ne (k l : Machine) : (Outcome.crashed "x" k : Outcome α) ≠ .crashed "" l := fun h => by
  have same := (Outcome.crashed.inj h).1
  revert same
  decide

/-- When a file is marked where a part ends that a computation asks for, it is marked where the computation ends. -/
theorem asked_ends (hF : Moving F) (asked : Asks F (run n) m u k)
    (ends : (run n u k).Ends fun q => file ∈ q.imported) : (F (run n) m).Ends fun q => file ∈ q.imported := by
  -- a crash for one of two reasons is not how the computation ends, and so is seen to come from the part
  obtain ⟨why, other⟩ : ∃ why, Outcome.crashed why k ≠ F (run n) m := by
    by_cases same : Outcome.crashed "" k = F (run n) m
    · exact ⟨"x", fun h => crashed_ne k k (h.trans same.symm)⟩
    · exact ⟨"", same⟩
  have cut : Runner.Moves ⟨file, why, k⟩ (run n) ((run n).crashingAt u k why) := by
    intro t q
    refine ⟨run_moves n t q, (run_moves n t q).passed, ?_⟩
    by_cases same : t = u ∧ q = k
    · obtain ⟨rfl, rfl⟩ := same
      exact .inr ⟨crashingAt_self _ _ _ _, ends⟩
    · exact .inl (crashingAt_other _ _ same)
  obtain same | ⟨-, passed⟩ := (hF _ _ _ cut m).cut
  · exact absurd ((asked why).symm.trans same) other
  · exact passed

/-- So it is where a run ends that performs the part. -/
theorem performed_ends (performed : Performs around n t m j u k) (ends : (run j u k).Ends fun q => file ∈ q.imported) :
    (run n t m).Ends fun q => file ∈ q.imported := by
  induction performed with
  | here n t m => exact ends
  | inside outer asked rest ih => exact asked_ends (moving_step _ _) asked (ih ends)

/-- When a file is marked where a part ends, it is marked where the computation asks for a part later. -/
theorem asked_later (hF : Moving F) (before : AsksBefore F (run n) m u k v l)
    (ends : (run n u k).Ends fun q => file ∈ q.imported) : file ∈ l.imported := by
  obtain ⟨asked, crashes⟩ := before
  have cut : Runner.Moves ⟨file, "x", k⟩ ((run n).crashingAt v l "")
      (((run n).crashingAt u k "x").crashingAt v l "") := by
    intro t q
    have moves := crashingAt_moves n v l "" t q
    refine ⟨moves, moves.passed, ?_⟩
    by_cases there : t = v ∧ q = l
    · obtain ⟨rfl, rfl⟩ := there
      exact .inl ((crashingAt_self _ _ _ _).trans (crashingAt_self _ _ _ _).symm)
    rw [crashingAt_other _ _ there, crashingAt_other _ _ there]
    by_cases here : t = u ∧ q = k
    · obtain ⟨rfl, rfl⟩ := here
      exact .inr ⟨crashingAt_self _ _ _ _, ends⟩
    · exact .inl (crashingAt_other _ _ here)
  obtain same | ⟨-, passed⟩ := (hF _ _ _ cut m).cut
  · rw [crashes, asked] at same
    exact absurd same (crashed_ne k l)
  · rwa [asked] at passed

end Points

end Eval

end ScriptEngine
