import ScriptEngine.Builtin
import ScriptEngine.Console.Summary
import ScriptEngine.Program.Parser
import ScriptEngine.Proofs.ProgramParts
import ScriptEngine.Proofs.OrderedValues
/-!
# Walks over programs

A walk shows each node of a program that is not in a declared type, once, in the order of the source. The inspection that a summary
is made of shows the same, but for variables of members, and so the summary tells of all builtin calls among these. A call that tells
the length of a dimension or the default of a field is in neither.
-/

namespace ScriptEngine

/-- The role of an expression. -/
def Expr.role : Expr → NodeView.Role
  | .name .. => .name
  | .int .. => .int
  | .long .. => .long
  | .double .. => .double
  | .string .. => .string
  | .date .. => .date
  | .bool .. => .bool
  | .null .. => .null
  | .array .. => .array
  | .object .. => .object
  | .unary .. => .unary
  | .binary .. => .binary
  | .assign .. => .assign
  | .step .. => .step
  | .index .. => .index
  | .length .. => .length
  | .member .. => .member
  | .call .. => .call
  | .typeOf .. => .typeOf

/-- The role of a statement. -/
def Stmt.role : Stmt → NodeView.Role
  | .declare .. => .declare
  | .typedef .. => .typedef
  | .returns .. => .returns
  | .expr .. => .value
  | .function .. => .function
  | .block .. => .block
  | .cond .. => .cond
  | .whileLoop .. => .whileLoop
  | .doLoop .. => .doLoop
  | .forLoop .. => .forLoop
  | .forEach .. => .forEach
  | .breaks .. => .breaks
  | .continues .. => .continues
  | .print .. => .print
  | .call .. => .calls
  | .tries .. => .tries
  | .raise .. => .raise
  | .imports .. => .imports

namespace Part

variable {q : Part}

/-- What a walk shows of a part that is a node. A statement that is a block is shown as the block. -/
def view? : Part → Option NodeView
  | program p => some ⟨.program, (p.body.head?.map Stmt.mark).getD ⟨"", 0⟩, .plain⟩
  | block b => some ⟨.block, b.mark, .plain⟩
  | expr (.call m f _ _ builtin result) => some ⟨.call, m, .call f builtin result⟩
  | expr e => some ⟨e.role, e.mark, .plain⟩
  | stmt (.block _) => none
  | stmt (.function m name params result _) =>
    some ⟨.function, m, .function name (params.map Param.render) (result.map TypeSpec.render)⟩
  | stmt s => some ⟨s.role, s.mark, .plain⟩
  | handler _ | param _ | type _ | field _ => none

/-- The walk over a part. -/
def walk : Part → List NodeView
  | program p => p.nodes
  | stmt s => s.nodes
  | block b => b.nodes
  | handler h => h.nodes
  | expr e => e.nodes
  | param p => Expr.nodesOpt p.fallback
  | type _ | field _ => []

/-! ## One step of a walk -/

@[simp] theorem walk_expr (e : Expr) : walk (expr e) = e.nodes := rfl

@[simp] theorem walk_stmt (s : Stmt) : walk (stmt s) = s.nodes := rfl

@[simp] theorem walk_block (b : Block) : walk (block b) = b.nodes := rfl

@[simp] theorem walk_type (t : TypeSpec) : walk (type t) = [] := rfl

@[simp] theorem walk_maybe_expr (o : Option Expr) : (maybe expr o).flatMap walk = Expr.nodesOpt o := by
  cases o with
  | none => rfl
  | some e => exact List.append_nil _

@[simp] theorem walk_maybe_stmt (o : Option Stmt) : (maybe stmt o).flatMap walk = Stmt.nodesOpt o := by
  cases o with
  | none => rfl
  | some s => rw [Stmt.nodesOpt]; exact List.append_nil _

@[simp] theorem walk_maybe_type (o : Option TypeSpec) : (maybe type o).flatMap walk = [] := by
  cases o with
  | none => rfl
  | some t => rfl

@[simp] theorem walk_exprs (es : List Expr) : (es.map expr).flatMap walk = Expr.nodesAll es := by
  induction es with
  | nil => rw [Expr.nodesAll]; rfl
  | cons e es ih => rw [Expr.nodesAll, List.map_cons, List.flatMap_cons, ih, walk_expr]

@[simp] theorem walk_pairs (ps : List (Text × Expr)) : (ps.map fun p => expr p.2).flatMap walk = Expr.nodesPairs ps := by
  induction ps with
  | nil => rw [Expr.nodesPairs]; rfl
  | cons p ps ih => rw [Expr.nodesPairs, List.map_cons, List.flatMap_cons, ih, walk_expr]

@[simp] theorem walk_stmts (ss : List Stmt) : (ss.map stmt).flatMap walk = Stmt.nodesAll ss := by
  induction ss with
  | nil => rw [Stmt.nodesAll]; rfl
  | cons s ss ih => rw [Stmt.nodesAll, List.map_cons, List.flatMap_cons, ih, walk_stmt]

@[simp] theorem walk_handlers (hs : List Handler) : (hs.map handler).flatMap walk = Handler.nodesAll hs := by
  induction hs with
  | nil => rw [Handler.nodesAll]; rfl
  | cons h hs ih => rw [Handler.nodesAll, List.map_cons, List.flatMap_cons, ih]; rfl

@[simp] theorem walk_params (ps : List Param) : (ps.map param).flatMap walk = Param.nodesAll ps := List.flatMap_map ..

theorem walk_step_expr (e : Expr) : walk (expr e) = (view? (expr e)).toList ++ (expr e).children.flatMap walk := by
  cases e
  all_goals simp [children, view?, Expr.nodes, Expr.role, Expr.mark]

theorem walk_step_stmt (s : Stmt) : walk (stmt s) = (view? (stmt s)).toList ++ (stmt s).children.flatMap walk := by
  cases s
  all_goals simp [children, view?, Stmt.nodes, Stmt.role, Stmt.mark]

/-- A walk shows a part, and then the parts that it is made of. -/
theorem walk_step (plain : q.isDeclared = false) : walk q = (view? q).toList ++ q.children.flatMap walk := by
  cases q with
  | program p =>
    show _ :: Stmt.nodesAll p.body = _
    rw [← walk_stmts]
    rfl
  | stmt s => exact walk_step_stmt s
  | block b =>
    cases b
    show Block.nodes _ = _
    rw [Block.nodes, ← walk_stmts]
    rfl
  | handler h =>
    cases h
    show Handler.nodes _ = _
    rw [Handler.nodes]
    exact (List.append_nil _).symm
  | expr e => exact walk_step_expr e
  | param p =>
    show _ = (maybe type p.type ++ maybe expr p.fallback).flatMap walk
    rw [List.flatMap_append, walk_maybe_type, walk_maybe_expr]
    rfl
  | type t => cases plain
  | field f => cases plain

/-! ## Whole walks -/

/-- The walk over a part shows each node of it that is outside the declared types, once, and in the order of the source. -/
theorem lists_walk (q : Part) : q.Lists q.Outside view? (walk q) := by
  induction q using induction with
  | step q ih =>
    cases declared : q.isDeclared with
    | true =>
      have none : walk q = [] := by
        cases q
        all_goals first | rfl | cases declared
      rw [none]
      exact lists_declared declared view?
    | false =>
      rw [walk_step declared]
      exact lists_of_children declared walk ih

end Part

/-! ## Inspections -/

/-- Whether a node is anything but a variable. -/
def NodeView.isOther : NodeView → Bool
  | ⟨.name, _, .plain⟩ => false
  | _ => true

/-- Two walks that show the same nodes in the same order, but for variables. -/
def SameOthers (ms ns : List NodeView) : Prop := ms.filter NodeView.isOther = ns.filter NodeView.isOther

theorem SameOthers.cons {ms ns : List NodeView} (n : NodeView) (h : SameOthers ms ns) : SameOthers (n :: ms) (n :: ns) := by
  rw [SameOthers, List.filter_cons, List.filter_cons, h]

theorem SameOthers.append {ms ns ms' ns' : List NodeView} (h : SameOthers ms ns) (h' : SameOthers ms' ns') :
    SameOthers (ms ++ ms') (ns ++ ns') := by
  rw [SameOthers, List.filter_append, List.filter_append, h, h']

theorem SameOthers.filterMap {α : Type} {ms ns : List NodeView} {f : NodeView → Option α} (h : SameOthers ms ns)
    (none : ∀ m, f ⟨.name, m, .plain⟩ = none) : ms.filterMap f = ns.filterMap f := by
  have others (n : NodeView) : (Option.guard NodeView.isOther n).bind f = f n := by
    obtain ⟨_ | _, m, _ | _ | _⟩ := n
    case name.plain => exact (none m).symm
    all_goals rfl
  have kept (l : List NodeView) : l.filterMap f = (l.filter NodeView.isOther).filterMap f := by
    rw [← List.filterMap_eq_filter, List.filterMap_filterMap]
    exact congrArg (l.filterMap ·) (funext fun n => (others n).symm)
  rw [kept, h, ← kept]

mutual

/-- The inspection of an expression shows what a walk over it does. -/
theorem Expr.sameOthers : ∀ e : Expr, SameOthers e.inspected e.nodes
  | .name .. | .int .. | .long .. | .double .. | .string .. | .date .. | .bool .. | .null .. => rfl
  | .member .. => by rw [Expr.inspected, Expr.nodes]; rfl
  | .unary _ _ e | .step _ _ e | .length _ e | .typeOf _ e => by
    rw [Expr.inspected, Expr.nodes]
    exact e.sameOthers.cons _
  | .binary _ _ l r | .assign _ _ l r | .index _ l r => by
    rw [Expr.inspected, Expr.nodes]
    exact (l.sameOthers.cons _).append r.sameOthers
  | .array _ es | .call _ _ es .. => by
    rw [Expr.inspected, Expr.nodes]
    exact (Expr.sameOthersAll es).cons _
  | .object _ ps => by
    rw [Expr.inspected, Expr.nodes]
    exact (Expr.sameOthersPairs ps).cons _

theorem Expr.sameOthersAll : ∀ es : List Expr, SameOthers (Expr.inspectedAll es) (Expr.nodesAll es)
  | [] => rfl
  | e :: es => by
    rw [Expr.inspectedAll, Expr.nodesAll]
    exact e.sameOthers.append (Expr.sameOthersAll es)

theorem Expr.sameOthersPairs : ∀ ps : List (Text × Expr), SameOthers (Expr.inspectedPairs ps) (Expr.nodesPairs ps)
  | [] => rfl
  | (_, e) :: ps => by
    rw [Expr.inspectedPairs, Expr.nodesPairs]
    exact e.sameOthers.append (Expr.sameOthersPairs ps)

end

theorem Expr.sameOthersOpt : ∀ o : Option Expr, SameOthers (Expr.inspectedOpt o) (Expr.nodesOpt o)
  | none => rfl
  | some e => e.sameOthers

theorem Param.sameOthersAll (ps : List Param) :
    SameOthers (ps.flatMap fun p => Expr.inspectedOpt p.fallback) (Param.nodesAll ps) := by
  induction ps with
  | nil => rfl
  | cons p ps ih => exact (Expr.sameOthersOpt p.fallback).append ih

mutual

theorem Stmt.sameOthers : ∀ s : Stmt, SameOthers s.inspected s.nodes
  | .typedef .. | .breaks .. | .continues .. | .imports .. => rfl
  | .block b => by
    rw [Stmt.inspected, Stmt.nodes]
    exact b.sameOthers
  | .expr _ e | .print _ e | .call _ e => by
    rw [Stmt.inspected, Stmt.nodes]
    exact e.sameOthers.cons _
  | .returns _ value | .declare _ _ _ value _ => by
    rw [Stmt.inspected, Stmt.nodes]
    exact (Expr.sameOthersOpt value).cons _
  | .function _ _ params _ body => by
    rw [Stmt.inspected, Stmt.nodes]
    exact ((Param.sameOthersAll params).cons _).append body.sameOthers
  | .cond _ test yes no => by
    rw [Stmt.inspected, Stmt.nodes]
    exact ((test.sameOthers.cons _).append yes.sameOthers).append (Stmt.sameOthersOpt no)
  | .whileLoop _ e body | .forEach _ _ e body => by
    rw [Stmt.inspected, Stmt.nodes]
    exact (e.sameOthers.cons _).append body.sameOthers
  | .doLoop _ body test => by
    rw [Stmt.inspected, Stmt.nodes]
    exact (body.sameOthers.cons _).append test.sameOthers
  | .forLoop _ init test update body => by
    rw [Stmt.inspected, Stmt.nodes]
    exact ((((Stmt.sameOthersOpt init).cons _).append (Expr.sameOthersOpt test)).append
      (Expr.sameOthersOpt update)).append body.sameOthers
  | .tries _ body handlers => by
    rw [Stmt.inspected, Stmt.nodes]
    exact (body.sameOthers.cons _).append (Handler.sameOthersAll handlers)
  | .raise _ _ args => by
    rw [Stmt.inspected, Stmt.nodes]
    exact (Expr.sameOthersAll args).cons _

theorem Block.sameOthers : ∀ b : Block, SameOthers b.inspected b.nodes
  | .mk _ body => by
    rw [Block.inspected, Block.nodes]
    exact (Stmt.sameOthersAll body).cons _

theorem Stmt.sameOthersAll : ∀ ss : List Stmt, SameOthers (Stmt.inspectedAll ss) (Stmt.nodesAll ss)
  | [] => rfl
  | s :: ss => by
    rw [Stmt.inspectedAll, Stmt.nodesAll]
    exact s.sameOthers.append (Stmt.sameOthersAll ss)

theorem Stmt.sameOthersOpt : ∀ o : Option Stmt, SameOthers (Stmt.inspectedOpt o) (Stmt.nodesOpt o)
  | none => rfl
  | some s => by
    rw [Stmt.inspectedOpt, Stmt.nodesOpt]
    exact s.sameOthers

theorem Handler.sameOthersAll : ∀ hs : List Handler, SameOthers (Handler.inspectedAll hs) (Handler.nodesAll hs)
  | [] => rfl
  | h :: hs => by
    rw [Handler.inspectedAll, Handler.nodesAll]
    exact h.sameOthers.append (Handler.sameOthersAll hs)

theorem Handler.sameOthers : ∀ h : Handler, SameOthers h.inspected h.nodes
  | .mk _ _ _ body => by
    rw [Handler.inspected, Handler.nodes]
    exact body.sameOthers

end

/-- The inspection of a program shows what a walk over it does, but for variables of members. -/
theorem Program.sameOthers (p : Program) : SameOthers p.inspected p.nodes := (Stmt.sameOthersAll p.body).cons _

/-! ## Summaries -/

namespace Console.Summary

variable {calls : List (Text × Nat)} {notes : List BuiltinNote} {call : Text × Nat} {b c : BuiltinNote} {name : Text} {lines : List Nat}
  {s : Summary} {nodes : List NodeView}

/-- Notes in rising order of names. -/
def Rising (notes : List BuiltinNote) : Prop := notes.Pairwise fun a b => compare a.name b.name = .lt

/-- The lines of the calls of a builtin. -/
def linesOf (name : Text) (calls : List (Text × Nat)) : List Nat := calls.filterMap fun c => if c.1 = name then some c.2 else none

/-- Notes that tell the lines of some calls: one note for each builtin that is called. -/
structure Noted (calls : List (Text × Nat)) (notes : List BuiltinNote) : Prop where
  rising : Rising notes
  lines : ∀ name lines, ⟨name, lines⟩ ∈ notes ↔ lines ≠ [] ∧ lines = linesOf name calls

/-- Noting a call adds its line to the note of its builtin, or makes the note. -/
theorem mem_noteCall (rising : Rising notes) : ⟨name, lines⟩ ∈ noteCall call notes ↔
    if name = call.1 then (∃ ls, ⟨name, ls⟩ ∈ notes ∧ lines = ls ++ [call.2]) ∨ (∀ ls, ⟨name, ls⟩ ∉ notes) ∧ lines = [call.2]
    else ⟨name, lines⟩ ∈ notes := by
  induction notes with
  | nil =>
    rw [noteCall, List.mem_singleton, BuiltinNote.mk.injEq]
    split
    · rename_i own
      simp [own]
    · rename_i other
      simp [other]
  | cons b bs ih =>
    obtain ⟨first, rest⟩ := List.pairwise_cons.mp rising
    rw [noteCall]
    cases order : compare call.1 b.name with
    | lt =>
      -- the name comes before those of all notes
      have absent (ls : List Nat) : ⟨call.1, ls⟩ ∉ b :: bs := by
        intro mem
        rcases List.mem_cons.mp mem with rfl | mem
        · exact Text.ne_of_compare order rfl
        · exact Text.ne_of_compare (Std.TransCmp.lt_trans order (first _ mem)) rfl
      show _ ∈ ⟨call.1, [call.2]⟩ :: b :: bs ↔ _
      rw [List.mem_cons, BuiltinNote.mk.injEq]
      split
      · rename_i own
        subst own
        simp [absent]
      · rename_i other
        simp [other]
    | eq =>
      have same : call.1 = b.name := Std.LawfulEqCmp.eq_of_compare order
      have absent (ls : List Nat) : ⟨b.name, ls⟩ ∉ bs := fun mem => Text.ne_of_compare (first _ mem) rfl
      show _ ∈ ⟨b.name, b.lines ++ [call.2]⟩ :: bs ↔ _
      rw [List.mem_cons, BuiltinNote.mk.injEq, same]
      split
      · rename_i own
        subst own
        constructor
        · rintro (⟨-, rfl⟩ | mem)
          · exact .inl ⟨b.lines, List.mem_cons_self, rfl⟩
          · exact absurd mem (absent lines)
        · rintro (⟨ls, mem, rfl⟩ | ⟨none, -⟩)
          · rcases List.mem_cons.mp mem with here | mem
            · obtain rfl : ls = b.lines := congrArg BuiltinNote.lines here
              exact .inl ⟨rfl, rfl⟩
            · exact absurd mem (absent ls)
          · exact absurd List.mem_cons_self (none b.lines)
      · rename_i other
        have apart (ls : List Nat) : (⟨name, ls⟩ : BuiltinNote) ≠ b := fun same => other (congrArg BuiltinNote.name same)
        simp [other, apart]
    | gt =>
      have apart : call.1 ≠ b.name := (Text.ne_of_compare (Std.OrientedCmp.gt_iff_lt.mp order)).symm
      show _ ∈ b :: noteCall call bs ↔ _
      rw [List.mem_cons, ih rest]
      split
      · rename_i own
        subst own
        have other (ls : List Nat) : (⟨call.1, ls⟩ : BuiltinNote) ≠ b := fun same => apart (congrArg BuiltinNote.name same)
        simp [other]
      · rw [List.mem_cons]

theorem rising_noteCall (rising : Rising notes) : Rising (noteCall call notes) := by
  induction notes with
  | nil => exact List.pairwise_singleton _ _
  | cons b bs ih =>
    obtain ⟨first, rest⟩ := List.pairwise_cons.mp rising
    rw [noteCall]
    cases order : compare call.1 b.name with
    | lt =>
      refine List.pairwise_cons.mpr ⟨?_, rising⟩
      intro c mem
      rcases List.mem_cons.mp mem with rfl | mem
      · exact order
      · exact Std.TransCmp.lt_trans order (first c mem)
    | eq => exact List.pairwise_cons.mpr ⟨first, rest⟩
    | gt =>
      refine List.pairwise_cons.mpr ⟨?_, ih rest⟩
      intro c mem
      have mem := (mem_noteCall rest).mp mem
      split at mem
      · rename_i own
        rw [own]
        exact Std.OrientedCmp.gt_iff_lt.mp order
      · exact first c mem

/-- Noting one more call. -/
theorem Noted.step (noted : Noted calls notes) : Noted (calls ++ [call]) (noteCall call notes) := by
  refine ⟨rising_noteCall noted.rising, ?_⟩
  intro name lines
  have more : linesOf name (calls ++ [call]) = linesOf name calls ++ if name = call.1 then [call.2] else [] := by
    rw [linesOf, List.filterMap_append]
    by_cases own : name = call.1
    · simp [own, linesOf]
    · simp [own, linesOf, Ne.symm own]
  rw [mem_noteCall noted.rising, more]
  split
  · constructor
    · rintro (⟨ls, mem, rfl⟩ | ⟨none, rfl⟩)
      · rw [((noted.lines name ls).mp mem).2]
        exact ⟨by simp, rfl⟩
      · have empty : linesOf name calls = [] := by
          by_contra some
          exact none _ ((noted.lines name _).mpr ⟨some, rfl⟩)
        rw [empty]
        exact ⟨List.cons_ne_nil _ _, rfl⟩
    · rintro ⟨-, rfl⟩
      by_cases empty : linesOf name calls = []
      · refine .inr ⟨?_, by rw [empty]; rfl⟩
        intro ls mem
        obtain ⟨some, same⟩ := (noted.lines name ls).mp mem
        exact some (same.trans empty)
      · exact .inl ⟨_, (noted.lines name _).mpr ⟨empty, rfl⟩, rfl⟩
  · rw [List.append_nil]
    exact noted.lines name lines

/-- Noting calls one after the other. -/
theorem noted_foldl (calls : List (Text × Nat)) : Noted calls (calls.foldl (fun notes call => noteCall call notes) []) := by
  induction calls using List.reverseRecOn with
  | nil =>
    refine ⟨.nil, ?_⟩
    intro name lines
    constructor
    · intro mem
      exact absurd mem List.not_mem_nil
    · rintro ⟨some, rfl⟩
      exact absurd rfl some
  | append_singleton calls call ih =>
    rw [List.foldl_append]
    exact ih.step

/-- What is noted of nodes: the functions in their order, and the calls one after the other. -/
theorem foldl_note : nodes.foldl note s =
    ⟨s.functions ++ nodes.filterMap functionOf?, (nodes.filterMap builtinOf?).foldl (fun notes call => noteCall call notes) s.builtins⟩ := by
  induction nodes generalizing s with
  | nil => rw [List.filterMap_nil, List.append_nil]; rfl
  | cons n ns ih =>
    rw [List.foldl_cons, ih]
    obtain ⟨role, m, _ | ⟨f, _ | _, result⟩ | ⟨name, params, result⟩⟩ := n
    case function =>
      show (⟨_ ++ _ ++ _, _⟩ : Summary) = ⟨_ ++ _ :: _, _⟩
      rw [List.append_assoc]
      rfl
    all_goals rfl

/-- The summary of a program notes what a walk over the program shows. -/
theorem ofProgram_eq (p : Program) : ofProgram p =
    ⟨p.nodes.filterMap functionOf?, (p.nodes.filterMap builtinOf?).foldl (fun notes call => noteCall call notes) []⟩ := by
  have same := p.sameOthers
  rw [ofProgram, foldl_note, same.filterMap fun _ => rfl, same.filterMap fun _ => rfl]
  rfl

end Console.Summary

/-! ## What a summary tells -/

namespace Part

open Console

variable {q : Part} {n : NodeView}

/-- What a walk shows of a call. -/
def call? : Part → Option NodeView
  | expr (.call m f _ _ builtin result) => some ⟨.call, m, .call f builtin result⟩
  | _ => none

/-- What a summary tells of a function. -/
def function? : Part → Option FunctionNote
  | stmt (.function m name params result _) => some ⟨name, params.map Param.render, result.map TypeSpec.render, m.line⟩
  | _ => none

/-- The line of a call of a builtin. -/
def lineOfCall? (name : Text) : Part → Option Nat
  | expr (.call m f _ _ true _) => if f = name then some m.line else none
  | _ => none

theorem call?_eq (q : Part) : call? q = (view? q).bind (Option.guard fun n => n.role = .call) := by
  cases q with
  | expr e =>
    cases e
    all_goals rfl
  | stmt s =>
    cases s
    all_goals rfl
  | _ => rfl

theorem function?_eq (q : Part) : function? q = (view? q).bind Summary.functionOf? := by
  cases q with
  | expr e =>
    cases e
    all_goals rfl
  | stmt s =>
    cases s
    all_goals rfl
  | _ => rfl

theorem lineOfCall?_eq (name : Text) (q : Part) :
    lineOfCall? name q = (view? q).bind fun n => (Summary.builtinOf? n).bind fun c => if c.1 = name then some c.2 else none := by
  cases q with
  | expr e =>
    cases e with
    | call m f args names builtin result =>
      cases builtin
      all_goals rfl
    | _ => rfl
  | stmt s =>
    cases s
    all_goals rfl
  | _ => rfl

end Part

open Console in
/-- **Walks and summaries.** The walk over a program shows each node outside the declared types, once, and in the order of the source.
The inspection of the program shows the same nodes but for variables, so the same calls. The summary tells of each function there,
and for each builtin that is called there, in the order of names, the lines of all calls. When no call is in a declared type, this is
every call of the program. -/
theorem Program.walk_lists (p : Program) :
    let q := Part.program p
    let summary := Summary.ofProgram p
    q.Lists q.Outside Part.view? p.nodes ∧
      SameOthers p.inspected p.nodes ∧
      q.Lists q.Outside Part.call? (p.inspected.filter fun n => n.role = .call) ∧
      q.Lists q.Outside Part.function? summary.functions ∧
      Summary.Rising summary.builtins ∧
      (∀ name lines, ⟨name, lines⟩ ∈ summary.builtins ↔ lines ≠ [] ∧ q.Lists q.Outside (Part.lineOfCall? name) lines) ∧
      ((∀ path r, q.at? path = some r → r.call?.isSome = true → q.Outside path) →
        q.Lists (fun _ => True) Part.call? (p.nodes.filter fun n => n.role = .call) ∧
        q.Lists (fun _ => True) Part.call? (p.inspected.filter fun n => n.role = .call) ∧
        ∀ name lines, ⟨name, lines⟩ ∈ summary.builtins ↔ lines ≠ [] ∧ q.Lists (fun _ => True) (Part.lineOfCall? name) lines) := by
  intro q summary
  have shown : q.Lists q.Outside Part.view? p.nodes := Part.lists_walk q
  have met : (p.inspected.filter fun n => n.role = .call) = p.nodes.filter fun n => n.role = .call := by
    rw [← List.filterMap_eq_filter]
    exact p.sameOthers.filterMap fun _ => rfl
  have noted : Summary.Noted (p.nodes.filterMap Summary.builtinOf?) summary.builtins := by
    show Summary.Noted _ (Summary.ofProgram p).builtins
    rw [Summary.ofProgram_eq]
    exact Summary.noted_foldl _
  have functions : summary.functions = p.nodes.filterMap Summary.functionOf? := congrArg Summary.functions (Summary.ofProgram_eq p)
  rw [met]
  have calls : q.Lists q.Outside Part.call? (p.nodes.filter fun n => n.role = .call) := by
    rw [funext Part.call?_eq, ← List.filterMap_eq_filter]
    exact shown.filterMap _
  have told (name : Text) : q.Lists q.Outside (Part.lineOfCall? name) (Summary.linesOf name (p.nodes.filterMap Summary.builtinOf?)) := by
    rw [funext (Part.lineOfCall?_eq name), Summary.linesOf, List.filterMap_filterMap]
    exact shown.filterMap _
  have lists (name : Text) (lines : List Nat) : ⟨name, lines⟩ ∈ summary.builtins ↔ lines ≠ [] ∧ q.Lists q.Outside (Part.lineOfCall? name) lines := by
    refine (noted.lines name lines).trans (and_congr_right fun _ => ?_)
    constructor
    · rintro rfl
      exact told name
    · intro listed
      exact listed.unique (told name)
  refine ⟨shown, p.sameOthers, calls, ?_, noted.rising, lists, ?_⟩
  · rw [funext Part.function?_eq, functions]
    exact shown.filterMap _
  · intro plain
    have builtin {name : Text} {r : Part} (tells : (r.lineOfCall? name).isSome = true) : r.call?.isSome = true := by
      cases r with
      | expr e =>
        cases e with
        | call => rfl
        | _ => cases tells
      | _ => cases tells
    have outside (path : List Nat) (r : Part) (there : q.at? path = some r) (tells : r.call?.isSome = true) : q.Outside path ↔ True :=
      iff_true_intro (plain path r there tells)
    refine ⟨calls.congr outside, calls.congr outside, fun name lines => (lists name lines).trans (and_congr_right fun _ => ?_)⟩
    constructor
    · intro listed
      exact listed.congr fun path r there tells => outside path r there (builtin tells)
    · intro listed
      exact listed.congr fun path r there tells => (outside path r there (builtin tells)).symm

/-- A program without declared types shows its one call, and its summary has the line of it. -/
theorem Program.walk_lists_plain :
    let call : Expr := .call ⟨"str.length", 1⟩ "str.length" [.string ⟨"abc", 1⟩ "abc"] [] true "int"
    let p : Program := ⟨[.print ⟨"print", 1⟩ call]⟩
    (Part.program p).Lists (fun _ => True) Part.call? [⟨.call, ⟨"str.length", 1⟩, .call "str.length" true "int"⟩] ∧
      (Part.program p).Lists (fun _ => True) (Part.lineOfCall? "str.length") [1] := by
  intro call p
  have plain : ∀ path, (Part.program p).Outside path := by
    refine Part.outside_of_children rfl (List.forall_mem_singleton.mpr ?_)
    refine Part.outside_of_children rfl (List.forall_mem_singleton.mpr ?_)
    refine Part.outside_of_children rfl (List.forall_mem_singleton.mpr ?_)
    exact Part.outside_of_children rfl fun c mem => absurd mem List.not_mem_nil
  obtain ⟨-, -, -, -, -, -, all⟩ := Program.walk_lists p
  obtain ⟨calls, -, builtins⟩ := all fun path _ _ _ => plain path
  exact ⟨calls, ((builtins "str.length" [1]).mp (List.mem_singleton.mpr rfl)).2⟩

open Console in
/-- A call that tells the length of a dimension is a part of the program, and neither walk nor inspection nor summary has it. -/
theorem Program.walk_misses :
    let source : Text := "var x: int[str.length(\"abc\")];"
    let c : Catalog := ⟨⟨[StrOp.length.signature]⟩, ⟨[]⟩⟩
    let p := (Program.parse c source).1
    (Program.parse c source).2 = [] ∧ ((Part.program p).at? [0, 0, 0]).bind (Part.lineOfCall? "str.length") = some 1 ∧
      (∀ n ∈ p.nodes ++ p.inspected, n.role ≠ .call) ∧ (Summary.ofProgram p).builtins = [] := by
  intro source c p
  have found : (Program.parse c source).2 = [] ∧ ((Part.program p).at? [0, 0, 0]).bind (Part.lineOfCall? "str.length") = some 1 ∧
      (∀ n ∈ p.nodes ++ p.inspected, n.role ≠ .call) ∧ (Summary.ofProgram p).builtins.isEmpty = true := by decide +kernel
  exact ⟨found.1, found.2.1, found.2.2.1, List.isEmpty_iff.mp found.2.2.2⟩

end ScriptEngine
