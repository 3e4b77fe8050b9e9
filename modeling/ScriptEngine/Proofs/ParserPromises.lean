import ScriptEngine.Proofs.LiteralTokens
import ScriptEngine.Proofs.ProgramParts
import ScriptEngine.Proofs.ReadingExpressions
/-!
# What the parser promises

Wherever a literal stands in a program that is read, also in a declared type, in the default of a parameter and in what is kept of
a text with faults, it is the value of the token that it is named by. Literals are made of tokens in one place only. Every other
computation of the parser moves what was read before to a new place, and the name of a type stands for the type that it was
declared as, with the literals in it.

The parser counts the loops around the current token. A part of a program is read with the count it began with, also when it can
not be read, and a loop control is refused where the count is zero. So what is read outside of loops holds no loose loop control,
and no function does.
-/

namespace ScriptEngine

/-! ## Grounded parts -/

/-- A literal is what the token that it is named by says. -/
def Expr.Grounded : Expr → Prop
  | .int m n => Digits m.literal.bytes ∧ Cursor.decimalValue m.literal.bytes < 2 ^ 31 ∧
    n = Int32.ofNat (Cursor.decimalValue m.literal.bytes)
  | .long m n => Digits m.literal.bytes ∧ Cursor.decimalValue m.literal.bytes < 2 ^ 63 ∧
    n = Int64.ofNat (Cursor.decimalValue m.literal.bytes)
  | .double m x => (∃ whole frac exp, NumberParts whole frac exp ∧ m.literal.bytes = whole ++ frac ++ exp) ∧
    (Decimal.ofLiteral m.literal.chars).toFloat? = some x
  | .string _ v => Cursor.isDateForm v.bytes = true → Date.ofText? v = none
  | .date m d => Cursor.isDateForm m.literal.bytes = true ∧ Date.ofText? m.literal = some d
  | _ => True

namespace Part

variable {α : Type} {part : α → Part} {q c : Part} {cs ds : List Part} {e : Expr}

/-- All literals at the places of a part are grounded. -/
def Grounded (q : Part) : Prop := ∀ path e, q.at? path = some (.expr e) → e.Grounded

/-- All of some parts are grounded. -/
def AllGrounded (cs : List Part) : Prop := ∀ c ∈ cs, c.Grounded

theorem allGrounded_nil : AllGrounded [] := List.forall_mem_nil _

theorem allGrounded_cons : AllGrounded (c :: cs) ↔ c.Grounded ∧ AllGrounded cs := List.forall_mem_cons

theorem allGrounded_append : AllGrounded (cs ++ ds) ↔ AllGrounded cs ∧ AllGrounded ds := List.forall_mem_append

theorem allGrounded_one : AllGrounded [c] ↔ c.Grounded := List.forall_mem_singleton

/-- Lists are read in reverse. -/
theorem AllGrounded.reverse {as : List α} {parts : α → List Part} (h : AllGrounded (as.flatMap parts)) :
    AllGrounded (as.reverse.flatMap parts) := by
  intro c mem
  obtain ⟨a, there, inside⟩ := List.mem_flatMap.mp mem
  exact h c (List.mem_flatMap.mpr ⟨a, List.mem_reverse.mp there, inside⟩)

theorem AllGrounded.map_reverse {as : List α} (h : AllGrounded (as.map part)) : AllGrounded (as.reverse.map part) := by
  rw [List.map_eq_flatMap] at h ⊢
  exact h.reverse

/-- A part is grounded when it is no literal that is not, and what it is made of is grounded. -/
theorem grounded_iff : q.Grounded ↔ (∀ e, q = .expr e → e.Grounded) ∧ AllGrounded q.children := by
  constructor
  · intro grounded
    refine ⟨fun e same => grounded [] e (congrArg some same), fun c mem path e there => ?_⟩
    obtain ⟨i, child⟩ := List.mem_iff_getElem?.mp mem
    refine grounded (i :: path) e ?_
    rw [at?_cons, child]
    exact there
  · rintro ⟨own, below⟩ path e there
    cases path with
    | nil => exact own e (Option.some.inj there)
    | cons i path =>
      rw [at?_cons] at there
      obtain ⟨c, child, there⟩ := Option.bind_eq_some_iff.mp there
      exact below c (List.mem_of_getElem? child) path e there

/-- An expression that is no literal, or a grounded one, is grounded when its parts are. -/
theorem grounded_expr (own : e.Grounded) (below : AllGrounded (expr e).children) : (expr e).Grounded :=
  grounded_iff.mpr ⟨fun _ same => expr.inj same ▸ own, below⟩

/-- What is no expression is grounded when its parts are. -/
theorem grounded_of_children (other : ∀ e, q ≠ expr e) (below : AllGrounded q.children) : q.Grounded :=
  grounded_iff.mpr ⟨fun e same => absurd same (other e), below⟩

theorem grounded_name (m : Mark) (v : Text) : (expr (.name m v)).Grounded := grounded_expr trivial allGrounded_nil

theorem grounded_stmt {s : Stmt} (below : AllGrounded (stmt s).children) : (stmt s).Grounded :=
  grounded_of_children nofun below

/-- A declared type is grounded when the lengths of its dimensions and its fields are. -/
theorem grounded_type {t : TypeSpec} : (type t).Grounded ↔
    AllGrounded (t.dims.flatMap (maybe expr)) ∧ AllGrounded ((t.fields.getD []).map field) := by
  rw [grounded_iff, ← allGrounded_append]
  exact and_iff_right nofun

end Part

namespace Parser

open ScriptEngine.Part

variable {α β : Type} {d : Nat} {P : α → Prop} {Q : β → Prop} {x y : ParseM α} {c : Catalog} {rec : Reader}

/-! ## What computations of the parser give -/

/-- A token that lies on a line of a source text, counted from one, and has a suited literal. -/
structure Fine (t : Token) : Prop where
  line : 1 ≤ t.line
  suited : t.Suited

/-- A parser that holds such tokens, type names that stand for grounded types, and a count of loops. -/
structure Holds (d : Nat) (s : ParseState) : Prop where
  loops : s.loopDepth = d
  tokens : ∀ t ∈ s.tokens, Fine t
  last : Fine s.last
  typedefs : ∀ p ∈ s.typedefs, (type p.2).Grounded

/-- The token some places ahead is such a token. -/
theorem Holds.ahead {s : ParseState} (hs : Holds d s) (n : Nat) : Fine ((s.tokens.drop n).head?.getD s.last) := by
  cases h : (s.tokens.drop n).head? with
  | none => exact hs.last
  | some t => exact hs.tokens t (List.mem_of_mem_drop (List.mem_of_mem_head? h))

/-- What concerns neither tokens nor type names. -/
theorem Holds.changed {s t : ParseState} {e : Nat} (hs : Holds d s) (loops : t.loopDepth = e) (tokens : t.tokens = s.tokens)
    (last : t.last = s.last) (typedefs : t.typedefs = s.typedefs) : Holds e t :=
  ⟨loops, tokens ▸ hs.tokens, last ▸ hs.last, typedefs ▸ hs.typedefs⟩

/-- A computation keeps what the parser holds, and what it gives, if anything, is as it should be. -/
def Yields (d : Nat) (P : α → Prop) (x : ParseM α) : Prop :=
  ∀ s, Holds d s → Holds d (x.run.run s).2 ∧ ∀ a, (x.run.run s).1 = some a → P a

theorem yields_pure {a : α} (h : P a) : Yields d P (pure a) := by
  intro s hs
  refine ⟨hs, fun b hb => ?_⟩
  cases hb
  exact h

theorem yields_failure : Yields d P (failure : ParseM α) := fun _ hs => ⟨hs, nofun⟩

/-- What the first of two computations gives is known to the second. -/
theorem yields_bind {f : α → ParseM β} (hx : Yields d P x) (hf : ∀ a, P a → Yields d Q (f a)) : Yields d Q (x >>= f) := by
  intro s hs
  obtain ⟨holds, given⟩ := hx s hs
  rw [run_bind]
  obtain ⟨r, s', hr⟩ : ∃ r s', x.run.run s = (r, s') := ⟨_, _, rfl⟩
  rw [hr] at holds given ⊢
  cases r with
  | none => exact ⟨holds, nofun⟩
  | some a => exact hf a (given a rfl) s' holds

/-- A computation that only looks at the state. -/
theorem yields_look {f : α → ParseM β} (same : ∀ s, (x.run.run s).2 = s) (hf : ∀ a, Yields d Q (f a)) : Yields d Q (x >>= f) := by
  refine yields_bind (P := fun _ => True) (fun s hs => ⟨?_, fun _ _ => trivial⟩) fun a _ => hf a
  rw [same]
  exact hs

/-- A change of the state. -/
theorem yields_modify {change : ParseState → ParseState} {f : PUnit → ParseM β} (kept : ∀ s, Holds d s → Holds d (change s))
    (hf : Yields d Q (f ())) : Yields d Q (modify change >>= f) :=
  yields_bind (P := fun _ => True) (fun s hs => ⟨kept s hs, fun _ _ => trivial⟩) fun _ _ => hf

theorem yields_ite {p : Prop} [Decidable p] (yes : p → Yields d P x) (no : ¬p → Yields d P y) : Yields d P (if p then x else y) := by
  split
  · exact yes ‹_›
  · exact no ‹_›

/-! ## Steps -/

theorem yields_current {f : Token → ParseM β} (hf : ∀ t, Fine t → Yields d Q (f t)) : Yields d Q (current >>= f) := by
  refine yields_bind (P := Fine) (fun s hs => ⟨hs, fun t ht => ?_⟩) hf
  cases ht
  exact hs.ahead 0

theorem yields_get {f : ParseState → ParseM β} (hf : ∀ s, Holds d s → Yields d Q (f s)) : Yields d Q (get >>= f) := by
  refine yields_bind (P := Holds d) (fun s hs => ⟨hs, fun a ha => ?_⟩) hf
  cases ha
  exact hs

theorem yields_mark {f : Mark → ParseM β} (hf : ∀ m, 1 ≤ m.line → Yields d Q (f m)) : Yields d Q (mark >>= f) := by
  unfold mark
  rw [bind_assoc]
  exact yields_current fun t fine => hf _ fine.line

theorem yields_peek {f : Token → ParseM β} (hf : ∀ t, Yields d Q (f t)) : Yields d Q (peek >>= f) := yields_look (fun _ => rfl) hf

theorem yields_peekIs {k : Token.Kind} {f : Bool → ParseM β} (hf : ∀ b, Yields d Q (f b)) : Yields d Q (peekIs k >>= f) :=
  yields_look (fun _ => rfl) hf

theorem yields_tokensLeft {f : Nat → ParseM β} (hf : ∀ n, Yields d Q (f n)) : Yields d Q (tokensLeft >>= f) :=
  yields_look (fun _ => rfl) hf

theorem yields_advance {f : Unit → ParseM β} (hf : Yields d Q (f ())) : Yields d Q (advance >>= f) := by
  refine yields_modify (fun s hs => ?_) hf
  exact ⟨hs.loops, fun t mem => hs.tokens t (List.mem_of_mem_drop mem), hs.last, hs.typedefs⟩

theorem yields_fault (detail : Fault.Detail) (line : Nat) (message : Text) : Yields d P (fault detail line message : ParseM α) :=
  yields_modify (fun _ hs => hs.changed hs.loops rfl rfl rfl) yields_failure

theorem yields_fault_bind {f : α → ParseM β} (detail : Fault.Detail) (line : Nat) (message : Text) :
    Yields d Q (fault detail line message >>= f) := yields_bind (P := fun _ => False) (yields_fault _ _ _) fun _ => False.elim

theorem yields_exhaust : Yields d P (exhaust : ParseM α) :=
  yields_modify (fun _ hs => hs.changed hs.loops rfl rfl rfl) yields_failure

/-- A token that must come next. -/
theorem yields_expect {k : Token.Kind} {f : Unit → ParseM β} (hf : Yields d Q (f ())) : Yields d Q (expect k >>= f) := by
  unfold expect
  rw [bind_assoc]
  refine yields_peekIs fun next => ?_
  cases next with
  | true => exact yields_advance hf
  | false =>
    refine yields_bind (P := fun _ => False) ?_ fun _ => False.elim
    exact yields_peek fun t => yields_ite (fun _ => yields_fault _ _ _) fun _ => yields_fault _ _ _

/-- A name without dots that must come next. -/
theorem yields_expectName {f : Text → ParseM β} (hf : ∀ name, Yields d Q (f name)) : Yields d Q (expectName >>= f) := by
  unfold expectName
  simp only [bind_assoc]
  refine yields_expect (yields_current fun t _ => ?_)
  by_cases dotted : t.literal.contains "." = true
  · rw [if_pos dotted]
    exact yields_fault_bind _ _ _
  · rw [if_neg dotted, pure_bind]
    exact hf _

theorem yields_declare {name : Text} {k : Kind} {f : Unit → ParseM β} (hf : Yields d Q (f ())) : Yields d Q (declare name k >>= f) := by
  refine yields_modify (fun s hs => ?_) hf
  split
  · exact hs
  · exact hs.changed hs.loops rfl rfl rfl

theorem yields_attempt (hx : Yields d P x) : Yields d (fun r => ∀ a ∈ r, P a) (attempt x) := by
  intro s hs
  obtain ⟨holds, given⟩ := hx s hs
  refine ⟨holds, fun r hr a ha => given a ?_⟩
  cases hr
  exact ha

/-- A computation between changes of the state, of which the second undoes what the first does to the count of loops. -/
theorem yields_between {before after : ParseState → ParseState} {inner : Nat} (first : ∀ s, Holds d s → Holds inner (before s))
    (second : ∀ s, Holds inner s → Holds d (after s)) (hx : Yields inner P x) : Yields d P (between before after x) := by
  intro s hs
  obtain ⟨holds, given⟩ := hx (before s) (first s hs)
  exact ⟨second _ holds, given⟩

theorem yields_inScope (hx : Yields d P x) : Yields d P (inScope x) :=
  yields_between (fun _ hs => hs.changed hs.loops rfl rfl rfl) (fun _ hs => hs.changed hs.loops rfl rfl rfl) hx

/-! ## What is promised -/

/-- What is promised of a statement read with `d` loops around: it has a line, no function in it has a loose body, outside of
loops it is not loose itself, and its literals are grounded. -/
structure Goal.StmtPromise (d : Nat) (s : Stmt) : Prop where
  line : 1 ≤ s.line
  tight : s.tight = true
  loose : d = 0 → s.loose = false
  grounded : (Part.stmt s).Grounded

/-- What is promised of a block read with `d` loops around. -/
structure Goal.BlockPromise (d : Nat) (b : Block) : Prop where
  line : 1 ≤ b.mark.line
  tight : b.tight = true
  loose : d = 0 → b.loose = false
  grounded : (Part.block b).Grounded

/-- What is promised of each part of a program read with `d` loops around. -/
def Goal.Promise (d : Nat) : (g : Goal) → g.Result → Prop
  | .expr _, e => (Part.expr e).Grounded
  | .typeSpec, t => (Part.type t).Grounded
  | .stmt, s => Goal.StmtPromise d s
  | .cond, s => Goal.StmtPromise d s
  | .block, b => Goal.BlockPromise d b

/-- A reader that keeps every promise. -/
def Reader.Keeps (rec : Reader) : Prop := ∀ d g, Yields d (Goal.Promise d g) (rec g)

/-- A statement with a line that holds no other statement is as promised when its parts are grounded. -/
theorem plain_promise {s : Stmt} (line : 1 ≤ s.line) (tight : s.tight = true) (loose : s.loose = false)
    (below : AllGrounded (stmt s).children) : Goal.StmtPromise d s := ⟨line, tight, fun _ => loose, grounded_stmt below⟩

/-- A block as a statement is as promised when the block is. -/
theorem block_promise {b : Block} (h : Goal.BlockPromise d b) : Goal.StmtPromise d (.block b) :=
  ⟨h.line, h.tight, h.loose, grounded_stmt (allGrounded_one.mpr h.grounded)⟩

/-! ## Expressions -/

section Parts

variable {k : Nat} {t : Token} {m : Mark} (h : rec.Keeps)

include h in
theorem yields_rec_expr {level : Nat} {f : Expr → ParseM β} (hf : ∀ e, (Part.expr e).Grounded → Yields d Q (f e)) :
    Yields d Q (rec (.expr level) >>= f) := yields_bind (h d (.expr level)) hf

include h in
theorem yields_rec_block {f : Block → ParseM β} (hf : ∀ b, Goal.BlockPromise d b → Yields d Q (f b)) :
    Yields d Q (rec .block >>= f) := yields_bind (h d .block) hf

include h in
theorem yields_rec_type {f : TypeSpec → ParseM β} (hf : ∀ t, (Part.type t).Grounded → Yields d Q (f t)) :
    Yields d Q (rec .typeSpec >>= f) := yields_bind (h d .typeSpec) hf

/-- Expressions that are grounded. -/
def Exprs (es : List Expr) : Prop := AllGrounded (es.map Part.expr)

include h in
theorem yields_moreExprs {close : Token.Kind} {done : List Expr} (hd : Exprs done) : Yields d Exprs (moreExprs rec close k done) := by
  induction k generalizing done with
  | zero => exact yields_exhaust
  | succ k ih =>
    rw [moreExprs]
    refine yields_peekIs fun more => yields_ite (fun _ => ?_) fun _ => ?_
    · refine yields_advance (yields_advance (yields_rec_expr h fun e he => ?_))
      exact ih (allGrounded_cons.mpr ⟨he, hd⟩)
    · exact yields_expect (yields_pure (AllGrounded.map_reverse hd))

include h in
theorem yields_exprList {close : Token.Kind} : Yields d Exprs (exprList rec close) := by
  unfold exprList
  refine yields_peekIs fun empty => yields_ite (fun _ => ?_) fun _ => ?_
  · exact yields_advance (yields_pure allGrounded_nil)
  · refine yields_advance (yields_rec_expr h fun e he => yields_tokensLeft fun n => ?_)
    exact yields_moreExprs h (allGrounded_one.mpr he)

include h in
theorem yields_moreArgs {args : List Expr} {names : List Text} (hargs : Exprs args) :
    Yields d (fun r => Exprs r.1) (moreArgs rec k args names) := by
  induction k generalizing args names with
  | zero => exact yields_exhaust
  | succ k ih =>
    rw [moreArgs]
    refine yields_advance (yields_current fun t _ => yields_peekIs fun next => ?_)
    extract_lets named mixed labels value start
    have reads : Yields d (fun r => Exprs r.1) (value ()) := by
      refine yields_rec_expr h fun e he => yields_peekIs fun more => yields_ite (fun _ => ?_) fun _ => ?_
      · exact yields_advance (ih (allGrounded_cons.mpr ⟨he, hargs⟩))
      · exact yields_expect (yields_pure (AllGrounded.map_reverse (allGrounded_cons.mpr ⟨he, hargs⟩)))
    refine yields_ite (fun _ => yields_fault_bind _ _ _) fun _ => ?_
    exact yields_ite (fun _ => yields_advance (yields_advance reads)) fun _ => reads

/-- Arguments keep what they are when they are put in the order of the parameters. -/
theorem yields_resolveCall {f : Text} {args : List Expr} {names : List Text} (hargs : Exprs args) :
    Yields d (fun e => (Part.expr e).Grounded) (resolveCall c m f args names) := by
  unfold resolveCall
  dsimp only
  split
  · exact yields_ite (fun _ => yields_pure (grounded_expr trivial hargs)) fun _ => yields_fault _ _ _
  split
  · exact yields_fault _ _ _
  rename_i args' arranged
  refine yields_get fun s _ => ?_
  split
  · exact yields_fault _ _ _
  split
  · exact yields_fault _ _ _
  refine yields_pure (grounded_expr trivial (List.forall_mem_map.mpr fun e mem => ?_))
  rcases mem_positionalArgs arranged mem with given | ⟨m', rfl⟩
  · exact List.forall_mem_map.mp hargs e given
  · exact grounded_expr trivial allGrounded_nil

include h in
theorem yields_call {f : Expr} : Yields d (fun e => (Part.expr e).Grounded) (call c rec f) := by
  unfold call
  refine yields_mark fun m hm => ?_
  split
  · extract_lets made
    have makes {r : List Expr × List Text} (hr : Exprs r.1) : Yields d (fun e => (Part.expr e).Grounded) (made r) :=
      yields_ite (fun _ => yields_resolveCall hr) fun _ => yields_pure (grounded_expr trivial hr)
    refine yields_peekIs fun empty => yields_ite (fun _ => yields_advance ?_) fun _ => yields_tokensLeft fun n => ?_
    · exact makes (r := ([], [])) allGrounded_nil
    · exact yields_bind (yields_moreArgs h allGrounded_nil) fun r hr => makes hr
  · exact yields_fault _ _ _

/-- Values of pairs that are grounded. -/
def Pairs (ps : List (Text × Expr)) : Prop := AllGrounded (ps.map fun p => Part.expr p.2)

include h in
theorem yields_pairs {done : List (Text × Expr)} (hd : Pairs done) : Yields d Pairs (pairs rec k done) := by
  induction k generalizing done with
  | zero => exact yields_exhaust
  | succ k ih =>
    rw [pairs]
    refine yields_advance (yields_current fun t _ => ?_)
    extract_lets value
    have reads : Yields d Pairs (value ()) := by
      refine yields_expect (yields_advance (yields_rec_expr h fun e he => ?_))
      refine yields_peekIs fun more => yields_ite (fun _ => ?_) fun _ => ?_
      · exact yields_advance (ih (allGrounded_cons.mpr ⟨he, hd⟩))
      · exact yields_expect (yields_pure (AllGrounded.map_reverse (allGrounded_cons.mpr ⟨he, hd⟩)))
    split
    · exact reads
    · exact reads
    · exact reads
    · exact reads
    · exact yields_fault_bind _ _ _

/-! ## Operands -/

theorem yields_nameOrMember : Yields d (fun e => (Part.expr e).Grounded) (nameOrMember t) := by
  unfold nameOrMember
  refine yields_peekIs fun called => yields_ite (fun _ => ?_) fun _ => yields_pure (grounded_name _ _)
  split
  · exact yields_pure (grounded_expr trivial (allGrounded_one.mpr (grounded_name _ _)))
  · exact yields_pure (grounded_name _ _)

/-- A whole number that is read is the one that the digits stand for. -/
theorem wholeBelow?_eq_some {w : Text} {bound n : Nat} (found : wholeBelow? w bound = some n) :
    Cursor.decimalValue w.bytes < bound ∧ n = Cursor.decimalValue w.bytes := by
  unfold wholeBelow? at found
  dsimp only at found
  split at found
  · exact ⟨‹_›, (Option.some.inj found).symm⟩
  · cases found

include h in
/-- **What is made of tokens is grounded.** -/
theorem yields_operand : Yields d (fun e => (Part.expr e).Grounded) (operand c rec) := by
  unfold operand
  refine yields_current fun t fine => ?_
  dsimp only
  cases kind : t.kind with
  | ident => exact yields_nameOrMember
  | int =>
    dsimp only
    split
    · rename_i n found
      obtain ⟨below, rfl⟩ := wholeBelow?_eq_some found
      have own : Expr.Grounded (.int (markOf t) (Int32.ofNat (Cursor.decimalValue t.literal.bytes))) :=
        ⟨fine.suited.whole (.inl kind), below, rfl⟩
      exact yields_pure (grounded_expr own allGrounded_nil)
    · exact yields_fault _ _ _
  | long =>
    dsimp only
    split
    · rename_i n found
      obtain ⟨below, rfl⟩ := wholeBelow?_eq_some found
      have own : Expr.Grounded (.long (markOf t) (Int64.ofNat (Cursor.decimalValue t.literal.bytes))) :=
        ⟨fine.suited.whole (.inr kind), below, rfl⟩
      exact yields_pure (grounded_expr own allGrounded_nil)
    · exact yields_fault _ _ _
  | double =>
    dsimp only
    split
    · rename_i x found
      have own : Expr.Grounded (.double (markOf t) x) := ⟨fine.suited.double kind, found⟩
      exact yields_pure (grounded_expr own allGrounded_nil)
    · exact yields_fault _ _ _
  | string =>
    have own : Expr.Grounded (.string (markOf t) t.literal) := fun form =>
      absurd (form.symm.trans (fine.suited.string kind)) (by decide)
    exact yields_pure (grounded_expr own allGrounded_nil)
  | date =>
    dsimp only
    split
    · rename_i d found
      have own : Expr.Grounded (.date (markOf t) d) := ⟨fine.suited.date kind, found⟩
      exact yields_pure (grounded_expr own allGrounded_nil)
    · rename_i noDate
      have own : Expr.Grounded (.string (markOf t) t.literal) := fun _ => noDate
      exact yields_pure (grounded_expr own allGrounded_nil)
  | kwTrue | kwFalse | kwNull => exact yields_pure (grounded_expr trivial allGrounded_nil)
  | bang | minus | plus | kwTypeof =>
    refine yields_advance (yields_rec_expr h fun e he => ?_)
    exact yields_pure (grounded_expr trivial (allGrounded_one.mpr he))
  | lparen => exact yields_advance (yields_rec_expr h fun e he => yields_expect (yields_pure he))
  | lbracket => exact yields_bind (yields_exprList h) fun es hes => yields_pure (grounded_expr trivial hes)
  | lbrace =>
    refine yields_peekIs fun empty => yields_ite (fun _ => ?_) fun _ => yields_tokensLeft fun n => ?_
    · exact yields_advance (yields_pure (grounded_expr trivial allGrounded_nil))
    · exact yields_bind (yields_pairs h allGrounded_nil) fun ps hps => yields_pure (grounded_expr trivial hps)
  | hash => exact yields_expect (yields_current fun f _ => yields_expect (yields_call h))
  | _ => exact yields_fault _ _ _

/-! ## Operators after an operand -/

theorem yields_checkAssigned {line : Nat} {name : Text} {declared : Kind} {value : Expr} :
    Yields d (fun _ => True) (checkAssigned line name declared value) := by
  unfold checkAssigned
  exact yields_get fun s _ => yields_ite (fun _ => yields_fault _ _ _) fun _ => yields_pure trivial

include h in
theorem yields_assignment {op : AssignOp} {target : Expr} (ht : (Part.expr target).Grounded) :
    Yields d (fun e => (Part.expr e).Grounded) (assignment rec op target) := by
  unfold assignment
  refine yields_mark fun m hm => ?_
  extract_lets value
  refine yields_ite (fun _ => yields_fault_bind _ _ _) fun _ => yields_advance (yields_rec_expr h fun v hv => ?_)
  extract_lets made
  have makes : Yields d (fun e => (Part.expr e).Grounded) (made ()) :=
    yields_pure (grounded_expr trivial (allGrounded_cons.mpr ⟨ht, allGrounded_one.mpr hv⟩))
  split
  · refine yields_get fun s _ => ?_
    split
    · exact makes
    · exact yields_bind yields_checkAssigned fun _ _ => makes
    · exact makes
  · exact makes

include h in
theorem yields_continuation {left : Expr} (hl : (Part.expr left).Grounded) :
    Yields d (fun e => (Part.expr e).Grounded) (continuation c rec left) := by
  unfold continuation
  refine yields_current fun t _ => ?_
  dsimp only
  split
  · exact yields_ite (fun _ => yields_fault _ _ _) fun _ => yields_pure (grounded_expr trivial (allGrounded_one.mpr hl))
  · exact yields_ite (fun _ => yields_fault _ _ _) fun _ => yields_pure (grounded_expr trivial (allGrounded_one.mpr hl))
  · exact yields_call h
  · refine yields_advance (yields_rec_expr h fun key hkey => yields_expect (yields_pure ?_))
    exact grounded_expr trivial (allGrounded_cons.mpr ⟨hl, allGrounded_one.mpr hkey⟩)
  · exact yields_expect (yields_pure (grounded_expr trivial (allGrounded_one.mpr hl)))
  · split
    · exact yields_assignment h hl
    · refine yields_advance (yields_rec_expr h fun right hr => yields_pure ?_)
      exact grounded_expr trivial (allGrounded_cons.mpr ⟨hl, allGrounded_one.mpr hr⟩)
    · exact yields_failure

include h in
theorem yields_continuations {bound : Nat} {left : Expr} (hl : (Part.expr left).Grounded) :
    Yields d (fun e => (Part.expr e).Grounded) (continuations c rec bound k left) := by
  induction k generalizing left with
  | zero => exact yields_exhaust
  | succ k ih =>
    rw [continuations]
    refine yields_peek fun t => yields_ite (fun _ => ?_) fun _ => yields_pure hl
    exact yields_advance (yields_bind (yields_continuation h hl) fun e he => ih he)

include h in
theorem yields_expression {bound : Nat} : Yields d (fun e => (Part.expr e).Grounded) (expression c rec bound) := by
  unfold expression
  exact yields_bind (yields_operand h) fun e he => yields_tokensLeft fun n => yields_continuations h he

/-! ## Declared types -/

/-- An expression that may be left out, and is grounded if there is one. -/
def OptExpr (o : Option Expr) : Prop := AllGrounded (maybe Part.expr o)

include h in
theorem yields_constraints {mandatory : Bool} {maxLength : Nat} {fallback : Option Expr} (hd : OptExpr fallback) :
    Yields d (fun r => OptExpr r.2.2) (constraints rec k mandatory maxLength fallback) := by
  induction k generalizing mandatory maxLength fallback with
  | zero => exact yields_exhaust
  | succ k ih =>
    rw [constraints]
    refine yields_peekIs fun more => yields_ite (fun _ => ?_) fun _ => yields_pure hd
    refine yields_advance (yields_current fun t _ => yields_ite (fun _ => ih hd) fun _ => yields_ite (fun _ => ?_) fun _ => ?_)
    · refine yields_expect (yields_current fun t _ => ?_)
      exact yields_ite (fun _ => yields_fault _ _ _) fun _ => ih hd
    · refine yields_ite (fun _ => ?_) fun _ => yields_fault _ _ _
      exact yields_advance (yields_rec_expr h fun e he => ih (allGrounded_one.mpr he))

/-- Fields that are grounded. -/
def Fields (fs : List FieldSpec) : Prop := AllGrounded (fs.map Part.field)

include h in
theorem yields_moreFields {done : List FieldSpec} {seen : List Text} (hd : Fields done) :
    Yields d Fields (moreFields rec k done seen) := by
  induction k generalizing done seen with
  | zero => exact yields_exhaust
  | succ k ih =>
    rw [moreFields]
    refine yields_peekIs fun closed => yields_ite (fun _ => ?_) fun _ => yields_expectName fun name => ?_
    · exact yields_advance (yields_pure hd.map_reverse)
    extract_lets field
    have reads : Yields d Fields (field ()) := by
      refine yields_expect (yields_advance (yields_rec_type h fun t ht => yields_tokensLeft fun n => ?_))
      refine yields_bind (yields_constraints h allGrounded_nil) fun r hr => ?_
      have made : Fields (FieldSpec.mk name t r.1 r.2.1 r.2.2 :: done) :=
        allGrounded_cons.mpr ⟨grounded_of_children nofun (allGrounded_cons.mpr ⟨ht, hr⟩), hd⟩
      refine yields_peekIs fun more => yields_ite (fun _ => yields_advance (ih made)) fun _ => ?_
      exact yields_expect (yields_pure made.map_reverse)
    exact yields_ite (fun _ => yields_current fun t _ => yields_fault_bind _ _ _) fun _ => reads

/-- Lengths of dimensions that are grounded. -/
def Dims (dims : List (Option Expr)) : Prop := AllGrounded (dims.flatMap (maybe Part.expr))

include h in
theorem yields_moreDims {done : List (Option Expr)} (hd : Dims done) : Yields d Dims (moreDims rec k done) := by
  induction k generalizing done with
  | zero => exact yields_exhaust
  | succ k ih =>
    rw [moreDims]
    refine yields_advance (yields_current fun t _ => ?_)
    extract_lets kind next
    have reads {dim : Option Expr} (hdim : OptExpr dim) : Yields d Dims (next dim) := by
      have made : Dims (dim :: done) := allGrounded_append.mpr ⟨hdim, hd⟩
      refine yields_peekIs fun more => yields_ite (fun _ => yields_advance (ih made)) fun _ => ?_
      exact yields_expect (yields_pure made.reverse)
    refine yields_ite (fun _ => yields_pure allGrounded_nil) fun _ => yields_ite (fun _ => reads allGrounded_nil) fun _ => ?_
    exact yields_rec_expr h fun e he => reads (allGrounded_one.mpr he)

/-- A type without dimensions and fields has nothing in it. -/
theorem grounded_bare {name : Text} {isArray sorted : Bool} : (Part.type (.mk m name isArray [] sorted none)).Grounded :=
  grounded_type.mpr ⟨allGrounded_nil, allGrounded_nil⟩

theorem yields_typeHead : Yields d (fun r => (Part.type r.1).Grounded) typeHead := by
  unfold typeHead
  refine yields_current fun t _ => yields_ite (fun _ => ?_) fun _ => yields_ite (fun _ => ?_) fun _ => yields_ite (fun _ => ?_) fun _ => ?_
  · exact yields_ite (fun _ => yields_pure grounded_bare) fun _ => yields_pure grounded_bare
  · refine yields_peek fun next => ?_
    extract_lets read
    have reads : Yields d (fun r => (Part.type r.1).Grounded) (read ()) :=
      yields_current fun now _ => yields_ite (fun _ => yields_pure grounded_bare) fun _ => yields_fault _ _ _
    refine yields_ite (fun _ => yields_advance reads) fun _ => ?_
    have expects : Yields d (fun _ => True) (expect .typeName) := by
      rw [← bind_pure (expect .typeName)]
      exact yields_expect (yields_pure trivial)
    exact yields_bind (yields_attempt expects) fun _ _ => reads
  · split
    · exact yields_pure grounded_bare
    · exact yields_fault _ _ _
  · -- a type that was given a name
    refine yields_get fun s hs => ?_
    dsimp only
    split
    · rename_i mark name isArray dims sorted fields known
      refine yields_pure ?_
      have found : s.typedefs.lookup t.literal = some (.mk mark name isArray dims sorted fields) := by
        split at known
        · exact known
        · cases known
      obtain ⟨hdims, hfields⟩ := grounded_type.mp (hs.typedefs _ (Text.mem_of_lookup found))
      exact grounded_type.mpr ⟨hdims, hfields⟩
    · exact yields_fault _ _ _

include h in
theorem yields_typeSpec : Yields d (fun t => (Part.type t).Grounded) (typeSpec rec) := by
  unfold typeSpec
  refine yields_bind yields_typeHead fun head hhead => ?_
  obtain ⟨⟨mark, name, isArray, dims, sorted, fields⟩, complete⟩ := head
  obtain ⟨hdims, hfields⟩ := grounded_type.mp hhead
  dsimp -zeta only
  refine yields_ite (fun _ => yields_pure hhead) fun _ => ?_
  extract_lets sized
  have sizes {fields' : Option (List FieldSpec)} (hfs : Fields (fields'.getD [])) :
      Yields d (fun t => (Part.type t).Grounded) (sized fields') := by
    refine yields_peekIs fun more => yields_ite (fun _ => ?_) fun _ => yields_pure (grounded_type.mpr ⟨hdims, hfs⟩)
    refine yields_advance (yields_tokensLeft fun n => yields_bind (yields_moreDims h hdims) fun ds hds => ?_)
    exact yields_pure (grounded_type.mpr ⟨hds, hfs⟩)
  refine yields_ite (fun _ => ?_) fun _ => ?_
  · refine yields_expect (yields_tokensLeft fun n => yields_bind (yields_moreFields h allGrounded_nil) fun fs hfs => ?_)
    rw [pure_bind]
    exact sizes hfs
  · rw [pure_bind]
    exact sizes hfields

/-! ## Optional parts of declarations -/

/-- A type that may be left out, and is grounded if there is one. -/
def OptType (o : Option TypeSpec) : Prop := AllGrounded (maybe Part.type o)

include h in
theorem yields_typeAfterColon : Yields d OptType (annotation? rec) := by
  unfold annotation?
  refine yields_peekIs fun more => yields_ite (fun _ => ?_) fun _ => yields_pure allGrounded_nil
  exact yields_advance (yields_advance (yields_rec_type h fun t ht => yields_pure (allGrounded_one.mpr ht)))

include h in
theorem yields_initializer : Yields d OptExpr (initializer? rec) := by
  unfold initializer?
  refine yields_peekIs fun more => yields_ite (fun _ => ?_) fun _ => yields_pure allGrounded_nil
  exact yields_advance (yields_advance (yields_rec_expr h fun e he => yields_pure (allGrounded_one.mpr he)))

/-- A name is declared when its type is known. -/
theorem yields_declareTyped {name : Text} {type : Option TypeSpec} {f : Unit → ParseM β} (hf : Yields d Q (f ())) :
    Yields d Q (match type with
      | some t => declare name t.kind >>= f
      | none => f ()) := by
  cases type with
  | some t => exact yields_declare hf
  | none => exact hf

/-! ## Statements -/

/-- A statement is read as promised. -/
abbrev YieldsStmt (d : Nat) (x : ParseM Stmt) : Prop := Yields d (Goal.StmtPromise d) x

include h in
theorem yields_declaration : YieldsStmt d (declaration rec) := by
  unfold declaration
  refine yields_mark fun m hm => yields_look (fun _ => rfl) fun constant => yields_expectName fun name => ?_
  refine yields_bind (yields_typeAfterColon h) fun type htype => yields_bind (yields_initializer h) fun value hvalue => ?_
  extract_lets made declared
  have makes : YieldsStmt d (declared ()) :=
    yields_declareTyped (f := made) (yields_pure (plain_promise hm rfl rfl (allGrounded_append.mpr ⟨htype, hvalue⟩)))
  split
  · exact yields_ite (fun _ => yields_bind yields_checkAssigned fun _ _ => makes) fun _ => makes
  · exact makes
  · exact yields_ite (fun _ => yields_fault_bind _ _ _) fun _ => makes

include h in
theorem yields_typedef : YieldsStmt d (typedef rec) := by
  unfold typedef
  refine yields_current fun t fine => ?_
  extract_lets made
  have makes : YieldsStmt d (made ()) := by
    refine yields_advance (yields_advance (yields_rec_type h fun type htype => yields_modify (fun s hs => ?_) ?_))
    · exact ⟨hs.loops, hs.tokens, hs.last, List.forall_mem_cons.mpr ⟨htype, hs.typedefs⟩⟩
    · exact yields_pure (plain_promise fine.line rfl rfl (allGrounded_one.mpr htype))
  exact yields_ite (fun _ => yields_fault_bind _ _ _) fun _ => makes

/-- Parameters that are grounded. -/
def Params (ps : List Param) : Prop := AllGrounded (ps.map Part.param)

include h in
theorem yields_moreParams {done : List Param} (hd : Params done) : Yields d Params (moreParams rec k done) := by
  induction k generalizing done with
  | zero => exact yields_exhaust
  | succ k ih =>
    rw [moreParams]
    refine yields_expectName fun name => yields_bind (yields_typeAfterColon h) fun type htype => ?_
    extract_lets rest
    refine yields_declareTyped (f := rest) (yields_bind (yields_initializer h) fun fallback hfallback => ?_)
    have made : Params (⟨name, type, fallback⟩ :: done) :=
      allGrounded_cons.mpr ⟨grounded_of_children nofun (allGrounded_append.mpr ⟨htype, hfallback⟩), hd⟩
    refine yields_peekIs fun more => yields_ite (fun _ => yields_advance (ih made)) fun _ => ?_
    exact yields_expect (yields_pure made.map_reverse)

include h in
/-- The body of a function is read outside of loops. -/
theorem yields_function : YieldsStmt d (function rec) := by
  unfold function
  refine yields_mark fun m hm => yields_expectName fun name => yields_expect (yields_inScope (yields_peekIs fun closed => ?_))
  extract_lets behind
  have reads {params : List Param} (hparams : Params params) : YieldsStmt d (behind params) := by
    refine yields_peekIs fun more => ?_
    extract_lets body
    have bodies {result : Option TypeSpec} (hresult : OptType result) : YieldsStmt d (body result) := by
      refine yields_expect (yields_get fun s hs => yields_bind (yields_between ?_ ?_ (h 0 .block)) fun (b : Block) hb => ?_)
      · exact fun _ hl => hl.changed rfl rfl rfl rfl
      · exact fun _ hl => hl.changed hs.loops rfl rfl rfl
      have tight : (!b.loose && b.tight) = true := by
        rw [hb.loose rfl, hb.tight]
        rfl
      refine yields_pure (plain_promise hm tight rfl ?_)
      exact allGrounded_append.mpr ⟨allGrounded_append.mpr ⟨hparams, hresult⟩, allGrounded_one.mpr hb.grounded⟩
    refine yields_ite (fun _ => ?_) fun _ => ?_
    · refine yields_advance (yields_advance (yields_rec_type h fun t ht => ?_))
      rw [pure_bind]
      exact bodies (allGrounded_one.mpr ht)
    · rw [pure_bind]
      exact bodies allGrounded_nil
  refine yields_ite (fun _ => yields_advance ?_) fun _ => yields_tokensLeft fun n => ?_
  · rw [pure_bind]
    exact reads allGrounded_nil
  · exact yields_bind (yields_moreParams h allGrounded_nil) fun params hparams => reads hparams

include h in
theorem yields_returning : YieldsStmt d (returning rec) := by
  unfold returning
  refine yields_mark fun m hm => yields_peek fun t => ?_
  have bare : YieldsStmt d (pure (.returns m none)) := yields_pure (plain_promise hm rfl rfl allGrounded_nil)
  split
  · exact bare
  · exact bare
  · exact bare
  · refine yields_advance (yields_rec_expr h fun e he => yields_pure ?_)
    exact plain_promise hm rfl rfl (allGrounded_one.mpr he)

/-! ## Conditions and loops -/

include h in
/-- A block as a statement. -/
theorem yields_blockStmt : YieldsStmt d (rec .block >>= fun b => pure (.block b)) :=
  yields_rec_block h fun _ hb => yields_pure (block_promise hb)

include h in
theorem yields_branch : YieldsStmt d (branch rec) := by
  unfold branch
  refine yields_peekIs fun worded => yields_ite (fun _ => yields_advance ?_) fun _ => yields_expect (yields_blockStmt h)
  refine yields_peekIs fun braced => yields_ite (fun _ => ?_) fun _ => ?_
  · exact yields_advance (yields_blockStmt h)
  · exact yields_advance (h d .stmt)

/-- A condition is as promised when its branches are. -/
theorem cond_promise {test : Expr} {yes : Stmt} {no : Option Stmt} (line : 1 ≤ m.line) (htest : (Part.expr test).Grounded)
    (hy : Goal.StmtPromise d yes) (hn : ∀ s ∈ no, Goal.StmtPromise d s) : Goal.StmtPromise d (.cond m test yes no) := by
  have grounded (hno : AllGrounded (maybe Part.stmt no)) : (Part.stmt (.cond m test yes no)).Grounded :=
    grounded_stmt (allGrounded_cons.mpr ⟨htest, allGrounded_cons.mpr ⟨hy.grounded, hno⟩⟩)
  cases no with
  | none =>
    refine ⟨line, ?_, fun hd => ?_, grounded allGrounded_nil⟩
    · rw [Stmt.tight, hy.tight]
      rfl
    · rw [Stmt.loose, hy.loose hd]
      rfl
  | some s =>
    have hs := hn s rfl
    refine ⟨line, ?_, fun hd => ?_, grounded (allGrounded_one.mpr hs.grounded)⟩
    · rw [Stmt.tight, hy.tight, Stmt.tightOpt, hs.tight]
      rfl
    · rw [Stmt.loose, hy.loose hd, Stmt.looseOpt, hs.loose hd]
      rfl

include h in
theorem yields_condition : YieldsStmt d (condition rec) := by
  unfold condition
  refine yields_mark fun m hm => yields_advance (yields_rec_expr h fun test htest => ?_)
  refine yields_bind (yields_branch h) fun yes hyes => yields_peekIs fun semicolon => yields_look (fun _ => rfl) fun beyond => ?_
  extract_lets other
  have two {no : Stmt} (hno : Goal.StmtPromise d no) : Goal.StmtPromise d (.cond m test yes (some no)) :=
    cond_promise hm htest hyes fun s hs => Option.some.inj hs ▸ hno
  have reads : YieldsStmt d (other ()) := by
    refine yields_peekIs fun more => yields_ite (fun _ => ?_) fun _ => yields_pure (cond_promise hm htest hyes nofun)
    refine yields_advance (yields_peek fun t => ?_)
    split
    · exact yields_advance (yields_bind (h d .cond) fun no hno => yields_pure (two hno))
    · exact yields_advance (yields_rec_block h fun b hb => yields_pure (two (block_promise hb)))
    · exact yields_advance (yields_bind (h d .stmt) fun no hno => yields_pure (two hno))
  exact yields_ite (fun _ => yields_advance reads) fun _ => reads

include h in
/-- The body of a loop is read with one more loop around. -/
theorem yields_loopBody {f : Block → ParseM β} (hf : ∀ b, Goal.BlockPromise (d + 1) b → Yields d Q (f b)) :
    Yields d Q (loopBody rec >>= f) := by
  refine yields_bind (yields_between ?_ ?_ (h (d + 1) .block)) hf
  · exact fun _ hs => hs.changed (congrArg (· + 1) hs.loops) rfl rfl rfl
  · exact fun _ hs => hs.changed (congrArg (· - 1) hs.loops) rfl rfl rfl

include h in
theorem yields_whileLoop : YieldsStmt d (whileLoop rec) := by
  unfold whileLoop
  refine yields_mark fun m hm => yields_advance (yields_rec_expr h fun test htest => yields_expect ?_)
  refine yields_loopBody h fun body hbody => yields_pure (plain_promise hm hbody.tight rfl ?_)
  exact allGrounded_cons.mpr ⟨htest, allGrounded_one.mpr hbody.grounded⟩

include h in
theorem yields_doLoop : YieldsStmt d (doLoop rec) := by
  unfold doLoop
  refine yields_mark fun m hm => yields_expect (yields_loopBody h fun body hbody => yields_expect (yields_advance ?_))
  refine yields_rec_expr h fun test htest => yields_pure (plain_promise hm hbody.tight rfl ?_)
  exact allGrounded_cons.mpr ⟨hbody.grounded, allGrounded_one.mpr htest⟩

include h in
theorem yields_clause {close : Token.Kind} : Yields d OptExpr (clause? rec close) := by
  unfold clause?
  refine yields_peekIs fun none => yields_ite (fun _ => yields_pure allGrounded_nil) fun _ => ?_
  exact yields_advance (yields_rec_expr h fun e he => yields_pure (allGrounded_one.mpr he))

include h in
theorem yields_forLoop : YieldsStmt d (forLoop rec) := by
  unfold forLoop
  refine yields_mark fun m hm => yields_expect (yields_inScope (yields_peekIs fun bare => ?_))
  extract_lets more
  have reads {init : Option Stmt} (tight : Stmt.tightOpt init = true) (hinit : AllGrounded (maybe Part.stmt init)) :
      YieldsStmt d (more init) := by
    refine yields_expect (yields_bind (yields_clause h) fun test htest => yields_expect ?_)
    refine yields_bind (yields_clause h) fun update hupdate => yields_expect (yields_expect ?_)
    refine yields_loopBody h fun body hbody => yields_pure (plain_promise hm ?_ rfl ?_)
    · rw [Stmt.tight, tight, hbody.tight]
      rfl
    · have clauses := allGrounded_append.mpr ⟨allGrounded_append.mpr ⟨hinit, htest⟩, hupdate⟩
      exact allGrounded_append.mpr ⟨clauses, allGrounded_one.mpr hbody.grounded⟩
  refine yields_ite (fun _ => ?_) fun _ => yields_advance (yields_bind (h d .stmt) fun s hs => ?_)
  · rw [pure_bind]
    exact reads rfl allGrounded_nil
  · rw [pure_bind]
    exact reads hs.tight (allGrounded_one.mpr hs.grounded)

include h in
theorem yields_forEach : YieldsStmt d (forEach rec) := by
  unfold forEach
  refine yields_mark fun m hm => yields_peekIs fun paren => ?_
  extract_lets header
  have reads : YieldsStmt d (header ()) := by
    refine yields_expectName fun name => yields_expect (yields_advance (yields_rec_expr h fun e he => ?_))
    extract_lets body
    have loops : YieldsStmt d (body ()) := by
      refine yields_expect (yields_loopBody h fun b hb => yields_pure (plain_promise hm hb.tight rfl ?_))
      exact allGrounded_cons.mpr ⟨he, allGrounded_one.mpr hb.grounded⟩
    exact yields_ite (fun _ => yields_expect loops) fun _ => loops
  exact yields_ite (fun _ => yields_advance reads) fun _ => reads

/-- A loop control is refused outside of loops. -/
theorem yields_loopControl : YieldsStmt d loopControl := by
  unfold loopControl
  refine yields_current fun t fine => yields_get fun s hs => yields_ite (fun _ => yields_fault _ _ _) fun inside => ?_
  have outside : d ≠ 0 := fun hd => inside (hs.loops.trans hd)
  have below {c : Stmt} (none : (stmt c).children = []) : (stmt c).Grounded := grounded_stmt (none ▸ allGrounded_nil)
  refine yields_ite (fun _ => ?_) fun _ => ?_
  · exact yields_pure ⟨fine.line, rfl, fun hd => absurd hd outside, below rfl⟩
  · exact yields_pure ⟨fine.line, rfl, fun hd => absurd hd outside, below rfl⟩

/-! ## Calls and exceptions -/

include h in
theorem yields_callStatement : YieldsStmt d (callStatement c rec) := by
  unfold callStatement
  refine yields_mark fun m hm => yields_expect (yields_current fun f _ => yields_expect ?_)
  exact yields_bind (yields_call h) fun e he => yields_pure (plain_promise hm rfl rfl (allGrounded_one.mpr he))

/-- Handlers with bodies as promised. -/
def Goal.HandlersPromise (d : Nat) (hs : List Handler) : Prop := ∀ h ∈ hs, Goal.BlockPromise d h.body

include h in
theorem yields_moreHandlers {done : List Handler} (hd : Goal.HandlersPromise d done) :
    Yields d (Goal.HandlersPromise d) (moreHandlers rec k done) := by
  induction k generalizing done with
  | zero => exact yields_exhaust
  | succ k ih =>
    rw [moreHandlers]
    refine yields_peekIs fun more => yields_ite (fun _ => ?_) fun _ => ?_
    · refine yields_advance (yields_mark fun m _ => yields_expect (yields_current fun t _ => ?_))
      extract_lets category body
      have bodies (caught : Option Text) : Yields d (Goal.HandlersPromise d) (body caught) :=
        yields_expect (yields_rec_block h fun b hb => ih (List.forall_mem_cons.mpr ⟨hb, hd⟩))
      refine yields_peekIs fun paren => yields_ite (fun _ => yields_advance ?_) fun _ => ?_
      · refine yields_expectName fun name => yields_expect ?_
        rw [pure_bind]
        exact bodies _
      · rw [pure_bind]
        exact bodies _
    · exact yields_expect (yields_pure fun x hx => hd x (List.mem_reverse.mp hx))

/-- A block with handlers is as promised when the block and the handlers are. -/
theorem tries_promise {b : Block} {hs : List Handler} (line : 1 ≤ m.line) (hb : Goal.BlockPromise d b)
    (hhs : Goal.HandlersPromise d hs) : Goal.StmtPromise d (.tries m b hs) := by
  refine ⟨line, ?_, fun hd => ?_, grounded_stmt (allGrounded_cons.mpr ⟨hb.grounded, ?_⟩)⟩
  · rw [Stmt.tight, hb.tight, Handler.tightAll_eq, Bool.true_and, List.all_eq_true]
    exact fun x hx => (hhs x hx).tight
  · rw [Stmt.loose, hb.loose hd, Handler.looseAny_eq, Bool.false_or, List.any_eq_false]
    exact fun x hx => Bool.eq_false_iff.mp ((hhs x hx).loose hd)
  · exact List.forall_mem_map.mpr fun x hx => grounded_of_children nofun (allGrounded_one.mpr (hhs x hx).grounded)

include h in
theorem yields_tryStatement : YieldsStmt d (tryStatement rec) := by
  unfold tryStatement
  refine yields_mark fun m hm => yields_expect (yields_rec_block h fun b hb => yields_expect (yields_expect ?_))
  refine yields_tokensLeft fun n => yields_bind (yields_moreHandlers h fun _ hx => nomatch hx) fun hs hhs => ?_
  exact yields_ite (fun _ => yields_fault _ _ _) fun _ => yields_pure (tries_promise hm hb hhs)

include h in
theorem yields_raising : YieldsStmt d (raising rec) := by
  unfold raising
  refine yields_mark fun m hm => yields_expect (yields_expect (yields_current fun t _ => yields_peekIs fun paren => ?_))
  extract_lets made
  have makes {args : List Expr} (hargs : Exprs args) : YieldsStmt d (made args) := yields_pure (plain_promise hm rfl rfl hargs)
  refine yields_ite (fun _ => ?_) fun _ => ?_
  · exact yields_advance (yields_bind (yields_exprList h) fun es hes => makes hes)
  · rw [pure_bind]
    exact makes allGrounded_nil

include h in
theorem yields_exprStatement : YieldsStmt d (exprStatement rec) := by
  unfold exprStatement
  refine yields_mark fun m hm => yields_rec_expr h fun e he => yields_pure ?_
  exact plain_promise hm rfl rfl (allGrounded_one.mpr he)

/-! ## All statements -/

include h in
/-- Statements are read as promised. -/
theorem yields_statement : YieldsStmt d (statement c rec) := by
  unfold statement
  refine yields_mark fun m hm => yields_current fun t _ => ?_
  cases t.kind with
  | semicolon | illegal => exact yields_failure
  | kwVar | kwConst => exact yields_declaration h
  | kwFunction => exact yields_function h
  | kwReturn => exact yields_returning h
  | kwIf => exact h d .cond
  | kwWhile => exact yields_whileLoop h
  | kwDo => exact yields_doLoop h
  | kwFor => exact yields_forLoop h
  | kwForeach => exact yields_forEach h
  | kwBreak | kwContinue => exact yields_loopControl
  | kwPrint =>
    refine yields_advance (yields_rec_expr h fun e he => yields_pure ?_)
    exact plain_promise hm rfl rfl (allGrounded_one.mpr he)
  | kwCall => exact yields_callStatement h
  | kwTry => exact yields_tryStatement h
  | kwRaise => exact yields_raising h
  | kwImport => exact yields_expect (yields_current fun t _ => yields_pure (plain_promise hm rfl rfl allGrounded_nil))
  | lbrace => exact yields_blockStmt h
  | ident => exact yields_peekIs fun typed => yields_ite (fun _ => yields_typedef h) fun _ => yields_exprStatement h
  | _ => exact yields_exprStatement h

/-! ## Lists of statements -/

/-- Statements that are as promised. -/
def Goal.ListPromise (d : Nat) (ss : List Stmt) : Prop := ∀ s ∈ ss, Goal.StmtPromise d s

/-- Statements as promised are grounded. -/
theorem Goal.ListPromise.grounded {ss : List Stmt} (h : Goal.ListPromise d ss) : AllGrounded (ss.map Part.stmt) :=
  List.forall_mem_map.mpr fun s hs => (h s hs).grounded

include h in
/-- One statement of a list, if it is kept, stays as it was read. -/
theorem yields_listedStatement {done : List Stmt} (hd : Goal.ListPromise d done) {f : List Stmt → ParseM β}
    (hf : ∀ ss, Goal.ListPromise d ss → Yields d Q (f ss)) :
    Yields d Q (listedStatement rec >>= fun s => advance >>= fun _ => f (match s with
      | some s => s :: done
      | none => done)) := by
  have listed : Yields d (fun r => ∀ s ∈ r, Goal.StmtPromise d s) (listedStatement rec) := by
    unfold listedStatement
    refine yields_look (fun _ => rfl) fun before => yields_bind (yields_attempt (h d .stmt)) fun s hs => ?_
    refine yields_peekIs fun semicolon => ?_
    extract_lets ended
    have ends : Yields d (fun r => ∀ s ∈ r, Goal.StmtPromise d s) (ended ()) :=
      yields_look (fun _ => rfl) fun after => yields_ite (fun _ => yields_pure nofun) fun _ => yields_pure hs
    exact yields_ite (fun _ => yields_advance ends) fun _ => ends
  refine yields_bind listed fun s hs => yields_advance (hf _ ?_)
  cases s with
  | none => exact hd
  | some s => exact List.forall_mem_cons.mpr ⟨hs s rfl, hd⟩

include h in
theorem yields_blockBody {done : List Stmt} (hd : Goal.ListPromise d done) :
    Yields d (Goal.ListPromise d) (blockBody rec m k done) := by
  induction k generalizing done with
  | zero => exact yields_exhaust
  | succ k ih =>
    rw [blockBody]
    refine yields_current fun t _ => yields_ite (fun _ => yields_pure fun s hs => hd s (List.mem_reverse.mp hs)) fun _ => ?_
    exact yields_ite (fun _ => yields_fault _ _ _) fun _ => yields_listedStatement h hd fun ss hss => ih hss

include h in
theorem yields_block : Yields d (Goal.BlockPromise d) (block rec) := by
  unfold block
  refine yields_mark fun m hm => yields_inScope (yields_advance (yields_tokensLeft fun n => ?_))
  refine yields_bind (yields_blockBody h (List.forall_mem_nil _)) fun ss hss => yields_pure ⟨hm, ?_, fun hd => ?_, ?_⟩
  · rw [Block.tight, Stmt.tightAll_eq, List.all_eq_true]
    exact fun s hs => (hss s hs).tight
  · rw [Block.loose, Stmt.looseAny_eq, List.any_eq_false]
    exact fun s hs => Bool.eq_false_iff.mp ((hss s hs).loose hd)
  · exact grounded_of_children (fun _ same => Part.noConfusion same) hss.grounded

/-! ## All parts -/

include h in
/-- One level of reading keeps every promise when the levels below do. -/
theorem keeps_readStep : Reader.Keeps (readStep c rec) := by
  intro d g
  cases g with
  | expr bound => exact yields_expression h
  | stmt => exact yields_statement h
  | block => exact yields_block h
  | cond => exact yields_condition h
  | typeSpec => exact yields_typeSpec h

/-- **Every part is read as promised.** -/
theorem yields_read (depth : Nat) : Reader.Keeps (read c depth) := by
  induction depth with
  | zero => exact fun _ _ => yields_exhaust
  | succ depth ih => exact keeps_readStep ih

include h in
theorem yields_programBody {done : List Stmt} (hd : Goal.ListPromise d done) :
    Yields d (Goal.ListPromise d) (programBody rec k done) := by
  induction k generalizing done with
  | zero => exact yields_exhaust
  | succ k ih =>
    rw [programBody]
    refine yields_look (fun _ => rfl) fun ended => ?_
    refine yields_ite (fun _ => yields_pure fun s hs => hd s (List.mem_reverse.mp hs)) fun _ => ?_
    exact yields_listedStatement h hd fun ss hss => ih hss

/-- A parser begins outside of loops. -/
theorem holds_initialState (source : Text) : Holds 0 (initialState (Token.scan source).1) := by
  have lined := Cursor.scan_lined source
  have suited := Token.scan_suited source
  refine ⟨rfl, fun t ht => ⟨lined.1 t ht, suited t ht⟩, ⟨lined.2, ?_⟩, nofun⟩
  show ((Token.scan source).1.getLast?.getD default).Suited
  cases ends : (Token.scan source).1.getLast? with
  | none => exact Token.suited_of_kind (by decide) _ _ _
  | some t => exact suited t (List.mem_of_getLast? ends)

end Parts

end Parser

/-- The statements of every source text have lines, are not loose, no function in them has a loose body, and their literals are
grounded. -/
theorem Program.parse_promise (c : Catalog) (source : Text) :
    Parser.Goal.ListPromise 0 (Program.parse c source).1.body := by
  have keeps : Parser.Reader.Keeps _ := Parser.yields_read (c := c) (4 * (Token.scan source).1.length + 8)
  have begun : Parser.Goal.ListPromise 0 [] := List.forall_mem_nil _
  obtain ⟨-, given⟩ := Parser.yields_programBody (k := (Token.scan source).1.length + 1) keeps begun _
    (Parser.holds_initialState source)
  unfold Program.parse
  dsimp only
  generalize StateT.run (OptionT.run (Parser.programBody _ _ _)) _ = r at given ⊢
  obtain ⟨r, s⟩ := r
  cases r with
  | none => exact begun
  | some ss => exact given ss rfl

/-- **The literals of every source text are grounded**, wherever they stand in its program. -/
theorem Program.parse_grounded (c : Catalog) (source : Text) : (Part.program (Program.parse c source).1).Grounded :=
  Part.grounded_of_children nofun (Program.parse_promise c source).grounded

end ScriptEngine
