import ScriptEngine.Proofs.KindsInScope
import ScriptEngine.Proofs.ReadingPrograms
/-!
# Marked programs

What the table of the parser holds at a point shows in the tree when the expression that is read there is replaced by a
mark that is made from the state of the parser. An expression that can not be read is replaced too, and what was wrong
with it is forgiven, so that texts are read which are refused for a mismatch of kinds. When such a reading has no faults,
each mark stands where the table holds the typed declarations in scope: a name has the kind of its latest declaration
that has a type. That is the kind of its latest declaration, unless this one has no type.
-/

namespace ScriptEngine

namespace Parser

variable {L : Course} {c : Catalog} {mark : ParseState → Option Expr → Expr} {s : ParseState} {σ : Scopes}
  {n d depth : Nat} {expr : Nat → Nat → ParseM Expr} {seen : Scopes → Expr → Prop}

/-! ## Readers with other expressions -/

/-- Reads a part of a program as `read` does, but with another reader of the expressions that statements and declared
types ask for. -/
def readWith (c : Catalog) (expr : Nat → Nat → ParseM Expr) : Nat → Reader
  | 0 => fun _ => exhaust
  | d + 1 => fun
    | .expr level => expr (d + 1) level
    | .stmt => statement c (readWith c expr d)
    | .block => block (readWith c expr d)
    | .cond => condition (readWith c expr d)
    | .typeSpec => typeSpec (readWith c expr d)

/-- With the parser's own expressions nothing is changed. -/
theorem readWith_self (c : Catalog) (d : Nat) : readWith c (fun d level => read c d (.expr level)) d = read c d := by
  induction d with
  | zero => rfl
  | succ d ih =>
    funext g
    cases g with
    | expr level => rfl
    | stmt => exact congrArg (statement c) ih
    | block => exact congrArg block ih
    | cond => exact congrArg condition ih
    | typeSpec => exact congrArg typeSpec ih

/-- A reader keeps the contracts when its reader of expressions does. -/
theorem agree_readWith (allowed : ∀ {depth rec}, Reader.Allowed L depth rec)
    (steady : ∀ {σ n d level}, 2 * n + 1 ≤ d → 1 ≤ level →
      Steady L σ n (Expr.Complete L.catalog σ) (expr d level) (expr d level)) (hd : depth ≤ d) :
    Reader.Agree L depth (readWith L.catalog expr d) (readWith L.catalog expr d) := by
  induction depth generalizing d with
  | zero =>
    -- no part has room in no levels
    refine ⟨?_, ?_, ?_, ?_, ?_, ?_, allowed⟩
    all_goals
      intros
      exact absurd ‹_ ≤ 0› (by omega)
  | succ depth ih =>
    obtain ⟨d, rfl⟩ := Nat.exists_eq_add_of_le' (Nat.le_trans (Nat.succ_le_succ (Nat.zero_le depth)) hd)
    have level := agree_readStep (ih (Nat.le_of_succ_le_succ hd)) allowed
    exact
      { expr := fun hn tight => steady (hn.trans hd) tight
        typeSpec := level.typeSpec
        block := level.block
        cond := level.cond
        stmt := level.stmt
        empty := level.empty
        allowed := allowed }

/-- A reader gives expressions that fit the names in scope when its reader of expressions does. -/
theorem shows_readWith (traced : L.Traced) (allowed : ∀ {depth rec}, Reader.Allowed L depth rec)
    (steady : ∀ {σ n d level}, 2 * n + 1 ≤ d → 1 ≤ level →
      Steady L σ n (Expr.Complete L.catalog σ) (expr d level) (expr d level))
    (fits : ∀ {σ n d level s e}, L.At σ n s → ((expr d level).run.run s).1 = some e → seen σ e) (hd : depth ≤ d) :
    Reader.Shows L depth seen (readWith L.catalog expr d) := by
  induction depth generalizing d with
  | zero =>
    refine ⟨agree_readWith allowed steady hd, ?_, ?_, ?_, ?_⟩
    all_goals
      intros
      exact absurd ‹_ ≤ 0› (by omega)
  | succ depth ih =>
    have agree := agree_readWith allowed steady hd
    obtain ⟨d, rfl⟩ := Nat.exists_eq_add_of_le' (Nat.le_trans (Nat.succ_le_succ (Nat.zero_le depth)) hd)
    have below := ih (Nat.le_of_succ_le_succ hd)
    refine ⟨agree, fun hn tight => ?_, fun inner hn => shows_block below traced inner (by omega),
      fun hn => shows_condition below (by omega), fun hn some => shows_statement below (by omega) some⟩
    refine runs_kept (runs_mono (agree.expr hn tight False) fun _ _ _ _ same => ⟨same.1, id⟩) fun s hs _ e he => ?_
    exact fits hs he

/-! ## Marks in place of expressions -/

/-- Gives a mark in place of an expression, made from the state in which the expression is begun and from what is read of
it, if it can be read. If it can not, only the tokens that were taken count. -/
def markExpr (mark : ParseState → Option Expr → Expr) (x : ParseM Expr) : ParseM Expr := do
  let s ← get
  match ← attempt x with
  | some e => pure (mark s (some e))
  | none =>
    modify fun t => { s with tokens := t.tokens }
    pure (mark s none)

/-- Reads a part of a program with marks in place of expressions. -/
def marking (c : Catalog) (mark : ParseState → Option Expr → Expr) : Nat → Reader :=
  readWith c fun d level => markExpr mark (read c d (.expr level))

/-- The state behind a mark. -/
def behindMark (s : ParseState) (r : Option Expr × ParseState) : ParseState :=
  match r with
  | (some _, t) => t
  | (none, t) => { s with tokens := t.tokens }

theorem run_markExpr (mark : ParseState → Option Expr → Expr) (x : ParseM Expr) (s : ParseState) :
    (markExpr mark x).run.run s = (some (mark s (x.run.run s).1), behindMark s (x.run.run s)) := by
  have started : (get : ParseM ParseState).run.run s = (some s, s) := rfl
  have tried : (attempt x).run.run s = (some (x.run.run s).1, (x.run.run s).2) := rfl
  unfold markExpr
  rw [run_bind, started]
  dsimp only
  rw [run_bind, tried]
  generalize x.run.run s = r
  obtain ⟨r, t⟩ := r
  cases r <;> rfl

/-- A mark declares no names, as the expression in its place does not. -/
theorem steady_markExpr {P Q : Expr → Prop} {x : ParseM Expr} (unformed : ¬ L.formed) (h : Steady L σ n P x x) :
    Steady L σ n Q (markExpr mark x) (markExpr mark x) := by
  intro quiet G s hs
  have ends : Ends L quiet σ n G _ _ s (x.run.run s) (x.run.run s) := h G s hs
  obtain ⟨⟨m, τ, hm, grown, place, promise⟩, faults, -, -, -⟩ := ends
  rw [run_markExpr]
  generalize x.run.run s = r at place promise faults
  obtain ⟨r, t⟩ := r
  refine ⟨?_, ?_, fun _ => nofun, fun hg _ _ _ => hg, .inl rfl⟩
  · cases r with
    | none =>
      have there : L.At σ m { s with tokens := t.tokens } :=
        ⟨place.tokens, place.bound, hs.last, hs.scopes, hs.typedefs, hs.alive⟩
      exact ⟨m, σ, hm, .refl σ, there, fun _ _ => ⟨rfl, fun hf => absurd hf unformed⟩⟩
    | some a => exact ⟨m, τ, hm, grown, place, fun _ _ => ⟨(promise a rfl).1, fun hf => absurd hf unformed⟩⟩
  · cases r with
    | none => exact Nat.le_refl _
    | some a => exact faults

/-! ## Where expressions stand -/

/-- The course through the tokens of a state on which marks are put: trees need not be complete there. -/
def Course.marked (c : Catalog) (s : ParseState) (ended : s.last.kind = .eof) : Course :=
  { Course.ofState c s ended with
    formed := False
    left := fun _ _ => True
    named := fun _ => True
    formed_tokens := False.elim }

variable {ended : s.last.kind = .eof}

theorem Course.marked_at (alive : s.exhausted = false) :
    (Course.marked c s ended).At s.scopes s.tokens.length s :=
  let start := Course.ofState_at (c := c) ended alive
  ⟨start.tokens, start.bound, start.last, start.scopes, False.elim, start.alive⟩

theorem Course.allowed_marked {depth : Nat} {rec : Reader} : Reader.Allowed (Course.marked c s ended) depth rec :=
  ⟨fun _ _ _ => trivial, fun _ _ _ _ _ _ _ => trivial⟩

theorem Course.steady_read {level : Nat} (hn : 2 * n + 1 ≤ d) (tight : 1 ≤ level) :
    Steady (Course.marked c s ended) σ n (Expr.Complete c σ) (read c d (.expr level)) (read c d (.expr level)) :=
  (agree_read (Course.marked c s ended) (fun _ => Course.allowed_marked) (Nat.le_refl d) (Nat.le_refl d)).expr hn tight

/-- What is read of an expression in a state, if it can be read. -/
def ReadAs (c : Catalog) (s : ParseState) (r : Option Expr) : Prop :=
  ∃ d level, ((read c d (.expr level)).run.run s).1 = r

/-- An expression is made from a state on a course and from what is read there. -/
def Made (L : Course) (made : ParseState → Option Expr → Expr → Prop) (σ : Scopes) (e : Expr) : Prop :=
  ∃ n s r, L.At σ n s ∧ ReadAs L.catalog s r ∧ made s r e

/-- The expressions that are read fit the names in scope. -/
theorem shows_read (traced : (Course.marked c s ended).Traced) (d : Nat) : Reader.Shows (Course.marked c s ended) d
    (Made (Course.marked c s ended) fun _ r e => r = some e) (read c d) := by
  rw [← readWith_self c d]
  refine shows_readWith traced Course.allowed_marked Course.steady_read (fun {σ n d level t e} ht he => ?_) (Nat.le_refl d)
  exact ⟨n, t, some e, ht, ⟨d, level, he⟩, rfl⟩

/-- Marks fit the names in scope. -/
theorem shows_marking (traced : (Course.marked c s ended).Traced) (d : Nat) : Reader.Shows (Course.marked c s ended) d
    (Made (Course.marked c s ended) fun t r e => e = mark t r) (marking c mark d) := by
  refine shows_readWith traced Course.allowed_marked
    (fun hn tight => steady_markExpr id (Course.steady_read hn tight)) (fun {σ n d level t e} ht he => ?_) (Nat.le_refl d)
  have run := congrArg Prod.fst (run_markExpr mark (read c d (.expr level)) t)
  exact ⟨n, t, _, ht, ⟨d, level, rfl⟩, Option.some.inj (he.symm.trans run)⟩

end Parser

/-! ## Programs -/

/-- No branch of a condition is an empty statement, or none is a declaration: no semicolon stands right behind `then` or
`else`, or no word that begins a declaration does. -/
def Token.Traceable (ts : List Token) : Prop :=
  (ts.IsChain fun t u => t.kind = .kwThen ∨ t.kind = .kwElse → u.kind ≠ .semicolon) ∨
    ts.IsChain fun t u => t.kind = .kwThen ∨ t.kind = .kwElse → u.kind ≠ .kwVar ∧ u.kind ≠ .kwConst

instance (ts : List Token) : Decidable (Token.Traceable ts) := inferInstanceAs (Decidable (_ ∨ _))

/-- The reading of a source text with marks. -/
def Program.markedReading (c : Catalog) (mark : ParseState → Option Expr → Expr) (source : Text) :
    Option (List Stmt) × ParseState :=
  let tokens := (Token.scan source).1
  let body := Parser.programBody (Parser.marking c mark (4 * tokens.length + 8)) (tokens.length + 1) []
  body.run.run (Parser.initialState tokens)

/-- The program of a source text with marks, and the faults that are left. -/
def Program.parseMarked (c : Catalog) (mark : ParseState → Option Expr → Expr) (source : Text) : Program × List Fault :=
  (⟨(Program.markedReading c mark source).1.getD []⟩,
    (Token.scan source).2.map Parser.ofLexFault ++ (Program.markedReading c mark source).2.faults.reverse)

/-- In a text without faults the names in scope can be told, unless it has both an empty branch and one that declares. -/
theorem Program.traced_of_clean {c : Catalog} {source : Text} (clean : (Token.scan source).2.map Parser.ofLexFault = [])
    (traceable : Token.Traceable (Token.scan source).1) :
    (Parser.Course.marked c _ (Parser.initialState_ended source)).Traced :=
  ⟨fun t ht illegal => (Cursor.tokensFrom_formed _ _ t ht).2 illegal (List.map_eq_nil_iff.mp clean), traceable⟩

/-- In a state in which the parser begins an expression of a text, its table holds the typed declarations in scope: the
kind of the latest declaration with a type of each name, so that of the latest declaration if this one has a type. -/
structure Parser.Tabled (c : Catalog) (source : Text) (D : Declarations) (s : ParseState) (r : Option Expr) : Prop where
  behind : s.tokens <:+ (Token.scan source).1
  reads : Parser.ReadAs c s r
  kinds : ∀ x k, Parser.lookupKind s.scopes x = some k ↔ D.DeclaresTyped x k
  own : ∀ x k, D.Declares x k → Parser.lookupKind s.scopes x = some k

/-- The expressions of statements that are read without faults are made where the table holds the typed declarations in
scope. -/
theorem Program.tabled_of_shows {c : Catalog} {source : Text} {made : ParseState → Option Expr → Expr → Prop}
    {rec : Parser.Reader} {L : Parser.Course} (marked : L = Parser.Course.marked c _ (Parser.initialState_ended source))
    (traced : L.Traced) (shown : Parser.Reader.Shows L (4 * (Token.scan source).1.length + 8) (Parser.Made L made) rec)
    {ss : List Stmt} {t : ParseState} (run : (Parser.programBody rec ((Token.scan source).1.length + 1) []).run.run
      (Parser.initialState (Token.scan source).1) = (some ss, t)) (clean : t.faults = []) {v : View}
    (hv : v ∈ Stmt.viewsAll [[]] ss) : ∃ s r, made s r v.expr ∧ Parser.Tabled c source v.declared s r := by
  subst marked
  have room : 2 * (Token.scan source).1.length + 3 ≤ 4 * (Token.scan source).1.length + 8 := by omega
  obtain ⟨more, shape, fits⟩ := Parser.kept_programBody (D := [[]]) shown traced [] (Nat.lt_succ_self _) room
    (Parser.Course.marked_at rfl) ((congrArg (·.2.faults) run).trans clean) ss (congrArg Prod.fst run)
  obtain rfl : ss = more := shape
  obtain ⟨n, s, r, hs, read, given⟩ := fits v hv
  have kinds (x : Text) (k : Kind) : Parser.lookupKind s.scopes x = some k ↔ v.declared.DeclaresTyped x k := by
    rw [hs.scopes, Declarations.lookupKind_typed_iff]
  exact ⟨s, r, given, hs.tokens ▸ List.drop_suffix _ _, read, kinds, fun x k own => (kinds x k).mpr own.typed⟩

/-- Marks in a program without faults stand where the table holds the typed declarations in scope. -/
theorem Program.tabled_of_marked {c : Catalog} {mark : ParseState → Option Expr → Expr} {source : Text}
    (traceable : Token.Traceable (Token.scan source).1) (clean : (Program.parseMarked c mark source).2 = []) {v : View}
    (hv : v ∈ (Program.parseMarked c mark source).1.views) :
    ∃ s r, v.expr = mark s r ∧ Parser.Tabled c source v.declared s r := by
  obtain ⟨noLexFaults, noFaults⟩ := List.append_eq_nil_iff.mp clean
  have traced := Program.traced_of_clean (c := c) noLexFaults traceable
  rcases reading : Program.markedReading c mark source with ⟨- | ss, t⟩
  · rw [Program.parseMarked, reading] at hv
    cases hv
  · rw [Program.parseMarked, reading] at hv
    rw [reading] at noFaults
    exact Program.tabled_of_shows rfl traced (Parser.shows_marking traced _) reading (List.reverse_eq_nil_iff.mp noFaults) hv

/-- At the expressions of a program without faults the table of the parser holds the typed declarations in scope. It does
so too in texts with faults that lie inside expressions, such as a mismatch of kinds: wherever these stand, a mark that is
made from the state of the parser shows what the table holds. -/
theorem Program.typed_kinds_in_scope (c : Catalog) (source : Text) (traceable : Token.Traceable (Token.scan source).1) :
    ((Program.parse c source).2 = [] → ∀ v ∈ (Program.parse c source).1.views,
      ∃ s, Parser.Tabled c source v.declared s (some v.expr)) ∧
    ∀ mark : ParseState → Option Expr → Expr, (Program.parseMarked c mark source).2 = [] →
      ∀ v ∈ (Program.parseMarked c mark source).1.views,
        ∃ s r, v.expr = mark s r ∧ Parser.Tabled c source v.declared s r := by
  refine ⟨fun clean v hv => ?_, fun mark clean v hv => Program.tabled_of_marked traceable clean hv⟩
  rw [Program.parse_eq_reading] at clean
  obtain ⟨noLexFaults, noFaults⟩ := List.append_eq_nil_iff.mp clean
  have traced := Program.traced_of_clean (c := c) noLexFaults traceable
  have reading : Program.reading c source = (some (Program.parse c source).1.body, (Program.reading c source).2) :=
    Prod.ext (Program.reading_ended c source).1 rfl
  obtain ⟨s, r, rfl, tabled⟩ := Program.tabled_of_shows rfl traced (Parser.shows_read traced _) reading
    (List.reverse_eq_nil_iff.mp noFaults) hv
  exact ⟨s, tabled⟩

/-! ## The kind of a single name -/

/-- The mark that shows the kind which the table holds for a name. -/
def Parser.showKind (x : Text) (s : ParseState) (_ : Option Expr) : Expr :=
  .name ⟨"", 0⟩ (match Parser.lookupKind s.scopes x with
    | some k => k.name
    | none => "none")

/-- The declarations in scope at the expressions of a text, and the kinds that the table holds for a name there. -/
def Program.kindsOf (x : Text) (source : Text) : List (Declarations × Text) :=
  (Program.parseMarked default (Parser.showKind x) source).1.views.map fun v =>
    (v.declared, match v.expr with
      | .name _ kind => kind
      | _ => "")

/-- A name that is declared in three ways behind a condition that is lost, and the kinds of it that the table holds. -/
theorem Program.typed_kinds_in_scope_three :
    let source : Text := "if true then print x; else ; var x: int = 1; \x7b var x = 2; x; \x7d" ++
      " function f(x: string) \x7b foreach x in [x] \x7b x; \x7d \x7d"
    (Program.parse default source).2 = [] ∧
    (∀ v ∈ (Program.parse default source).1.views, ∃ s, Parser.Tabled default source v.declared s (some v.expr)) ∧
    (∀ v ∈ (Program.parseMarked default (Parser.showKind "x") source).1.views,
      ∃ s r, v.expr = Parser.showKind "x" s r ∧ Parser.Tabled default source v.declared s r) ∧
    (let outer : Declaration := ⟨"x", some .int⟩
      let param : Declaration := ⟨"x", some .string⟩
      let bare : Declaration := ⟨"x", none⟩
      Program.kindsOf "x" source = ([([[]], "none"), ([[], [outer]], "int"), ([[bare], [outer]], "int"),
        ([[], [param], [outer]], "string"), ([[bare], [], [param], [outer]], "string")] : List (Declarations × Text))) := by
  intro source
  -- one computation for all, so that the text is scanned once
  have ⟨traceable, clean, marked, kinds⟩ : Token.Traceable (Token.scan source).1 ∧ (Program.parse default source).2 = [] ∧
      (Program.parseMarked default (Parser.showKind "x") source).2 = [] ∧
      Program.kindsOf "x" source = ([([[]], "none"), ([[], [⟨"x", some .int⟩]], "int"),
        ([[⟨"x", none⟩], [⟨"x", some .int⟩]], "int"), ([[], [⟨"x", some .string⟩], [⟨"x", some .int⟩]], "string"),
        ([[⟨"x", none⟩], [], [⟨"x", some .string⟩], [⟨"x", some .int⟩]], "string")] :
          List (Declarations × Text)) := by decide +kernel
  obtain ⟨plain, marks⟩ := Program.typed_kinds_in_scope default source traceable
  exact ⟨clean, plain clean, marks (Parser.showKind "x") marked, kinds⟩

/-- Where a condition with an empty branch is lost, a declaration in its other branch stays in the table. -/
example : let source : Text := "if true then var x: int = 1; else ; x;"
    (Program.parse default source).2 = [] ∧ ¬ Token.Traceable (Token.scan source).1 ∧
      Program.kindsOf "x" source = ([([[]], "int")] : List (Declarations × Text)) := by decide +kernel

/-- A variable without a type does not hide one with a type: where the latest declaration of `x` has no type, the table
holds the kind of the one around it, and a text is refused that gives the inner variable a value of another kind. -/
theorem Program.untyped_seen_through :
    let source : Text := "var x: int = 1; \x7b var x = \"a\"; x = \"b\"; print x; \x7d"
    (Program.parse default source).2 =
      [Fault.ofParse Fault.Detail.typeMismatch.label 1 "cannot assign string to int variable 'x'"] ∧
    ∃ v ∈ (Program.parseMarked default (Parser.showKind "x") source).1.views, ∃ s r, v.expr = Parser.showKind "x" s r ∧
      Parser.lookupKind s.scopes "x" = some .int ∧ v.declared.flatten.head? = some ⟨"x", none⟩ ∧
        ∀ k, ¬ v.declared.Declares "x" k := by
  intro source
  have ⟨refused, traceable, marked, stands⟩ : (Program.parse default source).2 =
        [Fault.ofParse Fault.Detail.typeMismatch.label 1 "cannot assign string to int variable 'x'"] ∧
      Token.Traceable (Token.scan source).1 ∧ (Program.parseMarked default (Parser.showKind "x") source).2 = [] ∧
      ([[⟨"x", none⟩], [⟨"x", some .int⟩]], ("int" : Text)) ∈ Program.kindsOf "x" source := by decide +kernel
  refine ⟨refused, ?_⟩
  obtain ⟨⟨D, e⟩, hv, here⟩ := List.mem_map.mp stands
  obtain rfl : D = [[⟨"x", none⟩], [⟨"x", some .int⟩]] := congrArg Prod.fst here
  obtain ⟨s, r, made, tabled⟩ := Program.tabled_of_marked traceable marked hv
  refine ⟨_, hv, s, r, made, (tabled.kinds "x" .int).mpr ⟨[⟨"x", none⟩], [], rfl, by simp⟩, rfl, ?_⟩
  rintro k ⟨later, earlier, split, other⟩
  cases later with
  | nil => cases (List.cons.inj split).1
  | cons d later =>
    obtain ⟨rfl, -⟩ := List.cons.inj split
    exact other _ List.mem_cons_self rfl

end ScriptEngine
