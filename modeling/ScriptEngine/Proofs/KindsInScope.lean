import ScriptEngine.Proofs.CompleteTree
import ScriptEngine.Proofs.ReadingPrograms
/-!
# The kinds of names in scope

The names that are in scope at the expressions of a program, typed or not. A variable, a constant, a parameter, the item
of a loop and the variable of a handler are declared; blocks, functions and loops with three clauses have scopes of
their own, and so do the bodies of loops over a container and of handlers. The table of the parser holds the typed
declarations only, so what it finds is the latest declaration with a type, also behind later ones without.

The parser looks names up in its table while it reads a program. Each computation that reads a statement begins expressions
where the table holds the typed declarations in scope, and it leaves those that the statement declares behind. So when the
readers of the parts inside give expressions that fit the table in which they were begun, the expressions of a tree that
was read without faults fit the typed declarations in scope there. A condition with an empty branch is lost without a
fault, while the names that were declared in its other branch stay in the table: not both may stand in a text.
-/

namespace ScriptEngine

/-! ## Declarations -/

/-- The declaration of a name. A declaration without a type gives the name no kind. -/
structure Declaration where
  name : Text
  kind : Option Kind
deriving DecidableEq

/-- The names in scope, innermost scope first and in each scope the latest first. -/
abbrev Declarations := List (List Declaration)

namespace Declarations

variable {D : Declarations} {x : Text} {k : Kind}

/-- Declarations with one more in the innermost scope. -/
def add (D : Declarations) (name : Text) (kind : Option Kind) : Declarations :=
  match D with
  | [] => []
  | scope :: outer => (⟨name, kind⟩ :: scope) :: outer

/-- The latest declaration of a name in scope has a kind: the innermost, and in its scope the last one. -/
def Declares (D : Declarations) (x : Text) (k : Kind) : Prop :=
  ∃ later earlier, D.flatten = later ++ ⟨x, some k⟩ :: earlier ∧ ∀ d ∈ later, d.name ≠ x

/-- The latest declaration of a name that has a type has a kind: those behind it have none. -/
def DeclaresTyped (D : Declarations) (x : Text) (k : Kind) : Prop :=
  ∃ later earlier, D.flatten = later ++ ⟨x, some k⟩ :: earlier ∧ ∀ d ∈ later, d.name = x → d.kind = none

/-- What the parser keeps of a declaration. -/
def entry? (d : Declaration) : Option (Text × Kind) := d.kind.map (d.name, ·)

/-- The table that the parser makes of declarations: it holds those with a type. -/
def typed (D : Declarations) : Scopes := D.map (·.filterMap entry?)

/-- What is declared last with a kind is what is declared last with a type. -/
theorem Declares.typed (h : D.Declares x k) : D.DeclaresTyped x k := by
  obtain ⟨later, earlier, split, other⟩ := h
  exact ⟨later, earlier, split, fun d hd same => absurd same (other d hd)⟩

/-- One more typed declaration is one more name in the table, and one without a type is none. -/
theorem typed_add (D : Declarations) (name : Text) (type : Option TypeSpec) :
    (D.add name (type.map TypeSpec.kind)).typed = TypeSpec.declaredIn type name D.typed := by
  cases D with
  | nil => cases type <;> rfl
  | cons scope outer => cases type <;> rfl

/-- A name is looked up in scope after scope as in a single one. -/
theorem lookupKind_flatten (σ : Scopes) (x : Text) : Parser.lookupKind σ x = σ.flatten.lookup x := by
  unfold Parser.lookupKind
  induction σ with
  | nil => rfl
  | cons scope outer ih =>
    rw [List.findSome?_cons, List.flatten_cons, List.lookup_append, ih]
    cases scope.lookup x <;> rfl

/-- A declaration in front that does not have a kind for the name changes nothing. -/
theorem split_cons_iff {d : Declaration} {ds : List Declaration} (untyped : d.name = x → d.kind = none) :
    (∃ later earlier, d :: ds = later ++ ⟨x, some k⟩ :: earlier ∧ ∀ e ∈ later, e.name = x → e.kind = none) ↔
      ∃ later earlier, ds = later ++ ⟨x, some k⟩ :: earlier ∧ ∀ e ∈ later, e.name = x → e.kind = none := by
  constructor
  · rintro ⟨later, earlier, split, other⟩
    cases later with
    | nil =>
      obtain ⟨rfl, rfl⟩ := List.cons.inj split
      cases untyped rfl
    | cons e later =>
      obtain ⟨rfl, behind⟩ := List.cons.inj split
      exact ⟨later, earlier, behind, fun e he => other e (List.mem_cons_of_mem d he)⟩
  · rintro ⟨later, earlier, rfl, other⟩
    exact ⟨d :: later, earlier, rfl, List.forall_mem_cons.mpr ⟨untyped, other⟩⟩

/-- In a list of declarations the first one of a name that has a type is found. -/
theorem lookup_entries_iff {ds : List Declaration} : (ds.filterMap entry?).lookup x = some k ↔
    ∃ later earlier, ds = later ++ ⟨x, some k⟩ :: earlier ∧ ∀ d ∈ later, d.name = x → d.kind = none := by
  induction ds with
  | nil => simp
  | cons d ds ih =>
    obtain ⟨name, kind⟩ := d
    cases kind with
    | none => rw [split_cons_iff fun _ => rfl, ← ih, List.filterMap_cons_none rfl]
    | some j =>
      have first : entry? ⟨name, some j⟩ = some (name, j) := rfl
      rw [List.filterMap_cons_some first, List.lookup_cons]
      by_cases same : x = name
      · subst same
        rw [beq_self_eq_true]
        constructor
        · rintro ⟨⟩
          exact ⟨[], ds, rfl, fun _ => nofun⟩
        · rintro ⟨later, earlier, split, other⟩
          cases later with
          | nil =>
            cases split
            rfl
          | cons d later =>
            obtain ⟨rfl, -⟩ := List.cons.inj split
            cases other _ List.mem_cons_self rfl
      · rw [beq_false_of_ne same, split_cons_iff fun other => absurd other.symm same, ← ih]

/-- What is found in the table of the parser is the latest declaration that has a type. -/
theorem lookupKind_typed_iff : Parser.lookupKind D.typed x = some k ↔ D.DeclaresTyped x k := by
  have entries : D.typed.flatten = D.flatten.filterMap entry? := List.filterMap_flatten.symm
  rw [lookupKind_flatten, entries, lookup_entries_iff]
  rfl

end Declarations

/-! ## What statements declare -/

mutual

/-- The declarations behind a statement. A branch of a condition that is no block declares in the scope around it. -/
def Stmt.declares : Stmt → Declarations → Declarations
  | .declare _ name type _ _, D => D.add name (type.map TypeSpec.kind)
  | .cond _ _ yes no, D => Stmt.declaresOpt no (yes.declares D)
  | _, D => D

/-- The declarations behind an optional statement. -/
def Stmt.declaresOpt : Option Stmt → Declarations → Declarations
  | some s, D => s.declares D
  | none, D => D

end

/-- The declarations behind parameters. -/
def Param.declares : List Param → Declarations → Declarations
  | [], D => D
  | p :: ps, D => Param.declares ps (D.add p.name (p.type.map TypeSpec.kind))

mutual

/-- Behind a statement the table has its typed declarations. -/
theorem Stmt.typed_declares (s : Stmt) (D : Declarations) : (s.declares D).typed = s.after D.typed := by
  cases s with
  | declare _ name type _ _ => exact Declarations.typed_add D name type
  | cond _ _ yes no =>
    rw [Stmt.declares, Stmt.after, ← Stmt.typed_declares yes]
    exact Stmt.typed_declaresOpt no _
  | _ => rfl

theorem Stmt.typed_declaresOpt (s : Option Stmt) (D : Declarations) :
    (Stmt.declaresOpt s D).typed = Stmt.afterOpt s D.typed := by
  cases s with
  | none => rfl
  | some s => exact Stmt.typed_declares s D

end

/-! ## The expressions of a program -/

/-- An expression and the names in scope where it is. -/
structure View where
  declared : Declarations
  expr : Expr

/-- An optional expression, where names are in scope. -/
def View.ofOpt (D : Declarations) (e : Option Expr) : List View := e.toList.map (View.mk D)

/-- An expression fits the names in scope. -/
def View.Fits (seen : Scopes → Expr → Prop) (v : View) : Prop := seen v.declared.typed v.expr

theorem View.fits_ofOpt_some {seen : Scopes → Expr → Prop} {D : Declarations} {e : Expr} (h : seen D.typed e) :
    ∀ v ∈ View.ofOpt D (some e), v.Fits seen := by
  intro v hv
  rw [List.mem_singleton.mp hv]
  exact h

theorem View.fits_map {seen : Scopes → Expr → Prop} {D : Declarations} {es : List Expr}
    (h : ∀ e ∈ es, seen D.typed e) : ∀ v ∈ es.map (View.mk D), v.Fits seen := by
  intro v hv
  obtain ⟨e, he, rfl⟩ := List.mem_map.mp hv
  exact h e he

/-- The default values of parameters: a parameter is in scope where its own one is. -/
def Param.views : Declarations → List Param → List View
  | _, [] => []
  | D, p :: ps => View.ofOpt (D.add p.name (p.type.map TypeSpec.kind)) p.fallback ++
      Param.views (D.add p.name (p.type.map TypeSpec.kind)) ps

/-- Whether an expression is null. -/
def Expr.isNull : Expr → Bool
  | .null _ => true
  | _ => false

/-- The arguments of a call. Null is left out, since it also stands for an argument that is not given. -/
def Expr.givenArgs : Expr → List Expr
  | .call _ _ args _ _ _ => args.filter fun e => !e.isNull
  | _ => []

mutual

/-- The expressions of a statement that begins where names are in scope. Of a call as a statement they are the arguments;
those inside declared types are left out, because a type may have been given a name elsewhere. -/
def Stmt.views : Declarations → Stmt → List View
  | D, .declare _ _ _ value _ | D, .returns _ value => View.ofOpt D value
  | D, .expr _ e | D, .print _ e => [⟨D, e⟩]
  | D, .call _ e => e.givenArgs.map (View.mk D)
  | D, .raise _ _ args => args.map (View.mk D)
  | D, .function _ _ params _ body =>
    Param.views ([] :: D) params ++ body.views ([] :: Param.declares params ([] :: D))
  | D, .block body => body.views ([] :: D)
  | D, .cond _ test yes no => ⟨D, test⟩ :: (yes.views D ++ Stmt.viewsOpt (yes.declares D) no)
  | D, .whileLoop _ test body | D, .doLoop _ body test => ⟨D, test⟩ :: body.views ([] :: D)
  | D, .forLoop _ init test update body =>
    Stmt.viewsOpt ([] :: D) init ++ View.ofOpt (Stmt.declaresOpt init ([] :: D)) test ++
      View.ofOpt (Stmt.declaresOpt init ([] :: D)) update ++ body.views ([] :: Stmt.declaresOpt init ([] :: D))
  | D, .forEach _ item container body => ⟨D, container⟩ :: body.views ([⟨item, none⟩] :: D)
  | D, .tries _ body handlers => body.views ([] :: D) ++ Handler.views D handlers
  | _, .typedef .. | _, .breaks _ | _, .continues _ | _, .imports .. => []

/-- The expressions of an optional statement. -/
def Stmt.viewsOpt : Declarations → Option Stmt → List View
  | D, some s => s.views D
  | _, none => []

/-- The expressions of a block, whose own scope is the innermost one. -/
def Block.views : Declarations → Block → List View
  | D, .mk _ ss => Stmt.viewsAll D ss

/-- The expressions of a list of statements, each with what the ones before it declare in scope. -/
def Stmt.viewsAll : Declarations → List Stmt → List View
  | _, [] => []
  | D, s :: ss => s.views D ++ Stmt.viewsAll (s.declares D) ss

/-- The expressions of handlers. The variable of a handler is in scope in its body. -/
def Handler.views : Declarations → List Handler → List View
  | _, [] => []
  | D, .mk _ _ caught body :: hs =>
    body.views (caught.toList.map (⟨·, none⟩) :: D) ++ Handler.views D hs

end

/-- The expressions of a program. -/
def Program.views (p : Program) : List View := Stmt.viewsAll [[]] p.body

end ScriptEngine

namespace ScriptEngine.Parser

/-! ## Reading where names are declared -/

variable {L : Course} {quiet : Scopes → Prop} {D E : Declarations} {σ : Scopes} {n k depth : Nat} {G : Prop}
  {seen : Scopes → Expr → Prop} {rec : Reader}

/-! ## Contracts -/

/-- A contract is kept together with what holds of everything that is given without faults. -/
theorem runs_kept {α : Type} {Q : α → Nat → Scopes → Prop} {H H' : α → Prop} {x : ParseM α}
    (h : Runs L quiet σ n False Q H' x x)
    (kept : ∀ s, L.At σ n s → (x.run.run s).2.faults = [] → ∀ a, (x.run.run s).1 = some a → H a) :
    Runs L quiet σ n G Q (fun a => G ∧ H a) x x := by
  intro s hs
  obtain ⟨place, faults, loud, -, -⟩ := h s hs
  exact ⟨place, faults, loud, fun hg clean a ha => ⟨hg, kept s hs clean a ha⟩, .inl rfl⟩

/-- Of the same computation two promises are kept together. -/
theorem runs_and {α : Type} {quiet' : Scopes → Prop} {G' : Prop} {Q Q' : α → Nat → Scopes → Prop} {H H' : α → Prop}
    {x : ParseM α} (h : Runs L quiet σ n G Q H x x) (h' : Runs L quiet' σ n G' Q' H' x x) :
    Runs L quiet σ n G (fun a m τ => Q a m τ ∧ Q' a m τ) H x x := by
  intro s hs
  obtain ⟨⟨m, τ, hm, grown, place, promise⟩, faults, loud, kept, same⟩ := h s hs
  obtain ⟨⟨m', τ', -, -, place', promise'⟩, -⟩ := h' s hs
  obtain rfl : m = m' := place.length.symm.trans place'.length
  obtain rfl : τ = τ' := place.scopes.symm.trans place'.scopes
  exact ⟨⟨m, τ, hm, grown, place, fun a ha => ⟨promise a ha, promise' a ha⟩⟩, faults, loud, kept, same⟩

/-- A contract is kept too when more was true before. -/
theorem runs_history {α : Type} {Q : α → Nat → Scopes → Prop} {H : α → Prop} {x : ParseM α} {K : Prop} (more : K → G)
    (h : Runs L quiet σ n G Q H x x) : Runs L quiet σ n K Q H x x := by
  intro s hs
  obtain ⟨place, faults, loud, kept, -⟩ := h s hs
  exact ⟨place, faults, loud, fun hk => kept (more hk), .inl rfl⟩

/-- The contract of a computation that reads the rest of a statement which began with the declarations `D`. -/
abbrev ShowsRest (L : Course) (quiet : Scopes → Prop) (seen : Scopes → Expr → Prop) (D : Declarations) (G : Prop)
    (σ : Scopes) (n : Nat) (K : Prop) (x : ParseM Stmt) : Prop :=
  Runs L quiet σ n K (fun s _ τ => τ = (s.declares D).typed) (fun s => G ∧ ∀ v ∈ s.views D, v.Fits seen) x x

/-- The contract of a computation that reads a statement where names are in scope: its expressions fit those. -/
abbrev ShowsStmt (L : Course) (quiet : Scopes → Prop) (seen : Scopes → Expr → Prop) (D : Declarations) (n : Nat) (G : Prop)
    (x : ParseM Stmt) : Prop := ShowsRest L quiet seen D G D.typed n G x

/-- The contract of a computation that reads a block with the declarations `E` at its beginning. -/
abbrev ShowsBlock (L : Course) (quiet : Scopes → Prop) (seen : Scopes → Expr → Prop) (D E : Declarations) (n : Nat)
    (G : Prop) (x : ParseM Block) : Prop :=
  Runs L quiet D.typed n G (fun _ _ τ => τ = D.typed) (fun b => G ∧ ∀ v ∈ b.views E, v.Fits seen) x x

/-- The contract of a computation that reads an expression, if there is one. -/
abbrev ShowsOpt (L : Course) (quiet : Scopes → Prop) (seen : Scopes → Expr → Prop) (D : Declarations) (n : Nat) (G : Prop)
    (x : ParseM (Option Expr)) : Prop :=
  Runs L quiet D.typed n G (fun _ _ τ => τ = D.typed) (fun e => G ∧ ∀ v ∈ View.ofOpt D e, v.Fits seen) x x

/-- The contract of a computation that reads expressions, and maybe more. -/
abbrev ShowsAll {α : Type} (L : Course) (quiet : Scopes → Prop) (seen : Scopes → Expr → Prop) (D : Declarations) (n : Nat)
    (G : Prop) (parts : α → List Expr) (x : ParseM α) : Prop :=
  Runs L quiet D.typed n G (fun _ _ τ => τ = D.typed) (fun a => G ∧ ∀ e ∈ parts a, seen D.typed e) x x

/-- A reader gives expressions that fit the names in scope, as far as `depth` levels of nesting are enough. -/
structure Reader.Shows (L : Course) (depth : Nat) (seen : Scopes → Expr → Prop) (rec : Reader) : Prop where
  agree : Reader.Agree L depth rec rec
  expr {quiet : Scopes → Prop} {D : Declarations} {n level : Nat} {G : Prop} (hn : 2 * n + 1 ≤ depth) (tight : 1 ≤ level) :
    Runs L quiet D.typed n G (fun _ _ τ => τ = D.typed) (fun e => G ∧ seen D.typed e) (rec (.expr level)) (rec (.expr level))
  block {quiet : Scopes → Prop} {D E : Declarations} {n : Nat} {G : Prop} (inner : E.typed = [] :: D.typed)
    (hn : 2 * n + 2 ≤ depth) : ShowsBlock L quiet seen D E n G (rec .block)
  cond {D : Declarations} {n : Nat} {G : Prop} (hn : 2 * n + 2 ≤ depth) :
    ShowsStmt L (L.Quiet D.typed) seen D n G (rec .cond)
  stmt {D : Declarations} {n : Nat} {G : Prop} (hn : 2 * n + 3 ≤ depth)
    (some : L.gapless → (L.token n).kind ≠ .semicolon) : ShowsStmt L (L.Quiet D.typed) seen D n G (rec .stmt)

/-- An expression is read, and what follows begins with the same names in scope. -/
theorem shows_bind {α : Type} {Q : α → Nat → Scopes → Prop} {H : α → Prop} {level : Nat} {f : Expr → ParseM α}
    (h : Reader.Shows L depth seen rec) (hn : 2 * n + 1 ≤ depth) (tight : 1 ≤ level)
    (rest : ∀ e m, m ≤ n → Runs L quiet D.typed m (G ∧ seen D.typed e) Q H (f e) (f e)) :
    Runs L quiet D.typed n G Q H (rec (.expr level) >>= f) (rec (.expr level) >>= f) := by
  refine runs_bind (h.expr hn tight) fun (e : Expr) m τ hm scopes => ?_
  obtain rfl := scopes
  exact rest e m hm

/-! ## Statements without blocks -/

/-- A statement without expressions that declares no names. -/
theorem shows_bare {s : Stmt} (scopes : s.declares D = D) (parts : s.views D = []) : ShowsStmt L quiet seen D n G (pure s) :=
  runs_pure (congrArg _ scopes.symm) fun hg => ⟨hg, parts ▸ List.forall_mem_nil _⟩

theorem shows_initializer (h : Reader.Shows L depth seen rec) (room : 2 * n ≤ depth + 2) :
    ShowsOpt L quiet seen D n G (initializer? rec) := by
  unfold initializer?
  refine runs_peekIs .assign (runs_ite (fun more => ?_) fun _ => runs_pure rfl fun hg => ⟨hg, fun _ => nofun⟩)
  have left := L.two_le_of_token (by decide) (of_decide_eq_true more)
  refine runs_advance (runs_advance (shows_bind h (by omega) (by decide) fun e m hm => ?_))
  exact runs_pure rfl fun ⟨hg, he⟩ => ⟨hg, View.fits_ofOpt_some he⟩

theorem shows_clause (h : Reader.Shows L depth seen rec) {close : Token.Kind} (room : 2 * n + 1 ≤ depth) :
    ShowsOpt L quiet seen D n G (clause? rec close) := by
  unfold clause?
  refine runs_peekIs close (runs_ite (fun _ => runs_pure rfl fun hg => ⟨hg, fun _ => nofun⟩) fun _ => runs_advance ?_)
  refine shows_bind h (by omega) (by decide) fun e m hm => ?_
  exact runs_pure rfl fun ⟨hg, he⟩ => ⟨hg, View.fits_ofOpt_some he⟩

theorem shows_declaration (h : Reader.Shows L depth seen rec) (room : 2 * n + 2 ≤ depth) :
    ShowsStmt L quiet seen D n G (declaration rec) := by
  unfold declaration
  refine runs_mark (runs_currentIs .kwConst (runs_expectName fun name left => ?_))
  refine runs_steady_bind (steady_typeAfterColon h.agree (by omega)) fun type m hm _ => ?_
  refine runs_bind (shows_initializer h (by omega)) fun value m' τ hm' scopes => ?_
  obtain rfl := scopes
  extract_lets declared typed
  have declares {k : Nat} : ShowsRest L quiet seen D G D.typed k (G ∧ ∀ v ∈ View.ofOpt D value, v.Fits seen) (typed ()) :=
    runs_declareTyped (runs_pure (Declarations.typed_add D _ type).symm id)
  split
  · refine runs_ite (fun _ => ?_) fun _ => declares
    exact runs_steady_bind (steady_checkAssigned _ _ _ _) fun _ k _ _ => declares
  · exact declares
  · exact runs_ite (fun _ => runs_fault_bind _ _ _) fun _ => declares

theorem shows_typedef (h : Reader.Shows L depth seen rec) (room : 2 * n + 2 ≤ depth)
    (word : (L.token n).kind = .ident ∧ (L.token (n - 1)).kind = .kwTypeof) :
    ShowsStmt L quiet seen D n G (typedef rec) :=
  runs_mono (runs_typedef h.agree room word fun _ _ _ hg => ⟨hg, List.forall_mem_nil _⟩) fun s _ _ _ hs =>
    ⟨hs.1.trans (Stmt.typed_declares s D).symm, id⟩

theorem shows_returning (h : Reader.Shows L depth seen rec) (room : 2 * n + 2 ≤ depth) :
    ShowsStmt L quiet seen D n G (returning rec) := by
  unfold returning
  refine runs_mark (runs_peek ?_)
  split
  · exact shows_bare rfl rfl
  · exact shows_bare rfl rfl
  · exact shows_bare rfl rfl
  · refine runs_advance (shows_bind h (by omega) (by decide) fun e m hm => ?_)
    exact runs_pure rfl fun ⟨hg, he⟩ => ⟨hg, View.fits_ofOpt_some he⟩

theorem shows_loopControl : ShowsStmt L quiet seen D n G loopControl := by
  unfold loopControl
  refine runs_current (runs_get fun s hs => runs_ite (fun _ => runs_fault _ _ _) fun _ => ?_)
  exact runs_ite (fun _ => shows_bare rfl rfl) fun _ => shows_bare rfl rfl

/-- An expression that makes up a statement. -/
theorem shows_single (h : Reader.Shows L depth seen rec) (room : 2 * n + 1 ≤ depth) {made : Expr → Stmt}
    (scopes : ∀ e, (made e).declares D = D) (parts : ∀ e, (made e).views D = [⟨D, e⟩]) :
    ShowsStmt L quiet seen D n G (do
      let e ← rec (.expr lowest)
      pure (made e)) := by
  refine shows_bind h (by omega) (by decide) fun e m hm => runs_pure ?_ fun ⟨hg, he⟩ => ⟨hg, ?_⟩
  · rw [scopes]
  · rw [parts]
    exact View.fits_ofOpt_some he

/-! ## Arguments -/

/-- Arguments that are read behind others. -/
theorem shows_moreExprs (h : Reader.Shows L depth seen rec) {close : Token.Kind} (hc : close ≠ .eof) {done : List Expr}
    (hn : n < k) (room : 2 * n ≤ depth) (hd : G → ∀ e ∈ done, seen D.typed e) :
    ShowsAll L quiet seen D n G id (moreExprs rec close k done) := by
  induction k generalizing n done G with
  | zero => exact absurd hn (Nat.not_lt_zero n)
  | succ k ih =>
    rw [moreExprs]
    refine runs_peekIs .comma (runs_ite (fun more => ?_) fun _ => ?_)
    · have left := L.two_le_of_token (by decide) (of_decide_eq_true more)
      refine runs_advance (runs_advance ?_)
      refine shows_bind h (by omega) (Nat.le_refl 1) fun e m hm => ?_
      refine runs_mono (ih (by omega) (by omega) fun hg => ?_) fun es _ _ _ same => ⟨same, fun hes => ⟨hes.1.1, hes.2⟩⟩
      exact List.forall_mem_cons.mpr ⟨hg.2, hd hg.1⟩
    · exact runs_expect hc fun _ _ => runs_pure rfl fun hg => ⟨hg, fun e he => hd hg e (List.mem_reverse.mp he)⟩

theorem shows_exprList (h : Reader.Shows L depth seen rec) {close : Token.Kind} (hc : close ≠ .eof) (left : 1 ≤ n)
    (room : 2 * n ≤ depth) : ShowsAll L quiet seen D n G id (exprList rec close) := by
  unfold exprList
  refine runs_peekIs close (runs_ite (fun _ => ?_) fun _ => runs_advance ?_)
  · exact runs_advance (runs_pure rfl fun hg => ⟨hg, fun _ => nofun⟩)
  · refine shows_bind h (by omega) (Nat.le_refl 1) fun e m hm => runs_tokensLeft ?_
    refine runs_mono (shows_moreExprs h hc (Nat.lt_succ_self m) (by omega) fun hg => ?_) fun es _ _ _ same =>
      ⟨same, fun hes => ⟨hes.1.1, hes.2⟩⟩
    exact List.forall_mem_singleton.mpr hg.2

/-- Arguments of a call that are read behind others. -/
theorem shows_moreArgs (h : Reader.Shows L depth seen rec) {args : List Expr} {names : List Text} (hn : n < k)
    (left : 1 ≤ n) (room : 2 * n ≤ depth) (hd : G → ∀ e ∈ args, seen D.typed e) :
    ShowsAll L quiet seen D n G Prod.fst (moreArgs rec k args names) := by
  induction k generalizing n args names G with
  | zero => exact absurd hn (Nat.not_lt_zero n)
  | succ k ih =>
    rw [moreArgs]
    refine runs_advance (runs_current (runs_peekIs .assign ?_))
    extract_lets named mixed labels value start
    refine runs_ite (fun _ => runs_fault_bind _ _ _) fun _ => ?_
    have reads {m : Nat} (hm : m < n) : ShowsAll L quiet seen D m G Prod.fst (value ()) := by
      refine shows_bind h (by omega) (Nat.le_refl 1) fun e m' hm' => ?_
      have all (hg : G ∧ seen D.typed e) : ∀ x ∈ e :: args, seen D.typed x :=
        List.forall_mem_cons.mpr ⟨hg.2, hd hg.1⟩
      refine runs_peekIs .comma (runs_ite (fun more => ?_) fun _ => ?_)
      · have left := L.two_le_of_token (by decide) (of_decide_eq_true more)
        refine runs_advance (runs_mono (ih (by omega) (by omega) (by omega) all) fun r _ _ _ same => ?_)
        exact ⟨same, fun hr => ⟨hr.1.1, hr.2⟩⟩
      · refine runs_expect (by decide) fun _ _ => runs_pure rfl fun hg => ⟨hg.1, fun x hx => ?_⟩
        exact all hg x (List.mem_reverse.mp hx)
    exact runs_ite (fun _ => runs_advance (runs_advance (reads (by omega)))) fun _ => reads (by omega)

/-- The arguments that a checked call was given are those that were read. -/
theorem shows_resolveCall {m : Mark} {f : Text} {args : List Expr} {names : List Text}
    (hg : G → ∀ e ∈ args, seen D.typed e) :
    ShowsAll L quiet seen D n G Expr.givenArgs (resolveCall L.catalog m f args names) := by
  unfold resolveCall
  dsimp only
  split
  · refine runs_ite (fun _ => runs_pure rfl fun h => ⟨h, fun a ha => ?_⟩) fun _ => runs_fault _ _ _
    exact hg h a (List.mem_of_mem_filter ha)
  split
  · exact runs_fault _ _ _
  rename_i args' arranged
  refine runs_get fun state hs => ?_
  split
  · exact runs_fault _ _ _
  split
  · exact runs_fault _ _ _
  refine runs_pure rfl fun h => ⟨h, fun a ha => ?_⟩
  -- null fills the places of arguments that are not given
  obtain ⟨inside, given⟩ := List.mem_filter.mp ha
  rcases mem_positionalArgs arranged inside with read | ⟨m', rfl⟩
  · exact hg h a read
  · cases given

theorem shows_call (h : Reader.Shows L depth seen rec) {m : Mark} {f : Text} (left : 1 ≤ n) (room : 2 * n ≤ depth) :
    ShowsAll L quiet seen D n G Expr.givenArgs (call L.catalog rec (.name m f)) := by
  unfold call
  refine runs_mark ?_
  dsimp -zeta only
  extract_lets made
  have makes {m : Nat} {r : List Expr × List Text} {K : Prop} (hk : K → ∀ e ∈ r.1, seen D.typed e) :
      ShowsAll L quiet seen D m K Expr.givenArgs (made r) := by
    refine runs_ite (fun _ => shows_resolveCall hk) fun _ => runs_pure rfl fun hr => ⟨hr, fun a ha => ?_⟩
    exact hk hr a (List.mem_of_mem_filter ha)
  refine runs_peekIs .rparen (runs_ite (fun _ => ?_) fun _ => ?_)
  · exact runs_advance (makes (r := ([], [])) fun _ => List.forall_mem_nil _)
  · have read : ShowsAll L quiet seen D n G Prod.fst (moreArgs rec (n + 1) [] []) :=
      shows_moreArgs h (Nat.lt_succ_self n) left room fun _ => List.forall_mem_nil _
    refine runs_tokensLeft (runs_bind read fun r m τ _ scopes => ?_)
    obtain rfl := scopes
    exact runs_mono (makes And.right) fun e _ _ _ same => ⟨same, fun he => ⟨he.1.1, he.2⟩⟩

theorem shows_callStatement (h : Reader.Shows L depth seen rec) (room : 2 * n + 2 ≤ depth) :
    ShowsStmt L quiet seen D n G (callStatement L.catalog rec) := by
  unfold callStatement
  refine runs_mark (runs_expect (by decide) fun _ _ => runs_current (runs_expect (by decide) fun _ more => ?_))
  refine runs_bind (shows_call h (by omega) (by omega)) fun (e : Expr) m τ _ scopes => ?_
  exact runs_pure scopes fun shown => ⟨shown.1, View.fits_map shown.2⟩

theorem shows_raising (h : Reader.Shows L depth seen rec) (room : 2 * n + 2 ≤ depth) :
    ShowsStmt L quiet seen D n G (raising rec) := by
  unfold raising
  refine runs_mark (runs_expect (by decide) fun _ _ => runs_expect (by decide) fun _ left => runs_current ?_)
  extract_lets category made
  refine runs_peekIs .lparen (runs_ite (fun more => runs_advance ?_) fun _ => ?_)
  · have left := L.two_le_of_token (by decide) (of_decide_eq_true more)
    refine runs_bind (shows_exprList h (by decide) (by omega) (by omega)) fun es m τ hm scopes => ?_
    exact runs_pure scopes fun ⟨hg, hes⟩ => ⟨hg, View.fits_map hes⟩
  · exact shows_bare rfl rfl

/-! ## Branches and loops -/

theorem shows_blockStatement (h : Reader.Shows L depth seen rec) (room : 2 * n + 2 ≤ depth) :
    ShowsStmt L quiet seen D n G (do
      let b ← rec .block
      pure (.block b)) :=
  runs_bind (h.block (E := [] :: D) rfl room) fun _ _ _ _ scopes => runs_pure scopes id

theorem shows_branch (h : Reader.Shows L depth seen rec) (room : 2 * n ≤ depth) :
    ShowsStmt L (L.Quiet D.typed) seen D n G (branch rec) := by
  unfold branch
  refine runs_peekIs .kwThen (runs_ite (fun more => ?_) fun _ => ?_)
  · have left := L.two_le_of_token (by decide) (of_decide_eq_true more)
    refine runs_advance (runs_peekIs .lbrace (runs_ite (fun _ => runs_advance ?_) fun _ => runs_advance ?_))
    · exact shows_blockStatement h (by omega)
    · exact h.stmt (by omega) fun hg => L.token_spaced hg (.inl (of_decide_eq_true more))
  · exact runs_expect (by decide) fun _ left => shows_blockStatement h (by omega)

theorem shows_condition (h : Reader.Shows L depth seen rec) (room : 2 * n + 1 ≤ depth) :
    ShowsStmt L (L.Quiet D.typed) seen D n G (condition rec) := by
  unfold condition
  refine runs_mark (runs_advance (shows_bind h (by omega) (by decide) fun test m hm => ?_))
  have branches := runs_branch (G := False) (σ := D.typed) h.agree (n := m) (by omega)
  refine runs_bind (runs_and (shows_branch h (by omega)) branches) fun yes m' τ hm' promise => ?_
  obtain ⟨rfl, -, still, -⟩ := promise
  have hush (τ : Scopes) (h : L.Quiet (yes.declares D).typed τ) : L.Quiet D.typed τ :=
    ⟨h.1, fun ha => (h.2 ha).trans (still ha)⟩
  refine runs_peekIs .semicolon (runs_peekBeyond ?_)
  extract_lets other
  -- the names that the first branch declares are in scope in the other one
  have gives (no : Option Stmt) {m : Nat} {τ : Scopes} {K : Prop}
      (scopes : τ = (Stmt.declaresOpt no (yes.declares D)).typed)
      (parts : K → ((G ∧ seen D.typed test) ∧ ∀ v ∈ yes.views D, v.Fits seen) ∧
        ∀ v ∈ Stmt.viewsOpt (yes.declares D) no, v.Fits seen) :
      ShowsRest L (L.Quiet D.typed) seen D G τ m K (pure (.cond (markOf (L.token n)) test yes no)) := by
    refine runs_pure scopes fun hk => ?_
    obtain ⟨⟨⟨hg, htest⟩, hyes⟩, hno⟩ := parts hk
    exact ⟨hg, List.forall_mem_cons.mpr ⟨htest, List.forall_mem_append.mpr ⟨hyes, hno⟩⟩⟩
  have reads {k : Nat} (hk : k ≤ m') :
      ShowsRest L (L.Quiet D.typed) seen D G (yes.declares D).typed k
        ((G ∧ seen D.typed test) ∧ ∀ v ∈ yes.views D, v.Fits seen) (other ()) := by
    refine runs_peekIs .kwElse (runs_ite (fun more => ?_) fun _ => gives none rfl fun hg => ⟨hg, fun _ => nofun⟩)
    have left := L.two_le_of_token (by decide) (of_decide_eq_true more)
    refine runs_advance (runs_peek ?_)
    split
    · refine runs_advance (runs_bind (runs_quiet (h.cond (by omega)) hush) fun (no : Stmt) _ _ _ scopes => ?_)
      exact gives (some no) scopes id
    · refine runs_advance (runs_bind (h.block (E := [] :: yes.declares D) rfl (by omega))
        fun (b : Block) _ _ _ scopes => ?_)
      exact gives (some (.block b)) scopes id
    · have spaced (hg : L.gapless) := L.token_spaced hg (.inr (of_decide_eq_true more))
      refine runs_advance (runs_bind (runs_quiet (h.stmt (by omega) spaced) hush) fun (no : Stmt) _ _ _ scopes => ?_)
      exact gives (some no) scopes id
  exact runs_ite (fun _ => runs_advance (reads (by omega))) fun _ => reads (Nat.le_refl m')

theorem shows_loopBody (h : Reader.Shows L depth seen rec) (inner : E.typed = [] :: D.typed)
    (room : 2 * n + 2 ≤ depth) : ShowsBlock L quiet seen D E n G (loopBody rec) := runs_counted (h.block inner room)

theorem shows_whileLoop (h : Reader.Shows L depth seen rec) (room : 2 * n + 2 ≤ depth) :
    ShowsStmt L quiet seen D n G (whileLoop rec) := by
  unfold whileLoop
  refine runs_mark (runs_advance (shows_bind h (by omega) (by decide) fun test m hm => ?_))
  refine runs_expect (by decide) fun _ _ => ?_
  refine runs_bind (shows_loopBody h (E := [] :: D) rfl (by omega)) fun body _ _ _ scopes => ?_
  exact runs_pure scopes fun ⟨⟨hg, htest⟩, hbody⟩ => ⟨hg, List.forall_mem_cons.mpr ⟨htest, hbody⟩⟩

theorem shows_doLoop (h : Reader.Shows L depth seen rec) (room : 2 * n + 2 ≤ depth) :
    ShowsStmt L quiet seen D n G (doLoop rec) := by
  unfold doLoop
  refine runs_mark (runs_expect (by decide) fun _ left => ?_)
  refine runs_bind (shows_loopBody h (E := [] :: D) rfl (by omega)) fun body m τ hm scopes => ?_
  obtain rfl := scopes
  refine runs_expect (by decide) fun _ _ => runs_advance ?_
  refine shows_bind h (by omega) (by decide) fun test _ _ => ?_
  exact runs_pure rfl fun ⟨⟨hg, hbody⟩, htest⟩ => ⟨hg, List.forall_mem_cons.mpr ⟨htest, hbody⟩⟩

/-- A statement that is read in a scope of its own and declares no names. -/
theorem shows_inScope (quiet' : Scopes → Prop) {x : ParseM Stmt} {H : Stmt → Prop} (hush : ∀ υ, quiet' υ → quiet D.typed)
    (h : Runs L quiet' ([] :: D.typed) n G (fun s _ _ => s.declares D = D) H x x) :
    Runs L quiet D.typed n G (fun s _ τ => τ = (s.declares D).typed) H (inScope x) (inScope x) :=
  runs_mono (runs_inScope hush h) fun _ _ _ _ ⟨outside, same⟩ => ⟨outside.trans (congrArg _ same.symm), id⟩

theorem shows_forLoop (h : Reader.Shows L depth seen rec) (room : 2 * n + 2 ≤ depth) :
    ShowsStmt L (L.Quiet D.typed) seen D n G (forLoop rec) := by
  unfold forLoop
  refine runs_mark (runs_expect (by decide) fun _ left => ?_)
  refine shows_inScope (L.Quiet ([] :: D.typed)) (fun _ quiet => ⟨quiet.1, fun _ => rfl⟩) (runs_peekIs .semicolon ?_)
  extract_lets more
  have reads (init : Option Stmt) {k : Nat} (hk : k < n) :
      Runs L (L.Quiet ([] :: D.typed)) (Stmt.declaresOpt init ([] :: D)).typed k
        (G ∧ ∀ v ∈ Stmt.viewsOpt ([] :: D) init, v.Fits seen) (fun s _ _ => s.declares D = D) (fun s => G ∧ ∀ v ∈ s.views D, v.Fits seen) (more init) (more init) := by
    refine runs_expect (by decide) fun _ _ => runs_bind (shows_clause h (by omega)) fun test m τ hm scopes => ?_
    obtain rfl := scopes
    refine runs_expect (by decide) fun _ _ => runs_bind (shows_clause h (by omega)) fun update j τ hj scopes => ?_
    obtain rfl := scopes
    refine runs_expect (by decide) fun _ _ => runs_expect (by decide) fun _ _ => ?_
    refine runs_bind (shows_loopBody h (E := [] :: Stmt.declaresOpt init ([] :: D)) rfl (by omega))
      fun body _ _ _ _ => runs_pure rfl fun ⟨⟨⟨⟨hg, hinit⟩, htest⟩, hupdate⟩, hbody⟩ => ⟨hg, ?_⟩
    have clauses := List.forall_mem_append.mpr ⟨List.forall_mem_append.mpr ⟨hinit, htest⟩, hupdate⟩
    exact List.forall_mem_append.mpr ⟨clauses, hbody⟩
  refine runs_ite (fun _ => ?_) fun some => runs_advance ?_
  · rw [pure_bind]
    exact runs_history (fun hg => ⟨hg, fun _ => nofun⟩) (reads none (by omega))
  · have first := h.stmt (D := [] :: D) (n := n - 1 - 1) (G := G) (by omega) fun _ ended => some (decide_eq_true ended)
    refine runs_bind first fun (s : Stmt) m τ hm scopes => ?_
    obtain rfl := scopes
    rw [pure_bind]
    exact reads (Option.some s) (by omega)

theorem shows_forEach (h : Reader.Shows L depth seen rec) (room : 2 * n + 2 ≤ depth) :
    ShowsStmt L quiet seen D n G (forEach rec) := by
  unfold forEach
  refine runs_mark (runs_peekIs .lparen ?_)
  extract_lets header
  have reads {k : Nat} (hk : k ≤ n) : ShowsStmt L quiet seen D k G (header ()) := by
    refine runs_expectName fun _ left => runs_expect (by decide) fun _ _ => runs_advance ?_
    refine shows_bind h (by omega) (by decide) fun container m hm => ?_
    extract_lets body
    have loops {j : Nat} (hj : j ≤ m) : ShowsRest L quiet seen D G D.typed j (G ∧ seen D.typed container) (body ()) := by
      refine runs_expect (by decide) fun _ _ => ?_
      refine runs_bind (shows_loopBody h (E := [⟨(L.token (k - 1)).literal, none⟩] :: D) rfl (by omega))
        fun b _ _ _ scopes => ?_
      exact runs_pure scopes fun ⟨⟨hg, hcontainer⟩, hb⟩ => ⟨hg, List.forall_mem_cons.mpr ⟨hcontainer, hb⟩⟩
    refine runs_ite (fun _ => ?_) fun _ => loops (Nat.le_refl m)
    exact runs_expect (by decide) fun _ _ => loops (by omega)
  exact runs_ite (fun _ => runs_advance (reads (by omega))) fun _ => reads (Nat.le_refl n)

/-! ## Functions and handlers -/

/-- Parameters that are read behind others. -/
theorem shows_moreParams (h : Reader.Shows L depth seen rec) (done : List Param) (hn : n < k) (room : 2 * n ≤ depth + 2) :
    Runs L quiet D.typed n G (fun ps _ τ => ∃ more, ps = done.reverse ++ more ∧ τ = (Param.declares more D).typed)
      (fun ps => G ∧ ∀ more, ps = done.reverse ++ more → ∀ v ∈ Param.views D more, v.Fits seen) (moreParams rec k done)
      (moreParams rec k done) := by
  induction k generalizing n D done G with
  | zero => exact absurd hn (Nat.not_lt_zero n)
  | succ k ih =>
    rw [moreParams]
    refine runs_expectName fun _ left => ?_
    refine runs_steady_bind (steady_typeAfterColon h.agree (by omega)) fun type m hm _ => ?_
    extract_lets rest
    -- a parameter is in scope where its own default value is read
    refine runs_declareTyped (f := rest) (g := rest) ?_
    rw [← Declarations.typed_add]
    refine runs_bind (shows_initializer h (by omega)) fun fallback m' τ hm' scopes => ?_
    obtain rfl := scopes
    have joined (more : List Param) : (⟨(L.token (n - 1)).literal, type, fallback⟩ :: done).reverse ++ more =
        done.reverse ++ (⟨(L.token (n - 1)).literal, type, fallback⟩ :: more) := by simp
    refine runs_peekIs .comma (runs_ite (fun more => ?_) fun _ => runs_expect (by decide) fun _ _ => ?_)
    · have left := L.two_le_of_token (by decide) (of_decide_eq_true more)
      refine runs_advance (runs_mono (ih _ (by omega) (by omega)) fun ps j τ _ hps => ?_)
      obtain ⟨more, shape, scopes⟩ := hps
      refine ⟨⟨_, shape.trans (joined more), scopes⟩, fun given => ⟨given.1.1, fun ps' shape' => ?_⟩⟩
      rw [shape, joined] at shape'
      rw [← List.append_cancel_left shape']
      exact List.forall_mem_append.mpr ⟨given.1.2, given.2 more shape⟩
    · refine runs_pure ⟨[⟨(L.token (n - 1)).literal, type, fallback⟩], ?_, rfl⟩ fun given => ⟨given.1, fun ps' shape' => ?_⟩
      · rw [← joined, List.append_nil]
      · rw [← List.append_nil (List.reverse _), joined] at shape'
        rw [← List.append_cancel_left shape']
        exact List.forall_mem_append.mpr ⟨given.2, List.forall_mem_nil _⟩

theorem shows_function (h : Reader.Shows L depth seen rec) (room : 2 * n + 2 ≤ depth) :
    ShowsStmt L quiet seen D n G (function rec) := by
  unfold function
  refine runs_mark (runs_expectName fun _ left => runs_expect (by decide) fun _ _ => ?_)
  refine shows_inScope (fun _ => False) (fun _ => False.elim) (runs_peekIs .rparen ?_)
  extract_lets behind
  have reads (params : List Param) {k : Nat} (hk : k ≤ n) :
      Runs L (fun _ => False) (Param.declares params ([] :: D)).typed k (G ∧ ∀ v ∈ Param.views ([] :: D) params, v.Fits seen)
        (fun s _ _ => s.declares D = D) (fun s => G ∧ ∀ v ∈ s.views D, v.Fits seen) (behind params) (behind params) := by
    refine runs_peekIs .kwReturn ?_
    extract_lets body
    have reads_body (result : Option TypeSpec) {j : Nat} (hj : j ≤ n) :
        Runs L (fun _ => False) (Param.declares params ([] :: D)).typed j (G ∧ ∀ v ∈ Param.views ([] :: D) params, v.Fits seen)
          (fun s _ _ => s.declares D = D) (fun s => G ∧ ∀ v ∈ s.views D, v.Fits seen) (body result) (body result) := by
      refine runs_expect (by decide) fun _ _ => runs_get fun s hs => ?_
      refine runs_bind (runs_counted (h.block (E := [] :: Param.declares params ([] :: D)) rfl (by omega)))
        fun (b : Block) _ _ _ _ => ?_
      exact runs_pure rfl fun ⟨⟨hg, hparams⟩, hb⟩ => ⟨hg, List.forall_mem_append.mpr ⟨hparams, hb⟩⟩
    refine runs_ite (fun more => ?_) fun _ => ?_
    · have left := L.two_le_of_token (by decide) (of_decide_eq_true more)
      refine runs_advance (runs_advance (runs_steady_bind (h.agree.typeSpec (by omega)) fun (t : TypeSpec) m hm _ => ?_))
      rw [pure_bind]
      exact reads_body (some t) (by omega)
    · rw [pure_bind]
      exact reads_body none hk
  refine runs_ite (fun _ => runs_advance ?_) fun _ => runs_tokensLeft ?_
  · rw [pure_bind]
    exact runs_history (fun hg => ⟨hg, fun _ => nofun⟩) (reads [] (by omega))
  · refine runs_bind (shows_moreParams (D := [] :: D) h [] (Nat.lt_succ_self _) (by omega)) fun params m τ hm hparams => ?_
    obtain ⟨more, rfl, rfl⟩ := hparams
    exact runs_history (fun ⟨hg, hmore⟩ => ⟨hg, hmore _ rfl⟩) (reads _ (by omega))

/-- Handlers that are read behind others. -/
theorem shows_moreHandlers (h : Reader.Shows L depth seen rec) (done : List Handler) (hn : n < k) (room : 2 * n ≤ depth) :
    Runs L quiet D.typed n G (fun _ _ τ => τ = D.typed)
      (fun hs => G ∧ ∃ more, hs = done.reverse ++ more ∧ ∀ v ∈ Handler.views D more, v.Fits seen) (moreHandlers rec k done)
      (moreHandlers rec k done) := by
  induction k generalizing n done G with
  | zero => exact absurd hn (Nat.not_lt_zero n)
  | succ k ih =>
    rw [moreHandlers]
    refine runs_peekIs .kwWhen (runs_ite (fun more => ?_) fun _ => ?_)
    · have left := L.two_le_of_token (by decide) (of_decide_eq_true more)
      refine runs_advance (runs_mark (runs_expect (by decide) fun _ _ => runs_current ?_))
      extract_lets category body
      have reads (caught : Option Text) {m : Nat} (hm : m < n) : Runs L quiet D.typed m G (fun _ _ τ => τ = D.typed)
          (fun hs => G ∧ ∃ more, hs = done.reverse ++ more ∧ ∀ v ∈ Handler.views D more, v.Fits seen) (body caught)
          (body caught) := by
        have inner : Declarations.typed (caught.toList.map (⟨·, none⟩) :: D) = [] :: D.typed := by
          cases caught <;> rfl
        refine runs_expect (by decide) fun _ _ => runs_bind (h.block inner (by omega)) fun (b : Block) j τ hj scopes => ?_
        obtain rfl := scopes
        refine runs_mono (ih _ (by omega) (by omega)) fun hs _ _ _ same => ⟨same, fun given => ?_⟩
        obtain ⟨⟨hg, hb⟩, more, shape, hmore⟩ := given
        refine ⟨hg, .mk (markOf (L.token (n - 1))) category caught b :: more, by simpa using shape, ?_⟩
        exact List.forall_mem_append.mpr ⟨hb, hmore⟩
      refine runs_peekIs .lparen (runs_ite (fun _ => runs_advance ?_) fun _ => ?_)
      · refine runs_expectName fun _ _ => runs_expect (by decide) fun _ _ => ?_
        rw [pure_bind]
        exact reads (some _) (by omega)
      · rw [pure_bind]
        exact reads none (by omega)
    · refine runs_expect (by decide) fun _ _ => runs_pure rfl fun hg => ⟨hg, [], ?_, List.forall_mem_nil _⟩
      rw [List.append_nil]

theorem shows_tryStatement (h : Reader.Shows L depth seen rec) (room : 2 * n + 2 ≤ depth) :
    ShowsStmt L quiet seen D n G (tryStatement rec) := by
  unfold tryStatement
  refine runs_mark (runs_expect (by decide) fun _ _ => ?_)
  refine runs_bind (h.block (E := [] :: D) rfl (by omega)) fun (b : Block) m τ hm scopes => ?_
  obtain rfl := scopes
  refine runs_expect (by decide) fun _ _ => runs_expect (by decide) fun _ _ => runs_tokensLeft ?_
  refine runs_bind (shows_moreHandlers h [] (Nat.lt_succ_self _) (by omega)) fun hs _ _ _ scopes => ?_
  refine runs_ite (fun _ => runs_fault _ _ _) fun _ => runs_pure scopes fun ⟨⟨hg, hb⟩, more, shape, hmore⟩ => ?_
  obtain rfl : hs = more := shape
  exact ⟨hg, List.forall_mem_append.mpr ⟨hb, hmore⟩⟩

/-! ## All statements -/

theorem shows_statement (h : Reader.Shows L depth seen rec) (room : 2 * n + 2 ≤ depth)
    (some : L.gapless → (L.token n).kind ≠ .semicolon) :
    ShowsStmt L (L.Quiet D.typed) seen D n G (statement L.catalog rec) := by
  unfold statement
  refine runs_mark (runs_current ?_)
  cases kind : (L.token n).kind with
  | semicolon => exact runs_failure fun _ => ⟨fun hg => some hg kind, fun _ => rfl⟩
  | illegal => exact runs_failure fun ht => absurd kind (L.token_legal ht n)
  | kwVar | kwConst => exact shows_declaration h room
  | kwFunction => exact shows_function h room
  | kwReturn => exact shows_returning h room
  | kwIf => exact h.cond room
  | kwWhile => exact shows_whileLoop h room
  | kwDo => exact shows_doLoop h room
  | kwFor => exact shows_forLoop h room
  | kwForeach => exact shows_forEach h room
  | kwBreak | kwContinue => exact shows_loopControl
  | kwPrint => exact runs_advance (shows_single h (by omega) (fun _ => rfl) fun _ => rfl)
  | kwCall => exact shows_callStatement h room
  | kwTry => exact shows_tryStatement h room
  | kwRaise => exact shows_raising h room
  | kwImport => exact runs_expect (by decide) fun _ _ => runs_current (shows_bare rfl rfl)
  | lbrace => exact shows_blockStatement h room
  | ident =>
    refine runs_peekIs .kwTypeof (runs_ite (fun more => ?_) fun _ => ?_)
    · exact shows_typedef h room ⟨kind, of_decide_eq_true more⟩
    · exact runs_mark (shows_single h (by omega) (fun _ => rfl) fun _ => rfl)
  | _ => exact runs_mark (shows_single h (by omega) (fun _ => rfl) fun _ => rfl)

/-! ## Lists of statements -/

/-- The names in scope can be told behind each statement of the tokens: no token is illegal, and not both an empty
statement and a declaration stand right behind `then` or `else`. -/
structure Course.Traced (L : Course) : Prop where
  tidy : L.tidy
  branches : L.gapless ∨ L.apart

/-- What is read without faults behind the statements that are done fits the names in scope. -/
abbrev KeptList (seen : Scopes → Expr → Prop) (D : Declarations) (done : List Stmt) (s : ParseState)
    (x : ParseM (List Stmt)) : Prop :=
  (x.run.run s).2.faults = [] → ∀ ss, (x.run.run s).1 = some ss →
    ∃ more, ss = done.reverse ++ more ∧ ∀ v ∈ Stmt.viewsAll D more, v.Fits seen

/-- A statement of a list that is read without faults, or nothing, leaves what it declares in scope. -/
theorem kept_statement (h : Reader.Shows L depth seen rec) (traced : L.Traced) (room : 2 * n + 3 ≤ depth) {s : ParseState}
    (hs : L.At D.typed n s) (clean : ((rec .stmt).run.run s).2.faults = []) :
    ∃ m ≤ n, L.At (Stmt.declaresOpt ((rec .stmt).run.run s).1 D).typed m ((rec .stmt).run.run s).2 ∧
      ∀ v ∈ Stmt.viewsOpt D ((rec .stmt).run.run s).1, v.Fits seen := by
  by_cases empty : (L.token n).kind = .semicolon
  · obtain ⟨run, -⟩ := h.agree.empty room hs empty
    rw [run]
    exact ⟨n, Nat.le_refl n, hs, List.forall_mem_nil _⟩
  · have ends : Ends L (L.Quiet D.typed) D.typed n True (fun st _ τ => τ = (st.declares D).typed)
        (fun st => True ∧ ∀ v ∈ st.views D, v.Fits seen) s ((rec .stmt).run.run s) ((rec .stmt).run.run s) :=
      h.stmt room (fun _ => empty) s hs
    obtain ⟨⟨m, τ, hm, -, place, promise⟩, -, loud, kept, -⟩ := ends
    refine ⟨m, hm, ?_⟩
    generalize (rec .stmt).run.run s = r at clean place promise loud kept
    obtain ⟨r, t⟩ := r
    cases r with
    | none =>
      rcases loud traced.tidy rfl with more | ⟨gaps, still⟩
      · rw [clean] at more
        exact absurd more (Nat.not_lt_zero _)
      -- what is passed over silently declares nothing
      · obtain rfl : τ = D.typed := place.scopes.symm.trans (still (traced.branches.resolve_left gaps))
        exact ⟨place, List.forall_mem_nil _⟩
    | some st =>
      obtain rfl := promise st rfl
      exact ⟨place, (kept trivial clean st rfl).2⟩

/-- One statement of a list and then those behind it. -/
theorem kept_moreStatements (h : Reader.Shows L depth seen rec) (traced : L.Traced) {done : List Stmt}
    {more : List Stmt → ParseM (List Stmt)} (hn : 1 ≤ n) (room : 2 * n + 3 ≤ depth)
    (faults : ∀ done m τ t, m < n → L.At τ m t → t.faults.length ≤ ((more done).run.run t).2.faults.length)
    (rest : ∀ done E m t, m < n → L.At (Declarations.typed E) m t → KeptList seen E done t (more done))
    {s : ParseState} (hs : L.At D.typed n s) :
    KeptList seen D done s (do
      let s ← listedStatement rec
      advance
      more (match s with
        | some s => s :: done
        | none => done)) := by
  intro clean ss hss
  have single := kept_statement h traced room hs
  have placed : ∃ m ≤ n, ∃ τ, L.At τ m ((rec .stmt).run.run s).2 := by
    rcases h.agree.ends (G := False) room hs with ⟨⟨m, τ, hm, -, place, -⟩, -⟩ | ⟨run, -⟩
    · exact ⟨m, hm, τ, place⟩
    · rw [run]
      exact ⟨n, Nat.le_refl n, _, hs⟩
  rw [run_bind, run_listedStatement rec] at clean hss
  generalize (rec .stmt).run.run s = r at clean hss single placed
  obtain ⟨r, t⟩ := r
  have onward {τ : Scopes} {m : Nat} (hm : m ≤ n) (place : L.At τ m t) : ∃ m' < n, L.At τ m' t.pastSemicolon.advanced := by
    obtain ⟨m', hm', place'⟩ := place.pastSemicolon
    exact ⟨m' - 1, by omega, place'.advance⟩
  change ((more _).run.run t.pastSemicolon.advanced).2.faults = [] at clean
  change ((more _).run.run t.pastSemicolon.advanced).1 = some ss at hss
  -- a run with no faults had none behind the statement
  have unharmed : t.faults = [] := by
    obtain ⟨m, hm, τ, place⟩ := placed
    obtain ⟨m', hm', place'⟩ := onward hm place
    have none := Nat.le_zero.mp ((faults _ m' τ _ hm' place').trans_eq (congrArg List.length clean))
    have same : t.pastSemicolon.advanced.faults = t.faults := faults_pastSemicolon t
    exact same.symm.trans (List.eq_nil_of_length_eq_zero none)
  obtain ⟨m, hm, place, fits⟩ := single unharmed
  obtain ⟨m', hm', place'⟩ := onward hm place
  have fewer : ¬ s.faults.length < t.faults.length := by
    rw [unharmed]
    exact Nat.not_lt_zero _
  rw [if_neg fewer] at clean hss
  obtain ⟨more, shape, hmore⟩ := rest _ _ m' _ hm' place' clean ss hss
  have joined (st : Stmt) : (st :: done).reverse ++ more = done.reverse ++ (st :: more) := by simp
  cases r with
  | none => exact ⟨more, shape, hmore⟩
  | some st => exact ⟨st :: more, shape.trans (joined st), List.forall_mem_append.mpr ⟨fits, hmore⟩⟩

theorem kept_blockBody (h : Reader.Shows L depth seen rec) (traced : L.Traced) {m : Mark} {done : List Stmt} (hn : n < k)
    (room : 1 ≤ n → 2 * n + 3 ≤ depth) {s : ParseState} (hs : L.At D.typed n s) :
    KeptList seen D done s (blockBody rec m k done) := by
  induction k generalizing n D done s with
  | zero => exact absurd hn (Nat.not_lt_zero n)
  | succ k ih =>
    have seen : Goes current s (pure (L.token n)) s := congrArg (fun t => (some t, s)) (hs.ahead 0)
    have run : (blockBody rec m (k + 1) done).run.run s = _ := seen.andThen (Goes.refl _ _)
    unfold KeptList
    rw [run]
    dsimp only
    split
    · intro _ ss hss
      cases hss
      exact ⟨[], by simp, List.forall_mem_nil _⟩
    split
    · exact fun _ _ => nofun
    · rename_i more
      have left : 1 ≤ n := L.one_le_of_token more rfl
      refine kept_moreStatements h traced left (room left) (fun done j τ t hj ht => ?_) (fun done E j t hj ht => ?_) hs
      · have runs : RunsList L (fun _ => False) τ j False done (blockBody rec m k done) (blockBody rec m k done) :=
          runs_blockBody h.agree (by omega) (by omega)
        exact (runs t ht).faults
      · exact ih (by omega) (by omega) ht

theorem shows_block (h : Reader.Shows L depth seen rec) (traced : L.Traced) (inner : E.typed = [] :: D.typed)
    (room : 2 * n + 1 ≤ depth) : ShowsBlock L quiet seen D E n G (block rec) := by
  unfold block
  refine runs_mono (runs_mark (runs_inScope (P := fun _ => True) (fun _ => False.elim) (runs_advance (runs_tokensLeft ?_))))
    fun _ _ _ _ scopes => ⟨scopes.1, id⟩
  rw [← inner]
  have body : ∀ m : Mark, Runs L (fun _ => False) E.typed (n - 1) False _ _ (blockBody rec m (n - 1 + 1) []) _ := fun m =>
    runs_blockBody (G := False) h.agree (Nat.lt_succ_self _) (by omega)
  have kept : ∀ (m : Mark) (s : ParseState), L.At E.typed (n - 1) s →
      KeptList seen E [] s (blockBody rec m (n - 1 + 1) []) := fun m s hs =>
    kept_blockBody h traced (Nat.lt_succ_self _) (by omega) hs
  refine runs_bind (runs_kept (body _) fun s hs => kept _ s hs) fun ss _ _ _ _ =>
    runs_pure trivial fun ⟨hg, more, shape, fits⟩ => ?_
  obtain rfl : ss = more := shape
  exact ⟨hg, fits⟩

theorem kept_programBody (h : Reader.Shows L depth seen rec) (traced : L.Traced) (done : List Stmt) (hn : n < k)
    (room : 2 * n + 3 ≤ depth) {s : ParseState} (hs : L.At D.typed n s) :
    KeptList seen D done s (programBody rec k done) := by
  induction k generalizing n D done s with
  | zero => exact absurd hn (Nat.not_lt_zero n)
  | succ k ih =>
    have ended : Goes (currentIs .eof) s (pure (decide ((L.token n).kind = .eof))) s :=
      congrArg (fun t : Token => (some (decide (t.kind = .eof)), s)) (hs.ahead 0)
    have run : (programBody rec (k + 1) done).run.run s = _ := ended.andThen (Goes.refl _ _)
    unfold KeptList
    rw [run]
    split
    · intro _ ss hss
      cases hss
      exact ⟨[], by simp, List.forall_mem_nil _⟩
    · rename_i more
      have left : 1 ≤ n := L.one_le_of_token (fun ended => more (decide_eq_true ended)) rfl
      refine kept_moreStatements h traced left room (fun done j τ t hj ht => ?_) (fun done E j t hj ht => ?_) hs
      · have runs : RunsList L (fun _ => False) τ j False done (programBody rec k done) (programBody rec k done) :=
          runs_programBody h.agree done (by omega) (by omega) (by omega)
        exact (runs t ht).faults
      · exact ih done (by omega) (by omega) ht

end ScriptEngine.Parser
