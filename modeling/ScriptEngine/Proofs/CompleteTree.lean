import Mathlib.Logic.Relation
import ScriptEngine.Program.Parser
import ScriptEngine.Proofs.TokenStream
/-!
# Complete trees

The tree of a program is complete when nothing that a node needs is missing: names are words, members have a path,
targets of assignments are assignable, every handler list has a handler, and calls of builtins have passed the static
checks. Those depend on the kinds of the names in scope, so a tree is complete in scopes, which the declarations in the
tree extend on the way. So may a statement that is left out of a list, and a type may be one that was given a name where
other names were in scope: which scopes such a statement leads to, and which expressions such types have, are parameters.
-/

namespace ScriptEngine

/-! ## Scopes -/

/-- The kinds of names in scope, innermost scope first. -/
abbrev Scopes := List (List (Text × Kind))

namespace Scopes

/-- Scopes with one more name in the innermost one. -/
def declare (σ : Scopes) (name : Text) (k : Kind) : Scopes :=
  match σ with
  | [] => []
  | scope :: outer => ((name, k) :: scope) :: outer

/-- Names have been added to the innermost scope. -/
inductive Grown : Scopes → Scopes → Prop where
  | refl (σ : Scopes) : Grown σ σ
  | declare {σ τ : Scopes} (name : Text) (k : Kind) : Grown σ τ → Grown σ (declare τ name k)

theorem Grown.trans {σ τ υ : Scopes} (h : Grown σ τ) (h' : Grown τ υ) : Grown σ υ := by
  induction h' with
  | refl => exact h
  | declare name k _ ih => exact .declare name k ih

/-- Only the innermost scope grows. -/
theorem Grown.drop {σ τ : Scopes} (h : Grown σ τ) : τ.drop 1 = σ.drop 1 := by
  induction h with
  | refl => rfl
  | @declare τ name k _ ih =>
    rw [← ih]
    cases τ <;> rfl

/-- No scope is added or left. -/
theorem Grown.length {σ τ : Scopes} (h : Grown σ τ) : τ.length = σ.length := by
  induction h with
  | refl => rfl
  | @declare τ name k _ ih =>
    rw [← ih]
    cases τ <;> rfl

end Scopes

/-! ## Expressions -/

/-- A call of a builtin or plugin passes the static checks; one whose signature is not known is that of a plugin. -/
def Catalog.Admits (c : Catalog) (σ : Scopes) (function : Text) (args : List Expr) : Prop :=
  match Parser.Catalog.find? c function with
  | some s => s.checkArity args.length = none ∧ s.checkKinds (args.map (Expr.staticKind σ)) = none
  | none => isPluginName function = true

/-- Whether an expression is a call. -/
def Expr.isCall : Expr → Bool
  | .call .. => true
  | _ => false

mutual

/-- An expression is complete in scopes. -/
def Expr.Complete (c : Catalog) (σ : Scopes) : Expr → Prop
  | .name _ v => v.IsWord
  | .array _ es => Expr.AllComplete c σ es
  | .object _ ps => Expr.PairsComplete c σ ps
  | .unary _ _ e | .length _ e | .typeOf _ e => e.Complete c σ
  | .binary _ _ l r => l.Complete c σ ∧ r.Complete c σ
  | .assign _ _ t v => t.isTarget = true ∧ t.Complete c σ ∧ v.Complete c σ
  | .step _ _ t => t.isTarget = true ∧ t.Complete c σ
  | .index _ a k => a.Complete c σ ∧ k.Complete c σ
  | .member _ base path => base.bytes ≠ [] ∧ path ≠ []
  | .call _ f args names builtin _ => f.IsWord ∧ Expr.AllComplete c σ args ∧
      (names = [] ∨ names.length = args.length) ∧ builtin = f.contains "." ∧ (builtin = true → c.Admits σ f args)
  | .int .. | .long .. | .double .. | .string .. | .date .. | .bool .. | .null .. => True

/-- Expressions are complete in scopes. -/
def Expr.AllComplete (c : Catalog) (σ : Scopes) : List Expr → Prop
  | [] => True
  | e :: es => e.Complete c σ ∧ Expr.AllComplete c σ es

/-- The values of an object are complete in scopes. -/
def Expr.PairsComplete (c : Catalog) (σ : Scopes) : List (Text × Expr) → Prop
  | [] => True
  | (_, e) :: ps => e.Complete c σ ∧ Expr.PairsComplete c σ ps

end

/-- An optional expression is complete in scopes. -/
def Expr.OptComplete (c : Catalog) (σ : Scopes) (e : Option Expr) : Prop := ∀ x, e = some x → x.Complete c σ

theorem Expr.allComplete_iff {c : Catalog} {σ : Scopes} {es : List Expr} :
    Expr.AllComplete c σ es ↔ ∀ e ∈ es, e.Complete c σ := by
  induction es with
  | nil => simp [Expr.AllComplete]
  | cons e es ih => simp [Expr.AllComplete, ih]

theorem Expr.pairsComplete_iff {c : Catalog} {σ : Scopes} {ps : List (Text × Expr)} :
    Expr.PairsComplete c σ ps ↔ ∀ p ∈ ps, p.2.Complete c σ := by
  induction ps with
  | nil => simp [Expr.PairsComplete]
  | cons p ps ih => simp [Expr.PairsComplete, ih]

/-! ## Declared types -/

/-- An optional expression fits. -/
def Expr.OptFits (fits : Expr → Prop) (e : Option Expr) : Prop := ∀ x, e = some x → fits x

mutual

/-- A declared type is complete, and each expression in it fits. -/
def TypeSpec.Complete (fits : Expr → Prop) : TypeSpec → Prop
  | .mk _ name _ dims _ fields =>
    (∃ w ∈ Token.typeWords, name = w.2) ∧ (∀ e ∈ dims, Expr.OptFits fits e) ∧
      match fields with
      | some fs => FieldSpec.AllComplete fits fs
      | none => name ≠ "record"

/-- Record fields are complete. -/
def FieldSpec.AllComplete (fits : Expr → Prop) : List FieldSpec → Prop
  | [] => True
  | f :: fs => f.Complete fits ∧ FieldSpec.AllComplete fits fs

/-- A record field is complete. -/
def FieldSpec.Complete (fits : Expr → Prop) : FieldSpec → Prop
  | .mk name type _ _ default => name.IsUndotted ∧ type.Complete fits ∧ Expr.OptFits fits default

end

/-- An optional type is complete. -/
def TypeSpec.OptComplete (fits : Expr → Prop) (t : Option TypeSpec) : Prop := ∀ x, t = some x → x.Complete fits

theorem FieldSpec.allComplete_iff {fits : Expr → Prop} {fs : List FieldSpec} :
    FieldSpec.AllComplete fits fs ↔ ∀ f ∈ fs, f.Complete fits := by
  induction fs with
  | nil => simp [FieldSpec.AllComplete]
  | cons f fs ih => simp [FieldSpec.AllComplete, ih]

mutual

/-- The expressions in a declared type. -/
def TypeSpec.exprs : TypeSpec → List Expr
  | .mk _ _ _ dims _ fields => dims.filterMap id ++
      match fields with
      | some fs => FieldSpec.allExprs fs
      | none => []

/-- The expressions in record fields. -/
def FieldSpec.allExprs : List FieldSpec → List Expr
  | [] => []
  | f :: fs => f.exprs ++ FieldSpec.allExprs fs

/-- The expressions in a record field. -/
def FieldSpec.exprs : FieldSpec → List Expr
  | .mk _ type _ _ default => type.exprs ++ default.toList

end

section

variable {fits fits' : Expr → Prop}

mutual

/-- A complete type stays complete when more is known of the expressions in it. -/
theorem TypeSpec.Complete.mono (t : TypeSpec) :
    t.Complete fits → (∀ x ∈ t.exprs, fits x → fits' x) → t.Complete fits' := by
  obtain ⟨m, name, isArray, dims, sorted, fields⟩ := t
  have sized (given : ∀ e ∈ dims, Expr.OptFits fits e)
      (more : ∀ x ∈ (TypeSpec.mk m name isArray dims sorted fields).exprs, fits x → fits' x) :
      ∀ e ∈ dims, Expr.OptFits fits' e := by
    intro e he x hx
    refine more x ?_ (given e he x hx)
    unfold TypeSpec.exprs
    exact List.mem_append_left _ (List.mem_filterMap.mpr ⟨e, he, hx⟩)
  cases fields with
  | none => exact fun ⟨known, given, bare⟩ more => ⟨known, sized given more, bare⟩
  | some fs =>
    rintro ⟨known, given, inner⟩ more
    exact ⟨known, sized given more, FieldSpec.AllComplete.mono fs inner fun x hx => more x (List.mem_append_right _ hx)⟩

theorem FieldSpec.AllComplete.mono (fs : List FieldSpec) :
    FieldSpec.AllComplete fits fs → (∀ x ∈ FieldSpec.allExprs fs, fits x → fits' x) → FieldSpec.AllComplete fits' fs := by
  cases fs with
  | nil => exact fun h _ => h
  | cons f fs =>
    intro h more
    exact ⟨FieldSpec.Complete.mono f h.1 fun x hx => more x (List.mem_append_left _ hx),
      FieldSpec.AllComplete.mono fs h.2 fun x hx => more x (List.mem_append_right _ hx)⟩

theorem FieldSpec.Complete.mono (f : FieldSpec) :
    f.Complete fits → (∀ x ∈ f.exprs, fits x → fits' x) → f.Complete fits' := by
  cases f with
  | mk name type mandatory maxLength default =>
    rintro ⟨undotted, complete, given⟩ more
    refine ⟨undotted, TypeSpec.Complete.mono type complete fun x hx => more x (List.mem_append_left _ hx), ?_⟩
    exact fun x hx => more x (List.mem_append_right _ (Option.mem_toList.mpr hx)) (given x hx)

end

end

/-! ## The scopes behind declarations -/

/-- The scopes behind the declaration of a name with an optional type. -/
def TypeSpec.declaredIn (t : Option TypeSpec) (name : Text) (σ : Scopes) : Scopes :=
  match t with
  | some t => σ.declare name t.kind
  | none => σ

mutual

/-- The scopes behind a statement. Blocks and loops have scopes of their own. -/
def Stmt.after : Stmt → Scopes → Scopes
  | .declare _ name type _ _, σ => TypeSpec.declaredIn type name σ
  | .cond _ _ yes no, σ => Stmt.afterOpt no (yes.after σ)
  | _, σ => σ

/-- The scopes behind an optional statement. -/
def Stmt.afterOpt : Option Stmt → Scopes → Scopes
  | some s, σ => s.after σ
  | none, σ => σ

end

/-- The scopes behind parameters. -/
def Param.after : List Param → Scopes → Scopes
  | [], σ => σ
  | p :: ps, σ => Param.after ps (TypeSpec.declaredIn p.type p.name σ)

/-! ## Statements -/

/-- What a tree takes from elsewhere: the signatures that calls are checked against, to which scopes a statement that is left
out may lead, and what is known of the expressions in types that were given names. -/
structure Elsewhere where
  catalog : Catalog
  left : Scopes → Scopes → Prop
  named : Expr → Prop

/-- An expression in a declared type is complete in the scopes in which the type stands, or came with a name. -/
def Elsewhere.Fits (w : Elsewhere) (σ : Scopes) (e : Expr) : Prop := e.Complete w.catalog σ ∨ w.named e

/-- Parameters are complete in scopes; the value that stands in for an argument may use the parameters up to it. -/
def Param.AllComplete (w : Elsewhere) : Scopes → List Param → Prop
  | _, [] => True
  | σ, p :: ps => p.name.IsUndotted ∧ TypeSpec.OptComplete (w.Fits σ) p.type ∧
      Expr.OptComplete w.catalog (TypeSpec.declaredIn p.type p.name σ) p.fallback ∧
        Param.AllComplete w (TypeSpec.declaredIn p.type p.name σ) ps

mutual

/-- A statement is complete in scopes. -/
def Stmt.Complete (w : Elsewhere) (σ : Scopes) : Stmt → Prop
  | .declare _ name type value constant => name.IsUndotted ∧ TypeSpec.OptComplete (w.Fits σ) type ∧
      Expr.OptComplete w.catalog σ value ∧ (constant = true → value.isSome = true)
  | .typedef _ name type => name.IsUndotted ∧ type.Complete (w.Fits σ)
  | .returns _ value => Expr.OptComplete w.catalog σ value
  | .expr _ e | .print _ e => e.Complete w.catalog σ
  | .call _ e => e.isCall = true ∧ e.Complete w.catalog σ
  | .function _ name params result body => name.IsUndotted ∧ Param.AllComplete w ([] :: σ) params ∧
      TypeSpec.OptComplete (w.Fits (Param.after params ([] :: σ))) result ∧ body.Complete w (Param.after params ([] :: σ))
  | .block b => b.Complete w σ
  | .cond _ test yes no => test.Complete w.catalog σ ∧ yes.Complete w σ ∧ Stmt.OptComplete w (yes.after σ) no
  | .whileLoop _ test body | .doLoop _ body test => test.Complete w.catalog σ ∧ body.Complete w σ
  | .forLoop _ init test update body => Stmt.OptComplete w ([] :: σ) init ∧
      Expr.OptComplete w.catalog (Stmt.afterOpt init ([] :: σ)) test ∧
        Expr.OptComplete w.catalog (Stmt.afterOpt init ([] :: σ)) update ∧ body.Complete w (Stmt.afterOpt init ([] :: σ))
  | .forEach _ item container body => item.IsUndotted ∧ container.Complete w.catalog σ ∧ body.Complete w σ
  | .tries _ body handlers => body.Complete w σ ∧ handlers ≠ [] ∧ Handler.AllComplete w σ handlers
  | .raise _ category args => category.bytes ≠ [] ∧ Expr.AllComplete w.catalog σ args
  | .breaks _ | .continues _ | .imports .. => True

/-- An optional statement is complete in scopes. -/
def Stmt.OptComplete (w : Elsewhere) (σ : Scopes) : Option Stmt → Prop
  | some s => s.Complete w σ
  | none => True

/-- A block is complete in scopes; it has a scope of its own. -/
def Block.Complete (w : Elsewhere) (σ : Scopes) : Block → Prop
  | .mk _ ss => Stmt.AllComplete w ([] :: σ) ss

/-- The statements of a list are complete, each in the scopes behind the one before it. Statements that were left out in
between may have led to other scopes. -/
def Stmt.AllComplete (w : Elsewhere) (σ : Scopes) : List Stmt → Prop
  | [] => True
  | s :: ss => ∃ τ, Relation.ReflTransGen w.left σ τ ∧ s.Complete w τ ∧ Stmt.AllComplete w (s.after τ) ss

/-- Exception handlers are complete in scopes. -/
def Handler.AllComplete (w : Elsewhere) (σ : Scopes) : List Handler → Prop
  | [] => True
  | .mk _ category caught body :: hs => category.bytes ≠ [] ∧ (∀ n, caught = some n → n.IsUndotted) ∧
      body.Complete w σ ∧ Handler.AllComplete w σ hs

end

/-- A statement that is left out before a list of statements does not matter. -/
theorem Stmt.AllComplete.behind {w : Elsewhere} {σ τ : Scopes} (h : w.left σ τ)
    {ss : List Stmt} (hs : Stmt.AllComplete w τ ss) : Stmt.AllComplete w σ ss := by
  cases ss with
  | nil => exact hs
  | cons s ss =>
    obtain ⟨υ, more, complete, rest⟩ := hs
    exact ⟨υ, .head h more, complete, rest⟩

theorem Handler.allComplete_iff {w : Elsewhere} {σ : Scopes} {hs : List Handler} :
    Handler.AllComplete w σ hs ↔
      ∀ h ∈ hs, h.category.bytes ≠ [] ∧ (∀ n, h.caught = some n → n.IsUndotted) ∧ h.body.Complete w σ := by
  induction hs with
  | nil => simp [Handler.AllComplete]
  | cons h hs ih =>
    obtain ⟨mark, category, caught, body⟩ := h
    simp [Handler.AllComplete, Handler.category, Handler.caught, Handler.body, ih, and_assoc]

/-! ## Statements inside statements -/

mutual

/-- The statements inside a statement, without the statement itself. -/
def Stmt.inner : Stmt → List Stmt
  | .function _ _ _ _ body | .block body | .whileLoop _ _ body | .doLoop _ body _ | .forEach _ _ _ body =>
    body.statements
  | .cond _ _ yes no => yes :: yes.inner ++ Stmt.ofOpt no
  | .forLoop _ init _ _ body => Stmt.ofOpt init ++ body.statements
  | .tries _ body handlers => body.statements ++ Handler.statements handlers
  | _ => []

/-- The statements of a block and those inside them. -/
def Block.statements : Block → List Stmt
  | .mk _ ss => Stmt.ofAll ss

/-- The statements of a list and those inside them. -/
def Stmt.ofAll : List Stmt → List Stmt
  | [] => []
  | s :: ss => s :: s.inner ++ Stmt.ofAll ss

/-- An optional statement and the statements inside it. -/
def Stmt.ofOpt : Option Stmt → List Stmt
  | some s => s :: s.inner
  | none => []

/-- The statements of the bodies of handlers. -/
def Handler.statements : List Handler → List Stmt
  | [] => []
  | .mk _ _ _ body :: hs => body.statements ++ Handler.statements hs

end

/-- All statements of a program. -/
def Program.statements (p : Program) : List Stmt := Stmt.ofAll p.body

theorem Stmt.mem_ofAll {s t : Stmt} {ss : List Stmt} (hs : s ∈ ss) (ht : t ∈ s :: s.inner) : t ∈ Stmt.ofAll ss := by
  induction ss with
  | nil => cases hs
  | cons u ss ih =>
    rw [Stmt.ofAll, List.mem_append]
    rcases List.mem_cons.mp hs with rfl | hs
    · exact .inl ht
    · exact .inr (ih hs)

theorem Handler.mem_statements {h : Handler} {hs : List Handler} (hh : h ∈ hs) {s : Stmt}
    (hb : s ∈ h.body.statements) : s ∈ Handler.statements hs := by
  induction hs with
  | nil => cases hh
  | cons k hs ih =>
    obtain ⟨mark, category, caught, body⟩ := k
    rw [Handler.statements, List.mem_append]
    rcases List.mem_cons.mp hh with rfl | hh
    · exact .inl hb
    · exact .inr (ih hh)

end ScriptEngine
