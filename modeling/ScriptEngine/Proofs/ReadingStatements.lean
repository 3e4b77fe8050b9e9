import ScriptEngine.Proofs.ReadingExpressions
/-!
# The course of reading statements

Each computation that reads a declared type or a statement keeps its contract when the readers of the parts inside do.

A type that is read is complete: it has the canonical name of a type, a record has its fields, and what stands for a
size or a default value is complete where the type stands, or was where the type was given a name.

A statement that is read is complete in the scopes in which it begins, and it leaves the scopes behind that it declares
names in. What was held of a part of it is held of the statements inside it. In a tidy text, what is not read has
recorded a fault, or it is a condition with an empty branch or a loop that begins with one. Such a statement leaves the
names in scope as they were, unless a branch of it is a declaration.
-/

namespace ScriptEngine.Parser

variable {L : Course} {quiet : Scopes → Prop} {σ : Scopes} {n k depth : Nat} {G : Prop} {rec rec' : Reader}

/-! ## Constraints, fields and dimensions -/

theorem steady_constraints (h : Reader.Agree L depth rec rec') {mandatory : Bool} {maxLength : Nat}
    {fallback : Option Expr} (hn : n < k) (room : 2 * n ≤ depth)
    (hd : L.formed → Expr.OptFits (L.Fits σ) fallback) :
    Steady L σ n (fun r => Expr.OptFits (L.Fits σ) r.2.2) (constraints rec k mandatory maxLength fallback)
      (constraints rec' k mandatory maxLength fallback) := by
  induction k generalizing n mandatory maxLength fallback with
  | zero => exact absurd hn (Nat.not_lt_zero n)
  | succ k ih =>
    intro quiet G
    rw [constraints, constraints]
    refine runs_peekIs .ident (runs_ite (fun more => ?_) fun _ => runs_pure ⟨rfl, hd⟩ id)
    have left := L.two_le_of_token (by decide) (of_decide_eq_true more)
    refine runs_advance (runs_current (runs_ite (fun _ => ?_) fun _ => runs_ite (fun _ => ?_) fun _ => ?_))
    · exact ih (by omega) (by omega) hd G
    · refine runs_expect (by decide) fun _ _ => runs_current ?_
      exact runs_ite (fun _ => runs_fault _ _ _) fun _ => ih (by omega) (by omega) hd G
    · refine runs_ite (fun _ => ?_) fun _ => runs_fault _ _ _
      refine runs_advance (runs_steady_bind (h.expr (by omega) (by decide)) fun (e : Expr) m hm he => ?_)
      refine ih (by omega) (by omega) (fun hf x hx => ?_) G
      exact .inl (Option.some.inj hx ▸ he hf)

theorem steady_moreFields (h : Reader.Agree L depth rec rec') {done : List FieldSpec} {seen : List Text} (hn : n < k)
    (room : 2 * n ≤ depth) (hd : L.formed → ∀ f ∈ done, f.Complete (L.Fits σ)) :
    Steady L σ n (FieldSpec.AllComplete (L.Fits σ)) (moreFields rec k done seen) (moreFields rec' k done seen) := by
  induction k generalizing n done seen with
  | zero => exact absurd hn (Nat.not_lt_zero n)
  | succ k ih =>
    intro quiet G
    rw [moreFields, moreFields]
    refine runs_peekIs .rbrace (runs_ite (fun _ => ?_) fun _ => ?_)
    · exact runs_advance (runs_pure ⟨rfl, fun hf => FieldSpec.allComplete_iff.mpr fun f hx =>
        hd hf f (List.mem_reverse.mp hx)⟩ id)
    refine runs_expectName fun name left => ?_
    extract_lets field field'
    have reads : Runs L quiet σ (n - 1) G (fun fs _ τ => τ = σ ∧ (L.formed → FieldSpec.AllComplete (L.Fits σ) fs))
        (fun _ => G) (field ()) (field' ()) := by
      refine runs_expect (by decide) fun _ _ => runs_advance ?_
      refine runs_steady_bind (h.typeSpec (by omega)) fun (t : TypeSpec) m hm ht => runs_tokensLeft ?_
      refine runs_steady_bind (steady_constraints h (Nat.lt_succ_self m) (by omega) fun _ _ => nofun)
        fun r m' hm' hr => ?_
      have complete (hf : L.formed) : ∀ f ∈ FieldSpec.mk (L.token (n - 1)).literal t r.1 r.2.1 r.2.2 :: done,
          f.Complete (L.Fits σ) := by
        intro f hx
        rcases List.mem_cons.mp hx with rfl | hx
        · exact ⟨name hf, ht hf, hr hf⟩
        · exact hd hf f hx
      refine runs_peekIs .comma (runs_ite (fun _ => ?_) fun _ => ?_)
      · exact runs_advance (ih (by omega) (by omega) complete G)
      · exact runs_expect (by decide) fun _ _ => runs_pure ⟨rfl, fun hf => FieldSpec.allComplete_iff.mpr fun f hx =>
          complete hf f (List.mem_reverse.mp hx)⟩ id
    refine runs_ite (fun _ => ?_) fun _ => reads
    exact runs_current (runs_fault_bind _ _ _)

theorem steady_moreDims (h : Reader.Agree L depth rec rec') {done : List (Option Expr)} (hn : n < k) (left : 1 ≤ n)
    (room : 2 * n ≤ depth) (hd : L.formed → ∀ e ∈ done, Expr.OptFits (L.Fits σ) e) :
    Steady L σ n (fun es => ∀ e ∈ es, Expr.OptFits (L.Fits σ) e) (moreDims rec k done)
      (moreDims rec' k done) := by
  induction k generalizing n done with
  | zero => exact absurd hn (Nat.not_lt_zero n)
  | succ k ih =>
    intro quiet G
    rw [moreDims, moreDims]
    refine runs_advance (runs_current ?_)
    extract_lets kind next next'
    have reads {dim : Option Expr} {m : Nat} (hm : m < n) (hdim : L.formed → Expr.OptFits (L.Fits σ) dim) :
        Runs L quiet σ m G (fun es _ τ => τ = σ ∧ (L.formed → ∀ e ∈ es, Expr.OptFits (L.Fits σ) e)) (fun _ => G)
          (next dim) (next' dim) := by
      have complete (hf : L.formed) : ∀ e ∈ dim :: done, Expr.OptFits (L.Fits σ) e := by
        intro e he
        rcases List.mem_cons.mp he with rfl | he
        · exact hdim hf
        · exact hd hf e he
      refine runs_peekIs .comma (runs_ite (fun more => ?_) fun _ => ?_)
      · have left := L.two_le_of_token (by decide) (of_decide_eq_true more)
        exact runs_advance (ih (by omega) (by omega) (by omega) complete G)
      · exact runs_expect (by decide) fun _ _ => runs_pure ⟨rfl, fun hf e he =>
          complete hf e (List.mem_reverse.mp he)⟩ id
    refine runs_ite (fun _ => ?_) fun _ => runs_ite (fun _ => ?_) fun _ => ?_
    · refine runs_pure ⟨rfl, fun _ e he => ?_⟩ id
      rw [List.mem_singleton.mp he]
      exact fun _ => nofun
    · exact reads (by omega) fun _ _ => nofun
    · refine runs_steady_bind (h.expr (by omega) (by decide)) fun (e : Expr) m hm he => ?_
      refine reads (by omega) fun hf x hx => ?_
      exact .inl (Option.some.inj hx ▸ he hf)

/-! ## Types -/

/-- What is known of a declared type before its fields and dimensions are read. -/
structure HeadComplete (fits : Expr → Prop) (t : TypeSpec) : Prop where
  name : ∃ w ∈ Token.typeWords, t.name = w.2
  dims : ∀ e ∈ t.dims, Expr.OptFits fits e
  fields : ∀ fs, t.fields = some fs → FieldSpec.AllComplete fits fs

/-- A declared type is complete when its head is and a record has fields. -/
theorem complete_typeSpec_iff {fits : Expr → Prop} {t : TypeSpec} :
    t.Complete fits ↔ HeadComplete fits t ∧ (t.fields = none → t.name ≠ ("record" : Text)) := by
  obtain ⟨m, name, isArray, dims, sorted, fields⟩ := t
  unfold TypeSpec.Complete
  cases fields with
  | none => exact ⟨fun ⟨hn, hd, hr⟩ => ⟨⟨hn, hd, fun _ => nofun⟩, fun _ => hr⟩, fun ⟨h, hr⟩ => ⟨h.name, h.dims, hr rfl⟩⟩
  | some fs =>
    refine ⟨fun ⟨hn, hd, hf⟩ => ⟨⟨hn, hd, fun gs hg => ?_⟩, nofun⟩, fun ⟨h, _⟩ => ⟨h.name, h.dims, h.fields fs rfl⟩⟩
    exact Option.some.inj hg ▸ hf

theorem canonicalType_mem {w : Text} {name : String} (h : Token.canonicalType? w = some name) :
    ∃ p ∈ Token.typeWords, (name : Text) = p.2 := by
  exact ⟨(w.lowerAscii, name), Text.mem_of_lookup h, rfl⟩

theorem steady_typeHead : Steady L σ n
    (fun r => HeadComplete (L.Fits σ) r.1 ∧ (r.2 = true → r.1.fields = none → r.1.name ≠ ("record" : Text)))
    typeHead typeHead := by
  intro quiet G
  unfold typeHead
  refine runs_current ?_
  have bare {w : Text} (hw : ∃ p ∈ Token.typeWords, w = p.2) (isArray sorted : Bool) :
      HeadComplete (L.Fits σ) (.mk (markOf (L.token n)) w isArray [] sorted none) :=
    ⟨hw, fun _ => nofun, fun _ => nofun⟩
  refine runs_ite (fun type => ?_) fun _ => runs_ite (fun _ => ?_) fun _ => runs_ite (fun _ => ?_) fun _ => ?_
  · have known (hf : L.formed) : ∃ p ∈ Token.typeWords,
        ((Token.canonicalType? (L.token n).literal).getD "" : Text) = p.2 := by
      obtain ⟨w, hw⟩ := Option.isSome_iff_exists.mp ((L.token_formed hf n).type type)
      rw [hw]
      exact canonicalType_mem hw
    refine runs_ite (fun _ => ?_) fun _ => ?_
    · exact runs_pure ⟨rfl, fun _ => ⟨bare ⟨("any", "any"), by decide, rfl⟩ _ _, nofun⟩⟩ id
    · exact runs_pure ⟨rfl, fun hf => ⟨bare (known hf) _ _, nofun⟩⟩ id
  · refine runs_peek ?_
    extract_lets read
    refine runs_ite (fun _ => runs_advance ?_) fun other => ?_
    · refine runs_current (runs_ite (fun _ => ?_) fun _ => runs_fault _ _ _)
      exact runs_pure ⟨rfl, fun _ => ⟨bare ⟨("map", "map"), by decide, rfl⟩ _ _, nofun⟩⟩ id
    · have expects : Runs L (fun _ => False) σ n G (fun _ _ _ => True) (fun _ => G) (expect .typeName) (expect .typeName) := by
        rw [← bind_pure (expect .typeName)]
        exact runs_expect (by decide) fun _ _ => runs_pure trivial id
      refine runs_bind (runs_attempt expects) fun _ m τ _ _ => ?_
      refine runs_current (runs_ite (fun map => ?_) fun _ => runs_fault _ _ _)
      exact absurd (of_decide_eq_true (Bool.and_eq_true _ _ ▸ map).1) other
  · split
    · rename_i name known
      exact runs_pure ⟨rfl, fun _ => ⟨bare (canonicalType_mem known) _ _, nofun⟩⟩ id
    · exact runs_fault _ _ _
  · refine runs_get fun s hs => ?_
    dsimp only
    split
    · rename_i mark name isArray dims sorted fields known
      refine runs_pure ⟨rfl, fun hf => ?_⟩ id
      have found : s.typedefs.lookup (L.token n).literal = some (.mk mark name isArray dims sorted fields) := by
        split at known
        · exact known
        · cases known
      have complete : TypeSpec.Complete (L.Fits σ) _ :=
        TypeSpec.Complete.mono _ (hs.typedefs hf _ (Text.mem_of_lookup found)) fun _ _ => .inr
      obtain ⟨head, fields⟩ := complete_typeSpec_iff.mp complete
      exact ⟨⟨head.name, head.dims, head.fields⟩, fun _ => fields⟩
    · exact runs_fault _ _ _

theorem steady_typeSpec (h : Reader.Agree L depth rec rec') (room : 2 * n + 1 ≤ depth) :
    Steady L σ n (TypeSpec.Complete (L.Fits σ)) (typeSpec rec) (typeSpec rec') := by
  intro quiet G
  unfold typeSpec
  refine runs_steady_bind steady_typeHead fun head m hm hhead => ?_
  obtain ⟨⟨mark, name, isArray, dims, sorted, fields⟩, complete⟩ := head
  dsimp -zeta only
  refine runs_ite (fun done => ?_) fun open' => ?_
  · refine runs_pure ⟨rfl, fun hf => ?_⟩ id
    exact complete_typeSpec_iff.mpr ⟨(hhead hf).1, (hhead hf).2 done⟩
  extract_lets sized sized'
  have sizes {m' : Nat} {fields' : Option (List FieldSpec)} (hm' : m' ≤ n)
      (hfs : L.formed → (∀ fs, fields' = some fs → FieldSpec.AllComplete (L.Fits σ) fs) ∧
        (fields' = none → name ≠ ("record" : Text))) :
      Runs L quiet σ m' G (fun t _ τ => τ = σ ∧ (L.formed → t.Complete (L.Fits σ))) (fun _ => G) (sized fields')
        (sized' fields') := by
    have whole {isArray : Bool} {dims : List (Option Expr)} (hf : L.formed)
        (hd : ∀ e ∈ dims, Expr.OptFits (L.Fits σ) e) :
        TypeSpec.Complete (L.Fits σ) (.mk mark name isArray dims sorted fields') :=
      complete_typeSpec_iff.mpr ⟨⟨(hhead hf).1.name, hd, (hfs hf).1⟩, (hfs hf).2⟩
    refine runs_peekIs .lbracket (runs_ite (fun more => ?_) fun _ => runs_pure ⟨rfl, fun hf => ?_⟩ id)
    · have left := L.two_le_of_token (by decide) (of_decide_eq_true more)
      refine runs_advance (runs_tokensLeft ?_)
      refine runs_steady_bind (steady_moreDims h (Nat.lt_succ_self _) (by omega) (by omega) fun hf => (hhead hf).1.dims)
        fun ds k hk hds => runs_pure ⟨rfl, fun hf => whole hf (hds hf)⟩ id
    · exact whole hf (hhead hf).1.dims
  refine runs_ite (fun _ => ?_) fun other => ?_
  · refine runs_expect (by decide) fun _ left => runs_tokensLeft ?_
    refine runs_steady_bind (steady_moreFields h (Nat.lt_succ_self _) (by omega) fun _ => nofun) fun fs k hk hfs => ?_
    rw [pure_bind, pure_bind]
    refine sizes (by omega) fun hf => ⟨fun gs hg => ?_, nofun⟩
    exact Option.some.inj hg ▸ hfs hf
  · rw [pure_bind, pure_bind]
    refine sizes hm fun hf => ⟨(hhead hf).1.fields, fun none record => other ?_⟩
    rw [none, record]
    rfl

/-! ## Parts of declarations -/

theorem steady_typeAfterColon (h : Reader.Agree L depth rec rec') (room : 2 * n ≤ depth + 2) :
    Steady L σ n (TypeSpec.OptComplete (L.Fits σ)) (annotation? rec) (annotation? rec') := by
  intro quiet G
  unfold annotation?
  refine runs_peekIs .colon (runs_ite (fun more => ?_) fun _ => runs_pure ⟨rfl, fun _ _ => nofun⟩ id)
  have left := L.two_le_of_token (by decide) (of_decide_eq_true more)
  refine runs_advance (runs_advance (runs_steady_bind (h.typeSpec (by omega)) fun (t : TypeSpec) m hm ht => ?_))
  exact runs_pure ⟨rfl, fun hf x hx => Option.some.inj hx ▸ ht hf⟩ id

theorem steady_initializer (h : Reader.Agree L depth rec rec') (room : 2 * n ≤ depth + 2) :
    Steady L σ n (Expr.OptComplete L.catalog σ) (initializer? rec) (initializer? rec') := by
  intro quiet G
  unfold initializer?
  refine runs_peekIs .assign (runs_ite (fun more => ?_) fun _ => runs_pure ⟨rfl, fun _ _ => nofun⟩ id)
  have left := L.two_le_of_token (by decide) (of_decide_eq_true more)
  refine runs_advance (runs_advance (runs_steady_bind (h.expr (by omega) (by decide)) fun (e : Expr) m hm he => ?_))
  exact runs_pure ⟨rfl, fun hf x hx => Option.some.inj hx ▸ he hf⟩ id

/-- Declares a name when its type is known. -/
theorem runs_declareTyped {α : Type} {Q : α → Nat → Scopes → Prop} {H : α → Prop} {f g : Unit → ParseM α} {name : Text}
    {type : Option TypeSpec} : Runs L quiet (TypeSpec.declaredIn type name σ) n G Q H (f ()) (g ()) →
    Runs L quiet σ n G Q H (match type with
      | some t => do
        let r ← declare name t.kind
        f r
      | none => f ()) (match type with
      | some t => do
        let r ← declare name t.kind
        g r
      | none => g ()) := by
  intro h
  cases type with
  | none => exact h
  | some t => exact runs_declare h

end ScriptEngine.Parser

namespace ScriptEngine.Parser

variable {L : Course} {quiet : Scopes → Prop} {σ : Scopes} {n k depth : Nat} {G : Prop} {rec rec' : Reader}

/-! ## Statements without blocks -/

theorem runs_declaration (h : Reader.Agree L depth rec rec') (room : 2 * n + 2 ≤ depth) :
    RunsStmt L quiet False σ n G (declaration rec) (declaration rec') := by
  unfold declaration
  refine runs_mark (runs_currentIs .kwConst (runs_expectName fun name left => ?_))
  refine runs_steady_bind (steady_typeAfterColon h (by omega)) fun type m hm htype => ?_
  refine runs_steady_bind (steady_initializer h (by omega)) fun value m' hm' hvalue => ?_
  extract_lets declared typed
  have declares {k : Nat} (valued : (L.token n).kind = .kwConst → value.isSome = true) :
      RunsStmt L quiet False σ k G (typed ()) (typed ()) := by
    refine runs_declareTyped (runs_pure ⟨rfl, nofun, fun hf => ?_⟩ .inl)
    exact ⟨name hf, htype hf, hvalue hf, fun constant => valued (of_decide_eq_true constant)⟩
  split
  · refine runs_ite (fun _ => ?_) fun _ => declares fun _ => rfl
    exact runs_steady_bind (steady_checkAssigned _ _ _ _) fun _ k _ _ => declares fun _ => rfl
  · exact declares fun _ => rfl
  · refine runs_ite (fun _ => runs_fault_bind _ _ _) fun notConstant => declares fun constant => ?_
    exact absurd (decide_eq_true constant) notConstant

theorem runs_typedef {H : Stmt → Prop} (h : Reader.Agree L depth rec rec') (room : 2 * n + 2 ≤ depth)
    (word : (L.token n).kind = .ident ∧ (L.token (n - 1)).kind = .kwTypeof) (parts : ∀ m name t, G → H (.typedef m name t)) :
    Runs L quiet σ n G (fun s _ τ => τ = s.after σ ∧ (True → τ = σ) ∧ (L.formed → s.Complete L.toElsewhere σ)) H
      (typedef rec) (typedef rec') := by
  suffices within : n ≤ L.tokens.length → Runs L quiet σ n G _ H (typedef rec) (typedef rec') from
    fun s hs => within hs.bound s hs
  intro bound
  unfold typedef
  refine runs_current ?_
  extract_lets named named'
  refine runs_ite (fun _ => runs_fault_bind _ _ _) fun undotted => runs_advance (runs_advance ?_)
  have left := L.two_le_of_token (by decide) word.2
  refine runs_bind (runs_given (h.typeSpec (by omega) G)) fun (t : TypeSpec) m τ hm given => ?_
  obtain ⟨⟨rfl, ht⟩, s, hs, read⟩ := given
  refine runs_modify (fun u hu => ?_) (fun _ => rfl) (runs_pure ⟨rfl, fun _ => rfl, fun hf => ?_⟩ (parts _ _ _))
  · refine ⟨hu.tokens, hu.bound, hu.last, hu.scopes, fun hf p hp => ?_, hu.alive⟩
    rcases List.mem_cons.mp hp with rfl | hp
    · -- what is complete in the scopes here is known from now on by the name
      refine TypeSpec.Complete.mono t (ht hf) fun e part fits => fits.elim (fun complete => ?_) id
      have word : (L.token (n - 1 - 1 + 2)).kind = .ident ∧ (L.token (n - 1 - 1 + 1)).kind = .kwTypeof := by
        rwa [show n - 1 - 1 + 2 = n by omega, show n - 1 - 1 + 1 = n - 1 by omega]
      exact h.allowed.named (by omega) hs word (by omega) read part complete
    · exact hu.typedefs hf p hp
  · exact ⟨⟨(L.token_formed hf n).word word.1, Bool.not_eq_true _ ▸ undotted⟩, ht hf⟩

theorem runs_returning (h : Reader.Agree L depth rec rec') (room : 2 * n + 2 ≤ depth) :
    RunsStmt L quiet True σ n G (returning rec) (returning rec') := by
  unfold returning
  refine runs_mark (runs_peek ?_)
  split
  · exact runs_pure ⟨rfl, fun _ => rfl, fun _ _ => nofun⟩ .inl
  · exact runs_pure ⟨rfl, fun _ => rfl, fun _ _ => nofun⟩ .inl
  · exact runs_pure ⟨rfl, fun _ => rfl, fun _ _ => nofun⟩ .inl
  · refine runs_advance (runs_steady_bind (h.expr (by omega) (by decide)) fun (e : Expr) m hm he => ?_)
    exact runs_pure ⟨rfl, fun _ => rfl, fun hf x hx => Option.some.inj hx ▸ he hf⟩ .inl

theorem runs_loopControl : RunsStmt L quiet True σ n G loopControl loopControl := by
  unfold loopControl
  refine runs_current (runs_get fun s hs => runs_ite (fun _ => runs_fault _ _ _) fun _ => runs_ite (fun _ => ?_) fun _ => ?_)
  · exact runs_pure ⟨rfl, fun _ => rfl, fun _ => trivial⟩ .inl
  · exact runs_pure ⟨rfl, fun _ => rfl, fun _ => trivial⟩ .inl

/-- What a call is read as is a call. -/
theorem runs_callStatement (h : Reader.Agree L depth rec rec') (room : 2 * n + 2 ≤ depth) :
    RunsStmt L quiet True σ n G (callStatement L.catalog rec) (callStatement L.catalog rec') := by
  unfold callStatement
  refine runs_mark (runs_expect (by decide) fun word _ => runs_current (runs_expect (by decide) fun _ more => ?_))
  have named (hf : L.formed) : (Expr.name (markOf (L.token (n - 1))) (L.token (n - 1)).literal).Complete L.catalog σ :=
    (L.token_formed hf _).word word
  refine runs_steady_bind (steady_call h (by omega) (by omega) named) fun e m hm he => ?_
  exact runs_pure ⟨rfl, fun _ => rfl, he⟩ .inl

theorem runs_raising (h : Reader.Agree L depth rec rec') (room : 2 * n + 2 ≤ depth) :
    RunsStmt L quiet True σ n G (raising rec) (raising rec') := by
  unfold raising
  refine runs_mark (runs_expect (by decide) fun _ _ => runs_expect (by decide) fun word left => runs_current ?_)
  extract_lets category made
  have category_some (hf : L.formed) : category.bytes ≠ [] := ((L.token_formed hf _).word word).upper_bytes_ne_nil
  refine runs_peekIs .lparen (runs_ite (fun more => runs_advance ?_) fun _ => ?_)
  · have left := L.two_le_of_token (by decide) (of_decide_eq_true more)
    refine runs_steady_bind (steady_exprList h (by decide) (by omega) (by omega)) fun es m hm hes => ?_
    exact runs_pure ⟨rfl, fun _ => rfl, fun hf => ⟨category_some hf, hes hf⟩⟩ .inl
  · exact runs_pure ⟨rfl, fun _ => rfl, fun hf => ⟨category_some hf, trivial⟩⟩ .inl

theorem runs_exprStatement (h : Reader.Agree L depth rec rec') (room : 2 * n + 2 ≤ depth) :
    RunsStmt L quiet True σ n G (exprStatement rec) (exprStatement rec') := by
  unfold exprStatement
  refine runs_mark (runs_steady_bind (h.expr (by omega) (by decide)) fun (e : Expr) m hm he => ?_)
  exact runs_pure ⟨rfl, fun _ => rfl, he⟩ .inl

/-! ## Branches and loops -/

/-- Statements inside a statement are held when those of a part of it are. -/
theorem held_of {ss ts : List Stmt} (part : ∀ s ∈ ss, s ∈ ts) : G ∨ L.held ss → G ∨ L.held ts :=
  Or.imp_right (L.held_mono part)

theorem runs_blockStatement (h : Reader.Agree L depth rec rec') (room : 2 * n + 2 ≤ depth) :
    RunsStmt L quiet True σ n G (do
      let b ← rec .block
      pure (.block b)) (do
      let b ← rec' .block
      pure (.block b)) := by
  refine runs_bind (h.block room) fun (b : Block) m τ hm hb => ?_
  obtain ⟨rfl, complete⟩ := hb
  exact runs_pure ⟨rfl, fun _ => rfl, complete⟩ (held_of fun s hs => List.mem_cons_of_mem _ hs)

theorem runs_branch (h : Reader.Agree L depth rec rec') (room : 2 * n ≤ depth) :
    RunsStmt L (L.Quiet σ) L.apart σ n G (branch rec) (branch rec') := by
  unfold branch
  refine runs_peekIs .kwThen (runs_ite (fun more => ?_) fun _ => ?_)
  · have left := L.two_le_of_token (by decide) (of_decide_eq_true more)
    have behind : (L.token (n - 1)).kind = .kwThen ∨ (L.token (n - 1)).kind = .kwElse := .inl (of_decide_eq_true more)
    refine runs_advance (runs_peekIs .lbrace (runs_ite (fun _ => runs_advance ?_) fun _ => runs_advance ?_))
    · exact runs_still (runs_blockStatement h (by omega)) fun _ => trivial
    · exact runs_still (h.stmt (by omega) fun hg => L.token_spaced hg behind) fun ha => ⟨ha, L.token_parted ha behind⟩
  · exact runs_expect (by decide) fun _ left => runs_still (runs_blockStatement h (by omega)) fun _ => trivial

theorem runs_condition (h : Reader.Agree L depth rec rec') (room : 2 * n + 1 ≤ depth) :
    RunsStmt L (L.Quiet σ) L.apart σ n G (condition rec) (condition rec') := by
  unfold condition
  refine runs_mark (runs_advance (runs_steady_bind (h.expr (by omega) (by decide)) fun (test : Expr) m hm htest => ?_))
  refine runs_bind (runs_branch h (by omega)) fun yes m' τ hm' hyes => ?_
  obtain ⟨rfl, still, hyes⟩ := hyes
  refine runs_peekIs .semicolon (runs_peekBeyond ?_)
  extract_lets other other'
  have hush (τ : Scopes) (h : L.Quiet (yes.after σ) τ) : L.Quiet σ τ := ⟨h.1, fun ha => (h.2 ha).trans (still ha)⟩
  -- the names that the first branch declares are still in scope
  have gives (no : Option Stmt) {m : Nat} {τ : Scopes} {K : Prop} (scopes : τ = Stmt.afterOpt no (yes.after σ))
      (unmoved : L.apart → τ = yes.after σ) (complete : L.formed → Stmt.OptComplete L.toElsewhere (yes.after σ) no)
      (parts : K → (G ∨ L.held (yes :: yes.inner)) ∨ L.held (Stmt.ofOpt no)) :
      RunsRest L (L.Quiet σ) L.apart σ G τ m K (pure (.cond (markOf (L.token n)) test yes no))
        (pure (.cond (markOf (L.token n)) test yes no)) := by
    refine runs_pure ⟨scopes, fun ha => (unmoved ha).trans (still ha), fun hf => ?_⟩ fun hk => ?_
    · exact ⟨htest hf, hyes hf, complete hf⟩
    rcases parts hk with before | inside
    · exact held_of (fun s hs => List.mem_cons_of_mem _ (List.mem_append_left _ hs)) before
    · exact .inr (L.held_mono (fun s hs => List.mem_cons_of_mem _ (List.mem_append_right _ hs)) inside)
  have reads {k : Nat} (hk : k ≤ m') : RunsRest L (L.Quiet σ) L.apart σ G (yes.after σ) k
      (G ∨ L.held (yes :: yes.inner)) (other ()) (other' ()) := by
    refine runs_peekIs .kwElse (runs_ite (fun more => ?_) fun _ => gives none rfl (fun _ => rfl) (fun _ => trivial) .inl)
    have left := L.two_le_of_token (by decide) (of_decide_eq_true more)
    have behind : (L.token (k - 1)).kind = .kwThen ∨ (L.token (k - 1)).kind = .kwElse := .inr (of_decide_eq_true more)
    refine runs_advance (runs_peek ?_)
    split
    · refine runs_advance (runs_bind (runs_quiet (h.cond (by omega)) hush) fun (no : Stmt) _ _ _ hno => ?_)
      exact gives (some no) hno.1 hno.2.1 hno.2.2 id
    · refine runs_advance (runs_bind (h.block (by omega)) fun (b : Block) _ _ _ hb => ?_)
      refine gives (some (.block b)) hb.1 (fun _ => hb.1) hb.2 (Or.imp_right (L.held_mono fun s hs => ?_))
      exact List.mem_cons_of_mem _ hs
    · have spaced (hg : L.gapless) := L.token_spaced hg behind
      refine runs_advance (runs_bind (runs_quiet (h.stmt (by omega) spaced) hush) fun (no : Stmt) _ _ _ hno => ?_)
      exact gives (some no) hno.1 (fun ha => hno.2.1 ⟨ha, L.token_parted ha behind⟩) hno.2.2 id
  exact runs_ite (fun _ => runs_advance (reads (by omega))) fun _ => reads (Nat.le_refl m')

theorem runs_loopBody (h : Reader.Agree L depth rec rec') (room : 2 * n + 2 ≤ depth) :
    RunsBlock L quiet σ n G (loopBody rec) (loopBody rec') := runs_counted (h.block room)

theorem runs_whileLoop (h : Reader.Agree L depth rec rec') (room : 2 * n + 2 ≤ depth) :
    RunsStmt L quiet True σ n G (whileLoop rec) (whileLoop rec') := by
  unfold whileLoop
  refine runs_mark (runs_advance (runs_steady_bind (h.expr (by omega) (by decide)) fun (test : Expr) m hm htest => ?_))
  refine runs_expect (by decide) fun _ _ => runs_bind (runs_loopBody h (by omega)) fun body _ _ _ hbody => ?_
  exact runs_pure ⟨hbody.1, fun _ => hbody.1, fun hf => ⟨htest hf, hbody.2 hf⟩⟩
    (held_of fun s hs => List.mem_cons_of_mem _ hs)

theorem runs_doLoop (h : Reader.Agree L depth rec rec') (room : 2 * n + 2 ≤ depth) :
    RunsStmt L quiet True σ n G (doLoop rec) (doLoop rec') := by
  unfold doLoop
  refine runs_mark (runs_expect (by decide) fun _ left => ?_)
  refine runs_bind (runs_loopBody h (by omega)) fun body m τ hm hbody => ?_
  obtain ⟨rfl, hbody⟩ := hbody
  refine runs_expect (by decide) fun _ _ => runs_advance ?_
  refine runs_steady_bind (h.expr (by omega) (by decide)) fun (test : Expr) _ _ htest => ?_
  exact runs_pure ⟨rfl, fun _ => rfl, fun hf => ⟨htest hf, hbody hf⟩⟩ (held_of fun s hs => List.mem_cons_of_mem _ hs)

theorem steady_clause (h : Reader.Agree L depth rec rec') {close : Token.Kind} (room : 2 * n + 1 ≤ depth) :
    Steady L σ n (Expr.OptComplete L.catalog σ) (clause? rec close) (clause? rec' close) := by
  intro quiet G
  unfold clause?
  refine runs_peekIs close (runs_ite (fun _ => runs_pure ⟨rfl, fun _ _ => nofun⟩ id) fun _ => runs_advance ?_)
  refine runs_steady_bind (h.expr (by omega) (by decide)) fun (e : Expr) m hm he => ?_
  exact runs_pure ⟨rfl, fun hf x hx => Option.some.inj hx ▸ he hf⟩ id

/-- The contract of a computation that reads the rest of a statement which began in the scopes `σ` and declares no names
there. -/
abbrev RunsInner (L : Course) (quiet : Scopes → Prop) (σ : Scopes) (G : Prop) (τ : Scopes) (n : Nat) (K : Prop)
    (x y : ParseM Stmt) : Prop :=
  Runs L quiet τ n K (fun s _ _ => s.after σ = σ ∧ (L.formed → s.Complete L.toElsewhere σ))
    (fun s => G ∨ L.held (s :: s.inner)) x y

/-- A statement that is read in a scope of its own declares no names. -/
theorem runs_stmt_inScope (quiet' : Scopes → Prop) {x y : ParseM Stmt} (hush : ∀ υ, quiet' υ → quiet σ)
    (h : RunsInner L quiet' σ G ([] :: σ) n G x y) : RunsStmt L quiet True σ n G (inScope x) (inScope y) :=
  runs_mono (runs_inScope hush h) fun _ _ _ _ hs => ⟨⟨hs.1.trans hs.2.1.symm, fun _ => hs.1, hs.2.2⟩, id⟩

theorem runs_forLoop (h : Reader.Agree L depth rec rec') (room : 2 * n + 2 ≤ depth) :
    RunsStmt L (L.Quiet σ) True σ n G (forLoop rec) (forLoop rec') := by
  unfold forLoop
  refine runs_mark (runs_expect (by decide) fun _ left => ?_)
  -- names of what is passed over silently are gone behind the loop
  refine runs_stmt_inScope (L.Quiet ([] :: σ)) (fun _ quiet => ⟨quiet.1, fun _ => rfl⟩) (runs_peekIs .semicolon ?_)
  extract_lets more more'
  have reads (init : Option Stmt) {k : Nat} {K : Prop} (hk : k < n)
      (complete : L.formed → Stmt.OptComplete L.toElsewhere ([] :: σ) init) (parts : K → G ∨ L.held (Stmt.ofOpt init)) :
      RunsInner L (L.Quiet ([] :: σ)) σ G (Stmt.afterOpt init ([] :: σ)) k K (more init) (more' init) := by
    refine runs_expect (by decide) fun _ _ => runs_steady_bind (steady_clause h (by omega)) fun test m hm htest => ?_
    refine runs_expect (by decide) fun _ _ => ?_
    refine runs_steady_bind (steady_clause h (by omega)) fun update j hj hupdate => ?_
    refine runs_expect (by decide) fun _ _ => runs_expect (by decide) fun _ _ => ?_
    refine runs_bind (runs_loopBody h (by omega)) fun body _ _ _ hbody => ?_
    refine runs_pure ⟨rfl, fun hf => ⟨complete hf, htest hf, hupdate hf, hbody.2 hf⟩⟩ fun hk => ?_
    rcases hk with before | inside
    · exact held_of (fun s hs => List.mem_cons_of_mem _ (List.mem_append_left _ hs)) (parts before)
    · exact .inr (L.held_mono (fun s hs => List.mem_cons_of_mem _ (List.mem_append_right _ hs)) inside)
  refine runs_ite (fun _ => ?_) fun some => runs_advance ?_
  · rw [pure_bind, pure_bind]
    exact reads none (by omega) (fun _ => trivial) .inl
  · refine runs_bind (h.stmt (by omega) fun _ ended => some (decide_eq_true ended)) fun (s : Stmt) m τ hm hs => ?_
    obtain ⟨rfl, -, hs⟩ := hs
    rw [pure_bind, pure_bind]
    exact reads (Option.some s) (by omega) hs id

theorem runs_forEach (h : Reader.Agree L depth rec rec') (room : 2 * n + 2 ≤ depth) :
    RunsStmt L quiet True σ n G (forEach rec) (forEach rec') := by
  unfold forEach
  refine runs_mark (runs_peekIs .lparen ?_)
  extract_lets header header'
  have reads {k : Nat} (hk : k ≤ n) : RunsStmt L quiet True σ k G (header ()) (header' ()) := by
    refine runs_expectName fun name left => runs_expect (by decide) fun _ _ => runs_advance ?_
    refine runs_steady_bind (h.expr (by omega) (by decide)) fun (container : Expr) m hm hcontainer => ?_
    extract_lets body body'
    have loops {j : Nat} (hj : j ≤ m) : RunsStmt L quiet True σ j G (body ()) (body' ()) := by
      refine runs_expect (by decide) fun _ _ => runs_bind (runs_loopBody h (by omega)) fun b _ _ _ hb => ?_
      exact runs_pure ⟨hb.1, fun _ => hb.1, fun hf => ⟨name hf, hcontainer hf, hb.2 hf⟩⟩
        (held_of fun s hs => List.mem_cons_of_mem _ hs)
    refine runs_ite (fun _ => ?_) fun _ => loops (Nat.le_refl m)
    exact runs_expect (by decide) fun _ _ => loops (by omega)
  exact runs_ite (fun _ => runs_advance (reads (by omega))) fun _ => reads (Nat.le_refl n)

/-! ## Functions -/

/-- Parameters that are read behind others. -/
theorem runs_moreParams (h : Reader.Agree L depth rec rec') {done : List Param} (hn : n < k)
    (room : 2 * n ≤ depth + 2) :
    Runs L quiet σ n G (fun ps _ τ => ∃ more, ps = done.reverse ++ more ∧ τ = Param.after more σ ∧
      (L.formed → Param.AllComplete L.toElsewhere σ more)) (fun _ => G) (moreParams rec k done) (moreParams rec' k done) := by
  induction k generalizing n σ done with
  | zero => exact absurd hn (Nat.not_lt_zero n)
  | succ k ih =>
    rw [moreParams, moreParams]
    refine runs_expectName fun name left => ?_
    refine runs_steady_bind (steady_typeAfterColon h (by omega)) fun type m hm htype => ?_
    extract_lets rest rest'
    -- a parameter is in scope where its own default value is read
    refine runs_declareTyped (f := rest) (g := rest') ?_
    refine runs_steady_bind (steady_initializer h (by omega)) fun fallback m' hm' hfallback => ?_
    have joined (more : List Param) : (⟨(L.token (n - 1)).literal, type, fallback⟩ :: done).reverse ++ more =
        done.reverse ++ (⟨(L.token (n - 1)).literal, type, fallback⟩ :: more) := by simp
    refine runs_peekIs .comma (runs_ite (fun more => ?_) fun _ => runs_expect (by decide) fun _ _ => ?_)
    · have left := L.two_le_of_token (by decide) (of_decide_eq_true more)
      refine runs_advance (runs_mono (ih (by omega) (by omega)) fun ps j τ _ hps => ⟨?_, id⟩)
      obtain ⟨more, shape, scopes, complete⟩ := hps
      exact ⟨_, shape.trans (joined more), scopes, fun hf => ⟨name hf, htype hf, hfallback hf, complete hf⟩⟩
    · refine runs_pure ⟨[⟨(L.token (n - 1)).literal, type, fallback⟩], ?_, rfl, fun hf => ?_⟩ id
      · rw [← joined, List.append_nil]
      · exact ⟨name hf, htype hf, hfallback hf, trivial⟩

theorem runs_function (h : Reader.Agree L depth rec rec') (room : 2 * n + 2 ≤ depth) :
    RunsStmt L quiet True σ n G (function rec) (function rec') := by
  unfold function
  refine runs_mark (runs_expectName fun name left => runs_expect (by decide) fun _ _ => ?_)
  refine runs_stmt_inScope (fun _ => False) (fun _ => False.elim) (runs_peekIs .rparen ?_)
  extract_lets behind behind'
  have reads (params : List Param) {k : Nat} (hk : k ≤ n)
      (hparams : L.formed → Param.AllComplete L.toElsewhere ([] :: σ) params) :
      RunsInner L (fun _ => False) σ G (Param.after params ([] :: σ)) k G (behind params) (behind' params) := by
    refine runs_peekIs .kwReturn ?_
    extract_lets body body'
    have reads_body (result : Option TypeSpec) {j : Nat} (hj : j ≤ n)
        (hresult : L.formed → TypeSpec.OptComplete (L.Fits (Param.after params ([] :: σ))) result) :
        RunsInner L (fun _ => False) σ G (Param.after params ([] :: σ)) j G (body result) (body' result) := by
      refine runs_expect (by decide) fun _ _ => runs_get fun s hs => ?_
      refine runs_bind (runs_counted (h.block (by omega))) fun (b : Block) _ _ _ hb => ?_
      exact runs_pure ⟨rfl, fun hf => ⟨name hf, hparams hf, hresult hf, hb.2 hf⟩⟩
        (held_of fun s hs => List.mem_cons_of_mem _ hs)
    refine runs_ite (fun more => ?_) fun _ => ?_
    · have left := L.two_le_of_token (by decide) (of_decide_eq_true more)
      refine runs_advance (runs_advance (runs_steady_bind (h.typeSpec (by omega)) fun (t : TypeSpec) m hm ht => ?_))
      rw [pure_bind, pure_bind]
      exact reads_body (some t) (by omega) fun hf x hx => Option.some.inj hx ▸ ht hf
    · rw [pure_bind, pure_bind]
      exact reads_body none hk fun _ _ => nofun
  refine runs_ite (fun _ => runs_advance ?_) fun _ => runs_tokensLeft ?_
  · rw [pure_bind, pure_bind]
    exact reads [] (by omega) fun _ => trivial
  · refine runs_bind (runs_moreParams h (Nat.lt_succ_self _) (by omega)) fun params m τ hm hparams => ?_
    obtain ⟨more, rfl, rfl, hparams⟩ := hparams
    exact reads _ (by omega) hparams

/-! ## Handlers -/

/-- Handlers that are read behind others. -/
theorem runs_moreHandlers (h : Reader.Agree L depth rec rec') {done : List Handler} (hn : n < k) (room : 2 * n ≤ depth)
    (hd : L.formed → Handler.AllComplete L.toElsewhere σ done) :
    Runs L quiet σ n G (fun hs _ τ => τ = σ ∧ (∀ x ∈ done, x ∈ hs) ∧ (L.formed → Handler.AllComplete L.toElsewhere σ hs))
      (fun hs => G ∨ L.held (Handler.statements hs)) (moreHandlers rec k done) (moreHandlers rec' k done) := by
  induction k generalizing n done G with
  | zero => exact absurd hn (Nat.not_lt_zero n)
  | succ k ih =>
    rw [moreHandlers, moreHandlers]
    refine runs_peekIs .kwWhen (runs_ite (fun more => ?_) fun _ => ?_)
    · have left := L.two_le_of_token (by decide) (of_decide_eq_true more)
      refine runs_advance (runs_mark (runs_expect (by decide) fun word _ => runs_current ?_))
      extract_lets category body body'
      have reads (caught : Option Text) {m : Nat} (hm : m < n)
          (hcaught : L.formed → ∀ x, caught = some x → x.IsUndotted) :
          Runs L quiet σ m G (fun hs _ τ => τ = σ ∧ (∀ x ∈ done, x ∈ hs) ∧ (L.formed → Handler.AllComplete L.toElsewhere σ hs))
            (fun hs => G ∨ L.held (Handler.statements hs)) (body caught) (body' caught) := by
        refine runs_expect (by decide) fun _ _ => runs_bind (h.block (by omega)) fun (b : Block) j τ hj hb => ?_
        obtain ⟨rfl, hb⟩ := hb
        refine runs_mono (ih (by omega) (by omega) fun hf => ⟨?_, hcaught hf, hb hf, hd hf⟩) fun hs _ _ _ hhs => ?_
        · exact ((L.token_formed hf _).word word).upper_bytes_ne_nil
        · obtain ⟨scopes, parts, complete⟩ := hhs
          refine ⟨⟨scopes, fun x hx => parts x (List.mem_cons_of_mem _ hx), complete⟩, fun held => ?_⟩
          rcases held with before | inside
          · refine held_of (fun s hs => ?_) before
            exact Handler.mem_statements (parts _ List.mem_cons_self) hs
          · exact .inr inside
      refine runs_peekIs .lparen (runs_ite (fun _ => runs_advance ?_) fun _ => ?_)
      · refine runs_expectName fun name _ => runs_expect (by decide) fun _ _ => ?_
        rw [pure_bind, pure_bind]
        exact reads (some _) (by omega) fun hf x hx => Option.some.inj hx ▸ name hf
      · rw [pure_bind, pure_bind]
        exact reads none (by omega) fun _ _ => nofun
    · refine runs_expect (by decide) fun _ _ => runs_pure ⟨rfl, fun x hx => List.mem_reverse.mpr hx, fun hf => ?_⟩ .inl
      rw [Handler.allComplete_iff]
      exact fun x hx => Handler.allComplete_iff.mp (hd hf) x (List.mem_reverse.mp hx)

theorem runs_tryStatement (h : Reader.Agree L depth rec rec') (room : 2 * n + 2 ≤ depth) :
    RunsStmt L quiet True σ n G (tryStatement rec) (tryStatement rec') := by
  unfold tryStatement
  refine runs_mark (runs_expect (by decide) fun _ _ => runs_bind (h.block (by omega)) fun (b : Block) m τ hm hb => ?_)
  obtain ⟨rfl, hb⟩ := hb
  refine runs_expect (by decide) fun _ _ => runs_expect (by decide) fun _ _ => runs_tokensLeft ?_
  refine runs_bind (runs_moreHandlers h (Nat.lt_succ_self _) (by omega) fun _ => trivial) fun hs _ _ _ hhs => ?_
  refine runs_ite (fun _ => runs_fault _ _ _) fun some => ?_
  refine runs_pure ⟨hhs.1, fun _ => hhs.1, fun hf => ⟨hb hf, ?_, hhs.2.2 hf⟩⟩ fun hk => ?_
  · exact fun none => some (List.isEmpty_iff.mpr none)
  · rcases hk with before | inside
    · exact held_of (fun s hs => List.mem_cons_of_mem _ (List.mem_append_left _ hs)) before
    · exact .inr (L.held_mono (fun s hs => List.mem_cons_of_mem _ (List.mem_append_right _ hs)) inside)

/-! ## All statements -/

theorem runs_statement (h : Reader.Agree L depth rec rec') (room : 2 * n + 2 ≤ depth)
    (some : L.gapless → (L.token n).kind ≠ .semicolon) :
    RunsStmt L (L.Quiet σ) (L.apart ∧ (L.token n).kind ≠ .kwVar ∧ (L.token n).kind ≠ .kwConst) σ n G
      (statement L.catalog rec) (statement L.catalog rec') := by
  unfold statement
  refine runs_mark (runs_current ?_)
  have plain {x y : ParseM Stmt} {still : Prop} (h : RunsStmt L (L.Quiet σ) True σ n G x y) :
      RunsStmt L (L.Quiet σ) still σ n G x y := runs_still h fun _ => trivial
  cases kind : (L.token n).kind with
  -- what is no statement and records no fault is an empty statement or an illegal token
  | semicolon => exact runs_failure fun _ => ⟨fun hg => some hg kind, fun _ => rfl⟩
  | illegal => exact runs_failure fun ht => absurd kind (L.token_legal ht n)
  | kwVar => exact runs_still (runs_declaration h room) fun other => other.2.1 rfl
  | kwConst => exact runs_still (runs_declaration h room) fun other => other.2.2 rfl
  | kwFunction => exact plain (runs_function h room)
  | kwReturn => exact plain (runs_returning h room)
  | kwIf => exact runs_still (h.cond room) And.left
  | kwWhile => exact plain (runs_whileLoop h room)
  | kwDo => exact plain (runs_doLoop h room)
  | kwFor => exact plain (runs_forLoop h room)
  | kwForeach => exact plain (runs_forEach h room)
  | kwBreak | kwContinue => exact plain runs_loopControl
  | kwPrint =>
    refine runs_advance (runs_steady_bind (h.expr (by omega) (by decide)) fun (e : Expr) m hm he => ?_)
    exact runs_pure ⟨rfl, fun _ => rfl, he⟩ .inl
  | kwCall => exact plain (runs_callStatement h room)
  | kwTry => exact plain (runs_tryStatement h room)
  | kwRaise => exact plain (runs_raising h room)
  | kwImport => exact runs_expect (by decide) fun _ _ => runs_current (runs_pure ⟨rfl, fun _ => rfl, fun _ => trivial⟩ .inl)
  | lbrace => exact plain (runs_blockStatement h room)
  | ident =>
    refine runs_peekIs .kwTypeof (runs_ite (fun more => ?_) fun _ => plain (runs_exprStatement h room))
    exact plain (runs_typedef h room ⟨kind, of_decide_eq_true more⟩ fun _ _ _ => .inl)
  | _ => exact plain (runs_exprStatement h room)

/-- At an empty statement nothing is read and nothing happens. -/
theorem run_statement_empty {c : Catalog} {s : ParseState} (empty : (s.tokens.head?.getD s.last).kind = .semicolon) :
    (statement c rec).run.run s = (none, s) := by
  have marked : mark.run.run s = (some (markOf (s.tokens.head?.getD s.last)), s) := rfl
  have seen : current.run.run s = (some (s.tokens.head?.getD s.last), s) := rfl
  unfold statement
  rw [run_bind, marked]
  dsimp only
  rw [run_bind, seen]
  dsimp only
  rw [empty]
  rfl

end ScriptEngine.Parser
