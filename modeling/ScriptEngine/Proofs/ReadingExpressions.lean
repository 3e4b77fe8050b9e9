import ScriptEngine.Proofs.ReadingCourse
/-!
# The course of reading expressions

Each computation that reads an expression keeps its contract when the readers of the parts inside do. An expression that
is read is complete: names are words, members have a path, what is assigned to is assignable, and a call of a builtin
has passed the static checks, with its arguments in the order of the parameters. Every round of a loop takes a token,
and every part inside begins at least one token further on.
-/

namespace ScriptEngine

/-! ## Named arguments -/

namespace Signature

variable {α : Type} {s : Signature}

theorem mem_fillSlot {slots slots' : List (Option α)} {arg : Text × α} (h : s.fillSlot slots arg = .ok slots') {a : α}
    (ha : some a ∈ slots') : some a ∈ slots ∨ a = arg.2 := by
  unfold fillSlot at h
  split at h
  · cases h
  split at h
  · cases h
  · cases h
    rcases List.mem_or_eq_of_mem_set ha with inside | new
    · exact .inl inside
    · exact .inr (Option.some.inj new)

theorem mem_fillSlots {args : List (Text × α)} {slots slots' : List (Option α)}
    (h : args.foldlM s.fillSlot slots = .ok slots') {a : α} (ha : some a ∈ slots') :
    some a ∈ slots ∨ ∃ name, (name, a) ∈ args := by
  induction args generalizing slots with
  | nil =>
    cases h
    exact .inl ha
  | cons arg args ih =>
    rw [List.foldlM_cons] at h
    cases first : s.fillSlot slots arg with
    | error e =>
      rw [first] at h
      cases h
    | ok filled =>
      rw [first] at h
      rcases ih h with inside | ⟨name, behind⟩
      · rcases mem_fillSlot first inside with before | rfl
        · exact .inl before
        · exact .inr ⟨arg.1, List.mem_cons_self⟩
      · exact .inr ⟨name, List.mem_cons_of_mem arg behind⟩

/-- Arranged arguments are among those given. -/
theorem mem_arrange {args : List (Text × α)} {slots : List (Option α)} (h : s.arrange args = .ok slots) {a : α}
    (ha : some a ∈ slots) : ∃ name, (name, a) ∈ args := by
  unfold arrange at h
  cases filled : args.foldlM s.fillSlot (List.replicate s.params.length none) with
  | error e =>
    rw [filled] at h
    cases h
  | ok all =>
    rw [filled] at h
    dsimp only [bind, Except.bind] at h
    split at h
    · cases h
    · cases h
      have inside : some a ∈ all :=
        List.mem_reverse.mp ((List.dropWhile_sublist _).subset (List.mem_reverse.mp ha))
      rcases mem_fillSlots filled inside with open' | given
      · exact absurd (List.eq_of_mem_replicate open') (Option.some_ne_none a)
      · exact given

end Signature

namespace Parser

/-- The arguments by position are those given, and null in place of those left out. -/
theorem mem_positionalArgs {s : Signature} {m : Mark} {args args' : List Expr} {names : List Text}
    (h : positionalArgs s m args names = .ok args') {e : Expr} (he : e ∈ args') :
    e ∈ args ∨ ∃ m, e = .null m := by
  unfold positionalArgs at h
  split at h
  · cases h
    exact .inl he
  cases arranged : s.arrange (names.zip args) with
  | error e =>
    rw [arranged] at h
    cases h
  | ok slots =>
    rw [arranged] at h
    cases h
    obtain ⟨slot, hslot, rfl⟩ := List.mem_map.mp he
    cases slot with
    | none => exact .inr ⟨_, rfl⟩
    | some a =>
      obtain ⟨name, given⟩ := Signature.mem_arrange arranged hslot
      exact .inl (List.of_mem_zip given).2

/-! ## Lists of expressions -/

variable {α : Type} {L : Course} {σ : Scopes} {n k depth : Nat} {rec rec' : Reader}

theorem steady_moreExprs (h : Reader.Agree L depth rec rec') {close : Token.Kind} (hc : close ≠ .eof)
    {done : List Expr} (hn : n < k) (room : 2 * n ≤ depth) (hd : L.formed → ∀ e ∈ done, e.Complete L.catalog σ) :
    Steady L σ n (Expr.AllComplete L.catalog σ) (moreExprs rec close k done) (moreExprs rec' close k done) := by
  induction k generalizing n done with
  | zero => exact absurd hn (Nat.not_lt_zero n)
  | succ k ih =>
    intro quiet G
    rw [moreExprs, moreExprs]
    refine runs_peekIs .comma (runs_ite (fun more => ?_) fun _ => ?_)
    · have left := L.two_le_of_token (by decide) (of_decide_eq_true more)
      refine runs_advance (runs_advance ?_)
      refine runs_steady_bind (h.expr (by omega) (Nat.le_refl 1)) fun (e : Expr) m hm he => ?_
      exact ih (by omega) (by omega) (fun hf x hx => by
        rcases List.mem_cons.mp hx with rfl | hx
        · exact he hf
        · exact hd hf x hx) G
    · refine runs_expect hc fun _ _ => runs_pure ⟨rfl, fun hf => ?_⟩ id
      rw [Expr.allComplete_iff]
      exact fun e he => hd hf e (List.mem_reverse.mp he)

theorem steady_exprList (h : Reader.Agree L depth rec rec') {close : Token.Kind} (hc : close ≠ .eof)
    (left : 1 ≤ n) (room : 2 * n ≤ depth) :
    Steady L σ n (Expr.AllComplete L.catalog σ) (exprList rec close) (exprList rec' close) := by
  intro quiet G
  unfold exprList
  refine runs_peekIs close (runs_ite (fun _ => ?_) fun _ => ?_)
  · exact runs_advance (runs_pure ⟨rfl, fun _ => trivial⟩ id)
  · refine runs_advance (runs_steady_bind (h.expr (by omega) (Nat.le_refl 1)) fun (e : Expr) m hm he => runs_tokensLeft ?_)
    refine steady_moreExprs h hc (Nat.lt_succ_self m) (by omega) (fun hf x hx => ?_) G
    rw [List.mem_singleton.mp hx]
    exact he hf

theorem steady_moreArgs (h : Reader.Agree L depth rec rec') {args : List Expr} {names : List Text} (hn : n < k)
    (left : 1 ≤ n) (room : 2 * n ≤ depth) (hd : L.formed → ∀ e ∈ args, e.Complete L.catalog σ)
    (paired : names = [] ∨ names.length = args.length) :
    Steady L σ n (fun r => Expr.AllComplete L.catalog σ r.1 ∧ (r.2 = [] ∨ r.2.length = r.1.length))
      (moreArgs rec k args names) (moreArgs rec' k args names) := by
  induction k generalizing n args names with
  | zero => exact absurd hn (Nat.not_lt_zero n)
  | succ k ih =>
    intro quiet G
    rw [moreArgs, moreArgs]
    refine runs_advance (runs_current (runs_peekIs .assign ?_))
    extract_lets named mixed labels value start value' start'
    refine runs_ite (fun _ => runs_fault_bind _ _ _) fun apart => ?_
    -- all arguments so far have a name, or none has
    have labelled : labels = [] ∨ labels.length = args.length + 1 := by
      cases args <;> cases names <;> cases hnamed : named <;> simp_all [labels, mixed]
    have reads {m : Nat} (hm : m < n) : Runs L quiet σ m G
        (fun r _ τ => τ = σ ∧ (L.formed → Expr.AllComplete L.catalog σ r.1 ∧ (r.2 = [] ∨ r.2.length = r.1.length)))
        (fun _ => G) (value ()) (value' ()) := by
      refine runs_steady_bind (h.expr (by omega) (Nat.le_refl 1)) fun (e : Expr) m' hm' he => ?_
      have complete (hf : L.formed) : ∀ x ∈ e :: args, x.Complete L.catalog σ := by
        intro x hx
        rcases List.mem_cons.mp hx with rfl | hx
        · exact he hf
        · exact hd hf x hx
      refine runs_peekIs .comma (runs_ite (fun more => ?_) fun _ => ?_)
      · have left := L.two_le_of_token (by decide) (of_decide_eq_true more)
        exact runs_advance (ih (by omega) (by omega) (by omega) complete labelled G)
      · refine runs_expect (by decide) fun _ _ => runs_pure ⟨rfl, fun hf => ⟨?_, ?_⟩⟩ id
        · rw [Expr.allComplete_iff]
          exact fun x hx => complete hf x (List.mem_reverse.mp hx)
        · have aligned : labels.reverse = [] ∨ labels.reverse.length = (e :: args).reverse.length := by
            rw [List.reverse_eq_nil_iff, List.length_reverse, List.length_reverse]
            exact labelled
          exact aligned
    exact runs_ite (fun _ => runs_advance (runs_advance (reads (by omega)))) fun _ => reads (by omega)

/-- A call of a dotted name is given only if it passes the static checks. -/
theorem steady_resolveCall {m : Mark} {f : Text} {args : List Expr} {names : List Text} (word : L.formed → f.IsWord)
    (dotted : f.contains "." = true) (complete : L.formed → ∀ e ∈ args, e.Complete L.catalog σ)
    (paired : L.formed → names = [] ∨ names.length = args.length) :
    Steady L σ n (fun e => e.isCall = true ∧ e.Complete L.catalog σ) (resolveCall L.catalog m f args names)
      (resolveCall L.catalog m f args names) := by
  intro quiet G
  unfold resolveCall
  dsimp only
  split
  · rename_i unknown
    refine runs_ite (fun plugin => runs_pure ⟨rfl, fun hf => ?_⟩ id) fun _ => runs_fault _ _ _
    refine ⟨rfl, word hf, Expr.allComplete_iff.mpr (complete hf), paired hf, dotted.symm, fun _ => ?_⟩
    rw [(word hf).lower] at unknown plugin
    unfold Catalog.Admits
    rw [unknown]
    exact plugin
  rename_i s known
  split
  · exact runs_fault _ _ _
  rename_i args' arranged
  refine runs_get fun state hs => ?_
  split
  · exact runs_fault _ _ _
  rename_i arity
  split
  · exact runs_fault _ _ _
  rename_i kinds
  refine runs_pure ⟨rfl, fun hf => ?_⟩ id
  rw [(word hf).lower] at known ⊢
  refine ⟨rfl, word hf, Expr.allComplete_iff.mpr ?_, .inl rfl, dotted.symm, fun _ => ?_⟩
  · intro e he
    rcases mem_positionalArgs arranged he with given | ⟨m', rfl⟩
    · exact complete hf e given
    · exact trivial
  · unfold Catalog.Admits
    rw [known]
    rw [hs.scopes] at kinds
    exact ⟨arity, kinds⟩

theorem steady_call (h : Reader.Agree L depth rec rec') {f : Expr} (left : 1 ≤ n) (room : 2 * n ≤ depth)
    (hf : L.formed → f.Complete L.catalog σ) :
    Steady L σ n (fun e => e.isCall = true ∧ e.Complete L.catalog σ) (call L.catalog rec f) (call L.catalog rec' f) := by
  intro quiet G
  unfold call
  refine runs_mark ?_
  split
  · rename_i m v
    extract_lets made
    have makes {m' : Nat} {r : List Expr × List Text}
        (hr : L.formed → Expr.AllComplete L.catalog σ r.1 ∧ (r.2 = [] ∨ r.2.length = r.1.length)) :
        Runs L quiet σ m' G (fun e _ τ => τ = σ ∧ (L.formed → e.isCall = true ∧ e.Complete L.catalog σ)) (fun _ => G)
          (made r) (made r) := by
      refine runs_ite (fun dotted => ?_) fun undotted => ?_
      · exact steady_resolveCall hf dotted (fun formed => Expr.allComplete_iff.mp (hr formed).1)
          (fun formed => (hr formed).2) G
      · refine runs_pure ⟨rfl, fun formed => ?_⟩ id
        refine ⟨rfl, hf formed, (hr formed).1, (hr formed).2, (Bool.not_eq_true _ ▸ undotted).symm, fun h => ?_⟩
        cases h
    refine runs_peekIs .rparen (runs_ite (fun _ => ?_) fun _ => ?_)
    · exact runs_advance (makes (r := ([], [])) fun _ => ⟨trivial, .inl rfl⟩)
    · refine runs_tokensLeft (runs_steady_bind ?_ fun r m' _ hr => makes hr)
      exact steady_moreArgs h (Nat.lt_succ_self n) left room (fun _ => nofun) (.inl rfl)
  · exact runs_fault _ _ _

theorem steady_pairs (h : Reader.Agree L depth rec rec') {done : List (Text × Expr)} (hn : n < k) (left : 1 ≤ n)
    (room : 2 * n ≤ depth) (hd : L.formed → ∀ p ∈ done, p.2.Complete L.catalog σ) :
    Steady L σ n (Expr.PairsComplete L.catalog σ) (pairs rec k done) (pairs rec' k done) := by
  induction k generalizing n done with
  | zero => exact absurd hn (Nat.not_lt_zero n)
  | succ k ih =>
    intro quiet G
    rw [pairs, pairs]
    refine runs_advance (runs_current ?_)
    extract_lets value value'
    have reads : Runs L quiet σ (n - 1) G (fun ps _ τ => τ = σ ∧ (L.formed → Expr.PairsComplete L.catalog σ ps)) (fun _ => G)
        (value ()) (value' ()) := by
      refine runs_expect (by decide) fun _ _ => runs_advance ?_
      refine runs_steady_bind (h.expr (by omega) (Nat.le_refl 1)) fun (e : Expr) m hm he => ?_
      have complete (hf : L.formed) : ∀ p ∈ ((L.token (n - 1)).literal, e) :: done, p.2.Complete L.catalog σ := by
        intro p hp
        rcases List.mem_cons.mp hp with rfl | hp
        · exact he hf
        · exact hd hf p hp
      refine runs_peekIs .comma (runs_ite (fun more => ?_) fun _ => ?_)
      · have left := L.two_le_of_token (by decide) (of_decide_eq_true more)
        exact runs_advance (ih (by omega) (by omega) (by omega) complete G)
      · refine runs_expect (by decide) fun _ _ => runs_pure ⟨rfl, fun hf => ?_⟩ id
        exact Expr.pairsComplete_iff.mpr fun p hp => complete hf p (List.mem_reverse.mp hp)
    split
    · exact reads
    · exact reads
    · exact reads
    · exact reads
    · exact runs_fault_bind _ _ _

/-! ## Operands -/

theorem splitBytes_ne_nil (sep bs : List UInt8) (skip : Nat) (piece : List UInt8) :
    Text.splitBytes sep bs skip piece ≠ [] := by
  fun_induction Text.splitBytes sep bs skip piece with
  | case1 => exact List.cons_ne_nil _ _
  | case2 _ _ _ _ ih => exact ih
  | case3 => exact List.cons_ne_nil _ _
  | case4 _ _ _ _ ih => exact ih

/-- A text with a separator in it has a piece behind the first one. -/
theorem splitBytes_tail {sep bs : List UInt8} (piece : List UInt8) (hs : sep ≠ [])
    (found : (Text.findBytes sep bs).isSome = true) :
    (Text.splitBytes sep bs 0 piece).tail ≠ [] := by
  induction bs generalizing piece with
  | nil =>
    rw [Text.findBytes, if_neg (by simp [hs])] at found
    cases found
  | cons b rest ih =>
    rw [Text.findBytes] at found
    rw [Text.splitBytes]
    by_cases here : sep.isPrefixOf (b :: rest) = true
    · rw [if_pos here]
      exact splitBytes_ne_nil _ _ _ _
    · rw [if_neg here] at found ⊢
      rw [Option.isSome_map] at found
      exact ih _ found

/-- The first piece of a text holds what was read of it before. -/
theorem splitBytes_head {sep bs piece : List UInt8} (skip : Nat) (hp : piece ≠ []) {t : Text}
    (h : (Text.splitBytes sep bs skip piece).head? = some t) : t.bytes ≠ [] := by
  fun_induction Text.splitBytes sep bs skip piece with
  | case1 | case3 =>
    cases h
    exact mt List.reverse_eq_nil_iff.mp hp
  | case2 _ _ _ _ ih => exact ih hp h
  | case4 _ _ _ _ ih => exact ih (List.cons_ne_nil _ _) h

/-- A dotted word has a base and a path. -/
theorem splitOn_dot {w : Text} (word : w.IsWord) (dotted : w.contains "." = true) :
    ∃ base path, w.splitOn "." = base :: path ∧ base.bytes ≠ [] ∧ path ≠ [] := by
  obtain ⟨b, rest, bytes, letter⟩ := word.first
  have pieces : w.splitOn "." = Text.splitBytes [0x2E] w.bytes 0 [] := rfl
  have dot : (Text.findBytes [0x2E] w.bytes).isSome = true := dotted
  have tail := splitBytes_tail [] (List.cons_ne_nil _ _) dot
  have other : List.isPrefixOf [0x2E] (b :: rest) = false := by
    have first := (Cursor.isLetter_first letter).2.2.2.2.1
    simp [List.isPrefixOf, first.symm]
  rw [bytes] at pieces tail
  rw [Text.splitBytes, if_neg (by simp [other])] at pieces tail
  rcases all : Text.splitBytes [0x2E] rest 0 [b] with - | ⟨base, path⟩
  · exact absurd all (splitBytes_ne_nil _ _ _ _)
  · rw [all] at pieces tail
    exact ⟨base, path, pieces, splitBytes_head 0 (List.cons_ne_nil b []) (congrArg List.head? all), tail⟩

theorem steady_nameOrMember {t : Token} (word : L.formed → t.literal.IsWord) :
    Steady L σ n (Expr.Complete L.catalog σ) (nameOrMember t) (nameOrMember t) := by
  intro quiet G
  unfold nameOrMember
  refine runs_peekIs .lparen (runs_ite (fun dotted => ?_) fun _ => runs_pure ⟨rfl, word⟩ id)
  split
  · rename_i base path pieces
    refine runs_pure ⟨rfl, fun hf => ?_⟩ id
    obtain ⟨base', path', pieces', complete⟩ := splitOn_dot (word hf) (Bool.and_eq_true _ _ ▸ dotted).1
    obtain ⟨rfl, rfl⟩ : base = base' ∧ path = path' := List.cons.inj (pieces.symm.trans pieces')
    exact complete
  · exact runs_pure ⟨rfl, word⟩ id

theorem steady_operand (h : Reader.Agree L depth rec rec') (room : 2 * n ≤ depth) :
    Steady L σ n (Expr.Complete L.catalog σ) (operand L.catalog rec) (operand L.catalog rec') := by
  intro quiet G
  unfold operand
  refine runs_current ?_
  have left {k : Token.Kind} (hk : (L.token n).kind = k) (other : k ≠ .eof) : 1 ≤ n := L.one_le_of_token other hk
  dsimp only
  cases kind : (L.token n).kind with
  | ident => exact steady_nameOrMember (fun hf => (L.token_formed hf n).word kind) G
  | int | long | double =>
    dsimp only
    split
    · exact runs_pure ⟨rfl, fun _ => trivial⟩ id
    · exact runs_fault _ _ _
  | string | kwTrue | kwFalse | kwNull => exact runs_pure ⟨rfl, fun _ => trivial⟩ id
  | date =>
    dsimp only
    split
    · exact runs_pure ⟨rfl, fun _ => trivial⟩ id
    · exact runs_pure ⟨rfl, fun _ => trivial⟩ id
  | bang | minus | plus | kwTypeof =>
    have left := left kind (by decide)
    refine runs_advance (runs_steady_bind (h.expr (by omega) (by decide)) fun e m hm he => ?_)
    exact runs_pure ⟨rfl, he⟩ id
  | lparen =>
    have left := left kind (by decide)
    refine runs_advance (runs_steady_bind (h.expr (by omega) (by decide)) fun e m hm he => ?_)
    exact runs_expect (by decide) fun _ _ => runs_pure ⟨rfl, he⟩ id
  | lbracket =>
    refine runs_steady_bind (steady_exprList h (by decide) (left kind (by decide)) room) fun es m hm hes => ?_
    exact runs_pure ⟨rfl, hes⟩ id
  | lbrace =>
    refine runs_peekIs .rbrace (runs_ite (fun _ => ?_) fun _ => runs_tokensLeft ?_)
    · exact runs_advance (runs_pure ⟨rfl, fun _ => trivial⟩ id)
    · refine runs_steady_bind (steady_pairs h (Nat.lt_succ_self n) (left kind (by decide)) room fun _ => nofun)
        fun ps m hm hps => ?_
      exact runs_pure ⟨rfl, hps⟩ id
  | hash =>
    refine runs_expect (by decide) fun word _ => runs_current (runs_expect (by decide) fun _ more => ?_)
    have named (hf : L.formed) :
        (Expr.name (markOf (L.token (n - 1))) (L.token (n - 1)).literal).Complete L.catalog σ :=
      (L.token_formed hf _).word word
    exact (steady_call h (by omega) (by omega) named).mono (fun _ he => he.2) G
  | _ => exact runs_fault _ _ _

/-! ## Operators after an operand -/

theorem steady_checkAssigned (line : Nat) (name : Text) (declared : Kind) (value : Expr) :
    Steady L σ n (fun _ => True) (checkAssigned line name declared value) (checkAssigned line name declared value) := by
  intro quiet G
  unfold checkAssigned
  refine runs_get fun s hs => ?_
  exact runs_ite (fun _ => runs_fault _ _ _) fun _ => runs_pure ⟨rfl, fun _ => trivial⟩ id

theorem steady_assignment (h : Reader.Agree L depth rec rec') {op : AssignOp} {target : Expr} (left : 1 ≤ n)
    (room : 2 * n ≤ depth) (ht : L.formed → target.Complete L.catalog σ) :
    Steady L σ n (Expr.Complete L.catalog σ) (assignment rec op target) (assignment rec' op target) := by
  intro quiet G
  unfold assignment
  refine runs_mark ?_
  extract_lets value value'
  refine runs_ite (fun _ => runs_fault_bind _ _ _) fun isTarget => ?_
  refine runs_advance (runs_steady_bind (h.expr (by omega) (by decide)) fun (v : Expr) m hm hv => ?_)
  extract_lets made
  have makes {m' : Nat} : Runs L quiet σ m' G (fun e _ τ => τ = σ ∧ (L.formed → e.Complete L.catalog σ)) (fun _ => G)
      (made ()) (made ()) := by
    refine runs_pure ⟨rfl, fun hf => ⟨?_, ht hf, hv hf⟩⟩ id
    simpa using isTarget
  split
  · refine runs_get fun s hs => ?_
    split
    · exact makes
    · exact runs_steady_bind (steady_checkAssigned _ _ _ _) fun _ m' hm' _ => makes
    · exact makes
  · exact makes

theorem steady_continuation (h : Reader.Agree L depth rec rec') {operand : Expr} (left : 1 ≤ n) (room : 2 * n ≤ depth)
    (ho : L.formed → operand.Complete L.catalog σ) (op : 1 < level (L.token n).kind) :
    Steady L σ n (Expr.Complete L.catalog σ) (continuation L.catalog rec operand)
      (continuation L.catalog rec' operand) := by
  intro quiet G
  unfold continuation
  refine runs_current ?_
  dsimp only
  cases kind : (L.token n).kind with
  | plusPlus | minusMinus =>
    refine runs_ite (fun _ => runs_fault _ _ _) fun isTarget => runs_pure ⟨rfl, fun hf => ⟨?_, ho hf⟩⟩ id
    simpa using isTarget
  | lparen => exact (steady_call h left room ho).mono (fun _ he => he.2) G
  | lbracket =>
    refine runs_advance (runs_steady_bind (h.expr (by omega) (by decide)) fun e m hm he => ?_)
    exact runs_expect (by decide) fun _ _ => runs_pure ⟨rfl, fun hf => ⟨ho hf, he hf⟩⟩ id
  | dot => exact runs_expect (by decide) fun _ _ => runs_pure ⟨rfl, ho⟩ id
  | assign | plusEq | minusEq | starEq | slashEq => exact steady_assignment h left room ho G
  | plus | minus | star | slash | percent | caret | eq | notEq | lt | gt | lte | gte | and | or =>
    refine runs_advance (runs_steady_bind (h.expr (by omega) (by decide)) fun e m hm he => ?_)
    exact runs_pure ⟨rfl, fun hf => ⟨ho hf, he hf⟩⟩ id
  | _ =>
    rw [kind] at op
    exact absurd op (by decide)

theorem steady_continuations (h : Reader.Agree L depth rec rec') {bound : Nat} {left : Expr} (tight : 1 ≤ bound)
    (hn : n < k) (room : 2 * n ≤ depth) (hl : L.formed → left.Complete L.catalog σ) :
    Steady L σ n (Expr.Complete L.catalog σ) (continuations L.catalog rec bound k left)
      (continuations L.catalog rec' bound k left) := by
  induction k generalizing n left with
  | zero => exact absurd hn (Nat.not_lt_zero n)
  | succ k ih =>
    intro quiet G
    rw [continuations, continuations]
    refine runs_peek ?_
    dsimp only
    refine runs_ite (fun more => ?_) fun _ => runs_pure ⟨rfl, hl⟩ id
    have tighter : bound < level (L.token (n - 1)).kind := of_decide_eq_true (Bool.and_eq_true _ _ ▸ more).2
    -- what binds more tightly than a level is no end mark, so that a token is left for the round
    have some : 2 ≤ n := by
      refine L.two_le_of_token (k := (L.token (n - 1)).kind) (fun ended => ?_) rfl
      rw [ended] at tighter
      exact absurd (Nat.lt_of_le_of_lt tight tighter) (by decide)
    refine runs_advance (runs_steady_bind ?_ fun e m hm he => ih (by omega) (by omega) he G)
    exact steady_continuation h (by omega) (by omega) hl (Nat.lt_of_le_of_lt tight tighter)

theorem steady_expression (h : Reader.Agree L depth rec rec') {bound : Nat} (tight : 1 ≤ bound)
    (room : 2 * n ≤ depth) :
    Steady L σ n (Expr.Complete L.catalog σ) (expression L.catalog rec bound) (expression L.catalog rec' bound) := by
  intro quiet G
  unfold expression
  refine runs_steady_bind (steady_operand h room) fun left m hm hl => runs_tokensLeft ?_
  exact steady_continuations h tight (Nat.lt_succ_self m) (by omega) hl G

end Parser

end ScriptEngine
