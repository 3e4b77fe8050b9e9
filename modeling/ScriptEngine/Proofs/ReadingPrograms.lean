import ScriptEngine.Proofs.ParserPromises
import ScriptEngine.Proofs.ReadingStatements
/-!
# The course of reading lists of statements

A statement of a list is left out when a fault was recorded in it, and reading goes on behind it. So a list never makes
reading fail, and the statements that are kept are complete, each in the scopes that the ones before it leave behind.
Readers of any depth keep the contracts, and two of them that are deep enough read the same.

Whatever the bytes of a source text are, its tokens come to an end, and whatever the tokens are, the parser does. Each
token but the end mark takes a byte of the text; each level of nesting and each round of a loop takes a token of those
that are left. So the parser is prepared for more than it can meet, and preparing it for still more changes nothing.

The program of any text, faulty or not, is complete: what can not be read as a whole is left out. Its statements are
those that were read with no fault recorded meanwhile, and behind them the parser is outside of all blocks and loops.
-/

namespace ScriptEngine

/-- The state with one token less. -/
def ParseState.advanced (s : ParseState) : ParseState := { s with tokens := s.tokens.drop 1 }

/-- The state behind a statement of a list: a semicolon that comes next is passed over. -/
def ParseState.pastSemicolon (s : ParseState) : ParseState :=
  if ((s.tokens.drop 1).head?.getD s.last).kind = .semicolon then s.advanced else s

/-- The literals of all tokens fit their kinds, and the types that were given names are complete. -/
structure ParseState.Formed (named : Expr → Prop) (s : ParseState) : Prop where
  tokens : ∀ t ∈ s.tokens, t.Formed
  typedefs : ∀ t ∈ s.typedefs, t.2.Complete named

/-- No token is illegal, and no semicolon stands right behind `then` or `else`. -/
structure ParseState.Tidy (s : ParseState) : Prop where
  legal : ∀ t ∈ s.tokens, t.kind ≠ .illegal
  spaced : s.tokens.IsChain fun t u => t.kind = .kwThen ∨ t.kind = .kwElse → u.kind ≠ .semicolon

namespace Parser

variable {L : Course} {quiet : Scopes → Prop} {σ : Scopes} {n k depth : Nat} {G : Prop} {rec rec' : Reader} {s : ParseState}

/-! ## Statements of a list -/

/-- What the reading of a statement of a list gives. -/
theorem run_listedStatement (rec : Reader) (s : ParseState) : (listedStatement rec).run.run s =
    (some (if s.faults.length < ((rec .stmt).run.run s).2.faults.length then none else ((rec .stmt).run.run s).1),
      ((rec .stmt).run.run s).2.pastSemicolon) := by
  have counted (t : ParseState) : Goes faultCount t (pure t.faults.length) t := rfl
  have tried : Goes (attempt (rec .stmt)) s (pure ((rec .stmt).run.run s).1) ((rec .stmt).run.run s).2 := rfl
  have seen (t : ParseState) : Goes (peekIs .semicolon) t
      (pure (decide (((t.tokens.drop 1).head?.getD t.last).kind = .semicolon))) t := rfl
  have chosen (p : Prop) [Decidable p] (a b : Option Stmt) (t : ParseState) :
      Goes (if p then pure a else pure b) t (pure (if p then a else b)) t := by
    split <;> rfl
  unfold listedStatement ParseState.pastSemicolon
  refine (counted s).andThen (tried.andThen ((seen _).andThen ?_))
  generalize (rec .stmt).run.run s = r
  by_cases next : ((r.2.tokens.drop 1).head?.getD r.2.last).kind = .semicolon
  · rw [if_pos (decide_eq_true next), if_pos next]
    have passed : Goes advance r.2 (pure ()) r.2.advanced := rfl
    exact passed.andThen ((counted _).andThen (chosen _ _ _ _))
  · rw [if_neg (by simpa using next), if_neg next]
    exact (counted _).andThen (chosen _ _ _ _)

theorem Course.At.pastSemicolon (hs : L.At σ n s) : ∃ m ≤ n, L.At σ m s.pastSemicolon := by
  unfold ParseState.pastSemicolon
  split
  · exact ⟨n - 1, Nat.sub_le n 1, hs.advance⟩
  · exact ⟨n, Nat.le_refl n, hs⟩

theorem faults_pastSemicolon (s : ParseState) : s.pastSemicolon.faults = s.faults := by
  unfold ParseState.pastSemicolon
  split <;> rfl

/-- How the reading of a statement ends, be it empty or not. -/
theorem Reader.Agree.ends (h : Reader.Agree L depth rec rec') (room : 2 * n + 3 ≤ depth) (hs : L.At σ n s) :
    Ends L (L.Quiet σ) σ n G (fun st _ τ => τ = st.after σ ∧
        (L.apart ∧ (L.token n).kind ≠ .kwVar ∧ (L.token n).kind ≠ .kwConst → τ = σ) ∧
          (L.formed → st.Complete L.toElsewhere σ)) (fun st => G ∨ L.held (st :: st.inner)) s
        ((rec .stmt).run.run s) ((rec' .stmt).run.run s) ∨
      (rec .stmt).run.run s = (none, s) ∧ (rec' .stmt).run.run s = (none, s) := by
  by_cases empty : (L.token n).kind = .semicolon
  · exact .inr (h.empty room hs empty)
  · exact .inl (h.stmt room (fun _ => empty) s hs)

theorem runs_listedStatement (h : Reader.Agree L depth rec rec') (room : 2 * n + 3 ≤ depth) :
    Runs L quiet σ n G (fun r _ τ => (r = none → L.left σ τ) ∧
        ∀ st, r = some st → τ = st.after σ ∧ (L.formed → st.Complete L.toElsewhere σ))
      (fun r => G ∨ L.held (Stmt.ofOpt r)) (listedStatement rec) (listedStatement rec') := by
  intro s hs
  have out := h.allowed.left room hs
  rw [run_listedStatement rec] at out ⊢
  rw [run_listedStatement rec']
  rcases h.ends (G := G) room hs with ⟨⟨m, τ, hm, grown, place, promise⟩, faults, loud, -, same⟩ | ⟨run, run'⟩
  · generalize (rec .stmt).run.run s = r, (rec' .stmt).run.run s = r' at out place promise faults loud same
    obtain ⟨m', hm', place'⟩ := place.pastSemicolon
    refine ⟨⟨m', τ, Nat.le_trans hm' hm, grown, place', fun a ha => ⟨fun none => ?_, fun st hst => ?_⟩⟩, ?_,
      fun _ => nofun, fun hg _ _ _ => .inl hg, ?_⟩
    · rw [← place'.scopes]
      exact out (ha.trans (congrArg some none))
    · cases ha
      have read := promise st (by
        split at hst
        · cases hst
        · exact hst)
      exact ⟨read.1, read.2.2⟩
    · rw [faults_pastSemicolon]
      exact faults
    · rcases same with rfl | ⟨differ, held⟩
      · exact .inl rfl
      · refine .inr ⟨differ, fun clean a ha => ?_⟩
        rw [faults_pastSemicolon] at clean
        have fewer : ¬ s.faults.length < r.2.faults.length := by
          rw [clean]
          exact Nat.not_lt_zero _
        rw [if_neg fewer] at ha
        cases ha
        -- in a tidy text nothing fails without a fault
        cases hr : r.1 with
        | none =>
          rcases loud (L.tidy_of_differ differ) hr with more | quiet
          · exact absurd more fewer
          · exact absurd (L.gapless_of_differ differ) quiet.1
        | some st => exact held clean st hr
  · rw [run] at out ⊢
    rw [run']
    obtain ⟨m, hm, place⟩ := hs.pastSemicolon
    refine ⟨⟨m, σ, hm, .refl σ, place, fun a ha => ⟨fun none => ?_, fun st hst => ?_⟩⟩, ?_, fun _ => nofun,
      fun hg _ _ _ => .inl hg, .inl rfl⟩
    · have out := out (ha.trans (congrArg some none))
      rw [place.scopes] at out
      exact out
    · cases ha
      rw [if_neg (Nat.lt_irrefl _)] at hst
      cases hst
    · rw [faults_pastSemicolon]

/-! ## Lists of statements -/

/-- The contract of a computation that reads the statements of a list behind those that are done. -/
abbrev RunsList (L : Course) (quiet : Scopes → Prop) (σ : Scopes) (n : Nat) (G : Prop) (done : List Stmt)
    (x y : ParseM (List Stmt)) : Prop :=
  Runs L quiet σ n G (fun ss _ _ => ∃ more, ss = done.reverse ++ more ∧ (L.formed → Stmt.AllComplete L.toElsewhere σ more))
    (fun ss => G ∨ L.held (Stmt.ofAll ss)) x y

/-- One statement of a list and then those behind it. -/
theorem runs_moreStatements (h : Reader.Agree L depth rec rec') {done : List Stmt}
    {more more' : List Stmt → ParseM (List Stmt)} (hn : 1 ≤ n) (room : 2 * n + 3 ≤ depth)
    (rest : ∀ (done : List Stmt) (m : Nat) (τ : Scopes) (K : Prop), m < n →
      RunsList L quiet τ m K done (more done) (more' done)) :
    RunsList L quiet σ n G done (do
      let s ← listedStatement rec
      advance
      more (match s with
        | some s => s :: done
        | none => done)) (do
      let s ← listedStatement rec'
      advance
      more' (match s with
        | some s => s :: done
        | none => done)) := by
  refine runs_bind (runs_listedStatement h room) fun r m τ hm hr => runs_advance ?_
  obtain ⟨left, hr⟩ := hr
  refine runs_mono (rest _ (m - 1) τ _ (by omega)) fun ss _ _ _ hss => ?_
  obtain ⟨more, shape, complete⟩ := hss
  cases r with
  | none =>
    -- the names that it declared before it failed stay in scope
    refine ⟨⟨more, shape, fun hf => (complete hf).behind (left rfl)⟩, fun held => ?_⟩
    rcases held with before | inside
    · refine before.imp_right (L.held_mono fun t ht => ?_)
      rw [Stmt.ofOpt] at ht
      cases ht
    · exact .inr inside
  | some st =>
    obtain ⟨rfl, hst⟩ := hr st rfl
    have member : st ∈ ss := by simp [shape]
    refine ⟨⟨st :: more, by simp [shape], fun hf => ⟨σ, .refl, hst hf, complete hf⟩⟩, fun held => ?_⟩
    rcases held with before | inside
    · exact before.imp_right (L.held_mono fun t ht => Stmt.mem_ofAll member ht)
    · exact .inr inside

theorem runs_blockBody (h : Reader.Agree L depth rec rec') {m : Mark} {done : List Stmt} (hn : n < k)
    (room : 1 ≤ n → 2 * n + 3 ≤ depth) : RunsList L quiet σ n G done (blockBody rec m k done) (blockBody rec' m k done) := by
  induction k generalizing n σ G done with
  | zero => exact absurd hn (Nat.not_lt_zero n)
  | succ k ih =>
    rw [blockBody, blockBody]
    refine runs_current (runs_ite (fun _ => ?_) fun _ => runs_ite (fun _ => runs_fault _ _ _) fun more => ?_)
    · exact runs_pure ⟨[], by simp, fun _ => trivial⟩ .inl
    · have left : 1 ≤ n := L.one_le_of_token more rfl
      exact runs_moreStatements h left (room left) fun done m τ K hm => ih (by omega) (by omega)

theorem runs_block (h : Reader.Agree L depth rec rec') (room : 2 * n + 1 ≤ depth) :
    RunsBlock L quiet σ n G (block rec) (block rec') := by
  unfold block
  refine runs_mark (runs_inScope (fun _ => False.elim) (runs_advance (runs_tokensLeft ?_)))
  refine runs_bind (runs_blockBody h (Nat.lt_succ_self _) (by omega)) fun ss m τ _ hss => ?_
  obtain ⟨more, rfl, complete⟩ := hss
  exact runs_pure complete id

/-- The statements of a program. How many of them the readers are prepared for does not matter. -/
theorem runs_programBody (h : Reader.Agree L depth rec rec') {k' : Nat} (done : List Stmt) (hn : n < k) (hn' : n < k')
    (room : 2 * n + 3 ≤ depth) : RunsList L quiet σ n G done (programBody rec k done) (programBody rec' k' done) := by
  -- both stop where the tokens end, so the numbers that they are prepared for need not be the same
  induction k generalizing n σ G done k' with
  | zero => exact absurd hn (Nat.not_lt_zero n)
  | succ k ih =>
    obtain ⟨k', rfl⟩ := Nat.exists_eq_succ_of_ne_zero (Nat.ne_of_gt (Nat.lt_of_le_of_lt (Nat.zero_le n) hn'))
    rw [programBody, programBody]
    refine runs_currentIs .eof (runs_ite (fun _ => ?_) fun more => ?_)
    · exact runs_pure ⟨[], by simp, fun _ => trivial⟩ .inl
    · have left : 1 ≤ n := L.one_le_of_token (fun ended => more (decide_eq_true ended)) rfl
      exact runs_moreStatements h left room fun done m τ K hm => ih done (by omega) (by omega) (by omega)

/-! ## Programs -/

/-- The statements of a program are read one after another, up to the end of the tokens. A statement is kept when
something was read and no fault was recorded meanwhile. -/
inductive Listed (rec : Reader) : ParseState → List Stmt → ParseState → Prop where
  | ended {s : ParseState} : (s.tokens.head?.getD s.last).kind = .eof → Listed rec s [] s
  | kept {s t u : ParseState} {st : Stmt} {ss : List Stmt} : (s.tokens.head?.getD s.last).kind ≠ .eof →
      (rec .stmt).run.run s = (some st, t) → t.faults.length ≤ s.faults.length →
        Listed rec t.pastSemicolon.advanced ss u → Listed rec s (st :: ss) u
  | left {s t u : ParseState} {r : Option Stmt} {ss : List Stmt} : (s.tokens.head?.getD s.last).kind ≠ .eof →
      (rec .stmt).run.run s = (r, t) → r = none ∨ s.faults.length < t.faults.length →
        Listed rec t.pastSemicolon.advanced ss u → Listed rec s ss u

/-- At the end no token is left. -/
theorem Listed.at_end {ss : List Stmt} {t : ParseState} (h : Listed rec s ss t) :
    (t.tokens.head?.getD t.last).kind = .eof := by
  induction h with
  | ended h => exact h
  | kept _ _ _ _ ih => exact ih
  | left _ _ _ _ ih => exact ih

/-- At the end of the tokens the statements are given. -/
theorem goes_programBody_end {done : List Stmt} (ended : (s.tokens.head?.getD s.last).kind = .eof) :
    Goes (programBody rec (k + 1) done) s (pure done.reverse) s := by
  have seen : Goes (currentIs .eof) s (pure (decide ((s.tokens.head?.getD s.last).kind = .eof))) s := rfl
  rw [programBody]
  refine seen.andThen ?_
  rw [if_pos (decide_eq_true ended)]
  exact Goes.refl _ _

/-- Before the end of the tokens one more statement is read. -/
theorem goes_programBody_more {done : List Stmt} {r : Option Stmt} {t : ParseState}
    (more : (s.tokens.head?.getD s.last).kind ≠ .eof) (run : (rec .stmt).run.run s = (r, t)) :
    Goes (programBody rec (k + 1) done) s (programBody rec k
      (match if s.faults.length < t.faults.length then none else r with
        | some st => st :: done
        | none => done)) t.pastSemicolon.advanced := by
  have seen : Goes (currentIs .eof) s (pure (decide ((s.tokens.head?.getD s.last).kind = .eof))) s := rfl
  have listed : Goes (listedStatement rec) s (pure _) _ := run_listedStatement rec s
  have passed : Goes advance t.pastSemicolon (pure ()) t.pastSemicolon.advanced := rfl
  rw [run] at listed
  rw [programBody]
  refine seen.andThen ?_
  rw [if_neg (by simpa using more)]
  exact listed.andThen (passed.bind _)

/-- What the reading of a program gives, unless there were more statements than it was prepared for. -/
theorem listed_programBody (rec : Reader) (k : Nat) (done : List Stmt) (s : ParseState) :
    (∃ ss t, (programBody rec k done).run.run s = (some (done.reverse ++ ss), t) ∧ Listed rec s ss t) ∨
      ((programBody rec k done).run.run s).2.exhausted = true := by
  induction k generalizing done s with
  | zero => exact .inr rfl
  | succ k ih =>
    by_cases ended : (s.tokens.head?.getD s.last).kind = .eof
    · have run : (programBody rec (k + 1) done).run.run s = (some done.reverse, s) := goes_programBody_end ended
      exact .inl ⟨[], s, by rw [run, List.append_nil], .ended ended⟩
    obtain ⟨r, t, run⟩ : ∃ (r : Option Stmt) (t : ParseState), (rec .stmt).run.run s = (r, t) := ⟨_, _, rfl⟩
    have step : (programBody rec (k + 1) done).run.run s = _ := goes_programBody_more ended run
    rw [step]
    rcases ih _ t.pastSemicolon.advanced with ⟨ss, u, rest, listed⟩ | more
    · rw [rest]
      by_cases faulty : s.faults.length < t.faults.length
      · rw [if_pos faulty]
        exact .inl ⟨ss, u, rfl, .left ended run (.inr faulty) listed⟩
      · rw [if_neg faulty]
        cases r with
        | none => exact .inl ⟨ss, u, rfl, .left ended run (.inl rfl) listed⟩
        | some st => exact .inl ⟨st :: ss, u, by simp, .kept ended run (Nat.le_of_not_lt faulty) listed⟩
    · exact .inr more

/-! ## Readers -/

/-- One more level of reading keeps the contracts. -/
theorem agree_readStep (h : Reader.Agree L depth rec rec')
    (allowed : Reader.Allowed L (depth + 1) (readStep L.catalog rec)) :
    Reader.Agree L (depth + 1) (readStep L.catalog rec) (readStep L.catalog rec') where
  expr room tight := steady_expression h tight (by omega)
  typeSpec room := steady_typeSpec h (by omega)
  block room := runs_block h (by omega)
  cond room := runs_condition h (by omega)
  stmt room some := runs_statement h (by omega) some
  empty _ hs none := by
    have empty : (_ : Token).kind = .semicolon := (congrArg Token.kind (hs.ahead 0)).trans none
    exact ⟨run_statement_empty empty, run_statement_empty empty⟩
  allowed := allowed

/-- A course allows for what is read by readers of any depth. -/
def Course.Allows (L : Course) : Prop := ∀ {depth d : Nat}, depth ≤ d → Reader.Allowed L depth (read L.catalog d)

/-- Readers that are deep enough keep the contracts. -/
theorem agree_read (L : Course) (allows : L.Allows) {d d' : Nat} (hd : depth ≤ d) (hd' : depth ≤ d') :
    Reader.Agree L depth (read L.catalog d) (read L.catalog d') := by
  induction depth generalizing d d' with
  | zero =>
    -- no part has room in no levels
    refine ⟨?_, ?_, ?_, ?_, ?_, ?_, allows (Nat.zero_le d)⟩
    all_goals
      intros
      exact absurd ‹_ ≤ 0› (by omega)
  | succ depth ih =>
    have allowed := allows hd
    obtain ⟨d, rfl⟩ := Nat.exists_eq_add_of_le' (Nat.le_trans (Nat.succ_le_succ (Nat.zero_le depth)) hd)
    obtain ⟨d', rfl⟩ := Nat.exists_eq_add_of_le' (Nat.le_trans (Nat.succ_le_succ (Nat.zero_le depth)) hd')
    have step (e : Nat) : read L.catalog (e + 1) = readStep L.catalog (read L.catalog e) := rfl
    rw [step d, step d']
    exact agree_readStep (ih (Nat.le_of_succ_le_succ hd) (Nat.le_of_succ_le_succ hd')) (step d ▸ allowed)

/-! ## Parts of a program -/

/-- A part that begins with a number of tokens left needs no more levels of nesting than there are. -/
def Goal.Room (depth n : Nat) : Goal → Prop
  | .expr level => lowest ≤ level ∧ 2 * n + 1 ≤ depth
  | .stmt => 2 * n + 3 ≤ depth
  | .block | .cond | .typeSpec => 2 * n + 2 ≤ depth

/-- The statements in what a part is read as. -/
def Goal.statements : (g : Goal) → g.Result → List Stmt
  | .stmt, st => st :: Stmt.inner st
  | .cond, st => st :: Stmt.inner st
  | .block, b => Block.statements b
  | .expr _, _ => []
  | .typeSpec, _ => []

/-- How the reading of a part ends, unless it is an empty statement. -/
theorem Reader.Agree.ends_part (h : Reader.Agree L depth rec rec') {g : Goal} (room : g.Room depth n)
    (hs : L.At σ n s) :
    (∃ quiet Q, (∀ τ, quiet τ → ¬L.gapless) ∧
        Ends L quiet σ n False Q (fun a => L.held (g.statements a)) s ((rec g).run.run s) ((rec' g).run.run s)) ∨
      g = .stmt ∧ (L.token n).kind = .semicolon ∧ (rec g).run.run s = (none, s) ∧ (rec' g).run.run s = (none, s) := by
  have part {α : Type} {Q : α → Nat → Scopes → Prop} {parts : α → List Stmt} {x y : ParseM α} {quiet : Scopes → Prop}
      (gaps : ∀ τ, quiet τ → ¬L.gapless) (hx : Runs L quiet σ n False Q (fun a => False ∨ L.held (parts a)) x y) :
      ∃ quiet Q, (∀ τ, quiet τ → ¬L.gapless) ∧
        Ends L quiet σ n False Q (fun a => L.held (parts a)) s (x.run.run s) (y.run.run s) := by
    have bare : Runs L quiet σ n False Q (fun a => L.held (parts a)) x y :=
      runs_mono hx fun a m τ _ hq => ⟨hq, fun held => held.resolve_left id⟩
    exact ⟨quiet, Q, gaps, bare s hs⟩
  -- expressions and types hold no statements
  have steady {α : Type} {P : α → Prop} {x y : ParseM α} (hx : Steady L σ n P x y) :
      ∃ quiet Q, (∀ τ, quiet τ → ¬L.gapless) ∧
        Ends L quiet σ n False Q (fun _ => L.held []) s (x.run.run s) (y.run.run s) :=
    part (fun _ => False.elim) (runs_mono (hx False) fun a m τ _ hq => ⟨hq, False.elim⟩)
  cases g with
  | expr level => exact .inl (steady (h.expr room.2 room.1))
  | typeSpec => exact .inl (steady (h.typeSpec room))
  | block => exact .inl (part (fun _ => False.elim) (h.block room))
  | cond => exact .inl (part (fun _ => And.left) (h.cond room))
  | stmt =>
    by_cases empty : (L.token n).kind = .semicolon
    · exact .inr ⟨rfl, empty, h.empty room hs empty⟩
    · exact .inl (part (fun _ => And.left) (h.stmt room fun _ => empty))

/-! ## Courses through the tokens of a state -/

/-- Where some of the tokens are left, a statement is left out: it leads from the scopes in which it begins to others. -/
def LeftOut (c : Catalog) (tokens : List Token) (σ τ : Scopes) : Prop :=
  ∃ (d : Nat) (s : ParseState), s.tokens <:+ tokens ∧ s.last.kind = .eof ∧ s.exhausted = false ∧ s.scopes = σ ∧
    2 * s.tokens.length + 3 ≤ d ∧ ((listedStatement (read c d)).run.run s).1 = some none ∧
      ((listedStatement (read c d)).run.run s).2.scopes = τ

/-- An expression is part of a type that is given a name where some of the tokens are left, and it is complete in the scopes
there. -/
def NamedIn (c : Catalog) (tokens : List Token) (e : Expr) : Prop :=
  ∃ (d : Nat) (s : ParseState) (t : TypeSpec) (name word : Token), name :: word :: s.tokens <:+ tokens ∧ name.kind = .ident ∧
    word.kind = .kwTypeof ∧ s.last.kind = .eof ∧ s.exhausted = false ∧ 2 * s.tokens.length + 2 ≤ d ∧
      ((read c d .typeSpec).run.run s).1 = some t ∧ e ∈ t.exprs ∧ e.Complete c s.scopes

/-- What the statements read from tokens take from elsewhere. -/
def elsewhere (c : Catalog) (tokens : List Token) : Elsewhere := ⟨c, LeftOut c tokens, NamedIn c tokens⟩

/-- The course through the tokens of a state, on which readers do not differ. -/
def Course.ofState (c : Catalog) (s : ParseState) (ended : s.last.kind = .eof) : Course where
  toElsewhere := elsewhere c s.tokens
  tokens := s.tokens
  last := s.last
  formed := s.Formed (NamedIn c s.tokens)
  tidy := ∀ t ∈ s.tokens, t.kind ≠ .illegal
  gapless := s.tokens.IsChain fun t u => t.kind = .kwThen ∨ t.kind = .kwElse → u.kind ≠ .semicolon
  apart := s.tokens.IsChain fun t u => t.kind = .kwThen ∨ t.kind = .kwElse → u.kind ≠ .kwVar ∧ u.kind ≠ .kwConst
  differ := False
  held _ := False
  ended := ended
  formed_tokens h := h.tokens
  legal := id
  spaced := id
  parted := id
  tidy_of_differ h := h.elim
  gapless_of_differ h := h.elim
  held_mono _ h := h

/-- Where the course begins. -/
theorem Course.ofState_at {c : Catalog} (ended : s.last.kind = .eof) (alive : s.exhausted = false) :
    (Course.ofState c s ended).At s.scopes s.tokens.length s where
  tokens := by
    change s.tokens = s.tokens.drop (s.tokens.length - s.tokens.length)
    rw [Nat.sub_self, List.drop_zero]
  bound := Nat.le_refl _
  last := rfl
  scopes := rfl
  typedefs h := h.typedefs
  alive := alive

theorem Course.allows_ofState {c : Catalog} {ended : s.last.kind = .eof} : (Course.ofState c s ended).Allows := by
  intro depth d deep
  refine ⟨fun {σ n t} room ht out => ?_, fun {σ n t type e} room ht word inside read part complete => ?_⟩
  · refine ⟨d, t, ?_, ?_, ht.alive, ht.scopes, ?_, out, rfl⟩
    · rw [ht.tokens]
      exact List.drop_suffix _ s.tokens
    · rw [ht.last]
      exact ended
    · rw [ht.length]
      exact room.trans deep
  · refine ⟨d, t, type, _, _, ?_, word.1, word.2, ?_, ht.alive, ?_, read, part, ht.scopes.symm ▸ complete⟩
    · rw [ht.tokens, ← Course.token_cons _ (by omega), ← Course.token_cons _ inside]
      exact List.drop_suffix _ s.tokens
    · rw [ht.last]
      exact ended
    · rw [ht.length]
      exact room.trans deep

/-- The tokens of a text are followed by their end mark. -/
theorem initialState_ended (source : Text) : (initialState (Token.scan source).1).last.kind = .eof := by
  obtain ⟨front, last, shape, ended, -⟩ :=
    Cursor.tokensFrom_ends (source.size + 1) (Cursor.start source) (Nat.lt_succ_self _)
  have shape : (Token.scan source).1 = front ++ [last] := shape
  change ((Token.scan source).1.getLast?.getD default).kind = .eof
  rw [shape, List.getLast?_concat]
  exact ended

end Parser

/-- The reading of a source text: its statements, and the state of the parser behind them. -/
def Program.reading (c : Catalog) (source : Text) : Option (List Stmt) × ParseState :=
  let tokens := (Token.scan source).1
  let body := Parser.programBody (Parser.read c (4 * tokens.length + 8)) (tokens.length + 1) []
  body.run.run (Parser.initialState tokens)

/-- The program of a source text and its faults are those of its reading. -/
theorem Program.parse_eq_reading (c : Catalog) (source : Text) : Program.parse c source =
    (⟨(Program.reading c source).1.getD []⟩,
      (Token.scan source).2.map Parser.ofLexFault ++ (Program.reading c source).2.faults.reverse) := rfl

/-! ## Reading ends -/

namespace Parser

variable {c : Catalog} {s t : ParseState} {g : Goal} {σ : Scopes} {n d d' k k' : Nat}

/-- A reading that began in one state has ended in another: nothing was nested deeper and no list was longer than the
parser was prepared for, and it has not gone back. -/
structure Ended (s t : ParseState) : Prop where
  prepared : t.exhausted = false
  forward : t.tokens <:+ s.tokens

/-- What is on a course that began in a state has not gone back. -/
theorem Course.At.ended {ended : s.last.kind = .eof} (ht : (Course.ofState c s ended).At σ n t) : Ended s t :=
  ⟨ht.alive, ht.tokens ▸ List.drop_suffix _ s.tokens⟩

/-- The reading of any part of a program ends, and deeper readers read the same. -/
theorem read_ended (ended : s.last.kind = .eof) (alive : s.exhausted = false) (room : g.Room d s.tokens.length)
    (deeper : d ≤ d') :
    Ended s ((read c d g).run.run s).2 ∧ (read c d' g).run.run s = (read c d g).run.run s := by
  have agree := agree_read (Course.ofState c s ended) Course.allows_ofState (Nat.le_refl d) deeper
  rcases agree.ends_part room (Course.ofState_at ended alive) with ⟨_, _, -, ends⟩ | ⟨-, -, run, run'⟩
  · obtain ⟨m, τ, -, -, place, -⟩ := ends.place
    exact ⟨place.ended, ends.same.resolve_right And.left⟩
  · have run : (read c d g).run.run s = (none, s) := run
    rw [run]
    exact ⟨⟨alive, List.suffix_rfl⟩, run'⟩

/-- The reading of all statements ends behind the last token, and a parser that is prepared for more reads the same. -/
theorem programBody_ended (done : List Stmt) (ended : s.last.kind = .eof) (alive : s.exhausted = false)
    (room : 2 * s.tokens.length + 3 ≤ d) (long : s.tokens.length < k) (deeper : d ≤ d')
    (longer : s.tokens.length < k') :
    (∃ ss t, (programBody (read c d) k done).run.run s = (some (done.reverse ++ ss), t) ∧ Ended s t ∧
      (t.tokens.head?.getD t.last).kind = .eof) ∧
      (programBody (read c d') k' done).run.run s = (programBody (read c d) k done).run.run s := by
  have agree := agree_read (Course.ofState c s ended) Course.allows_ofState (Nat.le_refl d) deeper
  have runs : RunsList _ (fun _ => False) s.scopes s.tokens.length False done (programBody (read _ d) k done)
      (programBody (read _ d') k' done) := runs_programBody agree done long longer room
  obtain ⟨⟨m, τ, -, -, place, -⟩, -, -, -, same⟩ := runs s (Course.ofState_at ended alive)
  refine ⟨?_, same.resolve_right And.left⟩
  rcases listed_programBody (read c d) k done s with ⟨ss, t, run, listed⟩ | exhausted
  · have place := place.ended
    have run : (programBody (read (Course.ofState c s ended).catalog d) k done).run.run s = _ := run
    rw [run] at place
    exact ⟨ss, t, run, place, listed.at_end⟩
  · exact absurd (place.alive.symm.trans exhausted) Bool.false_ne_true

end Parser

/-- The tokens of a text end with the only end mark, and more fuel than there are bytes changes nothing. -/
theorem Token.scan_ends (source : Text) :
    (∃ front last, (Token.scan source).1 = front ++ [last] ∧ last.kind = .eof ∧ ∀ t ∈ front, t.kind ≠ .eof) ∧
      ∀ fuel, source.bytes.length < fuel → Cursor.tokensFrom fuel (Cursor.start source) = Token.scan source :=
  ⟨Cursor.tokensFrom_ends _ _ (Nat.lt_succ_self _),
    fun _ more => Cursor.tokensFrom_fuel _ more (Nat.lt_succ_self source.bytes.length)⟩

/-- The parser is prepared for every text, and gives its statements. -/
theorem Program.reading_ended (c : Catalog) (source : Text) :
    (Program.reading c source).1 = some (Program.parse c source).1.body ∧
      (Program.reading c source).2.exhausted = false := by
  have ended := Parser.initialState_ended source
  have room : 2 * (Token.scan source).1.length + 3 ≤ 4 * (Token.scan source).1.length + 8 := by omega
  obtain ⟨⟨ss, t, run, place, -⟩, -⟩ := Parser.programBody_ended (c := c) [] ended rfl room
    (Nat.lt_succ_self _) (Nat.le_refl _) (Nat.lt_succ_self _)
  have run : Program.reading c source = (some ss, t) := run
  rw [Program.parse_eq_reading, run]
  exact ⟨rfl, place.prepared⟩

/-- The tokens of every text come to an end, since each but the end mark takes a byte, and the parser comes to an end on
every list of tokens that ends with the end mark: neither the depth of nesting nor the length of a list goes beyond what
the tokens that are left allow for, and a parser that is prepared for more does the same. -/
theorem Program.parse_ends (c : Catalog) :
    (∀ p : Cursor, p.next.after.rest <:+ p.rest ∧
      (p.next.token.kind ≠ .eof → p.next.after.rest.length < p.rest.length)) ∧
    (∀ source : Text, (∃ front last, (Token.scan source).1 = front ++ [last] ∧ last.kind = .eof ∧
        ∀ t ∈ front, t.kind ≠ .eof) ∧
      ∀ fuel, source.bytes.length < fuel → Cursor.tokensFrom fuel (Cursor.start source) = Token.scan source) ∧
    (∀ (s : ParseState) (g : Parser.Goal) (d : Nat), s.last.kind = .eof → s.exhausted = false →
      g.Room d s.tokens.length → Parser.Ended s ((Parser.read c d g).run.run s).2 ∧
        ∀ d', d ≤ d' → (Parser.read c d' g).run.run s = (Parser.read c d g).run.run s) ∧
    (∀ (s : ParseState) (d k : Nat), s.last.kind = .eof → s.exhausted = false → 2 * s.tokens.length + 3 ≤ d →
      s.tokens.length < k →
      (∃ body t, (Parser.programBody (Parser.read c d) k []).run.run s = (some body, t) ∧ Parser.Ended s t ∧
        (t.tokens.head?.getD t.last).kind = .eof) ∧
      ∀ d' k', d ≤ d' → s.tokens.length < k' → (Parser.programBody (Parser.read c d') k' []).run.run s =
        (Parser.programBody (Parser.read c d) k []).run.run s) ∧
    ∀ source : Text, (Program.reading c source).1 = some (Program.parse c source).1.body ∧
      (Program.reading c source).2.exhausted = false := by
  refine ⟨fun p => ⟨p.next_suffix, p.next_shorter⟩, Token.scan_ends, ?_, ?_, Program.reading_ended c⟩
  · intro s g d ended alive room
    refine ⟨(Parser.read_ended ended alive room (Nat.le_refl d)).1, fun d' deeper => ?_⟩
    exact (Parser.read_ended ended alive room deeper).2
  · intro s d k ended alive room long
    refine ⟨?_, fun d' k' deeper longer => ?_⟩
    · obtain ⟨body, -⟩ := Parser.programBody_ended (c := c) [] ended alive room long (Nat.le_refl d) long
      exact body
    · exact (Parser.programBody_ended [] ended alive room long deeper longer).2

/-- A block that is not closed comes to an end, as a part and as a program. -/
theorem Program.parse_ends_unclosed :
    let s := Parser.initialState [⟨.lbrace, "\x7b", 1, 1⟩, ⟨.ident, "x", 1, 2⟩, ⟨.eof, "", 1, 3⟩]
    Parser.Ended s ((Parser.read default 8 .block).run.run s).2 ∧
      ∃ body t, (Parser.programBody (Parser.read default 9) 4 []).run.run s = (some body, t) ∧ Parser.Ended s t ∧
        (t.tokens.head?.getD t.last).kind = .eof := by
  intro s
  obtain ⟨-, -, part, program, -⟩ := Program.parse_ends default
  exact ⟨(part s .block 8 rfl rfl (Nat.le_refl 8)).1, (program s 9 4 rfl rfl (Nat.le_refl 9) (Nat.le_refl 4)).1⟩

/-! ## Programs are complete -/

/-- The state in which the parser begins is formed. -/
theorem Parser.initialState_formed (named : Expr → Prop) (source : Text) :
    (Parser.initialState (Token.scan source).1).Formed named :=
  ⟨fun t ht => (Cursor.tokensFrom_formed _ _ t ht).1, fun _ => nofun⟩

/-- The statements of every text are complete, and the only scope left is the one that the parser began with. -/
theorem Program.reading_complete (c : Catalog) (source : Text) :
    (∀ body, (Program.reading c source).1 = some body →
      Stmt.AllComplete (Parser.elsewhere c (Token.scan source).1) [[]] body) ∧
      (Program.reading c source).2.scopes.length = 1 := by
  have ended := Parser.initialState_ended source
  have enough : 2 * (Token.scan source).1.length + 3 ≤ 4 * (Token.scan source).1.length + 8 := by omega
  have agree := Parser.agree_read (Parser.Course.ofState c _ ended) Parser.Course.allows_ofState enough enough
  have runs : Parser.RunsList _ (fun _ => False) [[]] _ False [] (Parser.programBody (Parser.read c _) _ [])
      (Parser.programBody (Parser.read c _) _ []) :=
    Parser.runs_programBody agree [] (Nat.lt_succ_self _) (Nat.lt_succ_self _) (Nat.le_refl _)
  obtain ⟨⟨m, τ, -, grown, place, promise⟩, -⟩ := runs _ (Parser.Course.ofState_at ended rfl)
  refine ⟨fun body hb => ?_, ?_⟩
  · obtain ⟨more, shape, complete⟩ := promise body hb
    have shape : body = more := shape
    rw [shape]
    exact complete (Parser.initialState_formed _ source)
  · have scopes : (Program.reading c source).2.scopes = τ := place.scopes
    rw [scopes, grown.length]
    rfl

/-- The program of every text is complete, whatever the catalog: each statement in the scopes behind those before it,
where a statement that was left out may have declared names before it failed. So are the expressions in declared types,
but for those that came with the name of a type: they are complete in the scopes where the name was given. In its order,
the statements of a program are those that the parser read while it recorded no fault; behind them there is one scope
and no loop. -/
theorem Program.parse_complete (c : Catalog) (source : Text) :
    Stmt.AllComplete (Parser.elsewhere c (Token.scan source).1) [[]] (Program.parse c source).1.body ∧
      Parser.Listed (Parser.read c (4 * (Token.scan source).1.length + 8)) (Parser.initialState (Token.scan source).1)
        (Program.parse c source).1.body (Program.reading c source).2 ∧
      (Program.reading c source).2.scopes.length = 1 ∧ (Program.reading c source).2.loopDepth = 0 := by
  obtain ⟨gives, prepared⟩ := Program.reading_ended c source
  obtain ⟨complete, scopes⟩ := Program.reading_complete c source
  refine ⟨complete _ gives, ?_, scopes, ?_⟩
  · rcases Parser.listed_programBody (Parser.read c (4 * (Token.scan source).1.length + 8))
      ((Token.scan source).1.length + 1) [] (Parser.initialState (Token.scan source).1) with ⟨ss, t, run, listed⟩ | more
    · have run : Program.reading c source = (some ss, t) := run
      rw [run] at gives ⊢
      rw [← Option.some.inj gives]
      exact listed
    · have more : (Program.reading c source).2.exhausted = true := more
      rw [prepared] at more
      exact absurd more Bool.false_ne_true
  · exact (Parser.yields_programBody (Parser.yields_read _) (List.forall_mem_nil _) _ (Parser.holds_initialState source)).1.loops

end ScriptEngine
