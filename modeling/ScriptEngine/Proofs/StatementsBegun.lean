import ScriptEngine.Proofs.ReadingPrograms
/-!
# No statement is lost

A reader of parts is asked for a part in a state when what is read depends on what it gives there: another reader, which
gives something else there and the same everywhere else, makes a difference. The parts that the parser begins are those
that it asks for, and those that are asked for inside them. When a text has no faults, each of them is read, and its
statements are in the program; only an empty statement gives nothing.

A branch can not be told from an empty statement when it is one, so a semicolon right behind `then` or `else` makes the
whole condition disappear. The statements are kept when there is no such semicolon.
-/

namespace ScriptEngine

namespace Parser

variable {α : Type} {c : Catalog} {L : Course} {s t : ParseState} {g g' : Goal} {σ : Scopes} {n d : Nat}
  {rec rec' : Reader}

/-! ## What is asked for -/

/-- Two readers differ in one part in one state only. -/
def Reader.EqExcept (rec rec' : Reader) (g : Goal) (t : ParseState) : Prop :=
  ∀ g' s, ¬ (g' = g ∧ s = t) → (rec' g').run.run s = (rec g').run.run s

/-- A computation that begins in the state `s` asks its reader for a part in the state `t`: what it gives depends on
what is read there. -/
def Asks (x : Reader → ParseM α) (rec : Reader) (s : ParseState) (g : Goal) (t : ParseState) : Prop :=
  ∃ rec', Reader.EqExcept rec rec' g t ∧ (x rec').run.run s ≠ (x rec).run.run s

/-- A part is begun in a state when the parser asks for it, for the program or inside another part that is begun. A part
is begun with the levels of nesting that are left for it. -/
inductive Begun (c : Catalog) (source : Text) : Nat → Goal → ParseState → Prop where
  | program {g : Goal} {t : ParseState} :
      Asks (fun rec => programBody rec ((Token.scan source).1.length + 1) [])
        (read c (4 * (Token.scan source).1.length + 8)) (initialState (Token.scan source).1) g t →
      Begun c source (4 * (Token.scan source).1.length + 8) g t
  | part {d : Nat} {g g' : Goal} {s t : ParseState} : Begun c source (d + 1) g s →
      Asks (fun rec => readStep c rec g) (read c d) s g' t → Begun c source d g' t

/-- A part is read without faults, and its statements are among others; or it is an empty statement. -/
inductive Found (L : Course) (d : Nat) (rec : Reader) (ss : List Stmt) (g : Goal) (t : ParseState) : Prop where
  | empty : g = .stmt → (t.tokens.head?.getD t.last).kind = .semicolon → Found L d rec ss g t
  | kept {σ : Scopes} {n : Nat} {a : g.Result} {u : ParseState} : L.At σ n t → g.Room d n →
      (rec g).run.run t = (some a, u) → u.faults = [] → (∀ st ∈ g.statements a, st ∈ ss) → Found L d rec ss g t

/-- What is found among some statements is found among more. -/
theorem Found.mono {ss ts : List Stmt} (more : ∀ st ∈ ss, st ∈ ts) (h : Found L d rec ss g t) :
    Found L d rec ts g t := by
  cases h with
  | empty stmt semicolon => exact .empty stmt semicolon
  | kept place room run clean parts => exact .kept place room run clean fun st hst => more st (parts st hst)

/-! ## Readers that differ in one place -/

/-- Parts that hold statements. -/
def Goal.HasStatements : Goal → Prop
  | .stmt | .block | .cond => True
  | .expr _ | .typeSpec => False

theorem Goal.statements_of_not (none : ¬ g.HasStatements) (a : g.Result) : g.statements a = [] := by
  cases g with
  | expr level => rfl
  | typeSpec => rfl
  | stmt | block | cond => exact absurd trivial none

/-- A reader keeps a contract that another keeps when what that one gives in the only place where they differ is
held. -/
theorem runs_except (g' : Goal) {quiet : Scopes → Prop} {G : Prop} {Q : g'.Result → Nat → Scopes → Prop}
    {H : g'.Result → Prop} (only : Reader.EqExcept rec rec' g t) (h : Runs L quiet σ n G Q H (rec g') (rec g'))
    (here : g' = g → L.At σ n t →
      L.differ ∧ (((rec g').run.run t).2.faults = [] → ∀ a, ((rec g').run.run t).1 = some a → H a)) :
    Runs L quiet σ n G Q H (rec g') (rec' g') := by
  intro s hs
  obtain ⟨place, faults, loud, kept, -⟩ := h s hs
  refine ⟨place, faults, loud, kept, ?_⟩
  by_cases there : g' = g ∧ s = t
  · obtain ⟨part, rfl⟩ := there
    exact .inr (here part hs)
  · exact .inl (only g' s there)

/-- Readers that differ in one place keep the contracts when what is given there is held. -/
theorem agree_except (h : Reader.Agree L d rec rec) (only : Reader.EqExcept rec rec' g t)
    (here : ∀ σ n, L.At σ n t → g.Room d n → L.differ ∧ ¬ (g = .stmt ∧ (L.token n).kind = .semicolon) ∧
      (((rec g).run.run t).2.faults = [] → ∀ a, ((rec g).run.run t).1 = some a →
        g.HasStatements ∧ L.held (g.statements a))) : Reader.Agree L d rec rec' where
  expr {σ n level} hn tight quiet G := by
    refine runs_except (.expr level) only (h.expr hn tight G) fun same ht => ?_
    subst same
    obtain ⟨differ, -, held⟩ := here σ n ht ⟨tight, hn⟩
    exact ⟨differ, fun clean a ha => (held clean a ha).1.elim⟩
  typeSpec {σ n} hn quiet G := by
    refine runs_except .typeSpec only (h.typeSpec hn G) fun same ht => ?_
    subst same
    obtain ⟨differ, -, held⟩ := here σ n ht hn
    exact ⟨differ, fun clean a ha => (held clean a ha).1.elim⟩
  block {quiet σ n G} hn := by
    refine runs_except .block only (h.block hn) fun same ht => ?_
    subst same
    obtain ⟨differ, -, held⟩ := here σ n ht hn
    exact ⟨differ, fun clean a ha => .inr (held clean a ha).2⟩
  cond {σ n G} hn := by
    refine runs_except .cond only (h.cond hn) fun same ht => ?_
    subst same
    obtain ⟨differ, -, held⟩ := here σ n ht hn
    exact ⟨differ, fun clean a ha => .inr (held clean a ha).2⟩
  stmt {σ n G} hn some := by
    refine runs_except .stmt only (h.stmt hn some) fun same ht => ?_
    subst same
    obtain ⟨differ, -, held⟩ := here σ n ht hn
    exact ⟨differ, fun clean a ha => .inr (held clean a ha).2⟩
  empty {σ n s} hn hs none := by
    refine ⟨(h.empty hn hs none).1, ?_⟩
    rw [only .stmt s fun there => ?_]
    · exact (h.empty hn hs none).2
    · obtain ⟨rfl, rfl⟩ := there
      exact (here σ n hs hn).2.1 ⟨rfl, none⟩
  allowed := h.allowed

/-! ## What is asked for is read -/

/-- The course on which it is followed up what becomes of the statements that are read somewhere. -/
def Course.following (c : Catalog) (s : ParseState) (ended : s.last.kind = .eof) (held : List Stmt → Prop)
    (mono : ∀ ss ts, (∀ st ∈ ss, st ∈ ts) → held ss → held ts) : Course :=
  { Course.ofState c s ended with
    differ := s.Tidy
    tidy_of_differ := ParseState.Tidy.legal
    gapless_of_differ := ParseState.Tidy.spaced
    held := held
    held_mono := mono _ _ }

theorem Course.following_at_iff {ended : s.last.kind = .eof} {held : List Stmt → Prop}
    {mono : ∀ ss ts, (∀ st ∈ ss, st ∈ ts) → held ss → held ts} :
    (Course.following c s ended held mono).At σ n t ↔ (Course.ofState c s ended).At σ n t :=
  ⟨fun h => ⟨h.tokens, h.bound, h.last, h.scopes, h.typedefs, h.alive⟩,
    fun h => ⟨h.tokens, h.bound, h.last, h.scopes, h.typedefs, h.alive⟩⟩

theorem Course.allows_following {ended : s.last.kind = .eof} {held : List Stmt → Prop}
    {mono : ∀ ss ts, (∀ st ∈ ss, st ∈ ts) → held ss → held ts} : (Course.following c s ended held mono).Allows := by
  intro depth d deep
  have allowed : Reader.Allowed (Course.ofState c s ended) depth (read c d) := Course.allows_ofState deep
  exact ⟨fun room ht => allowed.left room (Course.following_at_iff.mp ht),
    fun room ht => allowed.named room (Course.following_at_iff.mp ht)⟩

/-- What is asked for by a computation that gives statements without faults is read without faults, and its statements
are among those. -/
theorem Asks.found {x : Reader → ParseM α} {a : α} {s₀ : ParseState} {ended : s₀.last.kind = .eof}
    (parts : α → List Stmt) (asks : Asks x rec s g t) (tidy : s₀.Tidy)
    (agree : ∀ held mono, Reader.Agree (Course.following c s₀ ended held mono) d rec rec)
    (contract : ∀ held mono rec', Reader.Agree (Course.following c s₀ ended held mono) d rec rec' →
      (x rec').run.run s = (x rec).run.run s ∨ held (parts a)) :
    Found (Course.ofState c s₀ ended) d rec (parts a) g t := by
  obtain ⟨rec', only, differs⟩ := asks
  -- if it were not found, another reader in this place would make no difference
  by_contra lost
  have notEmpty {σ : Scopes} {n : Nat} (ht : (Course.ofState c s₀ ended).At σ n t) :
      ¬ (g = .stmt ∧ ((Course.ofState c s₀ ended).token n).kind = .semicolon) := fun ⟨stmt, semicolon⟩ =>
    lost (.empty stmt ((congrArg Token.kind (ht.ahead 0)).trans semicolon))
  by_cases read : ∃ σ n b v, (Course.ofState c s₀ ended).At σ n t ∧ g.Room d n ∧
      (rec g).run.run t = (some b, v) ∧ v.faults = []
  · obtain ⟨σ, n, b, v, ht, room, gives, good⟩ := read
    -- its statements are followed up
    have held : ∀ st ∈ g.statements b, st ∈ parts a := by
      by_cases holds : g.HasStatements
      · have agree' := agree_except (agree (fun ss => ∀ st ∈ g.statements b, st ∈ ss)
          fun _ _ more inside st hst => more st (inside st hst)) only fun σ n ht _ =>
          ⟨tidy, notEmpty (Course.following_at_iff.mp ht), fun _ b' hb' => ⟨holds, fun st hst => ?_⟩⟩
        · exact (contract _ _ rec' agree').resolve_left differs
        · rw [gives] at hb'
          exact Option.some.inj hb' ▸ hst
      · rw [Goal.statements_of_not holds]
        exact fun _ => nofun
    exact lost (.kept ht room gives good held)
  · -- what is given nowhere is not followed up
    have agree' := agree_except (agree (fun _ => False) fun _ _ _ h => h) only fun σ n ht room => by
      rw [Course.following_at_iff] at ht
      refine ⟨tidy, notEmpty ht, fun good b hb => absurd ⟨σ, n, b, _, ht, room, ?_, good⟩ read⟩
      exact Prod.ext hb rfl
    exact ((contract _ _ rec' agree').resolve_left differs).elim

/-- What is begun for a tidy text without faults is found in its program. -/
theorem Begun.found {source : Text} (begun : Begun c source d g t) (tidy : (initialState (Token.scan source).1).Tidy)
    (clean : (Program.reading c source).2.faults = []) :
    Found (Course.ofState c _ (initialState_ended source)) d (read c d) (Program.parse c source).1.statements g t := by
  induction begun with
  | program asks =>
    refine Asks.found (a := (Program.parse c source).1.body) Stmt.ofAll asks tidy
      (fun held mono => agree_read _ Course.allows_following (Nat.le_refl _) (Nat.le_refl _)) fun held mono rec' agree => ?_
    have room : 2 * (Token.scan source).1.length + 3 ≤ 4 * (Token.scan source).1.length + 8 := by omega
    have runs : RunsList _ (fun _ => False) [[]] _ False [] _ _ :=
      runs_programBody agree [] (Nat.lt_succ_self _) (Nat.lt_succ_self _) room
    have ends := runs _ (Course.following_at_iff.mpr (Course.ofState_at (initialState_ended source) rfl))
    refine ends.same.imp_right fun differ => ?_
    exact (differ.2 clean _ (Program.reading_ended c source).1).resolve_left id
  | @part d g g' s t begun asks ih =>
    cases ih with
    | empty stmt semicolon =>
      -- an empty statement asks for nothing
      subst stmt
      obtain ⟨rec', -, differs⟩ := asks
      exact absurd ((run_statement_empty semicolon).trans (run_statement_empty semicolon).symm) differs
    | @kept σ n a u place room gives good held =>
      refine Found.mono held (Asks.found (a := a) (Goal.statements _) asks tidy
        (fun held mono => agree_read _ Course.allows_following (Nat.le_refl _) (Nat.le_refl _)) fun held mono rec' agree => ?_)
      have level : readStep c (read c d) = read c (d + 1) := rfl
      have deeper := agree_readStep agree (level ▸ Course.allows_following (Nat.le_refl (d + 1)))
      rcases deeper.ends_part room (Course.following_at_iff.mpr place)
        with ⟨_, _, -, ends⟩ | ⟨-, -, run, run'⟩
      · exact ends.same.imp_right fun differ => differ.2 (gives ▸ good) a (congrArg Prod.fst gives)
      · exact .inl (run'.trans run.symm)

/-! ## The first statement of a program is begun -/

open Classical in
/-- A reader that gives everything up in one place. -/
noncomputable def Reader.givingUp (rec : Reader) (g : Goal) (t : ParseState) : Reader := fun g' => OptionT.mk fun s =>
  if g' = g ∧ s = t then (none, { s with tokens := [], exhausted := true }) else (rec g').run.run s

theorem Reader.eqExcept_givingUp : Reader.EqExcept rec (rec.givingUp g t) g t := by
  intro g' s elsewhere
  exact if_neg elsewhere

/-- Behind the last token a program that was given up remains so. -/
theorem exhausted_programBody {k : Nat} {done : List Stmt} (gone : s.tokens = []) (ended : s.last.kind = .eof)
    (lost : s.exhausted = true) : ((programBody rec k done).run.run s).2.exhausted = true := by
  cases k with
  | zero => rfl
  | succ k =>
    have here : (s.tokens.head?.getD s.last).kind = .eof := by
      rw [gone]
      exact ended
    have run : (programBody rec (k + 1) done).run.run s = (some done.reverse, s) := goes_programBody_end here
    rw [run]
    exact lost

/-- Before the end of the tokens a program asks for a statement. -/
theorem asks_first {k : Nat} (alive : ((programBody rec (k + 1) []).run.run s).2.exhausted = false)
    (ended : s.last.kind = .eof) (more : (s.tokens.head?.getD s.last).kind ≠ .eof) :
    Asks (fun rec => programBody rec (k + 1) []) rec s .stmt s := by
  refine ⟨_, Reader.eqExcept_givingUp, fun same => ?_⟩
  obtain ⟨u, given, lost, gone, last⟩ : ∃ u, (rec.givingUp .stmt s .stmt).run.run s = (none, u) ∧ u.exhausted = true ∧
      u.tokens = [] ∧ u.last = s.last := ⟨_, if_pos ⟨rfl, rfl⟩, rfl, rfl, rfl⟩
  have run : (programBody (rec.givingUp .stmt s) (k + 1) []).run.run s = _ := goes_programBody_more more given
  have still : ((programBody (rec.givingUp .stmt s) (k + 1) []).run.run s).2.exhausted = true := by
    rw [run]
    apply exhausted_programBody
    all_goals
      unfold ParseState.pastSemicolon
      split <;> simp [ParseState.advanced, gone, last, ended, lost]
  dsimp only at same
  rw [same, alive] at still
  exact absurd still Bool.false_ne_true

/-- The first statement of a text is begun. -/
theorem Begun.first (c : Catalog) (source : Text) (more : ((initialState (Token.scan source).1).tokens.head?.getD
    (initialState (Token.scan source).1).last).kind ≠ .eof) :
    Begun c source (4 * (Token.scan source).1.length + 8) .stmt (initialState (Token.scan source).1) :=
  .program (asks_first (Program.reading_ended c source).2 (initialState_ended source) more)

end Parser

/-- Every part of a program that is begun is kept: in a text without faults in which no semicolon stands right behind
`then` or `else`, the part is read, and its statements are in the program, unless it is an empty statement. -/
theorem Program.begun_kept (c : Catalog) (source : Text) (clean : (Program.parse c source).2 = [])
    (spaced : (Token.scan source).1.IsChain fun t u => t.kind = .kwThen ∨ t.kind = .kwElse → u.kind ≠ .semicolon)
    {d : Nat} {g : Parser.Goal} {t : ParseState} (begun : Parser.Begun c source d g t) :
    (g = .stmt ∧ (t.tokens.head?.getD t.last).kind = .semicolon) ∨
      ∃ a u, (Parser.read c d g).run.run t = (some a, u) ∧ u.faults = [] ∧
        ∀ st ∈ g.statements a, st ∈ (Program.parse c source).1.statements := by
  rw [Program.parse_eq_reading] at clean
  obtain ⟨noLexFaults, noFaults⟩ := List.append_eq_nil_iff.mp clean
  have legal : ∀ t ∈ (Token.scan source).1, t.kind ≠ .illegal := fun t ht illegal =>
    (Cursor.tokensFrom_formed _ _ t ht).2 illegal (List.map_eq_nil_iff.mp noLexFaults)
  rcases begun.found ⟨legal, spaced⟩ (List.reverse_eq_nil_iff.mp noFaults)
    with ⟨stmt, semicolon⟩ | ⟨-, -, run, good, parts⟩
  · exact .inl ⟨stmt, semicolon⟩
  · exact .inr ⟨_, _, run, good, parts⟩

/-- A condition whose branches are statements is begun and kept. -/
theorem Program.begun_kept_condition :
    let source : Text := "if true then print 1; else print 2;"
    let depth := 4 * (Token.scan source).1.length + 8
    let s := Parser.initialState (Token.scan source).1
    (Program.parse default source).2 = [] ∧
      ((Token.scan source).1.IsChain fun t u => t.kind = .kwThen ∨ t.kind = .kwElse → u.kind ≠ .semicolon) ∧
      Parser.Begun default source depth .stmt s ∧
      ∃ (a : Stmt) (u : ParseState), (Parser.read default depth .stmt).run.run s = (some a, u) ∧
        ∀ st ∈ a :: a.inner, st ∈ (Program.parse default source).1.statements := by
  have clean : (Program.parse default "if true then print 1; else print 2;").2 = [] := by decide +kernel
  have spaced : (Token.scan "if true then print 1; else print 2;").1.IsChain fun t u =>
    t.kind = .kwThen ∨ t.kind = .kwElse → u.kind ≠ .semicolon := by decide +kernel
  have begun := Parser.Begun.first default "if true then print 1; else print 2;" (by decide +kernel)
  refine ⟨clean, spaced, begun, ?_⟩
  rcases Program.begun_kept default _ clean spaced begun with ⟨-, semicolon⟩ | ⟨a, u, run, -, kept⟩
  · exact absurd semicolon (by decide +kernel)
  · exact ⟨a, u, run, kept⟩

/-- A condition with an empty branch is begun in a text without faults, and it is not in its program. -/
theorem Program.begun_lost :
    let source : Text := "if true then print 1; else ; print 2;"
    let depth := 4 * (Token.scan source).1.length + 8
    let s := Parser.initialState (Token.scan source).1
    Parser.Begun default source depth .stmt s ∧ (s.tokens.head?.getD s.last).kind = .kwIf ∧
      ((Parser.read default depth .stmt).run.run s).1 = none ∧
      ∃ m, Program.parse default source = (⟨[.print m (.int ⟨"2", 1⟩ 2)]⟩, []) := by
  refine ⟨Parser.Begun.first default _ (by decide +kernel), by decide +kernel, ?_, _, rfl⟩
  exact Option.isNone_iff_eq_none.mp (by decide +kernel)

end ScriptEngine
