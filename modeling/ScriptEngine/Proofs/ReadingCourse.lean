import Mathlib.Data.List.Chain
import ScriptEngine.Proofs.CompleteTree
import ScriptEngine.Proofs.ParserSteps
/-!
# The course of reading

How a computation of the parser goes through a list of tokens: it never goes back, it is never exhausted, it fails
only with a fault or where a branch of a condition is empty, and it gives complete trees. Two computations are looked at
side by side. They are the same one with two readers of the parts inside, and they go the same way unless the readers
differ somewhere; then what the first reader reads there is kept in what the first computation gives.
-/

namespace ScriptEngine.Parser

/-! ## The course -/

/-- A list of tokens on the way through which two readers are compared. -/
structure Course extends Elsewhere where
  tokens : List Token
  /-- The token that follows the last one. -/
  last : Token
  /-- Whether the literals of the tokens fit their kinds. -/
  formed : Prop
  /-- Whether no token is illegal. -/
  tidy : Prop
  /-- Whether no semicolon stands right behind `then` or `else`. -/
  gapless : Prop
  /-- Whether no declaration of a variable or a constant does. -/
  apart : Prop
  /-- Whether the two readers may differ at all. -/
  differ : Prop
  /-- What is true of the statements in a tree that what was read where the readers differ is part of. -/
  held : List Stmt → Prop
  ended : last.kind = .eof
  formed_tokens : formed → ∀ t ∈ tokens, t.Formed
  legal : tidy → ∀ t ∈ tokens, t.kind ≠ .illegal
  spaced : gapless → tokens.IsChain fun t u => t.kind = .kwThen ∨ t.kind = .kwElse → u.kind ≠ .semicolon
  parted : apart → tokens.IsChain fun t u => t.kind = .kwThen ∨ t.kind = .kwElse → u.kind ≠ .kwVar ∧ u.kind ≠ .kwConst
  tidy_of_differ : differ → tidy
  gapless_of_differ : differ → gapless
  held_mono : ∀ {ss ts}, (∀ s ∈ ss, s ∈ ts) → held ss → held ts

namespace Course

variable (L : Course) {σ : Scopes} {n : Nat} {s : ParseState}

/-- The current token when `n` tokens are left. -/
def token (n : Nat) : Token := (L.tokens.drop (L.tokens.length - n)).head?.getD L.last

/-- The state of a parser with `n` tokens left. -/
structure At (σ : Scopes) (n : Nat) (s : ParseState) : Prop where
  tokens : s.tokens = L.tokens.drop (L.tokens.length - n)
  bound : n ≤ L.tokens.length
  last : s.last = L.last
  scopes : s.scopes = σ
  typedefs : L.formed → ∀ t ∈ s.typedefs, t.2.Complete L.named
  alive : s.exhausted = false

/-! ### Tokens -/

/-- Where no token is left stands the last one. -/
theorem token_zero : L.token 0 = L.last := by
  unfold token
  rw [Nat.sub_zero, List.drop_length]
  rfl

theorem token_mem (n : Nat) : L.token n ∈ L.tokens ∨ L.token n = L.last := by
  unfold token
  cases h : (L.tokens.drop (L.tokens.length - n)).head? with
  | none => exact .inr rfl
  | some t => exact .inl (List.mem_of_mem_drop (List.mem_of_mem_head? h))

/-- What is no end mark is a token that is left. -/
theorem one_le_of_token {k : Token.Kind} (hk : k ≠ .eof) (h : (L.token n).kind = k) : 1 ≤ n := by
  rcases n with - | n
  · rw [L.token_zero, L.ended] at h
    exact absurd h.symm hk
  · exact Nat.succ_le_succ (Nat.zero_le n)

/-- Where the next token is no end mark, two tokens are left. -/
theorem two_le_of_token {k : Token.Kind} (hk : k ≠ .eof) (h : (L.token (n - 1)).kind = k) : 2 ≤ n := by
  have next := L.one_le_of_token hk h
  omega

/-- The tokens that are left, the current one and those behind it. -/
theorem token_cons {n : Nat} (inside : n + 1 ≤ L.tokens.length) :
    L.tokens.drop (L.tokens.length - (n + 1)) = L.token (n + 1) :: L.tokens.drop (L.tokens.length - n) := by
  have current := List.drop_eq_getElem_cons (show L.tokens.length - (n + 1) < L.tokens.length by omega)
  unfold token
  rw [current, show L.tokens.length - (n + 1) + 1 = L.tokens.length - n by omega]
  rfl

theorem token_formed (hf : L.formed) (n : Nat) : (L.token n).Formed := by
  rcases L.token_mem n with inside | isLast
  · exact L.formed_tokens hf _ inside
  · rw [isLast]
    refine ⟨fun h => ?_, fun h => ?_⟩
    · rw [L.ended] at h
      cases h
    · rw [L.ended] at h
      cases h

theorem token_legal (ht : L.tidy) (n : Nat) : (L.token n).kind ≠ .illegal := by
  rcases L.token_mem n with inside | isLast
  · exact L.legal ht _ inside
  · rw [isLast, L.ended]
    decide

/-- What follows `then` or `else`. -/
theorem token_behind {P : Token.Kind → Prop} (other : P .eof ∧ P .kwThen ∧ P .kwElse)
    (chain : L.tokens.IsChain fun t u => t.kind = .kwThen ∨ t.kind = .kwElse → P u.kind) {n : Nat}
    (h : (L.token n).kind = .kwThen ∨ (L.token n).kind = .kwElse) : P (L.token (n - 1)).kind := by
  obtain ⟨ended, thens, elses⟩ := other
  have chain := chain.drop (L.tokens.length - n)
  have left : 1 ≤ n := by
    rcases h with h | h
    · exact L.one_le_of_token (by decide) h
    · exact L.one_le_of_token (by decide) h
  -- beyond its tokens the course stays at the same token
  by_cases inside : n ≤ L.tokens.length
  · have next : L.tokens.drop (L.tokens.length - (n - 1)) = (L.tokens.drop (L.tokens.length - n)).drop 1 := by
      rw [List.drop_drop]
      congr 1
      omega
    unfold token at h ⊢
    rw [next]
    rcases hd : L.tokens.drop (L.tokens.length - n) with - | ⟨t, ts⟩
    · rw [List.drop_nil, List.head?_nil, Option.getD_none, L.ended]
      exact ended
    rw [hd] at h chain
    rcases ts with - | ⟨u, ts⟩
    · rw [List.drop_one, List.tail_cons, List.head?_nil, Option.getD_none, L.ended]
      exact ended
    · exact (List.isChain_cons_cons.mp chain).1 h
  · have same : L.token (n - 1) = L.token n := by
      unfold token
      rw [Nat.sub_eq_zero_of_le (by omega), Nat.sub_eq_zero_of_le (by omega)]
    rw [same]
    rcases h with h | h
    · rwa [h]
    · rwa [h]

/-- No semicolon stands behind `then` or `else`. -/
theorem token_spaced (hg : L.gapless) {n : Nat} (h : (L.token n).kind = .kwThen ∨ (L.token n).kind = .kwElse) :
    (L.token (n - 1)).kind ≠ .semicolon := L.token_behind (P := (· ≠ .semicolon)) (by decide) (L.spaced hg) h

/-- No declaration stands behind `then` or `else`. -/
theorem token_parted (ha : L.apart) {n : Nat} (h : (L.token n).kind = .kwThen ∨ (L.token n).kind = .kwElse) :
    (L.token (n - 1)).kind ≠ .kwVar ∧ (L.token (n - 1)).kind ≠ .kwConst :=
  L.token_behind (P := fun k => k ≠ .kwVar ∧ k ≠ .kwConst) (by decide) (L.parted ha) h

/-- Where a statement may be passed over without a fault, this leads to the scopes in which it began if no branch is a
declaration. -/
def Quiet (σ τ : Scopes) : Prop := ¬L.gapless ∧ (L.apart → τ = σ)

variable {L}

namespace At

theorem length (hs : L.At σ n s) : s.tokens.length = n := by
  have bound := hs.bound
  rw [hs.tokens, List.length_drop]
  omega

/-- The token some places ahead. -/
theorem ahead (hs : L.At σ n s) (k : Nat) : (s.tokens.drop k).head?.getD s.last = L.token (n - k) := by
  have bound := hs.bound
  rw [hs.tokens, hs.last, List.drop_drop]
  unfold Course.token
  by_cases inside : k ≤ n
  · rw [show L.tokens.length - n + k = L.tokens.length - (n - k) by omega]
  · rw [List.drop_eq_nil_of_le (by omega), List.drop_eq_nil_of_le (by omega)]

/-- The state with one token less. -/
theorem advance (hs : L.At σ n s) : L.At σ (n - 1) { s with tokens := s.tokens.drop 1 } := by
  have bound := hs.bound
  refine ⟨?_, by omega, hs.last, hs.scopes, hs.typedefs, hs.alive⟩
  change s.tokens.drop 1 = _
  rw [hs.tokens, List.drop_drop]
  rcases Nat.eq_zero_or_pos n with rfl | left
  · rw [List.drop_eq_nil_of_le (by omega), List.drop_eq_nil_of_le (by omega)]
  · congr 1
    omega

/-- The state with other names in scope. -/
theorem inScopes {τ : Scopes} (hs : L.At σ n s) : L.At τ n { s with scopes := τ } :=
  ⟨hs.tokens, hs.bound, hs.last, rfl, hs.typedefs, hs.alive⟩

end At

end Course

/-! ## Contracts -/

section Contracts

variable {α β : Type} {L : Course} {quiet : Scopes → Prop} {σ τ υ : Scopes} {n m : Nat} {G : Prop}
  {Q : α → Nat → Scopes → Prop} {H : α → Prop}
  {R : β → Nat → Scopes → Prop} {K : β → Prop} {x y : ParseM α} {f g : α → ParseM β}

/-- How a computation ends that began in a state with `n` tokens left and the names `σ` in scope, and how the same
computation with another reader ends. Without a fault it fails only in `quiet` scopes. `G` is what was true before of a part
where the readers differ, `H` what is true of it then. -/
structure Ends (L : Course) (quiet : Scopes → Prop) (σ : Scopes) (n : Nat) (G : Prop) (Q : α → Nat → Scopes → Prop)
    (H : α → Prop) (s : ParseState) (r r' : Option α × ParseState) : Prop where
  place : ∃ m τ, m ≤ n ∧ Scopes.Grown σ τ ∧ L.At τ m r.2 ∧ ∀ a, r.1 = some a → Q a m τ
  faults : s.faults.length ≤ r.2.faults.length
  loud : L.tidy → r.1 = none → s.faults.length < r.2.faults.length ∨ quiet r.2.scopes
  kept : G → r.2.faults = [] → ∀ a, r.1 = some a → H a
  same : r' = r ∨ L.differ ∧ (r.2.faults = [] → ∀ a, r.1 = some a → H a)

/-- The contract of a computation and of the same one with another reader. -/
def Runs (L : Course) (quiet : Scopes → Prop) (σ : Scopes) (n : Nat) (G : Prop) (Q : α → Nat → Scopes → Prop)
    (H : α → Prop) (x y : ParseM α) : Prop :=
  ∀ s, L.At σ n s → Ends L quiet σ n G Q H s (x.run.run s) (y.run.run s)

/-- The contract of a computation that gives no statements and declares no names. -/
def Steady (L : Course) (σ : Scopes) (n : Nat) (P : α → Prop) (x y : ParseM α) : Prop :=
  ∀ ⦃quiet⦄ G, Runs L quiet σ n G (fun a _ τ => τ = σ ∧ (L.formed → P a)) (fun _ => G) x y

theorem runs_mono {Q' : α → Nat → Scopes → Prop} {H' : α → Prop} (h : Runs L quiet σ n G Q H x y)
    (weaker : ∀ a m τ, m ≤ n → Q a m τ → Q' a m τ ∧ (H a → H' a)) : Runs L quiet σ n G Q' H' x y := by
  intro s hs
  obtain ⟨⟨m, τ, hm, grown, place, promise⟩, faults, loud, kept, same⟩ := h s hs
  have weaken (a : α) (ha : (x.run.run s).1 = some a) := weaker a m τ hm (promise a ha)
  refine ⟨⟨m, τ, hm, grown, place, fun a ha => (weaken a ha).1⟩, faults, loud, ?_, ?_⟩
  · exact fun hg clean a ha => (weaken a ha).2 (kept hg clean a ha)
  · rcases same with same | ⟨differ, held⟩
    · exact .inl same
    · exact .inr ⟨differ, fun clean a ha => (weaken a ha).2 (held clean a ha)⟩

/-- A computation that fails without a fault in fewer scopes. -/
theorem runs_quiet {quiet' : Scopes → Prop} (h : Runs L quiet' σ n G Q H x y) (hush : ∀ τ, quiet' τ → quiet τ) :
    Runs L quiet σ n G Q H x y := by
  intro s hs
  obtain ⟨place, faults, loud, kept, same⟩ := h s hs
  exact ⟨place, faults, fun ht none => (loud ht none).imp_right (hush _), kept, same⟩

/-- A result is given at once. -/
theorem runs_pure {a : α} (hq : Q a n σ) (hh : G → H a) : Runs L quiet σ n G Q H (pure a) (pure a) := by
  intro s hs
  refine ⟨⟨n, σ, Nat.le_refl n, .refl σ, hs, fun b hb => ?_⟩, Nat.le_refl _, fun _ => nofun, fun hg _ b hb => ?_,
    .inl rfl⟩
  · cases hb
    exact hq
  · cases hb
    exact hh hg

/-- One computation after another keeps the contract of the second, which may rely on that of the first. -/
theorem runs_bind (hx : Runs L quiet σ n G Q H x y)
    (hf : ∀ a m τ, m ≤ n → Q a m τ → Runs L quiet τ m (H a) R K (f a) (g a)) :
    Runs L quiet σ n G R K (x >>= f) (y >>= g) := by
  intro s hs
  obtain ⟨⟨m, τ, hm, grown, place, promise⟩, faults, loud, kept, same⟩ := hx s hs
  rw [run_bind x f, run_bind y g]
  obtain ⟨r, s', hr⟩ : ∃ r s', x.run.run s = (r, s') := ⟨_, _, rfl⟩
  rw [hr] at place promise faults loud kept same ⊢
  cases r with
  | none =>
    refine ⟨⟨m, τ, hm, grown, place, fun _ => nofun⟩, faults, fun ht _ => loud ht rfl, fun _ _ _ => nofun, ?_⟩
    rcases same with same | ⟨differ, -⟩
    · rw [same]
      exact .inl rfl
    · exact .inr ⟨differ, fun _ _ => nofun⟩
  | some a =>
    obtain ⟨⟨m', τ', hm', grown', place', promise'⟩, faults', loud', kept', same'⟩ :=
      hf a m τ hm (promise a rfl) s' place
    -- a run with no faults had none half-way
    have clean : ((f a).run.run s').2.faults = [] → s'.faults = [] := fun none => by
      rw [none] at faults'
      exact List.eq_nil_of_length_eq_zero (Nat.le_zero.mp faults')
    refine ⟨⟨m', τ', Nat.le_trans hm' hm, grown.trans grown', place', promise'⟩, Nat.le_trans faults faults',
      fun ht none => (loud' ht none).imp_left (Nat.lt_of_le_of_lt faults), fun hg none => ?_, ?_⟩
    · exact kept' (kept hg (clean none) a rfl) none
    · rcases same with same | ⟨differ, held⟩
      · rw [same]
        exact same'
      · exact .inr ⟨differ, fun none => kept' (held (clean none) a rfl) none⟩

theorem Steady.mono {P P' : α → Prop} (h : Steady L σ n P x y) (weaker : ∀ a, P a → P' a) : Steady L σ n P' x y :=
  fun _ G => runs_mono (h G) fun a _ _ _ ha => ⟨⟨ha.1, fun hf => weaker a (ha.2 hf)⟩, id⟩

/-- A part that is read on the way. -/
theorem runs_steady_bind {P : α → Prop} (hx : Steady L σ n P x y)
    (hf : ∀ a m, m ≤ n → (L.formed → P a) → Runs L quiet σ m G R K (f a) (g a)) :
    Runs L quiet σ n G R K (x >>= f) (y >>= g) := by
  refine runs_bind (hx G) fun a m τ hm promise => ?_
  obtain ⟨rfl, ha⟩ := promise
  exact hf a m hm ha

/-- A step that both computations take in the same way. -/
theorem runs_step {a : α} (hm : m ≤ n) (grown : Scopes.Grown σ τ)
    (hx : ∀ s, L.At σ n s → ∃ s', Goes x s (pure a) s' ∧ L.At τ m s' ∧ s'.faults = s.faults)
    (hf : Runs L quiet τ m G R K (f a) (g a)) : Runs L quiet σ n G R K (x >>= f) (x >>= g) := by
  have hx : Runs L quiet σ n G (fun b k υ => b = a ∧ k = m ∧ υ = τ) (fun _ => G) x x := by
    intro s hs
    obtain ⟨s', goes, place, same⟩ := hx s hs
    have run : x.run.run s = (some a, s') := goes
    rw [run]
    refine ⟨⟨m, τ, hm, grown, place, fun b hb => ?_⟩, Nat.le_of_eq (congrArg List.length same.symm), fun _ => nofun,
      fun hg _ _ _ => hg, .inl rfl⟩
    cases hb
    exact ⟨rfl, rfl, rfl⟩
  refine runs_bind hx fun b k υ _ this => ?_
  obtain ⟨rfl, rfl, rfl⟩ := this
  exact hf

/-- A computation that records a fault and fails. -/
theorem runs_loud (h : ∀ s, ∃ f, x.run.run s = (none, { s with faults := f :: s.faults })) : Runs L quiet σ n G Q H x x := by
  intro s hs
  obtain ⟨f, hf⟩ := h s
  rw [hf]
  refine ⟨⟨n, σ, Nat.le_refl n, .refl σ, ?_, fun _ => nofun⟩, Nat.le_succ _, fun _ _ => .inl (Nat.lt_succ_self _),
    fun _ _ _ => nofun, .inl rfl⟩
  exact ⟨hs.tokens, hs.bound, hs.last, hs.scopes, hs.typedefs, hs.alive⟩

theorem runs_fault (detail : Fault.Detail) (line : Nat) (message : Text) :
    Runs L quiet σ n G Q H (fault detail line message) (fault detail line message) :=
  runs_loud fun _ => ⟨Fault.ofParse detail.label line message, rfl⟩

theorem runs_fault_bind (detail : Fault.Detail) (line : Nat) (message : Text) :
    Runs L quiet σ n G R K (fault detail line message >>= f) (fault detail line message >>= g) :=
  runs_bind (runs_fault (Q := fun _ _ _ => False) (H := fun _ => False) detail line message) fun _ _ _ _ h => h.elim

/-- A computation that fails at once and records no fault. -/
theorem runs_failure (silent : L.tidy → quiet σ) : Runs L quiet σ n G Q H failure failure := by
  intro s hs
  refine ⟨⟨n, σ, Nat.le_refl n, .refl σ, hs, fun _ => nofun⟩, Nat.le_refl _, fun ht _ => .inr ?_, fun _ _ _ => nofun,
    .inl rfl⟩
  exact hs.scopes.symm ▸ silent ht

/-- A computation that is passed over when it fails. -/
theorem runs_attempt (h : Runs L (fun _ => False) σ n G Q H x y) :
    Runs L quiet σ n G (fun r m τ => ∀ a, r = some a → Q a m τ) (fun r => G ∨ ∃ a, r = some a ∧ H a) (attempt x)
      (attempt y) := by
  intro s hs
  obtain ⟨⟨m, τ, hm, grown, place, promise⟩, faults, loud, kept, same⟩ := h s hs
  have run (z : ParseM α) : (attempt z).run.run s = (some (z.run.run s).1, (z.run.run s).2) := rfl
  rw [run x, run y]
  generalize x.run.run s = r, y.run.run s = r' at place promise faults loud kept same
  refine ⟨⟨m, τ, hm, grown, place, fun a ha b hb => ?_⟩, faults, fun _ => nofun, fun hg _ _ _ => .inl hg, ?_⟩
  · cases ha
    exact promise b hb
  · rcases same with rfl | ⟨differ, held⟩
    · exact .inl rfl
    refine .inr ⟨differ, fun clean a ha => .inr ?_⟩
    cases ha
    cases hr : r.1 with
    | none =>
      have fewer := (loud (L.tidy_of_differ differ) hr).resolve_right id
      rw [clean] at fewer
      exact absurd fewer (Nat.not_lt_zero _)
    | some a => exact ⟨a, rfl, held clean a hr⟩

/-- Two computations that go on in the same cases. -/
theorem runs_ite {p : Prop} [Decidable p] {x' y' : ParseM α} (yes : p → Runs L quiet σ n G Q H x y)
    (no : ¬ p → Runs L quiet σ n G Q H x' y') : Runs L quiet σ n G Q H (if p then x else x') (if p then y else y') := by
  by_cases h : p
  · rw [if_pos h, if_pos h]
    exact yes h
  · rw [if_neg h, if_neg h]
    exact no h

end Contracts

/-! ## Steps -/

section Steps

variable {α : Type} {L : Course} {quiet : Scopes → Prop} {σ τ : Scopes} {n : Nat} {G : Prop} {Q : α → Nat → Scopes → Prop}
  {H : α → Prop}

theorem runs_current {f g : Token → ParseM α} (h : Runs L quiet σ n G Q H (f (L.token n)) (g (L.token n))) :
    Runs L quiet σ n G Q H (current >>= f) (current >>= g) :=
  runs_step (Nat.le_refl n) (.refl σ) (fun s hs => ⟨s, congrArg (fun t => (some t, s)) (hs.ahead 0), hs, rfl⟩) h

theorem runs_mark {f g : Mark → ParseM α} (h : Runs L quiet σ n G Q H (f (markOf (L.token n))) (g (markOf (L.token n)))) :
    Runs L quiet σ n G Q H (mark >>= f) (mark >>= g) :=
  runs_step (Nat.le_refl n) (.refl σ) (fun s hs => ⟨s, congrArg (fun t => (some (markOf t), s)) (hs.ahead 0), hs, rfl⟩) h

theorem runs_peek {f g : Token → ParseM α} (h : Runs L quiet σ n G Q H (f (L.token (n - 1))) (g (L.token (n - 1)))) :
    Runs L quiet σ n G Q H (peek >>= f) (peek >>= g) :=
  runs_step (Nat.le_refl n) (.refl σ) (fun s hs => ⟨s, congrArg (fun t => (some t, s)) (hs.ahead 1), hs, rfl⟩) h

theorem runs_peekBeyond {f g : Token → ParseM α} (h : Runs L quiet σ n G Q H (f (L.token (n - 2))) (g (L.token (n - 2)))) :
    Runs L quiet σ n G Q H (peekBeyond >>= f) (peekBeyond >>= g) :=
  runs_step (Nat.le_refl n) (.refl σ) (fun s hs => ⟨s, congrArg (fun t => (some t, s)) (hs.ahead 2), hs, rfl⟩) h

theorem runs_currentIs {f g : Bool → ParseM α} (k : Token.Kind)
    (h : Runs L quiet σ n G Q H (f (decide ((L.token n).kind = k))) (g (decide ((L.token n).kind = k)))) :
    Runs L quiet σ n G Q H (currentIs k >>= f) (currentIs k >>= g) :=
  runs_step (Nat.le_refl n) (.refl σ)
    (fun s hs => ⟨s, congrArg (fun t : Token => (some (decide (t.kind = k)), s)) (hs.ahead 0), hs, rfl⟩) h

theorem runs_peekIs {f g : Bool → ParseM α} (k : Token.Kind)
    (h : Runs L quiet σ n G Q H (f (decide ((L.token (n - 1)).kind = k))) (g (decide ((L.token (n - 1)).kind = k)))) :
    Runs L quiet σ n G Q H (peekIs k >>= f) (peekIs k >>= g) :=
  runs_step (Nat.le_refl n) (.refl σ)
    (fun s hs => ⟨s, congrArg (fun t : Token => (some (decide (t.kind = k)), s)) (hs.ahead 1), hs, rfl⟩) h

theorem runs_tokensLeft {f g : Nat → ParseM α} (h : Runs L quiet σ n G Q H (f (n + 1)) (g (n + 1))) :
    Runs L quiet σ n G Q H (tokensLeft >>= f) (tokensLeft >>= g) :=
  runs_step (Nat.le_refl n) (.refl σ)
    (fun s hs => ⟨s, congrArg (fun k => (some (k + 1), s)) hs.length, hs, rfl⟩) h

theorem runs_advance {f g : Unit → ParseM α} (h : Runs L quiet σ (n - 1) G Q H (f ()) (g ())) :
    Runs L quiet σ n G Q H (advance >>= f) (advance >>= g) :=
  runs_step (Nat.sub_le n 1) (.refl σ) (fun _ hs => ⟨_, rfl, hs.advance, rfl⟩) h

theorem runs_declare {f g : Unit → ParseM α} {name : Text} {k : Kind}
    (h : Runs L quiet (σ.declare name k) n G Q H (f ()) (g ())) :
    Runs L quiet σ n G Q H (declare name k >>= f) (declare name k >>= g) := by
  refine runs_step (Nat.le_refl n) (.declare name k (.refl σ)) (fun s hs => ⟨_, rfl, ?_⟩) h
  have scopes := hs.scopes
  cases hss : s.scopes with
  | nil =>
    rw [hss] at scopes
    rw [← scopes]
    simp only [hss]
    exact ⟨⟨hs.tokens, hs.bound, hs.last, hss, hs.typedefs, hs.alive⟩, trivial⟩
  | cons scope outer =>
    rw [hss] at scopes
    rw [← scopes]
    simp only [hss]
    exact ⟨⟨hs.tokens, hs.bound, hs.last, rfl, hs.typedefs, hs.alive⟩, trivial⟩

/-- The state that a computation looks at. -/
theorem runs_get {f g : ParseState → ParseM α} (h : ∀ s, L.At σ n s → Runs L quiet σ n G Q H (f s) (g s)) :
    Runs L quiet σ n G Q H (get >>= f) (get >>= g) := by
  intro s hs
  exact h s hs s hs

/-- A change of the state that concerns neither tokens nor names. -/
theorem runs_modify {f g : PUnit → ParseM α} {change : ParseState → ParseState}
    (place : ∀ s, L.At σ n s → L.At σ n (change s)) (faults : ∀ s, (change s).faults = s.faults)
    (h : Runs L quiet σ n G Q H (f ()) (g ())) : Runs L quiet σ n G Q H (modify change >>= f) (modify change >>= g) :=
  runs_step (Nat.le_refl n) (.refl σ) (fun s hs => ⟨change s, rfl, place s hs, faults s⟩) h

theorem runs_unexpectedPeek (k : Token.Kind) : Runs L quiet σ n G Q H (unexpectedPeek k) (unexpectedPeek k) := by
  refine runs_loud fun s => ?_
  unfold unexpectedPeek
  rw [run_bind]
  change ∃ f, StateT.run (OptionT.run (if ((s.tokens.drop 1).head?.getD s.last).kind = .illegal then _ else _)) s = _
  split
  · exact ⟨_, rfl⟩
  · exact ⟨_, rfl⟩

/-- A token that must come next. -/
theorem runs_expect {f g : Unit → ParseM α} {k : Token.Kind} (hk : k ≠ .eof)
    (h : (L.token (n - 1)).kind = k → 2 ≤ n → Runs L quiet σ (n - 1) G Q H (f ()) (g ())) :
    Runs L quiet σ n G Q H (expect k >>= f) (expect k >>= g) := by
  unfold expect
  simp only [bind_assoc]
  refine runs_peekIs k ?_
  by_cases next : (L.token (n - 1)).kind = k
  -- the token is no end mark, so that one is left behind it
  · rw [if_pos (decide_eq_true next)]
    exact runs_advance (h next (L.two_le_of_token hk next))
  · rw [if_neg (by simp [next])]
    exact runs_bind (runs_unexpectedPeek (Q := fun _ _ _ => False) (H := fun _ => False) k) fun _ _ _ _ h => h.elim

/-- A name without dots that must come next. -/
theorem runs_expectName {f g : Text → ParseM α}
    (h : (L.formed → (L.token (n - 1)).literal.IsUndotted) → 2 ≤ n →
      Runs L quiet σ (n - 1) G Q H (f (L.token (n - 1)).literal) (g (L.token (n - 1)).literal)) :
    Runs L quiet σ n G Q H (expectName >>= f) (expectName >>= g) := by
  unfold expectName
  simp only [bind_assoc]
  refine runs_expect (by decide) fun word left => ?_
  refine runs_current ?_
  by_cases dotted : (L.token (n - 1)).literal.contains "." = true
  · rw [if_pos dotted]
    exact runs_fault_bind _ _ _
  · rw [if_neg dotted, pure_bind, pure_bind]
    exact h (fun hf => ⟨(L.token_formed hf _).word word, Bool.not_eq_true _ ▸ dotted⟩) left

theorem run_between (before after : ParseState → ParseState) (x : ParseM α) (s : ParseState) :
    (between before after x).run.run s = ((x.run.run (before s)).1, after (x.run.run (before s)).2) := rfl

/-- A computation between changes of the state that record no faults: it begins with the names that the first leaves in
scope, and it ends with those that the second does. -/
theorem runs_between {quiet' : Scopes → Prop} {before after : ParseState → ParseState} {x y : ParseM α}
    {Q' : α → Nat → Scopes → Prop} (h : Runs L quiet' τ n G Q' H x y)
    (first : ∀ s, L.At σ n s → L.At τ n (before s) ∧ (before s).faults = s.faults)
    (second : ∀ m υ s, Scopes.Grown τ υ → L.At υ m s → (after s).faults = s.faults ∧
      ∃ υ', Scopes.Grown σ υ' ∧ L.At υ' m (after s) ∧ (quiet' υ → quiet υ') ∧ ∀ a, Q' a m υ → Q a m υ') :
    Runs L quiet σ n G Q H (between before after x) (between before after y) := by
  intro s hs
  obtain ⟨begun, none⟩ := first s hs
  obtain ⟨⟨m, υ, hm, grown, place, promise⟩, faults, loud, kept, same⟩ := h _ begun
  rw [run_between before after x, run_between before after y]
  generalize x.run.run (before s) = r, y.run.run (before s) = r' at place promise faults loud kept same
  obtain ⟨none', υ', grown', place', hush, promise'⟩ := second m υ r.2 grown place
  rw [none, ← none'] at faults loud
  rw [← none'] at kept same
  refine ⟨⟨m, υ', hm, grown', place', fun a ha => promise' a (promise a ha)⟩, faults, fun ht lost => ?_, kept, ?_⟩
  · refine (loud ht lost).imp_right fun silent => ?_
    rw [place.scopes] at silent
    rw [place'.scopes]
    exact hush silent
  · rcases same with rfl | differ
    · exact .inl rfl
    · exact .inr differ

/-- A part with a scope of its own: its names are gone behind it. -/
theorem runs_inScope {quiet' : Scopes → Prop} {x y : ParseM α} {P : α → Prop} (hush : ∀ υ, quiet' υ → quiet σ)
    (h : Runs L quiet' ([] :: σ) n G (fun a _ _ => P a) H x y) :
    Runs L quiet σ n G (fun a _ τ => τ = σ ∧ P a) H (inScope x) (inScope y) := by
  refine runs_between h (fun s hs => ⟨?_, rfl⟩) fun m υ s grown hs =>
    ⟨rfl, σ, .refl σ, ?_, hush υ, fun a ha => ⟨rfl, ha⟩⟩
  · rw [hs.scopes]
    exact hs.inScopes
  · have outside : υ.drop 1 = σ := grown.drop
    rw [hs.scopes, outside]
    exact hs.inScopes

/-- A part that is read with another count of loops. -/
theorem runs_counted {x y : ParseM α} {into back : ParseState → Nat} (h : Runs L quiet σ n G Q H x y) :
    Runs L quiet σ n G Q H
      (between (fun s => { s with loopDepth := into s }) (fun s => { s with loopDepth := back s }) x)
      (between (fun s => { s with loopDepth := into s }) (fun s => { s with loopDepth := back s }) y) := by
  have counted {υ : Scopes} {m : Nat} {s : ParseState} (depth : Nat) (hs : L.At υ m s) :
      L.At υ m { s with loopDepth := depth } :=
    ⟨hs.tokens, hs.bound, hs.last, hs.scopes, hs.typedefs, hs.alive⟩
  exact runs_between h (fun s hs => ⟨counted (into s) hs, rfl⟩)
    fun m υ s grown hs => ⟨rfl, υ, grown, counted (back s) hs, id, fun _ ha => ha⟩

end Steps

/-- What a computation gives is what it gives in a state with so many tokens left. -/
theorem runs_given {α : Type} {L : Course} {quiet : Scopes → Prop} {σ : Scopes} {n : Nat} {G : Prop}
    {Q : α → Nat → Scopes → Prop} {H : α → Prop} {x y : ParseM α} (h : Runs L quiet σ n G Q H x y) :
    Runs L quiet σ n G (fun a m τ => Q a m τ ∧ ∃ s, L.At σ n s ∧ (x.run.run s).1 = some a) H x y := by
  intro s hs
  obtain ⟨⟨m, τ, hm, grown, place, promise⟩, faults, loud, kept, same⟩ := h s hs
  exact ⟨⟨m, τ, hm, grown, place, fun a ha => ⟨promise a ha, s, hs, ha⟩⟩, faults, loud, kept, same⟩

/-! ## Readers -/

/-- The contract of a computation that reads the rest of a statement which began in the scopes `σ`. When it is `still`, it
declares no names. -/
abbrev RunsRest (L : Course) (quiet : Scopes → Prop) (still : Prop) (σ : Scopes) (G : Prop) (τ : Scopes) (n : Nat)
    (K : Prop) (x y : ParseM Stmt) : Prop :=
  Runs L quiet τ n K (fun s _ υ => υ = s.after σ ∧ (still → υ = σ) ∧ (L.formed → s.Complete L.toElsewhere σ))
    (fun s => G ∨ L.held (s :: s.inner)) x y

/-- The contract of a computation that reads a statement. -/
abbrev RunsStmt (L : Course) (quiet : Scopes → Prop) (still : Prop) (σ : Scopes) (n : Nat) (G : Prop)
    (x y : ParseM Stmt) : Prop := RunsRest L quiet still σ G σ n G x y

/-- A statement declares no names when it is known that it does not. -/
theorem runs_still {L : Course} {quiet : Scopes → Prop} {still still' : Prop} {σ : Scopes} {n : Nat} {G : Prop}
    {x y : ParseM Stmt} (h : RunsStmt L quiet still σ n G x y) (known : still' → still) : RunsStmt L quiet still' σ n G x y :=
  runs_mono h fun _ _ _ _ hs => ⟨⟨hs.1, fun k => hs.2.1 (known k), hs.2.2⟩, id⟩

/-- The contract of a computation that reads a block. -/
abbrev RunsBlock (L : Course) (quiet : Scopes → Prop) (σ : Scopes) (n : Nat) (G : Prop) (x y : ParseM Block) : Prop :=
  Runs L quiet σ n G (fun b _ τ => τ = σ ∧ (L.formed → b.Complete L.toElsewhere σ)) (fun b => G ∨ L.held b.statements) x y

/-- The course allows for what a reader leaves out of lists, and knows of the expressions in the types that get names. -/
structure Reader.Allowed (L : Course) (depth : Nat) (rec : Reader) : Prop where
  left {σ : Scopes} {n : Nat} {s : ParseState} (hn : 2 * n + 3 ≤ depth) (hs : L.At σ n s)
    (out : ((listedStatement rec).run.run s).1 = some none) : L.left σ ((listedStatement rec).run.run s).2.scopes
  named {σ : Scopes} {n : Nat} {s : ParseState} {t : TypeSpec} {e : Expr} (hn : 2 * n + 2 ≤ depth) (hs : L.At σ n s)
    (word : (L.token (n + 2)).kind = .ident ∧ (L.token (n + 1)).kind = .kwTypeof) (inside : n + 2 ≤ L.tokens.length)
    (read : ((rec .typeSpec).run.run s).1 = some t) (part : e ∈ t.exprs) (complete : e.Complete L.catalog σ) : L.named e

/-- Two readers keep the contracts of all parts, as far as `depth` levels of nesting are enough: a part has at most two
levels for each token that is left. -/
structure Reader.Agree (L : Course) (depth : Nat) (rec rec' : Reader) : Prop where
  expr {σ : Scopes} {n level : Nat} (hn : 2 * n + 1 ≤ depth) (tight : 1 ≤ level) :
    Steady L σ n (Expr.Complete L.catalog σ) (rec (.expr level)) (rec' (.expr level))
  typeSpec {σ : Scopes} {n : Nat} (hn : 2 * n + 2 ≤ depth) :
    Steady L σ n (TypeSpec.Complete (L.Fits σ)) (rec .typeSpec) (rec' .typeSpec)
  block {quiet : Scopes → Prop} {σ : Scopes} {n : Nat} {G : Prop} (hn : 2 * n + 2 ≤ depth) :
    RunsBlock L quiet σ n G (rec .block) (rec' .block)
  cond {σ : Scopes} {n : Nat} {G : Prop} (hn : 2 * n + 2 ≤ depth) :
    RunsStmt L (L.Quiet σ) L.apart σ n G (rec .cond) (rec' .cond)
  stmt {σ : Scopes} {n : Nat} {G : Prop} (hn : 2 * n + 3 ≤ depth) (some : L.gapless → (L.token n).kind ≠ .semicolon) :
    RunsStmt L (L.Quiet σ) (L.apart ∧ (L.token n).kind ≠ .kwVar ∧ (L.token n).kind ≠ .kwConst) σ n G
      (rec .stmt) (rec' .stmt)
  empty {σ : Scopes} {n : Nat} {s : ParseState} (hn : 2 * n + 3 ≤ depth) (hs : L.At σ n s)
    (none : (L.token n).kind = .semicolon) : (rec .stmt).run.run s = (.none, s) ∧ (rec' .stmt).run.run s = (.none, s)
  allowed : Reader.Allowed L depth rec

end ScriptEngine.Parser
