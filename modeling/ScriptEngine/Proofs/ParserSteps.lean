import ScriptEngine.Proofs.Spelling
/-!
# Steps of the reader of expressions

What the reader of expressions does with the tokens that it stands on, one lemma for each way in which it goes on.
-/

namespace ScriptEngine

/-- A parser at other tokens. -/
def ParseState.on (s : ParseState) (ts : List Token) : ParseState := { s with tokens := ts }

/-- The level that an operator passes on to its right operand. -/
def BinaryOp.passedOn : BinaryOp → Nat
  | .pow => Parser.unaryLevel
  | op => op.level

namespace Parser

variable {α β : Type} {s s' s'' : ParseState} {c : Catalog} {rec : Reader}

/-! ## Computations that go on -/

/-- A computation goes on as another one does from a later state. -/
def Goes (x : ParseM α) (s : ParseState) (y : ParseM α) (s' : ParseState) : Prop := x.run.run s = y.run.run s'

theorem Goes.refl (x : ParseM α) (s : ParseState) : Goes x s x s := rfl

theorem Goes.trans {x y z : ParseM α} (h : Goes x s y s') (h' : Goes y s' z s'') : Goes x s z s'' :=
  Eq.trans h h'

/-- The run of one computation after another. -/
theorem run_bind (x : ParseM α) (f : α → ParseM β) (s : ParseState) :
    (x >>= f).run.run s = match x.run.run s with
      | (some a, s') => (f a).run.run s'
      | (none, s') => (none, s') := by
  rw [OptionT.run_bind, Option.elimM, StateT.run_bind]
  obtain ⟨r, s', hr⟩ : ∃ r s', x.run.run s = (r, s') := ⟨_, _, rfl⟩
  rw [hr]
  cases r <;> rfl

/-- What gives a result goes on with what is made of it. -/
theorem Goes.bind {x : ParseM α} {a : α} (h : Goes x s (pure a) s') (f : α → ParseM β) :
    Goes (x >>= f) s (f a) s' := by
  have run : x.run.run s = (some a, s') := h
  unfold Goes
  rw [run_bind, run]

/-- What gives a result goes on with what is made of it, and that may go on further. -/
theorem Goes.andThen {x : ParseM α} {a : α} {f : α → ParseM β} {y : ParseM β} (h : Goes x s (pure a) s')
    (h' : Goes (f a) s' y s'') : Goes (x >>= f) s y s'' :=
  (h.bind f).trans h'

section Tokens

variable {t u : Token} {ts : List Token}

theorem goes_current : Goes current (s.on (t :: ts)) (pure t) (s.on (t :: ts)) := rfl

theorem goes_peek : Goes peek (s.on (t :: u :: ts)) (pure u) (s.on (t :: u :: ts)) := rfl

theorem goes_advance : Goes advance (s.on (t :: ts)) (pure ()) (s.on ts) := rfl

theorem goes_mark : Goes mark (s.on (t :: ts)) (pure (markOf t)) (s.on (t :: ts)) := rfl

theorem goes_tokensLeft : Goes tokensLeft (s.on ts) (pure (ts.length + 1)) (s.on ts) := rfl

theorem goes_peekIs (k : Token.Kind) :
    Goes (peekIs k) (s.on (t :: u :: ts)) (pure (decide (u.kind = k))) (s.on (t :: u :: ts)) := rfl

theorem goes_expect {k : Token.Kind} (h : u.kind = k) :
    Goes (expect k) (s.on (t :: u :: ts)) (pure ()) (s.on (u :: ts)) := by
  unfold expect
  refine (goes_peekIs k).andThen ?_
  rw [if_pos (decide_eq_true h)]
  exact goes_advance

/-! ## Operands -/

theorem operand_name (hk : t.kind = .ident) (undotted : t.literal.contains "." = false) :
    Goes (operand c rec) (s.on (t :: ts)) (pure (.name (markOf t) t.literal)) (s.on (t :: ts)) := by
  unfold operand
  refine goes_current.andThen ?_
  simp only [hk, nameOrMember, undotted, Bool.false_and, Bool.false_eq_true, if_false]
  exact Goes.refl _ _

theorem operand_int (hk : t.kind = .int) (small : Cursor.decimalValue t.literal.bytes < 2 ^ 31) :
    Goes (operand c rec) (s.on (t :: ts))
      (pure (.int (markOf t) (Int32.ofNat (Cursor.decimalValue t.literal.bytes)))) (s.on (t :: ts)) := by
  unfold operand
  refine goes_current.andThen ?_
  simp only [hk, wholeBelow?, if_pos small]
  exact Goes.refl _ _

theorem operand_long (hk : t.kind = .long) (small : Cursor.decimalValue t.literal.bytes < 2 ^ 63) :
    Goes (operand c rec) (s.on (t :: ts))
      (pure (.long (markOf t) (Int64.ofNat (Cursor.decimalValue t.literal.bytes)))) (s.on (t :: ts)) := by
  unfold operand
  refine goes_current.andThen ?_
  simp only [hk, wholeBelow?, if_pos small]
  exact Goes.refl _ _

theorem operand_bool {b : Bool} (hk : t.kind = if b then .kwTrue else .kwFalse) :
    Goes (operand c rec) (s.on (t :: ts)) (pure (.bool (markOf t) b)) (s.on (t :: ts)) := by
  unfold operand
  refine goes_current.andThen ?_
  cases b
  · rw [if_neg Bool.false_ne_true] at hk
    simp only [hk]
    exact Goes.refl _ _
  · rw [if_pos rfl] at hk
    simp only [hk]
    exact Goes.refl _ _

theorem operand_null (hk : t.kind = .kwNull) :
    Goes (operand c rec) (s.on (t :: ts)) (pure (.null (markOf t))) (s.on (t :: ts)) := by
  unfold operand
  refine goes_current.andThen ?_
  simp only [hk]
  exact Goes.refl _ _

theorem operand_unary {op : UnaryOp} (hk : t.kind = op.lexeme.kind) : Goes (operand c rec) (s.on (t :: ts))
    (rec (.expr unaryLevel) >>= fun e : Expr => pure (.unary (markOf t) op e)) (s.on ts) := by
  unfold operand
  refine goes_current.andThen ?_
  cases op
  all_goals
    simp only [UnaryOp.lexeme, Lexeme.kind] at hk
    simp only [hk, reduceCtorEq, if_true, if_false]
    exact goes_advance.bind _

theorem operand_paren (hk : t.kind = .lparen) : Goes (operand c rec) (s.on (t :: ts))
    (rec (.expr lowest) >>= fun e : Expr => expect .rparen >>= fun _ => pure e) (s.on ts) := by
  unfold operand
  refine goes_current.andThen ?_
  simp only [hk]
  exact goes_advance.bind _

theorem operand_array (hk : t.kind = .lbracket) : Goes (operand c rec) (s.on (t :: ts))
    (exprList rec .rbracket >>= fun es => pure (.array (markOf t) es)) (s.on (t :: ts)) := by
  unfold operand
  refine goes_current.andThen ?_
  simp only [hk]
  exact Goes.refl _ _

theorem operand_hash {f l : Token} (hk : t.kind = .hash) (hf : f.kind = .ident) (hl : l.kind = .lparen) :
    Goes (operand c rec) (s.on (t :: f :: l :: ts)) (call c rec (.name (markOf f) f.literal)) (s.on (l :: ts)) := by
  unfold operand
  refine goes_current.andThen ?_
  simp only [hk]
  refine (goes_expect hf).andThen ?_
  refine goes_current.andThen ?_
  exact (goes_expect hl).bind _

/-! ## Operators after an operand -/

/-- An operand is read before the operators after it. -/
theorem expression_of_operand {e : Expr} (bound : Nat) (h : Goes (operand c rec) s (pure e) (s'.on ts)) :
    Goes (expression c rec bound) s (continuations c rec bound (ts.length + 1) e) (s'.on ts) := by
  unfold expression
  exact h.andThen (goes_tokensLeft.bind _)

/-- A token that binds no more tightly is left. -/
theorem continuations_stop {bound n : Nat} {left : Expr} (hu : level u.kind ≤ bound) :
    Goes (continuations c rec bound (n + 1) left) (s.on (t :: u :: ts)) (pure left) (s.on (t :: u :: ts)) := by
  unfold continuations
  refine goes_peek.andThen ?_
  rw [if_neg (by simp [Nat.not_lt.mpr hu])]
  exact Goes.refl _ _

/-- A token that binds more tightly is taken in. -/
theorem continuations_take {bound n : Nat} {left : Expr} (hu : bound < level u.kind) (other : u.kind ≠ .semicolon) :
    Goes (continuations c rec bound (n + 1) left) (s.on (t :: u :: ts))
      (continuation c rec left >>= fun e => continuations c rec bound n e) (s.on (u :: ts)) := by
  rw [continuations]
  refine goes_peek.andThen ?_
  rw [if_pos (by simp [hu, other])]
  exact goes_advance.bind _

/-- An operator takes the operand that is read with the level it passes on. -/
theorem continuation_binary {op : BinaryOp} {left : Expr} (hk : binaryOp? t.kind = some op) :
    Goes (continuation c rec left) (s.on (t :: ts))
      (rec (.expr op.passedOn) >>= fun right : Expr => pure (.binary (markOf t) op left right)) (s.on ts) := by
  unfold continuation
  refine goes_current.andThen ?_
  cases kind : t.kind
  all_goals
    rw [kind] at hk
    first
      | obtain rfl := Option.some.inj hk
        exact goes_advance.bind _
      | cases hk

theorem continuation_index {left : Expr} (hk : t.kind = .lbracket) : Goes (continuation c rec left) (s.on (t :: ts))
    (rec (.expr lowest) >>= fun key : Expr => expect .rbracket >>= fun _ => pure (.index (markOf t) left key))
    (s.on ts) := by
  unfold continuation
  refine goes_current.andThen ?_
  simp only [hk]
  exact goes_advance.bind _

theorem continuation_call {left : Expr} (hk : t.kind = .lparen) :
    Goes (continuation c rec left) (s.on (t :: ts)) (call c rec left) (s.on (t :: ts)) := by
  unfold continuation
  refine goes_current.andThen ?_
  simp only [hk]
  exact Goes.refl _ _

/-! ## Lists -/

/-- The arguments of a call, up to the parenthesis that closes them. -/
def arguments (rec : Reader) : ParseM (List Expr × List Text) := do
  if ← peekIs .rparen then do
    advance
    pure ([], [])
  else moreArgs rec (← tokensLeft) [] []

/-- What follows an argument of a call by position. -/
def afterArg (rec : Reader) (n : Nat) (args : List Expr) : ParseM (List Expr × List Text) := do
  if ← peekIs .comma then
    advance
    moreArgs rec n args []
  else
    expect .rparen
    pure (args.reverse, [])

/-- A function whose name has no dot is called with the arguments that are read. -/
theorem call_name {m : Mark} {f : Text} (undotted : f.contains "." = false) : Goes (call c rec (.name m f)) (s.on (t :: ts))
    (arguments rec >>= fun r => pure (.call (markOf t) f r.1 r.2 false "")) (s.on (t :: ts)) := by
  unfold call arguments
  refine goes_mark.andThen ?_
  simp only [undotted, Bool.false_eq_true, if_false, bind_assoc]
  have both (b : Bool) (x y : ParseM (List Expr × List Text)) (k : List Expr × List Text → ParseM Expr) :
      (if b = true then x else y) >>= k = if b = true then x >>= k else y >>= k := by cases b <;> rfl
  simp only [both, bind_assoc]
  exact Goes.refl _ _

/-- An argument that no sign of assignment follows is one by position. -/
theorem moreArgs_step {n : Nat} {args : List Expr} (unnamed : u.kind ≠ .assign) {v : Token} :
    Goes (moreArgs rec (n + 1) args []) (s.on (v :: t :: u :: ts))
      (rec (.expr lowest) >>= fun e : Expr => afterArg rec n (e :: args)) (s.on (t :: u :: ts)) := by
  rw [moreArgs]
  refine goes_advance.andThen ?_
  refine goes_current.andThen ?_
  refine (goes_peekIs .assign).andThen ?_
  simp only [unnamed, decide_false, Bool.and_false, Bool.false_eq_true, if_false, List.isEmpty_nil, Bool.not_true]
  exact Goes.refl _ _

theorem arguments_none (hu : u.kind = .rparen) :
    Goes (arguments rec) (s.on (t :: u :: ts)) (pure ([], [])) (s.on (u :: ts)) := by
  unfold arguments
  refine (goes_peekIs .rparen).andThen ?_
  rw [if_pos (decide_eq_true hu)]
  exact goes_advance.bind _

theorem arguments_some (hu : u.kind ≠ .rparen) : Goes (arguments rec) (s.on (t :: u :: ts))
    (moreArgs rec (ts.length + 3) [] []) (s.on (t :: u :: ts)) := by
  unfold arguments
  refine (goes_peekIs .rparen).andThen ?_
  rw [if_neg (by simp [hu])]
  exact goes_tokensLeft.bind _

theorem afterArg_last {n : Nat} {args : List Expr} (hu : u.kind = .rparen) :
    Goes (afterArg rec n args) (s.on (t :: u :: ts)) (pure (args.reverse, [])) (s.on (u :: ts)) := by
  unfold afterArg
  refine (goes_peekIs .comma).andThen ?_
  rw [if_neg (by simp [hu])]
  exact (goes_expect hu).bind _

theorem afterArg_step {n : Nat} {args : List Expr} (hu : u.kind = .comma) :
    Goes (afterArg rec n args) (s.on (t :: u :: ts)) (moreArgs rec n args []) (s.on (u :: ts)) := by
  unfold afterArg
  refine (goes_peekIs .comma).andThen ?_
  rw [if_pos (decide_eq_true hu)]
  exact goes_advance.bind _

theorem exprList_none {close : Token.Kind} (hu : u.kind = close) :
    Goes (exprList rec close) (s.on (t :: u :: ts)) (pure []) (s.on (u :: ts)) := by
  unfold exprList
  refine (goes_peekIs close).andThen ?_
  rw [if_pos (decide_eq_true hu)]
  exact goes_advance.bind _

theorem exprList_some {close : Token.Kind} (hu : u.kind ≠ close) : Goes (exprList rec close) (s.on (t :: u :: ts))
    (rec (.expr lowest) >>= fun e : Expr => tokensLeft >>= fun n => moreExprs rec close n [e]) (s.on (u :: ts)) := by
  unfold exprList
  refine (goes_peekIs close).andThen ?_
  rw [if_neg (by simp [hu])]
  exact goes_advance.bind _

theorem moreExprs_last {close : Token.Kind} {n : Nat} {done : List Expr} (hu : u.kind = close)
    (other : close ≠ .comma) :
    Goes (moreExprs rec close (n + 1) done) (s.on (t :: u :: ts)) (pure done.reverse) (s.on (u :: ts)) := by
  rw [moreExprs]
  refine (goes_peekIs .comma).andThen ?_
  rw [if_neg (by simp [hu, other])]
  exact (goes_expect hu).bind _

theorem moreExprs_step {close : Token.Kind} {n : Nat} {done : List Expr} (hu : u.kind = .comma) :
    Goes (moreExprs rec close (n + 1) done) (s.on (t :: u :: ts))
      (rec (.expr lowest) >>= fun e : Expr => moreExprs rec close n (e :: done)) (s.on ts) := by
  rw [moreExprs]
  refine (goes_peekIs .comma).andThen ?_
  rw [if_pos (decide_eq_true hu)]
  refine goes_advance.andThen ?_
  exact goes_advance.bind _

end Tokens

end Parser

end ScriptEngine
