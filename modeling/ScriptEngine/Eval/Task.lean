import ScriptEngine.Machine
/-!
# Parts of a program to be run

Expressions, statements and calls contain each other. Each is run with a runner for the parts inside
it, so that every part has its own definition; the runner for all of them ties them together.
-/

namespace ScriptEngine.Eval

/-- A part of a program to be run. -/
inductive Task where
  | expr (e : Expr)
  | stmt (s : Stmt)
  /-- Waiting for a number of nanoseconds. -/
  | sleep (span : Nat)

/-- What running a part gives. -/
def Task.Result : Task → Type
  | expr _ => Value
  | stmt _ => Flow
  | sleep _ => Unit

/-- Runs every part of a program. -/
abbrev Runner := (t : Task) → Exec t.Result

variable (rec : Runner)

/-- The value of an expression. -/
@[inline]
def evaluate (e : Expr) : Exec Value := rec (.expr e)

/-- The values of expressions, from left to right. -/
def evaluateAll : List Expr → Exec (List Value)
  | [] => pure []
  | e :: es => do
    let v ← evaluate rec e
    let vs ← evaluateAll es
    pure (v :: vs)

/-- Repeats a computation until it gives something, at most `n` times. -/
def rounds {α : Type} (round : Exec (Option α)) : Nat → Exec α
  | 0 => Exec.noFuel
  | n + 1 => fun m =>
    match round m with
    | .done (some a) m => .done a m
    | .done none m => rounds round n m
    | .failed f m => .failed f m
    | .crashed why m => .crashed why m
    | .outOfFuel => .outOfFuel

/-- Repeated rounds are one round and, if that gives nothing, the rounds after it. -/
theorem rounds_succ {α : Type} (round : Exec (Option α)) (n : Nat) :
    rounds round (n + 1) = round >>= fun | some a => pure a | none => rounds round n := by
  funext m
  show rounds round (n + 1) m = Exec.andThen round _ m
  rw [rounds]
  unfold Exec.andThen
  dsimp only
  cases round m with
  | done r l => cases r <;> rfl
  | _ => rfl

/-- Statements one after the other, up to the first that ends more than itself. `last` is what the
statement before left behind. -/
def statementsFrom (last : Flow) : List Stmt → Exec Flow
  | [] => pure last
  | s :: rest => fun m =>
    match rec (.stmt s) m with
    | .done (.value v) m => statementsFrom (.value v) rest m
    | .done f m => .done f m
    | .failed e m => .failed (e.atLine s.line) m
    | .crashed why m => .crashed why m
    | .outOfFuel => .outOfFuel

/-- Statements are one statement and, unless that ends more than itself, the statements after it. -/
theorem statementsFrom_cons (last : Flow) (s : Stmt) (rest : List Stmt) :
    statementsFrom rec last (s :: rest) =
      Exec.atLine (α := Flow) s.line (rec (.stmt s)) >>= fun flow =>
        if flow.isSignal then pure flow else statementsFrom rec flow rest := by
  funext m
  show statementsFrom rec last (s :: rest) m = Exec.andThen (Exec.atLine (α := Flow) s.line (rec (.stmt s))) _ m
  rw [statementsFrom]
  unfold Exec.andThen Exec.atLine
  dsimp only
  cases rec (.stmt s) m with
  | done flow l => cases flow <;> rfl
  | _ => rfl

/-- Statements one after the other. -/
def statements (ss : List Stmt) : Exec Flow := statementsFrom rec (.value .null) ss

/-- The statements of a block in a frame of their own. -/
def blockBody (b : Block) : Exec Flow := Exec.inFrame (statements rec b.body)

end ScriptEngine.Eval
