import ScriptEngine.Decimal
import ScriptEngine.Program.Parser.Call
/-!
# Reading expressions

Operators are read by their levels: an operand is read with the level of the operator before it, and
takes in every operator that binds more tightly. Operators of one level group to the left, the power
and the assignments to the right.
-/

namespace ScriptEngine.Parser

/-- The lowest level: everything binds more tightly. -/
def lowest : Nat := 1
/-- The level of assignments. -/
def assignLevel : Nat := 2
/-- The level of operators in front of an operand. -/
def unaryLevel : Nat := 9
/-- The level of the power. -/
def powerLevel : Nat := 10

/-- The level at which a token continues an expression. -/
def level : Token.Kind → Nat
  | .assign | .plusEq | .minusEq | .starEq | .slashEq => assignLevel
  | .or => 3
  | .and => 4
  | .eq | .notEq => 5
  | .lt | .gt | .lte | .gte => 6
  | .plus | .minus => 7
  | .slash | .star | .percent => 8
  | .caret => powerLevel
  | .lparen | .lbracket | .dot | .plusPlus | .minusMinus => 11
  | _ => lowest

/-- The operator that a token between two operands stands for. -/
def binaryOp? : Token.Kind → Option BinaryOp
  | .plus => some .add | .minus => some .sub | .star => some .mul | .slash => some .div
  | .percent => some .mod | .caret => some .pow | .eq => some .eq | .notEq => some .ne
  | .lt => some .lt | .gt => some .gt | .lte => some .le | .gte => some .ge
  | .and => some .and | .or => some .or
  | _ => none

/-- The assignment that a token stands for. -/
def assignOp? : Token.Kind → Option AssignOp
  | .assign => some .set | .plusEq => some .add | .minusEq => some .sub | .starEq => some .mul
  | .slashEq => some .div
  | _ => none

/-- The whole number of a literal, when it is below a bound. -/
def wholeBelow? (t : Text) (bound : Nat) : Option Nat :=
  let n := Cursor.decimalValue t.bytes
  if n < bound then some n else none

/-- The fault of a literal that has no value. -/
def badLiteral {α : Type} (t : Token) (kind : String) : ParseM α :=
  fault .syntaxError t.line ("could not parse " ++ t.literal.quoted ++ " as " ++ kind)

/-! ## Lists -/

/-- The expressions after the first, up to the token `close`. -/
def moreExprs (rec : Reader) (close : Token.Kind) : Nat → List Expr → ParseM (List Expr)
  | 0, _ => exhaust
  | n + 1, done => do
    if ← peekIs .comma then
      advance
      advance
      let e ← rec (.expr lowest)
      moreExprs rec close n (e :: done)
    else
      expect close
      pure done.reverse

/-- Expressions separated by commas, up to the token `close`. -/
def exprList (rec : Reader) (close : Token.Kind) : ParseM (List Expr) := do
  if ← peekIs close then
    advance
    pure []
  else
    advance
    let first ← rec (.expr lowest)
    moreExprs rec close (← tokensLeft) [first]

/-- The arguments of a call: expressions, or expressions each after a name. -/
def moreArgs (rec : Reader) : Nat → List Expr → List Text → ParseM (List Expr × List Text)
  | 0, _, _ => exhaust
  | n + 1, args, names => do
    advance
    let t ← current
    let named := t.kind = .ident && (← peekIs .assign)
    let mixed := if named then !args.isEmpty && names.isEmpty else !names.isEmpty
    if mixed then fault .syntaxError t.line "Cannot mix named and sequence parameters."
    if named then
      advance
      advance
    let names := if named then t.literal.lower :: names else names
    let e ← rec (.expr lowest)
    if ← peekIs .comma then
      advance
      moreArgs rec n (e :: args) names
    else
      expect .rparen
      pure ((e :: args).reverse, names.reverse)

/-- A call of a function; the current token opens its arguments. -/
def call (c : Catalog) (rec : Reader) (function : Expr) : ParseM Expr := do
  let m ← mark
  match function with
  | .name _ f =>
    let (args, names) ←
      if ← peekIs .rparen then do
        advance
        pure ([], [])
      else moreArgs rec (← tokensLeft) [] []
    if f.contains "." then resolveCall c m f args names
    else pure (.call m f args names false "")
  | e => fault .syntaxError m.line (e.render ++ " is not callable")

/-- The pairs of an object literal. -/
def pairs (rec : Reader) : Nat → List (Text × Expr) → ParseM (List (Text × Expr))
  | 0, _ => exhaust
  | n + 1, done => do
    advance
    let t ← current
    match t.kind with
    | .string | .date | .ident | .typeName => pure ()
    | _ => fault .syntaxError t.line ("invalid json key " ++ t.literal.quoted)
    expect .colon
    advance
    let e ← rec (.expr lowest)
    if ← peekIs .comma then
      advance
      pairs rec n ((t.literal, e) :: done)
    else
      expect .rbrace
      pure ((t.literal, e) :: done).reverse

/-! ## Operands -/

/-- A name, or a member of the value it holds when it is dotted and not called. -/
def nameOrMember (t : Token) : ParseM Expr := do
  if t.literal.contains "." && !(← peekIs .lparen) then
    match t.literal.splitOn "." with
    | base :: path => pure (.member (markOf t) base path)
    | [] => pure (.name (markOf t) t.literal)
  else pure (.name (markOf t) t.literal)

/-- The expression that begins at the current token, before any operator after it. -/
def operand (c : Catalog) (rec : Reader) : ParseM Expr := do
  let t ← current
  let m := markOf t
  match t.kind with
  | .ident => nameOrMember t
  | .int =>
    match wholeBelow? t.literal (2 ^ 31) with
    | some n => pure (.int m (Int32.ofNat n))
    | none => badLiteral t "integer"
  | .long =>
    match wholeBelow? t.literal (2 ^ 63) with
    | some n => pure (.long m (Int64.ofNat n))
    | none => badLiteral t "long"
  | .double =>
    match (Decimal.ofLiteral t.literal.chars).toFloat? with
    | some x => pure (.double m x)
    | none => badLiteral t "double"
  | .string => pure (.string m t.literal)
  | .date =>
    match Date.ofText? t.literal with
    | some d => pure (.date m d)
    | none => pure (.string m t.literal)
  | .kwTrue => pure (.bool m true)
  | .kwFalse => pure (.bool m false)
  | .kwNull => pure (.null m)
  | .bang | .minus | .plus =>
    advance
    let e ← rec (.expr unaryLevel)
    let op : UnaryOp := if t.kind = .bang then .not else if t.kind = .minus then .negate else .plus
    pure (.unary m op e)
  | .kwTypeof =>
    advance
    let e ← rec (.expr unaryLevel)
    pure (.typeOf m e)
  | .lparen =>
    advance
    let e ← rec (.expr lowest)
    expect .rparen
    pure e
  | .lbracket =>
    let es ← exprList rec .rbracket
    pure (.array m es)
  | .lbrace =>
    if ← peekIs .rbrace then
      advance
      pure (.object m [])
    else
      let ps ← pairs rec (← tokensLeft) []
      pure (.object m ps)
  | .hash =>
    expect .ident
    let f ← current
    expect .lparen
    call c rec (.name (markOf f) f.literal)
  | .illegal => fault .syntaxError t.line ("unexpected " ++ t.literal.quoted)
  | k => fault .syntaxError t.line ("no prefix parse function for " ++ k.name ++ " found")

/-! ## Operators after an operand -/

/-- Fails when a value of a known kind cannot be given to a variable of a declared kind. -/
def checkAssigned (line : Nat) (name : Text) (declared : Kind) (value : Expr) : ParseM Unit := do
  let k := value.staticKind (← get).scopes
  if k ≠ .invalid && !k.assignable declared then
    fault .typeMismatch line
      ("cannot assign " ++ k.name ++ " to " ++ declared.name ++ " variable '" ++ name ++ "'")

/-- An assignment to `target`; the current token is its operator. -/
def assignment (rec : Reader) (op : AssignOp) (target : Expr) : ParseM Expr := do
  let m ← mark
  if !target.isTarget then
    fault .syntaxError m.line ("invalid assignment target " ++ target.render)
  advance
  let value ← rec (.expr (assignLevel - 1))
  match target, op with
  | .name _ v, .set =>
    match lookupKind (← get).scopes v with
    | some .any => pure ()
    | some declared => checkAssigned m.line v declared value
    | none => pure ()
  | _, _ => pure ()
  pure (.assign m op target value)

/-- The expression that the current token, an operator, makes with the operand before it. -/
def continuation (c : Catalog) (rec : Reader) (left : Expr) : ParseM Expr := do
  let t ← current
  let m := markOf t
  match t.kind with
  | .plusPlus | .minusMinus =>
    if !left.isTarget then
      fault .syntaxError t.line ("invalid " ++ t.literal ++ " target " ++ left.render)
    else pure (.step m (if t.kind = .plusPlus then .increment else .decrement) left)
  | .lparen => call c rec left
  | .lbracket =>
    advance
    let key ← rec (.expr lowest)
    expect .rbracket
    pure (.index m left key)
  | .dot =>
    expect .kwLength
    pure (.length m left)
  | k =>
    match assignOp? k, binaryOp? k with
    | some op, _ => assignment rec op left
    | none, some op =>
      advance
      let right ← rec (.expr (if op = .pow then powerLevel - 1 else level k))
      pure (.binary m op left right)
    | none, none => failure

/-- Takes in the operators that bind more tightly than a level. -/
def continuations (c : Catalog) (rec : Reader) (bound : Nat) : Nat → Expr → ParseM Expr
  | 0, _ => exhaust
  | n + 1, left => do
    let k := (← peek).kind
    if k ≠ .semicolon && bound < level k then
      advance
      let e ← continuation c rec left
      continuations c rec bound n e
    else pure left

/-- An expression whose operators bind more tightly than a level. -/
def expression (c : Catalog) (rec : Reader) (bound : Nat) : ParseM Expr := do
  let left ← operand c rec
  continuations c rec bound (← tokensLeft) left

end ScriptEngine.Parser
