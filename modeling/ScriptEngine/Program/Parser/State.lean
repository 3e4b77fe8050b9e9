import ScriptEngine.Program.Printer
import ScriptEngine.Signature
import ScriptEngine.Token.Lexer
/-!
# The state of a parser

A parser looks at two tokens, the current one and the one after it. A part of a program that cannot be
read makes it fail; before it fails it records a fault, unless there was nothing to read.
-/

namespace ScriptEngine

/-- The signatures that calls are checked against. -/
structure Catalog where
  builtins : Registry
  plugins : Registry
deriving Inhabited

/-- The state of a parser. Faults are kept latest first and scopes innermost first; tokens begin with
the current one. -/
structure ParseState where
  tokens : List Token
  /-- The token that follows the last one, again and again. -/
  last : Token
  faults : List Fault
  scopes : List (List (Text × Kind))
  loopDepth : Nat
  typedefs : List (Text × TypeSpec)
  /-- Whether parts were nested deeper, or a list was longer, than the parser was prepared for. -/
  exhausted : Bool

/-- A computation of the parser. -/
abbrev ParseM := OptionT (StateM ParseState)

namespace Parser

/-- The current token. -/
def current : ParseM Token := do
  let s ← get
  pure (s.tokens.head?.getD s.last)

/-- The token after the current one. -/
def peek : ParseM Token := do
  let s ← get
  pure ((s.tokens.drop 1).head?.getD s.last)

/-- The token after the next. -/
def peekBeyond : ParseM Token := do
  let s ← get
  pure ((s.tokens.drop 2).head?.getD s.last)

/-- Goes to the next token. -/
def advance : ParseM Unit := modify fun s => { s with tokens := s.tokens.drop 1 }

/-- Whether the current token is of a kind. -/
def currentIs (k : Token.Kind) : ParseM Bool := do pure ((← current).kind = k)

/-- Whether the next token is of a kind. -/
def peekIs (k : Token.Kind) : ParseM Bool := do pure ((← peek).kind = k)

/-- The mark of a token. -/
def markOf (t : Token) : Mark := ⟨t.literal, t.line⟩

/-- The mark of the current token. -/
def mark : ParseM Mark := do pure (markOf (← current))

/-- Records a fault. -/
def note (detail : Fault.Detail) (line : Nat) (message : Text) : ParseM Unit :=
  modify fun s => { s with faults := Fault.ofParse detail.label line message :: s.faults }

/-- Records a fault and fails. -/
def fault {α : Type} (detail : Fault.Detail) (line : Nat) (message : Text) : ParseM α := do
  note detail line message
  failure

/-- Records an unexpected token in place of the next and fails. -/
def unexpectedPeek {α : Type} (k : Token.Kind) : ParseM α := do
  let t ← peek
  if t.kind = .illegal then fault .syntaxError t.line ("unexpected " ++ t.literal.quoted)
  else
    fault .syntaxError t.line
      ("expected next token to be " ++ k.name ++ ", got " ++ t.kind.name ++ " instead")

/-- Gives up a part that is nested deeper, or a list that is longer, than the parser is prepared for. -/
def exhaust {α : Type} : ParseM α := do
  modify fun s => { s with exhausted := true }
  failure

/-- Goes to the next token, which must be of a kind. -/
def expect (k : Token.Kind) : ParseM Unit := do
  if ← peekIs k then advance else unexpectedPeek k

/-- Goes to the next token, which must be a name without dots. -/
def expectName : ParseM Text := do
  expect .ident
  let t ← current
  if t.literal.contains "." then
    fault .syntaxError t.line
      ("invalid name " ++ t.literal.quoted ++ ": names cannot contain '.'")
  else pure t.literal

/-- Runs a computation and gives its result, if any, without failing. -/
def attempt {α : Type} (x : ParseM α) : ParseM (Option α) :=
  OptionT.mk do
    let r ← x.run
    pure (some r)

/-- Runs a computation between changes of the state; the second is made even if it fails. -/
def between {α : Type} (before after : ParseState → ParseState) (x : ParseM α) : ParseM α :=
  OptionT.mk do
    modify before
    let r ← x.run
    modify after
    pure r

/-- Runs a computation in a scope of its own. -/
def inScope {α : Type} (x : ParseM α) : ParseM α :=
  between (fun s => { s with scopes := [] :: s.scopes })
    (fun s => { s with scopes := s.scopes.drop 1 }) x

/-- The number of faults recorded. -/
def faultCount : ParseM Nat := do pure (← get).faults.length

/-- Gives a name a kind in the innermost scope. -/
def declare (name : Text) (k : Kind) : ParseM Unit := modify fun s =>
  match s.scopes with
  | [] => s
  | scope :: outer => { s with scopes := ((name, k) :: scope) :: outer }

/-- The kind of a name in the innermost scope that declares it. -/
def lookupKind (scopes : List (List (Text × Kind))) (name : Text) : Option Kind :=
  scopes.findSome? fun scope => scope.lookup name

/-- A bound on the number of tokens left. -/
def tokensLeft : ParseM Nat := do pure ((← get).tokens.length + 1)

/-! ## Parts of a program that contain each other -/

/-- A part of a program to be read. -/
inductive Goal where
  /-- An expression whose operators bind more tightly than a level. -/
  | expr (level : Nat)
  | stmt
  | block
  | cond
  | typeSpec

/-- What reading a part gives. -/
def Goal.Result : Goal → Type
  | expr _ => Expr
  | stmt => Stmt
  | block => Block
  | cond => Stmt
  | typeSpec => TypeSpec

/-- A reader of every part of a program. -/
abbrev Reader := (g : Goal) → ParseM g.Result

end Parser

end ScriptEngine
