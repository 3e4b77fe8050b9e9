import ScriptEngine.Program.Parser.Expression
/-!
# Reading statements and declared types

A statement that records a fault is dropped as a whole, and reading goes on after it. An empty
statement gives nothing and records nothing.
-/

namespace ScriptEngine.Parser

/-! ## Declared types -/

/-- The constraints after the type of a record field. -/
def constraints (rec : Reader) :
    Nat → Bool → Nat → Option Expr → ParseM (Bool × Nat × Option Expr)
  | 0, _, _, _ => exhaust
  | n + 1, mandatory, maxLength, fallback => do
    if ← peekIs .ident then
      advance
      let t ← current
      if t.literal = "mandatory" then constraints rec n true maxLength fallback
      else if t.literal = "maxlength" then
        expect .int
        let t ← current
        let k := Cursor.decimalValue t.literal.bytes
        if k = 0 then
          fault .syntaxError t.line
            ("maxlength must be a positive integer, got " ++ t.literal.quoted)
        else constraints rec n mandatory k fallback
      else if t.literal = "default" then
        advance
        let e ← rec (.expr lowest)
        constraints rec n mandatory maxLength (some e)
      else fault .syntaxError t.line ("unknown field constraint " ++ t.literal.quoted)
    else pure (mandatory, maxLength, fallback)

/-- The fields of a record, up to the closing brace. -/
def moreFields (rec : Reader) : Nat → List FieldSpec → List Text → ParseM (List FieldSpec)
  | 0, _, _ => exhaust
  | n + 1, done, seen => do
    if ← peekIs .rbrace then
      advance
      pure done.reverse
    else
      let name ← expectName
      if seen.contains name then
        fault .syntaxError (← current).line ("duplicate record field " ++ name.quoted)
      expect .colon
      advance
      let type ← rec .typeSpec
      let (mandatory, maxLength, fallback) ← constraints rec (← tokensLeft) false 0 none
      let done := .mk name type mandatory maxLength fallback :: done
      if ← peekIs .comma then
        advance
        moreFields rec n done (name :: seen)
      else
        expect .rbrace
        pure done.reverse

/-- The dimensions of an array type, up to the closing bracket. -/
def moreDims (rec : Reader) : Nat → List (Option Expr) → ParseM (List (Option Expr))
  | 0, _ => exhaust
  | n + 1, done => do
    advance
    let k := (← current).kind
    if k = .rbracket && done.isEmpty then pure [none]
    else
      let dim ← if k = .star then pure none else do
        let e ← rec (.expr lowest)
        pure (some e)
      if ← peekIs .comma then
        advance
        moreDims rec n (dim :: done)
      else
        expect .rbracket
        pure (dim :: done).reverse

/-- The type that the current token begins, before record fields and dimensions. An array type given
by a name of its own is complete. -/
def typeHead : ParseM (TypeSpec × Bool) := do
  let t ← current
  let m := markOf t
  if t.kind = .typeName then
    let name := (Token.canonicalType? t.literal).getD ""
    if name = "array" then pure (.mk m "any" true [] false none, false)
    else pure (.mk m name false [] false none, false)
  else if t.kind = .ident && t.literal = "sorted" then
    let next ← peek
    if next.kind = .typeName then advance
    else
      let _ ← attempt (expect .typeName)
    let now ← current
    if next.kind = .typeName && now.literal = "map" then
      pure (.mk m "map" false [] true none, false)
    else fault .syntaxError now.line ("expected map after sorted, got " ++ now.literal.quoted)
  else if t.kind = .ident && t.literal.startsWith "array." then
    match Token.canonicalType? (t.literal.drop 6) with
    | some name => pure (.mk m name true [] false none, false)
    | none => fault .syntaxError t.line ("unknown array element type " ++ t.literal.quoted)
  else
    let named := (← get).typedefs
    match (if t.kind = .ident then named.lookup t.literal else none) with
    | some (.mk _ name isArray dims sorted fields) =>
      pure (.mk m name isArray dims sorted fields, isArray)
    | none => fault .syntaxError t.line ("expected a type name, got " ++ t.literal.quoted)

/-- The declared type at the current token. -/
def typeSpec (rec : Reader) : ParseM TypeSpec := do
  let (.mk m name isArray dims sorted fields, complete) ← typeHead
  if complete then pure (.mk m name isArray dims sorted fields)
  else
    let fields ←
      if name = "record" && fields.isNone then do
        expect .lbrace
        let fs ← moreFields rec (← tokensLeft) [] []
        pure (some fs)
      else pure fields
    if ← peekIs .lbracket then
      advance
      let dims ← moreDims rec (← tokensLeft) dims
      pure (.mk m name true dims sorted fields)
    else pure (.mk m name isArray dims sorted fields)

/-- A declared type after a colon, if there is one. -/
def annotation? (rec : Reader) : ParseM (Option TypeSpec) := do
  if ← peekIs .colon then
    advance
    advance
    let t ← rec .typeSpec
    pure (some t)
  else pure none

/-- An expression after a sign of assignment, if there is one. -/
def initializer? (rec : Reader) : ParseM (Option Expr) := do
  if ← peekIs .assign then
    advance
    advance
    let e ← rec (.expr lowest)
    pure (some e)
  else pure none

/-! ## Statements -/

/-- The declaration of a variable or constant. -/
def declaration (rec : Reader) : ParseM Stmt := do
  let m ← mark
  let constant ← currentIs .kwConst
  let name ← expectName
  let type ← annotation? rec
  let value ← initializer? rec
  match value, type with
  | some v, some t =>
    if !t.isArray then checkAssigned m.line name (Kind.declared t.name false) v
  | some _, none => pure ()
  | none, _ =>
    if constant then
      fault .syntaxError m.line ("constant '" ++ name ++ "' requires a value")
  match type with
  | some t => declare name t.kind
  | none => pure ()
  pure (.declare m name type value constant)

/-- The declaration of a type name. -/
def typedef (rec : Reader) : ParseM Stmt := do
  let t ← current
  if t.literal.contains "." then
    fault .syntaxError t.line ("invalid type name " ++ t.literal.quoted)
  advance
  advance
  let type ← rec .typeSpec
  modify fun s => { s with typedefs := (t.literal, type) :: s.typedefs }
  pure (.typedef (markOf t) t.literal type)

/-- The parameters of a function after the first `done`, up to the closing parenthesis. -/
def moreParams (rec : Reader) : Nat → List Param → ParseM (List Param)
  | 0, _ => exhaust
  | n + 1, done => do
    let name ← expectName
    let type ← annotation? rec
    match type with
    | some t => declare name t.kind
    | none => pure ()
    let fallback ← initializer? rec
    let done := ⟨name, type, fallback⟩ :: done
    if ← peekIs .comma then
      advance
      moreParams rec n done
    else
      expect .rparen
      pure done.reverse

/-- The declaration of a function. Loops around it do not reach into its body. -/
def function (rec : Reader) : ParseM Stmt := do
  let m ← mark
  let name ← expectName
  expect .lparen
  inScope do
    let params ←
      if ← peekIs .rparen then do
        advance
        pure []
      else moreParams rec (← tokensLeft) []
    let result ←
      if ← peekIs .kwReturn then do
        advance
        advance
        let t ← rec .typeSpec
        pure (some t)
      else pure none
    expect .lbrace
    let depth := (← get).loopDepth
    let body ← between (fun s => { s with loopDepth := 0 })
      (fun s => { s with loopDepth := depth }) (rec .block)
    pure (.function m name params result body)

/-- The end of a function. -/
def returning (rec : Reader) : ParseM Stmt := do
  let m ← mark
  match (← peek).kind with
  | .semicolon | .rbrace | .eof => pure (.returns m none)
  | _ =>
    advance
    let e ← rec (.expr lowest)
    pure (.returns m (some e))

/-- A branch of a condition: a block, or `then` and a block or statement. -/
def branch (rec : Reader) : ParseM Stmt := do
  if ← peekIs .kwThen then
    advance
    if ← peekIs .lbrace then
      advance
      let b ← rec .block
      pure (.block b)
    else
      advance
      rec .stmt
  else
    expect .lbrace
    let b ← rec .block
    pure (.block b)

/-- A condition with its branches. A semicolon before the other branch is passed over. -/
def condition (rec : Reader) : ParseM Stmt := do
  let m ← mark
  advance
  let test ← rec (.expr lowest)
  let yes ← branch rec
  if (← peekIs .semicolon) && (← peekBeyond).kind = .kwElse then advance
  if ← peekIs .kwElse then
    advance
    match (← peek).kind with
    | .kwIf =>
      advance
      let no ← rec .cond
      pure (.cond m test yes (some no))
    | .lbrace =>
      advance
      let b ← rec .block
      pure (.cond m test yes (some (.block b)))
    | _ =>
      advance
      let no ← rec .stmt
      pure (.cond m test yes (some no))
  else pure (.cond m test yes none)

/-- The body of a loop. -/
def loopBody (rec : Reader) : ParseM Block :=
  between (fun s => { s with loopDepth := s.loopDepth + 1 })
    (fun s => { s with loopDepth := s.loopDepth - 1 }) (rec .block)

/-- A loop with its test in front. -/
def whileLoop (rec : Reader) : ParseM Stmt := do
  let m ← mark
  advance
  let test ← rec (.expr lowest)
  expect .lbrace
  let body ← loopBody rec
  pure (.whileLoop m test body)

/-- A loop with its test behind. -/
def doLoop (rec : Reader) : ParseM Stmt := do
  let m ← mark
  expect .lbrace
  let body ← loopBody rec
  expect .kwWhile
  advance
  let test ← rec (.expr lowest)
  pure (.doLoop m body test)

/-- A clause of a loop, unless the token that ends it comes next. -/
def clause? (rec : Reader) (close : Token.Kind) : ParseM (Option Expr) := do
  if ← peekIs close then pure none
  else
    advance
    let e ← rec (.expr lowest)
    pure (some e)

/-- A loop with three clauses. The first is read in the scope of the loop. -/
def forLoop (rec : Reader) : ParseM Stmt := do
  let m ← mark
  expect .lparen
  inScope do
    let init ←
      if ← peekIs .semicolon then pure none
      else do
        advance
        let s ← rec .stmt
        pure (some s)
    expect .semicolon
    let test ← clause? rec .semicolon
    expect .semicolon
    let update ← clause? rec .rparen
    expect .rparen
    expect .lbrace
    let body ← loopBody rec
    pure (.forLoop m init test update body)

/-- A loop over the elements of a container. -/
def forEach (rec : Reader) : ParseM Stmt := do
  let m ← mark
  let paren ← peekIs .lparen
  if paren then advance
  let name ← expectName
  expect .kwIn
  advance
  let container ← rec (.expr lowest)
  if paren then expect .rparen
  expect .lbrace
  let body ← loopBody rec
  pure (.forEach m name container body)

/-- The end of a loop or of one of its rounds. -/
def loopControl : ParseM Stmt := do
  let t ← current
  if (← get).loopDepth = 0 then
    fault .syntaxError t.line ("'" ++ t.literal ++ "' outside of a loop")
  else if t.kind = .kwBreak then pure (.breaks (markOf t))
  else pure (.continues (markOf t))

/-- A call whose result is not used. -/
def callStatement (c : Catalog) (rec : Reader) : ParseM Stmt := do
  let m ← mark
  expect .ident
  let f ← current
  expect .lparen
  let e ← call c rec (.name (markOf f) f.literal)
  pure (.call m e)

/-- The handlers of a try statement, up to the closing brace. -/
def moreHandlers (rec : Reader) : Nat → List Handler → ParseM (List Handler)
  | 0, _ => exhaust
  | n + 1, done => do
    if ← peekIs .kwWhen then
      advance
      let m ← mark
      expect .ident
      let category := (← current).literal.upper
      let caught ←
        if ← peekIs .lparen then do
          advance
          let name ← expectName
          expect .rparen
          pure (some name)
        else pure none
      expect .lbrace
      let body ← rec .block
      moreHandlers rec n (.mk m category caught body :: done)
    else
      expect .rbrace
      pure done.reverse

/-- A block with exception handlers. -/
def tryStatement (rec : Reader) : ParseM Stmt := do
  let m ← mark
  expect .lbrace
  let body ← rec .block
  expect .kwExceptions
  expect .lbrace
  let handlers ← moreHandlers rec (← tokensLeft) []
  if handlers.isEmpty then
    fault .syntaxError m.line "try requires at least one 'when' handler"
  else pure (.tries m body handlers)

/-- An exception raised by the script. -/
def raising (rec : Reader) : ParseM Stmt := do
  let m ← mark
  expect .kwException
  expect .ident
  let category := (← current).literal.upper
  let args ←
    if ← peekIs .lparen then do
      advance
      exprList rec .rparen
    else pure []
  pure (.raise m category args)

/-- An expression as a statement. -/
def exprStatement (rec : Reader) : ParseM Stmt := do
  let m ← mark
  let e ← rec (.expr lowest)
  pure (.expr m e)

/-- The statement at the current token; it fails without a fault on an empty statement and on a token
that the reader of tokens has refused already. -/
def statement (c : Catalog) (rec : Reader) : ParseM Stmt := do
  let m ← mark
  match (← current).kind with
  | .semicolon => failure
  | .illegal => failure
  | .kwVar | .kwConst => declaration rec
  | .kwFunction => function rec
  | .kwReturn => returning rec
  | .kwIf => rec .cond
  | .kwWhile => whileLoop rec
  | .kwDo => doLoop rec
  | .kwFor => forLoop rec
  | .kwForeach => forEach rec
  | .kwBreak | .kwContinue => loopControl
  | .kwPrint =>
    advance
    let e ← rec (.expr lowest)
    pure (.print m e)
  | .kwCall => callStatement c rec
  | .kwTry => tryStatement rec
  | .kwRaise => raising rec
  | .kwImport =>
    expect .string
    pure (.imports m (← current).literal)
  | .lbrace =>
    let b ← rec .block
    pure (.block b)
  | .ident => if ← peekIs .kwTypeof then typedef rec else exprStatement rec
  | _ => exprStatement rec

/-- One statement of a list and the semicolon after it; nothing when it recorded a fault or was
empty. -/
def listedStatement (rec : Reader) : ParseM (Option Stmt) := do
  let before ← faultCount
  let s ← attempt (rec .stmt)
  if ← peekIs .semicolon then advance
  if before < (← faultCount) then pure none else pure s

/-- The statements of a block up to its closing brace. -/
def blockBody (rec : Reader) (m : Mark) : Nat → List Stmt → ParseM (List Stmt)
  | 0, _ => exhaust
  | n + 1, done => do
    let k := (← current).kind
    if k = .rbrace then pure done.reverse
    else if k = .eof then fault .syntaxError m.line "unterminated block, expected \x7d"
    else
      let s ← listedStatement rec
      advance
      blockBody rec m n (match s with
        | some s => s :: done
        | none => done)

/-- A block; the current token opens it. -/
def block (rec : Reader) : ParseM Block := do
  let m ← mark
  inScope do
    advance
    let body ← blockBody rec m (← tokensLeft) []
    pure (.mk m body)

end ScriptEngine.Parser
