import ScriptEngine.Program.Walk
/-!
# Summaries of programs

A summary tells which functions a program defines and which builtins it calls, without running it. It is made in a walk of its own,
which goes through the same places as others do but for the variables of members.
-/

namespace ScriptEngine

mutual

/-- The nodes that are met in an expression. -/
def Expr.inspected : Expr → List NodeView
  | .name m _ => [⟨.name, m, .plain⟩]
  | .int m _ => [⟨.int, m, .plain⟩]
  | .long m _ => [⟨.long, m, .plain⟩]
  | .double m _ => [⟨.double, m, .plain⟩]
  | .string m _ => [⟨.string, m, .plain⟩]
  | .date m _ => [⟨.date, m, .plain⟩]
  | .bool m _ => [⟨.bool, m, .plain⟩]
  | .null m => [⟨.null, m, .plain⟩]
  | .unary m _ e => ⟨.unary, m, .plain⟩ :: e.inspected
  | .binary m _ l r => ⟨.binary, m, .plain⟩ :: l.inspected ++ r.inspected
  | .assign m _ t v => ⟨.assign, m, .plain⟩ :: t.inspected ++ v.inspected
  | .step m _ t => ⟨.step, m, .plain⟩ :: t.inspected
  | .index m c k => ⟨.index, m, .plain⟩ :: c.inspected ++ k.inspected
  | .length m e => ⟨.length, m, .plain⟩ :: e.inspected
  | .member m _ _ => [⟨.member, m, .plain⟩]
  | .typeOf m e => ⟨.typeOf, m, .plain⟩ :: e.inspected
  | .call m f args _ builtin result => ⟨.call, m, .call f builtin result⟩ :: Expr.inspectedAll args
  | .array m es => ⟨.array, m, .plain⟩ :: Expr.inspectedAll es
  | .object m ps => ⟨.object, m, .plain⟩ :: Expr.inspectedPairs ps

/-- The nodes that are met in expressions. -/
def Expr.inspectedAll : List Expr → List NodeView
  | [] => []
  | e :: es => e.inspected ++ Expr.inspectedAll es

/-- The nodes that are met in the values of an object. -/
def Expr.inspectedPairs : List (Text × Expr) → List NodeView
  | [] => []
  | (_, e) :: ps => e.inspected ++ Expr.inspectedPairs ps

end

/-- The nodes that are met in an expression that may be missing. -/
def Expr.inspectedOpt : Option Expr → List NodeView
  | some e => e.inspected
  | none => []

mutual

/-- The nodes that are met in a statement. -/
def Stmt.inspected : Stmt → List NodeView
  | .block b => b.inspected
  | .expr m e => ⟨.value, m, .plain⟩ :: e.inspected
  | .returns m value => ⟨.returns, m, .plain⟩ :: Expr.inspectedOpt value
  | .declare m _ _ value _ => ⟨.declare, m, .plain⟩ :: Expr.inspectedOpt value
  | .function m name params result body =>
    ⟨.function, m, .function name (params.map Param.render) (result.map TypeSpec.render)⟩
      :: (params.flatMap fun p => Expr.inspectedOpt p.fallback) ++ body.inspected
  | .print m e => ⟨.print, m, .plain⟩ :: e.inspected
  | .call m e => ⟨.calls, m, .plain⟩ :: e.inspected
  | .cond m test yes no => ⟨.cond, m, .plain⟩ :: test.inspected ++ yes.inspected ++ Stmt.inspectedOpt no
  | .whileLoop m test body => ⟨.whileLoop, m, .plain⟩ :: test.inspected ++ body.inspected
  | .doLoop m body test => ⟨.doLoop, m, .plain⟩ :: body.inspected ++ test.inspected
  | .forLoop m init test update body =>
    ⟨.forLoop, m, .plain⟩ :: Stmt.inspectedOpt init ++ Expr.inspectedOpt test ++ Expr.inspectedOpt update ++ body.inspected
  | .forEach m _ e body => ⟨.forEach, m, .plain⟩ :: e.inspected ++ body.inspected
  | .tries m body handlers => ⟨.tries, m, .plain⟩ :: body.inspected ++ Handler.inspectedAll handlers
  | .raise m _ args => ⟨.raise, m, .plain⟩ :: Expr.inspectedAll args
  | .typedef m _ _ => [⟨.typedef, m, .plain⟩]
  | .breaks m => [⟨.breaks, m, .plain⟩]
  | .continues m => [⟨.continues, m, .plain⟩]
  | .imports m _ => [⟨.imports, m, .plain⟩]

/-- The nodes that are met in a block. -/
def Block.inspected : Block → List NodeView
  | .mk m body => ⟨.block, m, .plain⟩ :: Stmt.inspectedAll body

/-- The nodes that are met in statements. -/
def Stmt.inspectedAll : List Stmt → List NodeView
  | [] => []
  | s :: ss => s.inspected ++ Stmt.inspectedAll ss

/-- The nodes that are met in a statement that may be missing. -/
def Stmt.inspectedOpt : Option Stmt → List NodeView
  | some s => s.inspected
  | none => []

/-- The nodes that are met in the bodies of handlers. -/
def Handler.inspectedAll : List Handler → List NodeView
  | [] => []
  | h :: hs => h.inspected ++ Handler.inspectedAll hs

/-- The nodes that are met in the body of a handler. -/
def Handler.inspected : Handler → List NodeView
  | .mk _ _ _ body => body.inspected

end

/-- The nodes that are met in a program, the program itself first. -/
def Program.inspected (p : Program) : List NodeView :=
  ⟨.program, (p.body.head?.map Stmt.mark).getD ⟨"", 0⟩, .plain⟩ :: Stmt.inspectedAll p.body

namespace Console

/-- A function that a program defines. -/
structure FunctionNote where
  name : Text
  params : List Text
  result : Option Text
  line : Nat

/-- A builtin that a program calls, and the lines of the calls. -/
structure BuiltinNote where
  name : Text
  lines : List Nat

/-- What a program defines and calls. -/
structure Summary where
  functions : List FunctionNote
  builtins : List BuiltinNote

namespace Summary

/-- The function that a node defines. -/
def functionOf? (n : NodeView) : Option FunctionNote :=
  match n.detail with
  | .function name params result => some ⟨name, params, result, n.mark.line⟩
  | _ => none

/-- The builtin that a node calls, and the line of the call. -/
def builtinOf? (n : NodeView) : Option (Text × Nat) :=
  match n.detail with
  | .call name true _ => some (name, n.mark.line)
  | _ => none

/-- Notes one more call; the notes are in rising order of names. -/
def noteCall (call : Text × Nat) : List BuiltinNote → List BuiltinNote
  | [] => [⟨call.1, [call.2]⟩]
  | b :: bs =>
    match compare call.1 b.name with
    | .lt => ⟨call.1, [call.2]⟩ :: b :: bs
    | .eq => { b with lines := b.lines ++ [call.2] } :: bs
    | .gt => b :: noteCall call bs

/-- Notes what a node defines or calls. -/
def note (s : Summary) (n : NodeView) : Summary :=
  match functionOf? n, builtinOf? n with
  | some f, _ => { s with functions := s.functions ++ [f] }
  | none, some call => { s with builtins := noteCall call s.builtins }
  | none, none => s

/-- The summary of a program. -/
def ofProgram (p : Program) : Summary := p.inspected.foldl note ⟨[], []⟩

/-- The line of a function. -/
def renderFunction (f : FunctionNote) : Text :=
  let result : Text := match f.result with
    | some t => " return " ++ t
    | none => ""
  "  \u00b7 line " ++ toString f.line ++ ": " ++ f.name ++ "(" ++ Text.join ", " f.params ++ ")"
    ++ result ++ "\n"

/-- The line of a builtin. -/
def renderBuiltin (b : BuiltinNote) : Text :=
  "  \u00b7 " ++ b.name ++ " \u00d7" ++ toString b.lines.length ++ " (lines "
    ++ Text.join ", " (b.lines.map fun n => Text.ofString (toString n)) ++ ")\n"

/-- A heading with a count, and the lines below it or a line that says there are none. -/
def renderPart (heading none : Text) (lines : List Text) : Text :=
  heading ++ " (" ++ toString lines.length ++ ")\n"
    ++ (if lines.isEmpty then "  \u00b7 " ++ none ++ "\n" else Text.concat lines)

/-- The text of a summary. -/
def render (s : Summary) : Text :=
  renderPart "Functions" "No function definitions found." (s.functions.map renderFunction)
    ++ renderPart "Builtin calls" "No builtin calls found." (s.builtins.map renderBuiltin)

end Summary

end Console

end ScriptEngine
