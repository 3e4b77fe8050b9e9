import ScriptEngine.Program.Printer
/-!
# Walking a program

The nodes of a program in the order of the source: a node comes before the nodes below it.
-/

namespace ScriptEngine

/-- The roles of nodes in a program. -/
inductive NodeView.Role where
  | program
  /- Expressions. -/
  | name | int | long | double | string | date | bool | null | array | object
  | unary | binary | assign | step | index | length | member | call | typeOf
  /- Statements. -/
  | declare | typedef | returns | value | function | block | cond | whileLoop | doLoop | forLoop | forEach
  | breaks | continues | print | calls | tries | raise | imports
deriving DecidableEq, Repr

/-- What a walk shows of calls and functions beside their role and mark. -/
inductive NodeView.Detail where
  | plain
  | call (function : Text) (builtin : Bool) (result : Text)
  | function (name : Text) (params : List Text) (result : Option Text)

/-- What a walk shows of a node. -/
structure NodeView where
  role : NodeView.Role
  mark : Mark
  detail : NodeView.Detail

mutual

/-- The nodes of an expression. -/
def Expr.nodes : Expr → List NodeView
  | .name m _ => [⟨.name, m, .plain⟩]
  | .int m _ => [⟨.int, m, .plain⟩]
  | .long m _ => [⟨.long, m, .plain⟩]
  | .double m _ => [⟨.double, m, .plain⟩]
  | .string m _ => [⟨.string, m, .plain⟩]
  | .date m _ => [⟨.date, m, .plain⟩]
  | .bool m _ => [⟨.bool, m, .plain⟩]
  | .null m => [⟨.null, m, .plain⟩]
  | .array m es => ⟨.array, m, .plain⟩ :: Expr.nodesAll es
  | .object m ps => ⟨.object, m, .plain⟩ :: Expr.nodesPairs ps
  | .unary m _ e => ⟨.unary, m, .plain⟩ :: e.nodes
  | .binary m _ l r => ⟨.binary, m, .plain⟩ :: l.nodes ++ r.nodes
  | .assign m _ t v => ⟨.assign, m, .plain⟩ :: t.nodes ++ v.nodes
  | .step m _ t => ⟨.step, m, .plain⟩ :: t.nodes
  | .index m c k => ⟨.index, m, .plain⟩ :: c.nodes ++ k.nodes
  | .length m e => ⟨.length, m, .plain⟩ :: e.nodes
  | .member m _ _ => [⟨.member, m, .plain⟩, ⟨.name, m, .plain⟩]
  | .call m f args _ builtin result =>
    ⟨.call, m, .call f builtin result⟩ :: Expr.nodesAll args
  | .typeOf m e => ⟨.typeOf, m, .plain⟩ :: e.nodes

/-- The nodes of expressions. -/
def Expr.nodesAll : List Expr → List NodeView
  | [] => []
  | e :: es => e.nodes ++ Expr.nodesAll es

/-- The nodes of the values of an object. -/
def Expr.nodesPairs : List (Text × Expr) → List NodeView
  | [] => []
  | (_, e) :: ps => e.nodes ++ Expr.nodesPairs ps

end

/-- The nodes of an optional expression. -/
def Expr.nodesOpt : Option Expr → List NodeView
  | some e => e.nodes
  | none => []

/-- The nodes of the defaults of parameters. -/
def Param.nodesAll (ps : List Param) : List NodeView := ps.flatMap fun p => Expr.nodesOpt p.fallback

mutual

/-- The nodes of a statement. -/
def Stmt.nodes : Stmt → List NodeView
  | .declare m _ _ value _ => ⟨.declare, m, .plain⟩ :: Expr.nodesOpt value
  | .typedef m _ _ => [⟨.typedef, m, .plain⟩]
  | .returns m value => ⟨.returns, m, .plain⟩ :: Expr.nodesOpt value
  | .expr m e => ⟨.value, m, .plain⟩ :: e.nodes
  | .function m name params result body =>
    ⟨.function, m, .function name (params.map Param.render) (result.map TypeSpec.render)⟩
      :: Param.nodesAll params ++ body.nodes
  | .block b => b.nodes
  | .cond m test yes no =>
    ⟨.cond, m, .plain⟩ :: test.nodes ++ yes.nodes ++ Stmt.nodesOpt no
  | .whileLoop m test body => ⟨.whileLoop, m, .plain⟩ :: test.nodes ++ body.nodes
  | .doLoop m body test => ⟨.doLoop, m, .plain⟩ :: body.nodes ++ test.nodes
  | .forLoop m init test update body =>
    ⟨.forLoop, m, .plain⟩ :: Stmt.nodesOpt init ++ Expr.nodesOpt test ++ Expr.nodesOpt update
      ++ body.nodes
  | .forEach m _ e body => ⟨.forEach, m, .plain⟩ :: e.nodes ++ body.nodes
  | .breaks m => [⟨.breaks, m, .plain⟩]
  | .continues m => [⟨.continues, m, .plain⟩]
  | .print m e => ⟨.print, m, .plain⟩ :: e.nodes
  | .call m e => ⟨.calls, m, .plain⟩ :: e.nodes
  | .tries m body handlers =>
    ⟨.tries, m, .plain⟩ :: body.nodes ++ Handler.nodesAll handlers
  | .raise m _ args => ⟨.raise, m, .plain⟩ :: Expr.nodesAll args
  | .imports m _ => [⟨.imports, m, .plain⟩]

/-- The nodes of a block. -/
def Block.nodes : Block → List NodeView
  | .mk m body => ⟨.block, m, .plain⟩ :: Stmt.nodesAll body

/-- The nodes of statements. -/
def Stmt.nodesAll : List Stmt → List NodeView
  | [] => []
  | s :: ss => s.nodes ++ Stmt.nodesAll ss

/-- The nodes of an optional statement. -/
def Stmt.nodesOpt : Option Stmt → List NodeView
  | some s => s.nodes
  | none => []

/-- The nodes of the bodies of handlers. -/
def Handler.nodesAll : List Handler → List NodeView
  | [] => []
  | h :: hs => h.nodes ++ Handler.nodesAll hs

/-- The nodes of the body of a handler. -/
def Handler.nodes : Handler → List NodeView
  | .mk _ _ _ body => body.nodes

end

/-- All nodes of a program, the program itself first. -/
def Program.nodes (p : Program) : List NodeView :=
  ⟨.program, (p.body.head?.map Stmt.mark).getD ⟨"", 0⟩, .plain⟩ :: Stmt.nodesAll p.body

end ScriptEngine
