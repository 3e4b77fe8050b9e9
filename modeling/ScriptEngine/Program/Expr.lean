import ScriptEngine.Date.Layout
import ScriptEngine.Text.Quoted
/-!
# Expressions

The expressions of the script language. Every node keeps a mark: the literal and the line of the token
it is named by.
-/

namespace ScriptEngine

/-- The token that a node is named by. -/
structure Mark where
  literal : Text
  line : Nat
deriving DecidableEq, Inhabited

/-- Operators in front of an operand. -/
inductive UnaryOp where
  | not | negate | plus
deriving DecidableEq, Repr

/-- The spelling of an operator. -/
def UnaryOp.symbol : UnaryOp → String
  | not => "!"
  | negate => "-"
  | plus => "+"

/-- Operators between two operands. -/
inductive BinaryOp where
  | add | sub | mul | div | mod | pow | eq | ne | lt | gt | le | ge | and | or
deriving DecidableEq, Repr

/-- The spelling of an operator. -/
def BinaryOp.symbol : BinaryOp → String
  | add => "+" | sub => "-" | mul => "*" | div => "/" | mod => "%" | pow => "^"
  | eq => "==" | ne => "!=" | lt => "<" | gt => ">" | le => "<=" | ge => ">="
  | and => "and" | or => "or"

/-- Assignments, plain or joined with an operator. -/
inductive AssignOp where
  | set | add | sub | mul | div
deriving DecidableEq, Repr

/-- The spelling of an assignment. -/
def AssignOp.symbol : AssignOp → String
  | set => "=" | add => "+=" | sub => "-=" | mul => "*=" | div => "/="

/-- The operator that an assignment applies. -/
def AssignOp.operator? : AssignOp → Option BinaryOp
  | set => none
  | add => some .add
  | sub => some .sub
  | mul => some .mul
  | div => some .div

/-- Steps by one. -/
inductive StepOp where
  | increment | decrement
deriving DecidableEq, Repr

/-- The spelling of a step. -/
def StepOp.symbol : StepOp → String
  | increment => "++"
  | decrement => "--"

/-- Expressions. -/
inductive Expr where
  | name (mark : Mark) (value : Text)
  | int (mark : Mark) (value : Int32)
  | long (mark : Mark) (value : Int64)
  | double (mark : Mark) (value : Float)
  | string (mark : Mark) (value : Text)
  /-- A date, with what it names in UTC; it is run as what it names in the zone of the machine. -/
  | date (mark : Mark) (value : Date)
  | bool (mark : Mark) (value : Bool)
  | null (mark : Mark)
  | array (mark : Mark) (elements : List Expr)
  | object (mark : Mark) (pairs : List (Text × Expr))
  | unary (mark : Mark) (op : UnaryOp) (operand : Expr)
  | binary (mark : Mark) (op : BinaryOp) (left right : Expr)
  | assign (mark : Mark) (op : AssignOp) (target value : Expr)
  | step (mark : Mark) (op : StepOp) (target : Expr)
  | index (mark : Mark) (container key : Expr)
  | length (mark : Mark) (operand : Expr)
  /-- A member of the json value that a variable holds, reached by a path of names. -/
  | member (mark : Mark) (base : Text) (path : List Text)
  /-- A call. `names` holds the parameter of each argument of a call by name and is empty for a call
  by position; `result` is the name of the kind that a known builtin returns. -/
  | call (mark : Mark) (function : Text) (args : List Expr) (names : List Text) (builtin : Bool)
      (result : Text)
  | typeOf (mark : Mark) (operand : Expr)
deriving Inhabited

namespace Expr

/-- The mark of an expression. -/
def mark : Expr → Mark
  | name m _ | int m _ | long m _ | double m _ | string m _ | date m _ | bool m _ | null m
  | array m _ | object m _ | unary m _ _ | binary m _ _ _ | assign m _ _ _ | step m _ _
  | index m _ _ | length m _ | member m _ _ | call m _ _ _ _ _ | typeOf m _ => m

/-- The line of an expression. -/
def line (e : Expr) : Nat := e.mark.line

/-- Whether a value can be assigned to an expression. -/
def isTarget : Expr → Bool
  | name .. | index .. | member .. => true
  | _ => false

/-- The arguments of a call as text, each after its parameter's name in a call by name. -/
def labelled : List Text → List Text → List Text
  | n :: ns, a :: as => (n ++ " = " ++ a) :: labelled ns as
  | _, as => as

mutual

/-- An expression as text. -/
def render : Expr → Text
  | name _ v => v
  | int m _ => m.literal
  | long m _ => m.literal ++ "L"
  | double m _ => m.literal
  | string _ v => v.quoted
  | date m _ => m.literal.quoted
  | bool _ v => if v then "true" else "false"
  | null _ => "null"
  | array _ es => "[" ++ Text.join ", " (renderAll es) ++ "]"
  | object _ ps => "\x7b" ++ Text.join ", " (renderPairs ps) ++ "\x7d"
  | unary _ op e => "(" ++ op.symbol ++ render e ++ ")"
  | binary _ op l r => "(" ++ render l ++ " " ++ op.symbol ++ " " ++ render r ++ ")"
  | assign _ op t v => render t ++ " " ++ op.symbol ++ " " ++ render v
  | step _ op t => "(" ++ render t ++ op.symbol ++ ")"
  | index _ c k => "(" ++ render c ++ "[" ++ render k ++ "])"
  | length _ e => render e ++ ".length"
  | member _ b p => b ++ "." ++ Text.join "." p
  | call _ f args names _ _ => f ++ "(" ++ Text.join ", " (labelled names (renderAll args)) ++ ")"
  | typeOf _ e => "typeof " ++ render e

/-- The texts of expressions. -/
def renderAll : List Expr → List Text
  | [] => []
  | e :: es => render e :: renderAll es

/-- The texts of the pairs of an object. -/
def renderPairs : List (Text × Expr) → List Text
  | [] => []
  | (k, e) :: ps => (k.quoted ++ ": " ++ render e) :: renderPairs ps

end

end Expr

end ScriptEngine
