import ScriptEngine.Program.TypeSpec
/-!
# Statements

The statements of the script language, and programs, which are lists of statements.
-/

namespace ScriptEngine

/-- A parameter of a script function. -/
structure Param where
  name : Text
  type : Option TypeSpec
  fallback : Option Expr
deriving Inhabited

mutual

/-- Statements. -/
inductive Stmt where
  | declare (mark : Mark) (name : Text) (type : Option TypeSpec) (value : Option Expr)
      (constant : Bool)
  | typedef (mark : Mark) (name : Text) (type : TypeSpec)
  | returns (mark : Mark) (value : Option Expr)
  | expr (mark : Mark) (value : Expr)
  | function (mark : Mark) (name : Text) (params : List Param) (result : Option TypeSpec)
      (body : Block)
  | block (body : Block)
  | cond (mark : Mark) (test : Expr) (yes : Stmt) (no : Option Stmt)
  | whileLoop (mark : Mark) (test : Expr) (body : Block)
  | doLoop (mark : Mark) (body : Block) (test : Expr)
  | forLoop (mark : Mark) (init : Option Stmt) (test : Option Expr) (update : Option Expr)
      (body : Block)
  | forEach (mark : Mark) (item : Text) (container : Expr) (body : Block)
  | breaks (mark : Mark)
  | continues (mark : Mark)
  | print (mark : Mark) (value : Expr)
  | call (mark : Mark) (value : Expr)
  | tries (mark : Mark) (body : Block) (handlers : List Handler)
  | raise (mark : Mark) (category : Text) (args : List Expr)
  | imports (mark : Mark) (path : Text)

/-- Statements between braces. -/
inductive Block where
  | mk (mark : Mark) (body : List Stmt)

/-- An exception handler: the category it takes, the variable that holds the message, and its body. -/
inductive Handler where
  | mk (mark : Mark) (category : Text) (caught : Option Text) (body : Block)

end

instance : Inhabited Stmt := ⟨.breaks default⟩
instance : Inhabited Block := ⟨.mk default []⟩
instance : Inhabited Handler := ⟨.mk default "" none default⟩

namespace Handler

/-- The category that a handler takes. -/
def category : Handler → Text
  | mk _ c _ _ => c

/-- The variable that holds the message. -/
def caught : Handler → Option Text
  | mk _ _ v _ => v

/-- The body of a handler. -/
def body : Handler → Block
  | mk _ _ _ b => b

end Handler

namespace Block

/-- The mark of a block. -/
def mark : Block → Mark
  | mk m _ => m

/-- The statements of a block. -/
def body : Block → List Stmt
  | mk _ ss => ss

end Block

namespace Stmt

/-- The mark of a statement. -/
def mark : Stmt → Mark
  | declare m .. | typedef m .. | returns m .. | expr m .. | function m .. | cond m ..
  | whileLoop m .. | doLoop m .. | forLoop m .. | forEach m .. | breaks m | continues m
  | print m .. | call m .. | tries m .. | raise m .. | imports m .. => m
  | block b => b.mark

/-- The line of a statement. -/
def line (s : Stmt) : Nat := s.mark.line

end Stmt

/-- The statements of a source text. -/
structure Program where
  body : List Stmt
deriving Inhabited

end ScriptEngine
