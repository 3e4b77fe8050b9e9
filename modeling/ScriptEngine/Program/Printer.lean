import ScriptEngine.Program.Stmt
/-!
# The text of programs

Statements are written in one line, with blocks between braces.
-/

namespace ScriptEngine

/-- A declared type after a colon, if there is one. -/
def TypeSpec.annotate : Option TypeSpec → Text
  | some t => ": " ++ t.render
  | none => ""

/-- An optional expression as text, after `lead` when there is one. -/
def Expr.optional (lead : Text) : Option Expr → Text
  | some e => lead ++ e.render
  | none => ""

/-- A parameter as text. -/
def Param.render (p : Param) : Text :=
  p.name ++ TypeSpec.annotate p.type ++ Expr.optional " = " p.fallback

namespace Stmt

/-- A text without a final semicolon. -/
def dropSemicolon (t : Text) : Text := if t.endsWith ";" then t.take (t.size - 1) else t

/-- The variable of a handler, between parentheses. -/
def caughtText : Option Text → Text
  | some v => "(" ++ v ++ ")"
  | none => ""

/-- The declared result of a function. -/
def resultText : Option TypeSpec → Text
  | some t => " return " ++ t.render
  | none => ""

mutual

/-- A statement as text. -/
def render : Stmt → Text
  | declare _ name type value constant =>
    (if constant then "const " else "var ") ++ name ++ TypeSpec.annotate type
      ++ Expr.optional " = " value ++ ";"
  | typedef _ name type => name ++ " typeof " ++ type.render ++ ";"
  | returns m value => m.literal ++ Expr.optional " " value ++ ";"
  | expr _ e => e.render ++ ";"
  | function _ name params result body =>
    "function " ++ name ++ "(" ++ Text.join ", " (params.map Param.render) ++ ")"
      ++ resultText result ++ " " ++ renderBlock body
  | block b => renderBlock b
  | cond _ test yes no => "if (" ++ test.render ++ ") " ++ render yes ++ renderElse no
  | whileLoop _ test body => "while (" ++ test.render ++ ") " ++ renderBlock body
  | doLoop _ body test => "do " ++ renderBlock body ++ " while (" ++ test.render ++ ");"
  | forLoop _ init test update body =>
    "for (" ++ renderInit init ++ "; " ++ Expr.optional "" test ++ "; "
      ++ Expr.optional "" update ++ ") " ++ renderBlock body
  | forEach _ v e body => "foreach " ++ v ++ " in " ++ e.render ++ " " ++ renderBlock body
  | breaks _ => "break;"
  | continues _ => "continue;"
  | print _ e => "print " ++ e.render ++ ";"
  | call _ e => "call " ++ e.render ++ ";"
  | tries _ body handlers =>
    "try " ++ renderBlock body ++ " exceptions \x7b " ++ renderHandlers handlers ++ "\x7d"
  | raise _ category args =>
    "raise exception " ++ category ++ "(" ++ Text.join ", " (args.map Expr.render) ++ ");"
  | imports _ path => "import " ++ path.quoted ++ ";"

/-- A block as text. -/
def renderBlock : Block → Text
  | .mk _ body => "\x7b " ++ renderAll body ++ "\x7d"

/-- Statements as text, a blank after each. -/
def renderAll : List Stmt → Text
  | [] => ""
  | s :: ss => render s ++ " " ++ renderAll ss

/-- The other branch of a condition. -/
def renderElse : Option Stmt → Text
  | none => ""
  | some s => " else " ++ render s

/-- The first clause of a loop. -/
def renderInit : Option Stmt → Text
  | none => ""
  | some s => dropSemicolon (render s)

/-- Exception handlers as text, a blank after each. -/
def renderHandlers : List Handler → Text
  | [] => ""
  | h :: hs => renderHandler h ++ " " ++ renderHandlers hs

/-- An exception handler as text. -/
def renderHandler : Handler → Text
  | .mk _ category caught body => "when " ++ category ++ caughtText caught ++ " " ++ renderBlock body

end

end Stmt

/-- A program as text, one statement a line. -/
def Program.render (p : Program) : Text := Text.concat (p.body.map fun s => s.render ++ "\n")

end ScriptEngine
