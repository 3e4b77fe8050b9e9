import ScriptEngine.Program.Parser.Statement
/-!
# Reading programs

A source text is read into a program. Faults do not stop the reading: a faulty statement is left out,
and all faults are given with the program, those of the tokens first.
-/

namespace ScriptEngine

namespace Parser

/-- One level of reading: parts inside a part are left to `rec`. -/
def readStep (c : Catalog) (rec : Reader) : Reader
  | .expr bound => expression c rec bound
  | .stmt => statement c rec
  | .block => block rec
  | .cond => condition rec
  | .typeSpec => typeSpec rec

/-- Reads a part of a program whose parts are nested at most `depth` deep. -/
def read (c : Catalog) : Nat → Reader
  | 0 => fun _ => exhaust
  | depth + 1 => readStep c (read c depth)

/-- The statements up to the end of the tokens. -/
def programBody (rec : Reader) : Nat → List Stmt → ParseM (List Stmt)
  | 0, _ => exhaust
  | n + 1, done => do
    if ← currentIs .eof then pure done.reverse
    else
      let s ← listedStatement rec
      advance
      programBody rec n (match s with
        | some s => s :: done
        | none => done)

/-- The state in which a parser begins. -/
def initialState (tokens : List Token) : ParseState :=
  ⟨tokens, tokens.getLast?.getD default, [], [[]], 0, [], false⟩

/-- The fault that a fault of the tokens is reported as. -/
def ofLexFault (f : LexFault) : Fault :=
  { Fault.ofClass .lexical f.message with detail := f.code, line := f.line }

end Parser

/-- The program of a source text and its faults, those of the tokens first. Parts are nested at most
four deep for each token. -/
def Program.parse (c : Catalog) (source : Text) : Program × List Fault :=
  let (tokens, lexFaults) := Token.scan source
  let depth := 4 * tokens.length + 8
  let body := Parser.programBody (Parser.read c depth) (tokens.length + 1) []
  let (r, s) := body.run.run (Parser.initialState tokens)
  (⟨r.getD []⟩, lexFaults.map Parser.ofLexFault ++ s.faults.reverse)

end ScriptEngine
