import ScriptEngine.Text.Letter
/-!
# Script faults

A fault of a script, found while reading or running it: its class, the detail of a parse fault, the
category that exception handlers match, a message and the source line, zero while it is unknown.
-/

namespace ScriptEngine

namespace Fault

/-- The class of a fault. -/
inductive Class where
  | lexical | parse | name | type | index | interpreter | internal | unclassified
deriving DecidableEq, Repr, Inhabited

/-- The name of a class of faults. -/
def Class.label : Class → String
  | lexical => "LexError"
  | parse => "ParseError"
  | name => "NameError"
  | type => "TypeError"
  | index => "IndexError"
  | interpreter => "InterpreterError"
  | internal => "InternalError"
  | unclassified => "Error"

/-- Every class. -/
def Class.all : List Class :=
  [lexical, parse, name, type, index, interpreter, internal, unclassified]

/-- What a parse fault is about. -/
inductive Detail where
  | arityMismatch | typeMismatch | unknownBuiltin | syntaxError
deriving DecidableEq, Repr

/-- The name of a detail. -/
def Detail.label : Detail → String
  | arityMismatch => "ArityMismatch"
  | typeMismatch => "TypeMismatch"
  | unknownBuiltin => "UnknownBuiltin"
  | syntaxError => "SyntaxError"

/-! ## Categories that handlers match -/

/-- Matches every fault. -/
def anyError : Text := "ANY_ERROR"
/-- Files and standard streams. -/
def ioError : Text := "IO_ERROR"
/-- Databases. -/
def dbError : Text := "DB_ERROR"
/-- Values of a wrong kind. -/
def typeError : Text := "TYPE_ERROR"
/-- Missing values. -/
def nullError : Text := "NULL_ERROR"
/-- Places outside a container. -/
def indexError : Text := "INDEX_ERROR"
/-- Arithmetic without a result. -/
def mathError : Text := "MATH_ERROR"
/-- Text that cannot be read. -/
def parseError : Text := "PARSE_ERROR"
/-- Peers that cannot be reached. -/
def networkError : Text := "NETWORK_ERROR"
/-- Names that are not defined. -/
def notFoundError : Text := "NOT_FOUND_ERROR"
/-- Operations that are not allowed. -/
def accessError : Text := "ACCESS_ERROR"
/-- Values that break a rule. -/
def validationError : Text := "VALIDATION_ERROR"

/-- The categories that need no declaration. -/
def standardCategories : List Text :=
  [anyError, ioError, dbError, typeError, nullError, indexError, mathError, parseError,
    networkError, notFoundError, accessError, validationError]

/-- Whether a name is a standard category, in any case of letters. -/
def isStandardCategory (name : Text) : Bool := standardCategories.contains name.upper

/-- The category of the faults of a class. -/
def Class.category : Class → Text
  | lexical | parse => parseError
  | name => notFoundError
  | type => typeError
  | index => indexError
  | internal => ""
  | interpreter | unclassified => anyError

end Fault

/-- A fault of a script. -/
structure Fault where
  kind : Fault.Class
  detail : Text
  category : Text
  message : Text
  line : Nat
deriving DecidableEq, Inhabited

namespace Fault

/-- A fault of a class, with the category of the class. -/
def ofClass (c : Class) (message : Text) : Fault := ⟨c, "", c.category, message, 0⟩

/-- A value of a wrong kind. -/
def wrongType (message : Text) : Fault := ofClass .type message

/-- A place outside a container. -/
def badIndex (message : Text) : Fault := ofClass .index message

/-- A name that is not defined. -/
def badName (message : Text) : Fault := ofClass .name message

/-- A failure of a running script, with an explicit category. -/
def raised (category message : Text) : Fault :=
  ⟨.interpreter, "", category.upper, message, 0⟩

/-- A parse fault at a line. -/
def ofParse (detail : Text) (line : Nat) (message : Text) : Fault :=
  { ofClass .parse message with detail := detail, line := line }

/-- The fault with its line set, unless it is known already. -/
def atLine (f : Fault) (line : Nat) : Fault := if f.line = 0 then { f with line := line } else f

/-- Whether a script handler may intercept the fault. -/
def catchable (f : Fault) : Bool := f.kind ≠ .internal

/-- A fault as a value shows it. -/
def inspect (f : Fault) : Text := "ERROR: " ++ f.message

/-- A fault as a report shows it. -/
def describe (f : Fault) : Text :=
  Text.onlyIf (f.line > 0) ("[line " ++ toString f.line ++ "] ") ++ f.kind.label
    ++ Text.onlyIf (!f.detail.isEmpty) (" (" ++ f.detail ++ ")") ++ ": " ++ f.message

end Fault

end ScriptEngine
