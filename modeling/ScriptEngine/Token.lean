import ScriptEngine.Text.Quoted
/-!
# Tokens

The words of the script language: literals, operators, delimiters, keywords and type names, each with
the place in the source where it begins.
-/

namespace ScriptEngine

namespace Token

/-- What a token is. -/
inductive Kind where
  | illegal | eof
  | ident | int | long | double | string | date
  | assign | plus | minus | bang | star | slash | percent | caret
  | plusPlus | minusMinus | plusEq | minusEq | starEq | slashEq
  | lt | gt | eq | notEq | lte | gte
  | and | or
  | comma | semicolon | colon | lparen | rparen | lbrace | rbrace | lbracket | rbracket | dot | hash
  | kwVar | kwConst | kwFunction | kwReturn | kwIf | kwThen | kwElse | kwWhile | kwDo | kwFor
  | kwForeach | kwIn | kwBreak | kwContinue | kwPrint | kwCall | kwImport | kwTypeof | kwTry
  | kwExceptions | kwWhen | kwRaise | kwException | kwTrue | kwFalse | kwNull | kwLength
  | typeName
deriving DecidableEq, Repr, Inhabited

/-- How messages call a kind of token: an operator by its spelling, the rest by a capital word. -/
def Kind.name : Kind → String
  | illegal => "ILLEGAL" | eof => "EOF"
  | ident => "IDENT" | int => "INT" | long => "LONG" | double => "DOUBLE"
  | string => "STRING" | date => "DATE"
  | assign => "=" | plus => "+" | minus => "-" | bang => "!" | star => "*" | slash => "/"
  | percent => "%" | caret => "^" | plusPlus => "++" | minusMinus => "--" | plusEq => "+="
  | minusEq => "-=" | starEq => "*=" | slashEq => "/="
  | lt => "<" | gt => ">" | eq => "==" | notEq => "!=" | lte => "<=" | gte => ">="
  | and => "AND" | or => "OR"
  | comma => "," | semicolon => ";" | colon => ":" | lparen => "(" | rparen => ")"
  | lbrace => "\x7b" | rbrace => "\x7d" | lbracket => "[" | rbracket => "]" | dot => "."
  | hash => "#"
  | kwVar => "VAR" | kwConst => "CONST" | kwFunction => "FUNCTION" | kwReturn => "RETURN"
  | kwIf => "IF" | kwThen => "THEN" | kwElse => "ELSE" | kwWhile => "WHILE" | kwDo => "DO"
  | kwFor => "FOR" | kwForeach => "FOREACH" | kwIn => "IN" | kwBreak => "BREAK"
  | kwContinue => "CONTINUE" | kwPrint => "PRINT" | kwCall => "CALL" | kwImport => "IMPORT"
  | kwTypeof => "TYPEOF" | kwTry => "TRY" | kwExceptions => "EXCEPTIONS" | kwWhen => "WHEN"
  | kwRaise => "RAISE" | kwException => "EXCEPTION" | kwTrue => "TRUE" | kwFalse => "FALSE"
  | kwNull => "NULL" | kwLength => "LENGTH"
  | typeName => "TYPE"

/-- The reserved words. -/
def keywords : List (Text × Kind) :=
  [("var", .kwVar), ("const", .kwConst), ("function", .kwFunction), ("return", .kwReturn),
    ("if", .kwIf), ("then", .kwThen), ("else", .kwElse), ("while", .kwWhile), ("do", .kwDo),
    ("for", .kwFor), ("foreach", .kwForeach), ("in", .kwIn), ("break", .kwBreak),
    ("continue", .kwContinue), ("print", .kwPrint), ("call", .kwCall), ("import", .kwImport),
    ("typeof", .kwTypeof), ("try", .kwTry), ("exceptions", .kwExceptions), ("when", .kwWhen),
    ("raise", .kwRaise), ("exception", .kwException), ("true", .kwTrue), ("false", .kwFalse),
    ("null", .kwNull), ("and", .and), ("or", .or), ("length", .kwLength), ("size", .kwLength)]

/-- The words that name a type in a declaration, with the type each names. -/
def typeWords : List (Text × String) :=
  [("byte", "byte"), ("int", "int"), ("integer", "int"), ("long", "long"), ("float", "double"),
    ("double", "double"), ("string", "string"), ("date", "date"), ("bool", "bool"),
    ("boolean", "bool"), ("json", "json"), ("map", "map"), ("record", "record"),
    ("array", "array"), ("queue", "queue"), ("bitmap", "bitmap"), ("intmap", "intmap"),
    ("image", "image"), ("vector_image", "vectorimage"), ("canvas", "canvas"), ("any", "any")]

/-- The type that a word names, in any case of letters. -/
def canonicalType? (word : Text) : Option String := typeWords.lookup word.lowerAscii

/-- Whether a word is reserved, in any case of letters. -/
def isKeyword (word : Text) : Bool := (keywords.lookup word.lowerAscii).isSome

/-- The kind of a lower-case word. -/
def Kind.ofWord (word : Text) : Kind :=
  match keywords.lookup word with
  | some k => k
  | none => if (typeWords.lookup word).isSome then .typeName else .ident

end Token

/-- A token and where it begins. -/
structure Token where
  kind : Token.Kind
  literal : Text
  line : Nat
  column : Nat
deriving DecidableEq, Inhabited

/-- A token as messages show it. -/
def Token.describe (t : Token) : Text :=
  "Token(" ++ t.kind.name ++ ", " ++ t.literal.quoted ++ ", " ++ toString t.line ++ ":"
    ++ toString t.column ++ ")"

end ScriptEngine
