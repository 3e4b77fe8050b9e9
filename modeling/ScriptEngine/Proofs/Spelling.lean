import ScriptEngine.Program.Parser
/-!
# Spellings of operator expressions

An operator expression can be spelled in many ways: with more parentheses than it needs, with other spellings of its
operators, in any case of letters, and with any white space between its lexemes. Lexemes stand next to each other
where the reader of tokens does not take the second for a part of the first.
-/

namespace ScriptEngine

/-! ## Lexemes -/

/-- A piece of source text that is one token. -/
inductive Lexeme where
  | word (bytes : List UInt8)
  | digits (bytes : List UInt8)
  /-- Digits and the letter behind them that makes a long of them. -/
  | long (digits : List UInt8) (suffix : UInt8)
  | symbol (kind : Token.Kind) (spelling : String)

namespace Lexeme

/-- The bytes of a lexeme. -/
def bytes : Lexeme → List UInt8
  | word bs | digits bs => bs
  | long ds suffix => ds ++ [suffix]
  | symbol _ s => (s : Text).bytes

/-- The kind of the token that a lexeme is read as. -/
def kind : Lexeme → Token.Kind
  | word bs => Token.Kind.ofWord (Text.lowerAscii ⟨bs⟩)
  | digits ds =>
    if 2 ^ 63 ≤ Cursor.decimalValue ds then .double else if 2 ^ 31 ≤ Cursor.decimalValue ds then .long else .int
  | long .. => .long
  | symbol k _ => k

/-- How a token shows a symbol: a comparison that begins with the sign of equality is turned round. -/
def shown : String → String
  | "=<" => "<="
  | "=>" => ">="
  | s => s

/-- The literal of the token that a lexeme is read as. -/
def literal : Lexeme → Text
  | word bs => Text.lowerAscii ⟨bs⟩
  | digits ds | long ds _ => ⟨ds⟩
  | symbol _ s => shown s

/-- The symbols of operator expressions, and the one that ends a statement. -/
def symbols : List (Token.Kind × String) :=
  [(.plus, "+"), (.minus, "-"), (.star, "*"), (.slash, "/"), (.percent, "%"), (.caret, "^"), (.eq, "=="),
    (.notEq, "!="), (.notEq, "<>"), (.lt, "<"), (.lte, "<="), (.lte, "=<"), (.gt, ">"), (.gte, ">="), (.gte, "=>"),
    (.and, "&&"), (.or, "||"), (.bang, "!"), (.lparen, "("), (.rparen, ")"), (.lbracket, "["), (.rbracket, "]"),
    (.comma, ","), (.hash, "#"), (.semicolon, ";")]

/-- A lexeme that has the form of its sort. -/
def Formed : Lexeme → Prop
  | word bs => ∃ b rest, bs = b :: rest ∧ Cursor.isLetter b = true ∧ rest.all Cursor.isWordByte = true
  | digits ds => ds ≠ [] ∧ ds.all Cursor.isDigit = true
  | long ds suffix => ds ≠ [] ∧ ds.all Cursor.isDigit = true ∧ (suffix = 0x6C ∨ suffix = 0x4C)
  | symbol k s => (k, s) ∈ symbols

/-- The bytes that make more of a symbol: a longer one, or the start of a comment. -/
def lengthening : String → List UInt8
  | "+" => [0x2B, 0x3D]
  | "-" => [0x2D, 0x3D]
  | "*" | "!" | ">" => [0x3D]
  | "/" => [0x3D, 0x2F, 0x2A]
  | "<" => [0x3D, 0x3E]
  | _ => []

/-- Whether a lexeme ends where a byte follows it. Behind digits, a point and the letters of an exponent and of a
suffix may belong to the number. -/
def stopsAt : Lexeme → UInt8 → Bool
  | word _, b => !Cursor.isWordByte b && b != 0x2E
  | digits _, b => !Cursor.isDigit b && !([0x2E, 0x65, 0x45, 0x64, 0x44, 0x66, 0x46, 0x6C, 0x4C].contains b)
  | long .., _ => true
  | symbol _ s, b => !((lengthening s).contains b)

/-- A lexeme ends where a text follows it. -/
def StopsBefore (a : Lexeme) (text : List UInt8) : Prop := ∀ b, text.head? = some b → a.stopsAt b = true

def lparen : Lexeme := symbol .lparen "("
def rparen : Lexeme := symbol .rparen ")"
def lbracket : Lexeme := symbol .lbracket "["
def rbracket : Lexeme := symbol .rbracket "]"
def comma : Lexeme := symbol .comma ","
def hash : Lexeme := symbol .hash "#"
def semicolon : Lexeme := symbol .semicolon ";"

end Lexeme

/-- White space. -/
def Blank (bs : List UInt8) : Prop := ∀ b ∈ bs, b ∈ [0x20, 0x09, 0x0D, 0x0A]

/-- Lexemes written one after the other, with white space around them: as much as there may be, and some between
lexemes that would be read as one without it. -/
inductive Written : List Lexeme → List UInt8 → Prop where
  | nil {gap : List UInt8} (blank : Blank gap) : Written [] gap
  | cons {gap text : List UInt8} {a : Lexeme} {as : List Lexeme} (blank : Blank gap) (formed : a.Formed)
    (stops : a.StopsBefore text) (rest : Written as text) : Written (a :: as) (gap ++ (a.bytes ++ text))

/-! ## The table of precedence -/

namespace UnaryOp

/-- The level of the operators in front of an operand. -/
def level : Nat := 9

/-- The lexeme of an operator. -/
def lexeme : UnaryOp → Lexeme
  | not => .symbol .bang "!"
  | negate => .symbol .minus "-"
  | plus => .symbol .plus "+"

end UnaryOp

namespace BinaryOp

/-- The level of an operator: one of a higher level binds more tightly. -/
def level : BinaryOp → Nat
  | or => 3
  | and => 4
  | eq | ne => 5
  | lt | le | gt | ge => 6
  | add | sub => 7
  | mul | div | mod => 8
  | pow => 10

/-- The least level of a left operand without parentheses: operators of one level group to the left, but for the
power. -/
def leftLevel : BinaryOp → Nat
  | pow => 11
  | op => op.level

/-- The least level of a right operand without parentheses. An operator in front of the right operand of a power needs
none, since it can not be taken for anything else. -/
def rightLevel : BinaryOp → Nat
  | pow => UnaryOp.level
  | op => op.level + 1

/-- The symbols of an operator. -/
def symbols : BinaryOp → List (Token.Kind × String)
  | add => [(.plus, "+")]
  | sub => [(.minus, "-")]
  | mul => [(.star, "*")]
  | div => [(.slash, "/")]
  | mod => [(.percent, "%")]
  | pow => [(.caret, "^")]
  | eq => [(.eq, "==")]
  | ne => [(.notEq, "!="), (.notEq, "<>")]
  | lt => [(.lt, "<")]
  | le => [(.lte, "<="), (.lte, "=<")]
  | gt => [(.gt, ">")]
  | ge => [(.gte, ">="), (.gte, "=>")]
  | and => [(.and, "&&")]
  | or => [(.or, "||")]

/-- The word of an operator. -/
def word? : BinaryOp → Option String
  | and => some "and"
  | or => some "or"
  | _ => none

/-- A lexeme spells an operator: one of its symbols, or its word in any case of letters. -/
def SpelledBy (op : BinaryOp) : Lexeme → Prop
  | .symbol k s => (k, s) ∈ op.symbols
  | .word bs => ∃ w, op.word? = some w ∧ Text.lowerAscii ⟨bs⟩ = w
  | _ => False

end BinaryOp

/-- The level of operands, and of what is made of them by indexing and by calls. -/
def operandLevel : Nat := 11

/-! ## Spellings -/

/-- What lexemes may spell. -/
inductive Phrase where
  /-- An expression with the level of its outermost operator. -/
  | expr (level : Nat) (e : Expr)
  /-- Expressions with commas between them. -/
  | list (es : List Expr)
  /-- Expressions, each after a comma. -/
  | more (es : List Expr)

/-- Lexemes spell an expression, with parentheses at least where the table of precedence requires them. -/
inductive Spelled : Phrase → List Lexeme → Prop where
  | name (m : Mark) {w : List UInt8} (word : Text.lowerAscii ⟨w⟩ = m.literal)
    (kind : Token.Kind.ofWord m.literal = .ident) : Spelled (.expr operandLevel (.name m m.literal)) [.word w]
  | int (m : Mark) (small : Cursor.decimalValue m.literal.bytes < 2 ^ 31) :
    Spelled (.expr operandLevel (.int m (Int32.ofNat (Cursor.decimalValue m.literal.bytes))))
      [.digits m.literal.bytes]
  | long (m : Mark) (suffix : UInt8) (small : Cursor.decimalValue m.literal.bytes < 2 ^ 63) :
    Spelled (.expr operandLevel (.long m (Int64.ofNat (Cursor.decimalValue m.literal.bytes))))
      [.long m.literal.bytes suffix]
  | longDigits (m : Mark) (small : Cursor.decimalValue m.literal.bytes < 2 ^ 63)
    (large : 2 ^ 31 ≤ Cursor.decimalValue m.literal.bytes) :
    Spelled (.expr operandLevel (.long m (Int64.ofNat (Cursor.decimalValue m.literal.bytes))))
      [.digits m.literal.bytes]
  | bool (m : Mark) (b : Bool) {w : List UInt8} (word : Text.lowerAscii ⟨w⟩ = m.literal)
    (value : m.literal = ((if b then "true" else "false" : String) : Text)) :
    Spelled (.expr operandLevel (.bool m b)) [.word w]
  | null (m : Mark) {w : List UInt8} (word : Text.lowerAscii ⟨w⟩ = m.literal)
    (value : m.literal = ("null" : String)) : Spelled (.expr operandLevel (.null m)) [.word w]
  | paren {p : Nat} {e : Expr} {as : List Lexeme} (inner : Spelled (.expr p e) as) :
    Spelled (.expr operandLevel e) (.lparen :: (as ++ [.rparen]))
  | unary (m : Mark) (op : UnaryOp) {p : Nat} {e : Expr} {as : List Lexeme} (operand : Spelled (.expr p e) as)
    (tight : UnaryOp.level ≤ p) : Spelled (.expr UnaryOp.level (.unary m op e)) (op.lexeme :: as)
  | binary (m : Mark) (op : BinaryOp) {o : Lexeme} {p q : Nat} {l r : Expr} {as bs : List Lexeme}
    (left : Spelled (.expr p l) as) (right : Spelled (.expr q r) bs) (spelled : op.SpelledBy o)
    (tightLeft : op.leftLevel ≤ p) (tightRight : op.rightLevel ≤ q) :
    Spelled (.expr op.level (.binary m op l r)) (as ++ o :: bs)
  | index (m : Mark) {p : Nat} {c k : Expr} {as bs : List Lexeme} (container : Spelled (.expr operandLevel c) as)
    (key : Spelled (.expr p k) bs) :
    Spelled (.expr operandLevel (.index m c k)) (as ++ .lbracket :: (bs ++ [.rbracket]))
  | array (m : Mark) {es : List Expr} {as : List Lexeme} (elements : Spelled (.list es) as) :
    Spelled (.expr operandLevel (.array m es)) (.lbracket :: (as ++ [.rbracket]))
  | call (m m' : Mark) {f : Text} {es : List Expr} {as bs : List Lexeme}
    (function : Spelled (.expr operandLevel (.name m' f)) as) (args : Spelled (.list es) bs) :
    Spelled (.expr operandLevel (.call m f es [] false "")) (as ++ .lparen :: (bs ++ [.rparen]))
  | markedCall (m : Mark) {w : List UInt8} {es : List Expr} {as : List Lexeme}
    (kind : Token.Kind.ofWord (Text.lowerAscii ⟨w⟩) = .ident) (args : Spelled (.list es) as) :
    Spelled (.expr operandLevel (.call m (Text.lowerAscii ⟨w⟩) es [] false ""))
      (.hash :: .word w :: .lparen :: (as ++ [.rparen]))
  | empty : Spelled (.list []) []
  | list {p : Nat} {e : Expr} {es : List Expr} {as bs : List Lexeme} (first : Spelled (.expr p e) as)
    (rest : Spelled (.more es) bs) : Spelled (.list (e :: es)) (as ++ bs)
  | last : Spelled (.more []) []
  | more {p : Nat} {e : Expr} {es : List Expr} {as bs : List Lexeme} (first : Spelled (.expr p e) as)
    (rest : Spelled (.more es) bs) : Spelled (.more (e :: es)) (.comma :: (as ++ bs))

/-! ## Operator expressions -/

/-- A name without dots, in lower case, that is no reserved word and names no type. -/
def Text.IsName (v : Text) : Prop :=
  (Lexeme.word v.bytes).Formed ∧ v.lowerAscii = v ∧ Token.Kind.ofWord v = .ident

namespace Expr

mutual

/-- Expressions of names, whole numbers, truth values, null, operators, indexing, arrays and calls of script functions
by position. Names, numbers and the other literals are those that their marks say. -/
def Plain : Expr → Prop
  | name m v => v.IsName ∧ m.literal = v
  | int m n => (Lexeme.digits m.literal.bytes).Formed ∧ Cursor.decimalValue m.literal.bytes < 2 ^ 31 ∧
    n = Int32.ofNat (Cursor.decimalValue m.literal.bytes)
  | long m n => (Lexeme.digits m.literal.bytes).Formed ∧ Cursor.decimalValue m.literal.bytes < 2 ^ 63 ∧
    n = Int64.ofNat (Cursor.decimalValue m.literal.bytes)
  | bool m b => m.literal = ((if b then "true" else "false" : String) : Text)
  | null m => m.literal = ("null" : String)
  | array _ es => PlainAll es
  | unary _ _ e => e.Plain
  | binary _ _ l r => l.Plain ∧ r.Plain
  | index _ c k => c.Plain ∧ k.Plain
  | call _ f args names builtin result => f.IsName ∧ PlainAll args ∧ names = [] ∧ builtin = false ∧ result = ""
  | _ => False

/-- All expressions of a list are of that sort. -/
def PlainAll : List Expr → Prop
  | [] => True
  | e :: es => e.Plain ∧ PlainAll es

end

mutual

/-- An expression without what its spelling decides: the lines of its nodes, and the spellings of operators. -/
def bare : Expr → Expr
  | name m v => name ⟨m.literal, 0⟩ v
  | int m n => int ⟨m.literal, 0⟩ n
  | long m n => long ⟨m.literal, 0⟩ n
  | bool m b => bool ⟨m.literal, 0⟩ b
  | null m => null ⟨m.literal, 0⟩
  | array _ es => array default (bareAll es)
  | unary _ op e => unary default op e.bare
  | binary _ op l r => binary default op l.bare r.bare
  | index _ c k => index default c.bare k.bare
  | call _ f args names builtin result => call default f (bareAll args) names builtin result
  | e => e

/-- The expressions of a list without what their spelling decides. -/
def bareAll : List Expr → List Expr
  | [] => []
  | e :: es => e.bare :: bareAll es

end

end Expr

end ScriptEngine
