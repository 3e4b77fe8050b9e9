import ScriptEngine.Eval
import ScriptEngine.Release
/-!
# Conversations

A conversation reads statements line by line, runs them on one machine, and shows what they leave behind. A line
with open brackets goes on in the next one.
-/

namespace ScriptEngine

namespace Console

/-- Why a command failed: faults of a script, a crash, or other reasons. -/
inductive Failure where
  | plain (messages : List Text)
  | script (faults : List Fault)
  | crash (why : Text)

namespace Failure

/-- The text of a failure, a line for each reason. -/
def message : Failure → Text
  | plain messages => Text.join "\n" messages
  | script faults => Text.join "\n" (faults.map Fault.describe)
  | crash why => why

/-- A fault as it is shown to the user: its class, its detail or category, its line and its message. -/
def renderFault (f : Fault) : Text :=
  let kind :=
    if !f.detail.isEmpty then " (" ++ f.detail ++ ")"
    else Text.onlyIf (!f.category.isEmpty) (" " ++ f.category)
  Text.ofString f.kind.label ++ kind
    ++ Text.onlyIf (f.line > 0) (" line " ++ toString f.line) ++ ": " ++ f.message ++ "\n"

/-- A failure as it is shown to the user. -/
def render : Failure → Text
  | plain messages => Text.concat (messages.map fun m => "error " ++ m ++ "\n")
  | script faults => Text.concat (faults.map renderFault)
  | crash why => "panic: " ++ why ++ "\n"

end Failure

/-! ## Reading lines -/

/-- How much deeper in brackets the text is behind a token. -/
def nesting (t : Token) : Int :=
  match t.kind with
  | .lbrace | .lparen | .lbracket => 1
  | .rbrace | .rparen | .rbracket => -1
  | _ => 0

/-- Whether a text opens more brackets than it closes. -/
def isUnbalanced (source : Text) : Bool := ((Token.scan source).1.map nesting).foldr (· + ·) 0 > 0

/-- Whether a byte ends the word before it. -/
def endsWord (b : UInt8) : Bool := [0x20, 0x09, 0x28, 0x23, 0x2C, 0x3D].contains b

/-- The ways in which the last word of a line may go on to the name of a builtin. -/
def complete (names : List Text) (line : Text) : List Text :=
  let word : Text := ⟨(line.bytes.reverse.takeWhile (!endsWord ·)).reverse⟩
  let before := line.take (line.size - word.size)
  if word.isEmpty then []
  else (names.filter (·.startsWith word.lower)).map fun n => before ++ n

/-- The longest piece of an input that is read at once, the end of its line included. -/
def maxPiece : Nat := 4096

/-- A piece of an input: a line without its end, or the beginning of a line that is too long. -/
structure Piece where
  text : Text
  /-- Whether the line goes on behind the piece. -/
  isCut : Bool

/-- Takes the first piece off an input. A line may end in a return and a feed; where a piece is cut between the two,
the return stays with the rest. -/
def firstPiece (bs : List UInt8) : Piece × List UInt8 :=
  let line := (bs.take maxPiece).takeWhile (· ≠ 0x0A)
  let bare := if line.getLast? = some 0x0D then line.dropLast else line
  if line.length = maxPiece then (⟨⟨bare⟩, true⟩, bs.drop bare.length)
  else match bs.drop line.length with
    | [] => (⟨⟨line⟩, false⟩, [])
    | _ :: rest => (⟨⟨bare⟩, false⟩, rest)

/-- At most a number of pieces of an input. -/
def piecesOf : Nat → List UInt8 → List Piece
  | 0, _ => []
  | _, [] => []
  | fuel + 1, bs =>
    let (piece, rest) := firstPiece bs
    piece :: piecesOf fuel rest

/-- The lines of an input, in pieces; a last line may lack its end. -/
def inputPieces (t : Text) : List Piece := piecesOf t.size t.bytes

/-- The inputs that a file of earlier ones holds, up to a line that is too long or no text. -/
def earlierInputs (t : Text) : List Text :=
  ((inputPieces t).takeWhile fun p => !p.isCut && p.text.isValid).map (·.text)

/-! ## Talking -/

/-- The state of a conversation: the machine, the lines of an input that is not complete, the inputs before with
the latest in front, the failures that were shown, and the crash that ended it. -/
structure Conversation where
  machine : Machine
  pending : Text
  history : List Text
  errors : Text
  crash : Option Text := none

/-- The prompt for a new input. -/
def prompt : Text := ">>> "

/-- The prompt for a further line of an input. -/
def furtherPrompt : Text := "... "

/-- The number of inputs that are remembered. -/
def historyLimit : Nat := 1000

/-- Writes to the output of a machine. -/
def tell (t : Text) (m : Machine) : Machine :=
  { m with host := { m.host with output := t :: m.host.output } }

/-- Writes what a statement left behind, unless it is null. -/
def tellResult (f : Flow) (m : Machine) : Machine :=
  match f with
  | .value .null => m
  | f => tell (f.inspect m.store ++ "\n") m

namespace Conversation

/-- Remembers an input, unless it is the one before. -/
def remember (c : Conversation) (input : Text) : Conversation :=
  if c.history.head? = some input then c
  else { c with history := (input :: c.history).take historyLimit }

/-- Runs an input, and then the callbacks in wait. -/
def respond (fuel : Nat) (c : Conversation) (input : Text) : Conversation :=
  let c := c.remember (input.replace "\n" " ")
  let c := match c.machine.runSource fuel input "repl" with
    | (.left f, m) => { c with machine := tellResult f m }
    | (.faults fs, m) => { c with machine := m, errors := c.errors ++ (Failure.script fs).render }
    | (.crashed why, m) => { c with machine := m, crash := some why }
    | (.outOfFuel, m) => { c with machine := m }
  if c.crash.isSome then c
  else
    match Machine.pump fuel c.machine with
    | .done _ m | .failed _ m => { c with machine := m }
    | .crashed why m => { c with machine := m, crash := some why }
    | .outOfFuel => c

/-- Shows the prompt for the next line. -/
def ask (c : Conversation) : Conversation :=
  { c with machine := tell (if c.pending.isEmpty then prompt else furtherPrompt) c.machine }

/-- Talks over lines of input until they end, one asks to quit, or one crashes. -/
def talk (fuel : Nat) : List Text → Conversation → Conversation
  | [], c =>
    let c := c.ask
    { c with machine := tell "\n" c.machine }
  | line :: rest, c =>
    let input := if c.pending.isEmpty then line else c.pending ++ "\n" ++ line
    let c := c.ask
    if isUnbalanced input then talk fuel rest { c with pending := input }
    else
      let c := { c with pending := "" }
      let word := input.trim
      if word.isEmpty then talk fuel rest c
      else if word = ":quit" || word = ":q" then c
      else
        let c := c.respond fuel input
        if c.crash.isSome then c else talk fuel rest c

/-- Starts a conversation, which knows the inputs of an earlier one. -/
def start (history : List Text) (m : Machine) : Conversation :=
  { machine := tell (Release.current.title ++ "\nType statements and press Enter. :quit exits.\n") m
    pending := ""
    history := history.reverse.take historyLimit
    errors := "" }

end Conversation

end Console

end ScriptEngine
