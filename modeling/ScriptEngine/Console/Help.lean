import ScriptEngine.Console.CommandLine
import ScriptEngine.Release
/-!
# Help

The help on the program and on its commands. Names stand in a left column and explanations in a right one, whose
lines are broken so that they are filled evenly.
-/

namespace ScriptEngine

namespace Console

/-! ## Breaking lines -/

/-- What a way of breaking costs: first how far lines run excess, then how uneven they are. -/
structure Cost where
  excess : Nat
  slack : Nat

/-- Whether one cost is less than another. -/
def Cost.less (a b : Cost) : Bool := a.excess < b.excess || (a.excess = b.excess && a.slack < b.slack)

instance : Add Cost := ⟨fun a b => ⟨a.excess + b.excess, a.slack + b.slack⟩⟩

/-- The cost of a break behind a word: one behind a mark is free. -/
def breakCost (word : Text) : Nat :=
  if [0x2E, 0x2C, 0x3A, 0x3B].contains (word.bytes.getLastD 0) then 0 else 64

/-- The cost of a line of words; the last line of a text may be short. -/
def lineCost (width : Nat) (words : List Text) (isLast : Bool) : Cost :=
  let used := (Text.join " " words).length
  if used > width then ⟨(used - width) ^ 2, breakCost (words.getLastD "")⟩
  else if isLast then ⟨0, 0⟩
  else ⟨0, (width - used) ^ 2 + breakCost (words.getLastD "")⟩

/-- The cheapest way to break words, given for each number of first words the rest's cheapest way; `line` holds
the words of the first line so far and `best` the cheapest way found. -/
def cheapest (width : Nat) : List Text → List Text → List (Cost × List (List Text)) →
    Option (Cost × List (List Text)) → Option (Cost × List (List Text))
  | line, w :: ws, (cost, lines) :: ways, best =>
    let line := line ++ [w]
    let here := (lineCost width line ws.isEmpty + cost, line :: lines)
    let best := match best with
      | none => here
      | some b => if here.1.less b.1 then here else b
    cheapest width line ws ways (some best)
  | _, _, _, best => best

/-- The cheapest ways to break the rests of a list of words, the longest rest first. -/
def ways (width : Nat) : List Text → List (Cost × List (List Text))
  | [] => [(⟨0, 0⟩, [])]
  | w :: ws =>
    let rest := ways width ws
    (cheapest width [] (w :: ws) rest none).getD (⟨0, 0⟩, []) :: rest

/-- A text broken into lines of at most `width` characters. -/
def wrap (width : Nat) (t : Text) : List Text :=
  (((ways width t.words).head?.map (·.2)).getD []).map (Text.join " ")

/-! ## Columns -/

/-- The width of a page. -/
def pageWidth : Nat := 80

/-- The blanks in front of a row. -/
def indentation : Nat := 2

/-- The blanks between the columns. -/
def columnGap : Nat := 4

/-- A text with blanks behind it up to a width. -/
def padded (width : Nat) (t : Text) : Text := t ++ Text.replicate (width - t.length) " "

/-- Rows of names and explanations as lines. -/
def twoColumns (rows : List (Text × Text)) : List Text :=
  let width := pageWidth - indentation
  let maxLeft := max 30 (375 * width / 1000)
  let left := ((rows.map (·.1.size)).filter (· < maxLeft)).foldl max 0
  let offset := Text.replicate (left + columnGap) " "
  let lines := rows.flatMap fun (name, explanation) =>
    let name' := padded left name
    let more := wrap (width - left - columnGap) explanation
    if name.size < maxLeft then
      (name' ++ Text.replicate columnGap " " ++ more.headD "") :: (more.drop 1).map (offset ++ ·)
    else name' :: more.map (offset ++ ·)
  lines.map fun l => (Text.replicate indentation " " ++ l).trimRight

/-! ## The help -/

/-- The row of a flag. -/
def Flag.row (f : Flag) : Text × Text := ("    --" ++ f.name ++ "=" ++ f.placeholder, f.help)

/-- The row of the flag that asks for help. -/
def helpRow : Text × Text := ("-h, --help", "Show context-sensitive help.")

/-- The lines about the flags of the program and, behind a blank line, those of a command. -/
def flagLines (own : List Flag) : List Text :=
  let gap : List (Text × Text) := if own.isEmpty then [] else [("", "")]
  ("Flags:" : Text) :: twoColumns (helpRow :: commonFlags.map Flag.row ++ gap ++ own.map Flag.row)

/-- The help on the program. -/
def programHelp : List Text :=
  let r := Release.current
  let top : List Text := ["Usage: " ++ r.name ++ " <command> [flags]", "", r.description, ""]
  let middle : List Text := ["", "Commands:"]
  let bottom : List Text :=
    ["", "Run \"" ++ r.name ++ " <command> --help\" for more information on a command."]
  top ++ flagLines [] ++ middle ++ twoColumns (commands.map fun c => (c.name, c.help)) ++ bottom

/-- The help on a command. -/
def commandHelp (c : CommandForm) : List Text :=
  let argument : Text := match c.argument with
    | some a => " " ++ a.label
    | none => ""
  let heading : List Text := ["", "Arguments:"]
  let arguments := match c.argument with
    | some a => heading ++ twoColumns [(a.label, a.help)]
    | none => []
  let top : List Text :=
    ["Usage: " ++ Release.current.name ++ " " ++ c.name ++ argument ++ " [flags]", "", c.help]
  top ++ arguments ++ [("" : Text)] ++ flagLines c.flags

/-- The help on the program or on a command. -/
def help (c : Option CommandForm) : Text :=
  Text.concat ((match c with
    | none => programHelp
    | some c => commandHelp c).map fun l => l ++ "\n")

end Console

end ScriptEngine
