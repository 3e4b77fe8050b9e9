import ScriptEngine.Fault
import ScriptEngine.Kind
import ScriptEngine.Text.Quoted
/-!
# Signatures of builtins

What a builtin takes and returns, and the two checks a call is put to before it runs: the number of
its arguments and, as far as they are known, their kinds.
-/

namespace ScriptEngine

/-- One parameter of a builtin. -/
structure Signature.Param where
  name : Text
  kind : Kind
  mandatory : Bool
  /-- Whether an argument of an assignable kind is passed on as it is. -/
  keep : Bool
deriving DecidableEq, Inhabited

/-- The contract of a builtin; the result kind is null when it returns nothing. -/
structure Signature where
  name : Text
  result : Kind
  params : List Signature.Param
deriving DecidableEq, Inhabited

namespace Signature

/-- A mandatory parameter. -/
def required (name : Text) (kind : Kind) : Param := ⟨name.lower, kind, true, false⟩

/-- A mandatory number that keeps the kind of the argument. -/
def number (name : Text) : Param := ⟨name.lower, .double, true, true⟩

/-- A parameter that may be left out. -/
def optional (name : Text) (kind : Kind) : Param := ⟨name.lower, kind, false, false⟩

/-- How many parameters are mandatory. -/
def mandatoryCount (s : Signature) : Nat := (s.params.filter (·.mandatory)).length

/-- The place of a parameter. -/
def paramIndex? (s : Signature) (name : Text) : Option Nat :=
  let lower := name.lower
  s.params.findIdx? fun p => p.name = lower

/-- A signature as messages show it. -/
def describe (s : Signature) : Text :=
  let param := fun (p : Param) => p.name ++ ": " ++ p.kind.name ++ Text.onlyIf (!p.mandatory) "?"
  s.name ++ "(" ++ Text.join ", " (s.params.map param) ++ ")"
    ++ Text.onlyIf (s.result ≠ .null) (" " ++ s.result.name)

/-- Why a call does not fit a signature. -/
inductive Mismatch where
  | tooMany (limit given : Nat)
  | missing (param : Text)
  | kind (param : Text) (expected given : Kind)
deriving DecidableEq, Repr

/-- The detail under which a mismatch is reported. -/
def Mismatch.detail : Mismatch → Fault.Detail
  | kind .. => .typeMismatch
  | _ => .arityMismatch

/-- The wording of a mismatch of a call of `name`. -/
def Mismatch.message (name : Text) : Mismatch → Text
  | tooMany limit given =>
    name ++ " takes at most " ++ toString limit ++ " arguments, got " ++ toString given
  | missing param => name ++ " missing mandatory parameter " ++ param.quoted
  | kind param expected given =>
    name ++ " parameter " ++ param.quoted ++ " expects " ++ expected.name ++ ", got " ++ given.name

/-- Checks the number of arguments: not more than there are parameters, and no mandatory one left
out. -/
def checkArity (s : Signature) (n : Nat) : Option Mismatch :=
  if s.params.length < n then some (.tooMany s.params.length n)
  else ((s.params.drop n).find? (·.mandatory)).map fun p => .missing p.name

/-- Checks the kinds of arguments; the invalid kind marks one that is not known. -/
def checkKinds (s : Signature) (kinds : List Kind) : Option Mismatch :=
  ((s.params.zip kinds).find? fun (p, k) => k ≠ .invalid && !k.assignable p.kind).map
    fun (p, k) => .kind p.name p.kind k

end Signature

/-- Signatures by lower-case name, in rising order of names. -/
structure Registry where
  entries : List Signature
deriving Inhabited

namespace Registry

/-- Puts a signature at its place among signatures in rising order of names; `none` when the name is
taken. -/
def insert (s : Signature) : List Signature → Option (List Signature)
  | [] => some [s]
  | t :: rest =>
    match compare s.name t.name with
    | .lt => some (s :: t :: rest)
    | .eq => none
    | .gt => (insert s rest).map (t :: ·)

/-- Adds a signature to a registry under its lower-case name, or gives back the name when it is
taken. -/
def add (r : Registry) (s : Signature) : Except Text Registry :=
  let s := { s with name := s.name.lower }
  match insert s r.entries with
  | some entries => .ok ⟨entries⟩
  | none => .error s.name

/-- The registry of a list of signatures, or the first name that is given twice. -/
def build (ss : List Signature) : Except Text Registry := ss.foldlM add ⟨[]⟩

/-- The signature of a builtin. -/
def find? (r : Registry) (name : Text) : Option Signature :=
  let lower := name.lower
  r.entries.find? fun s => s.name = lower

/-- The names in rising order. -/
def names (r : Registry) : List Text := r.entries.map (·.name)

end Registry

/-- How the names of plugins begin. -/
def pluginMark : Text := "custom."

/-- Whether a name belongs to a plugin. -/
def isPluginName (name : Text) : Bool := name.lower.startsWith pluginMark

end ScriptEngine
