import ScriptEngine.Program.Parser.State
import ScriptEngine.Suggestion
/-!
# Checking calls of builtins

A call of a dotted name is a call of a builtin or plugin. Its arguments are put into the order of the
parameters, and their number and, as far as they are known, their kinds are checked. A plugin that is
not known yet is left to be checked when it is called.
-/

namespace ScriptEngine

/-- The kind of an expression when it can be known without running it, and the invalid kind
otherwise. -/
def Expr.staticKind (scopes : List (List (Text × Kind))) : Expr → Kind
  | .int .. => .int
  | .long .. => .long
  | .double .. => .double
  | .string .. => .string
  | .date .. => .date
  | .bool .. => .bool
  | .null .. => .null
  | .array .. => .array
  | .object .. => .json
  | .typeOf .. => .string
  | .length .. => .int
  | .name _ v =>
    match Parser.lookupKind scopes v with
    | some .any => .invalid
    | some k => k
    | none => .invalid
  | .unary _ .not _ => .bool
  | .unary _ _ e => let k := e.staticKind scopes; if k.isNumeric then k else .invalid
  | .binary _ op l r =>
    let a := l.staticKind scopes
    let b := r.staticKind scopes
    match op with
    | .eq | .ne | .lt | .gt | .le | .ge | .and | .or => .bool
    | .add =>
      if a = .string || b = .string then .string
      else if a.isNumeric && b.isNumeric then
        (let w := a.widest b; if w = .byte then .int else w) else .invalid
    | .pow => if a.isNumeric && b.isNumeric then .double else .invalid
    | .sub | .mul | .div | .mod =>
      if a.isNumeric && b.isNumeric then
        (let w := a.widest b; if w = .byte then .int else w) else .invalid
  | .call _ _ _ _ builtin result =>
    if builtin && !result.isEmpty then
      match Kind.ofName? result with
      | some .any => .invalid
      | some k => k
      | none => .invalid
    else .invalid
  | .assign .. | .step .. | .index .. | .member .. => .invalid

namespace Signature

/-- Why named arguments do not fit a signature. -/
inductive NameMismatch where
  | unknown (param : Text)
  | twice (param : Text)
  | missing (param : Text)

/-- The wording of a mismatch in a call of `name`. -/
def NameMismatch.message (name : Text) : NameMismatch → Text
  | unknown p => name ++ " has no parameter " ++ p.quoted
  | twice p => name ++ " parameter " ++ p.quoted ++ " given twice"
  | missing p => name ++ " missing mandatory parameter " ++ p.quoted

/-- Puts one named argument into its slot. -/
def fillSlot {α : Type} (s : Signature) (slots : List (Option α)) (arg : Text × α) :
    Except NameMismatch (List (Option α)) :=
  match s.paramIndex? arg.1 with
  | none => .error (.unknown arg.1)
  | some i =>
    match slots[i]? with
    | some (some _) => .error (.twice arg.1)
    | _ => .ok (slots.set i (some arg.2))

/-- The slots up to the last filled one. -/
def dropOpen {α : Type} (slots : List (Option α)) : List (Option α) :=
  (slots.reverse.dropWhile (·.isNone)).reverse

/-- Named arguments in the order of the parameters, up to the last one given. -/
def arrange {α : Type} (s : Signature) (args : List (Text × α)) :
    Except NameMismatch (List (Option α)) := do
  let slots ← args.foldlM (fillSlot s) (List.replicate s.params.length none)
  match (s.params.zip slots).find? fun (p, slot) => p.mandatory && slot.isNone with
  | some (p, _) => .error (.missing p.name)
  | none => .ok (dropOpen slots)

end Signature

namespace Parser

/-- The names suggested in place of an unknown one: the three most alike, or else the first three of
its category. -/
def suggestions (name : Text) (names : List Text) : List Text :=
  match Ranking.find name names with
  | [] =>
    match name.find? "." with
    | some (i + 1) => (names.filter fun n => n.startsWith (name.take (i + 2))).take 3
    | _ => []
  | found => found.take 3

/-- The note with suggestions at the end of a message. -/
def suggestionText (name : Text) (names : List Text) : Text :=
  match suggestions name names with
  | [] => ""
  | found => " (did you mean " ++ Text.join ", " found ++ "?)"

/-- The signature of a builtin or plugin. -/
def Catalog.find? (c : Catalog) (name : Text) : Option Signature :=
  match c.builtins.find? name with
  | some s => some s
  | none => if isPluginName name then c.plugins.find? name else none

/-- The arguments of a call by position, or the reason why named ones cannot be arranged. -/
def positionalArgs (s : Signature) (mark : Mark) (args : List Expr) (names : List Text) :
    Except Signature.NameMismatch (List Expr) :=
  if names.isEmpty then .ok args
  else do
    let slots ← s.arrange (names.zip args)
    pure (slots.map fun a => a.getD (.null ⟨"null", mark.line⟩))

/-- Checks a call of a dotted name and completes it. -/
def resolveCall (c : Catalog) (mark : Mark) (function : Text) (args : List Expr)
    (names : List Text) : ParseM Expr := do
  let name := function.lower
  match Catalog.find? c name with
  | none =>
    if isPluginName name then pure (.call mark function args names true "")
    else
      fault .unknownBuiltin mark.line
        ("Unknown builtin '" ++ name ++ "'" ++ suggestionText name c.builtins.names)
  | some s =>
    match positionalArgs s mark args names with
    | .error e => fault .arityMismatch mark.line (e.message name)
    | .ok args =>
      let scopes := (← get).scopes
      match s.checkArity args.length with
      | some m => fault m.detail mark.line (m.message s.name)
      | none =>
        match s.checkKinds (args.map (Expr.staticKind scopes)) with
        | some m => fault m.detail mark.line (m.message s.name)
        | none =>
          let result : Text := if s.result = .null then "" else s.result.name
          pure (.call mark name args [] true result)

end Parser

end ScriptEngine
