import ScriptEngine.Signature
import ScriptEngine.Store
/-!
# Plugins

Builtins that a host adds while the engine runs. They share the contract of builtins, and their names
begin with a mark of their own.
-/

namespace ScriptEngine

/-- A failure outside of the script: a message, or a fault that is meant for the script. -/
inductive HostError where
  | message (t : Text)
  | fault (f : Fault)

/-- The fault that a failure is reported as; a plain message gets a category. -/
def HostError.toFault (category : Text) : HostError → Fault
  | message t => Fault.raised category t
  | fault f => f

/-- A function of the host. It may give back nothing. -/
abbrev HostFunction := List Value → Store → Except HostError (Option Value) × Store

/-- A builtin added by the host. -/
structure Plugin where
  signature : Signature
  run : HostFunction

namespace Signature

/-- A contract with its names in lower case. -/
def make (name : Text) (result : Kind) (params : List Param) : Signature :=
  ⟨name.lower, result, params.map fun p => { p with name := p.name.lower }⟩

end Signature

/-- Plugins, in rising order of names. -/
structure Plugins where
  entries : List Plugin

namespace Plugins

/-- No plugins. -/
def none : Plugins := ⟨[]⟩

/-- Puts a plugin at its place, in that of another of its name. -/
def insert (p : Plugin) : List Plugin → List Plugin
  | [] => [p]
  | q :: rest =>
    match compare p.signature.name q.signature.name with
    | .lt => p :: q :: rest
    | .eq => p :: rest
    | .gt => q :: insert p rest

/-- Adds a plugin, or says why it cannot be one. -/
def register (ps : Plugins) (s : Signature) (f : Option HostFunction) : Except Text Plugins :=
  let name := s.name.lower
  if !isPluginName name then
    .error ("plugin " ++ name.quoted ++ " must use the " ++ pluginMark.quoted ++ " prefix")
  else match f with
    | Option.none => .error ("plugin " ++ name.quoted ++ " has no implementation")
    | some f => .ok ⟨insert ⟨{ s with name := name }, f⟩ ps.entries⟩

/-- The plugin with a name. -/
def find? (ps : Plugins) (name : Text) : Option Plugin :=
  let lower := name.lower
  ps.entries.find? fun p => p.signature.name = lower

/-- The names in rising order. -/
def names (ps : Plugins) : List Text := ps.entries.map (·.signature.name)

/-- The contracts, for checking calls. -/
def registry (ps : Plugins) : Registry := ⟨ps.entries.map (·.signature)⟩

end Plugins

end ScriptEngine
