import LineScript.Engine.Run

/-! The host's side of an engine: what it sets up before runs, the contexts it holds, and the runs
and calls it asks for. -/
namespace LineScript

structure Setup where
  standardLibrary : Bool := true
  strict : Bool := false
  tracing : Bool := false
  stream : Option Stream := none
  object : Option (HostObject Value) := none

namespace Machine

def start (setup : Setup) : Except Failure Machine :=
  let symbols := if setup.standardLibrary then SymbolTable.standard else SymbolTable.empty
  let bound := match setup.object with
    | none => (symbols, none)
    | some o => symbols.bindHost o none
  match bound with
  | (_, some f) => .error f
  | (symbols, none) =>
    .ok {
      symbols := symbols
      globals := []
      main := .empty
      contexts := []
      journal := .empty
      frames := []
      stream := setup.stream
      strict := setup.strict
      tracing := setup.tracing
      trace := []
      records := []
      history := [] }

def register (m : Machine) (name : String) (target : Value) : Except Failure Machine := do
  return { m with symbols := ← m.symbols.register name target }

def registerNamespace (m : Machine) (name : String) (target : Value) : Except Failure Machine := do
  return { m with symbols := ← m.symbols.registerNamespace name target }

def bindHost (m : Machine) (o : HostObject Value) (name : Option String) :
    Machine × Option Failure :=
  let (symbols, failure) := m.symbols.bindHost o name
  ({ m with symbols := symbols }, failure)

def unregister (m : Machine) (name : String) : Except Failure Machine := do
  return { m with symbols := ← m.symbols.unregister name }

def freeze (m : Machine) : Machine := { m with symbols := m.symbols.freeze }

def setVariable (m : Machine) (name : String) (value : Value) : Machine :=
  { m with globals := m.globals.set name value }

def getVariable? (m : Machine) (name : String) : Option Value :=
  (m.main.bindings.get? name).or (m.globals.get? name)

def newContext (m : Machine) : Machine × ContextRef :=
  (m.addContext (.above m.layer), .layered m.contexts.length)

def fork (m : Machine) (c : Context) : Machine × ContextRef :=
  (m.addContext c.fork, .layered m.contexts.length)

def read (m : Machine) (ref : ContextRef) (name : String) : Except Failure Value :=
  match m.lookup ref name with
  | some value => .ok value
  | none => .error (.noKey name)

def run (m : Machine) (host : Host) (place : Place) (source : List Char) : RunResult × Machine :=
  Engine.run host place (parse source) m

def dispatch (m : Machine) (host : Host) (path : String) (values : List Value)
    (ref : Option ContextRef) : Except Failure CallOutcome × Machine :=
  let shown (name : String) := ref.bind (m.lookup · name)
  (Engine.dispatch (Engine.surroundings host) path values shown).run m

def resolve (m : Machine) (path : String) (ref : Option ContextRef) :
    Except Failure (Builtin Value) :=
  m.symbols.resolve path fun name => ref.bind (m.lookup · name)

end Machine
end LineScript
