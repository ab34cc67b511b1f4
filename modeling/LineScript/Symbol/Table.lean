import LineScript.Call.Marshal
import LineScript.Symbol.Name

/-! The symbol table: functions and groups of functions that a host registers for scripts. Once it
is frozen it does not change any more. -/
namespace LineScript

inductive Entry where
  | builtin (function : Builtin Value)
  | group (members : Bindings (Builtin Value))

structure SymbolTable where
  entries : Bindings Entry
  frozen : Bool

/-- Exposed public methods by their script-side names. Methods are taken in the order
of their own names, and of two with one script-side name the later stays. -/
def exposedMethods (methods : List (Method Value)) : Bindings Value :=
  let named : Bindings (Method Value) := .ofList (methods.map fun m => (m.function.name, m))
  let exposed := named.sorted.filter fun (name, m) => m.exposed && name.toList.head? ≠ some '_'
  .ofList (exposed.map fun (name, m) => (Name.camelCase name, .function m.function))

def HostObject.api (o : HostObject Value) : Except HostFault (Bindings Value) :=
  o.members.map exposedMethods

def Builtin.wrap (name : String) (target : Value) : Except Failure (Builtin Value) :=
  match target with
  | .builtin b => .ok b
  | .function f => f.builtin name
  | v => .error (.notCallable v.typeName name)

namespace SymbolTable

def empty : SymbolTable := ⟨[], false⟩

def freeze (t : SymbolTable) : SymbolTable := { t with frozen := true }

def checkWritable (t : SymbolTable) (name : String) : Except Failure Unit :=
  if t.frozen then .error (.frozen name)
  else if Name.isSymbol name then .ok ()
  else .error (.invalidName name)

def wrapMembers (group : String) : Bindings Value → Except Failure (Bindings (Builtin Value))
  | [] => .ok []
  | (name, target) :: rest => do
    let first ← Builtin.wrap (group ++ "." ++ name) target
    let others ← wrapMembers group rest
    return (name, first) :: others

def registerGroup (t : SymbolTable) (name : String) (members : Bindings Value) :
    Except Failure SymbolTable := do
  t.checkWritable name
  let members ← wrapMembers name members
  return { t with entries := t.entries.set name (.group members) }

def register (t : SymbolTable) (name : String) (target : Value) : Except Failure SymbolTable := do
  t.checkWritable name
  match target.members? with
  | some members => t.registerGroup name members
  | none =>
    let function ← Builtin.wrap name target
    return { t with entries := t.entries.set name (.builtin function) }

def registerNamespace (t : SymbolTable) (name : String) (target : Value) :
    Except Failure SymbolTable := do
  t.checkWritable name
  match target.members? with
  | some members => t.registerGroup name members
  | none => .error (.notMapping target.typeName)

/-- Registers one after the other. The table that is left holds those before the first failure. -/
def registerAll (t : SymbolTable) : Bindings Value → SymbolTable × Option Failure
  | [] => (t, none)
  | (name, target) :: rest =>
    match t.register name target with
    | .ok t => t.registerAll rest
    | .error f => (t, some f)

def bindHost (t : SymbolTable) (o : HostObject Value) (name : Option String) :
    SymbolTable × Option Failure :=
  match o.api with
  | .error fault => (t, some (.raised fault))
  | .ok methods =>
    match name with
    | none => t.registerAll methods
    | some name =>
      match t.registerGroup name methods with
      | .ok t => (t, none)
      | .error f => (t, some f)

def unregister (t : SymbolTable) (name : String) : Except Failure SymbolTable := do
  t.checkWritable name
  return { t with entries := t.entries.erase name }

def standard : SymbolTable :=
  ⟨[("emit", .builtin (.ofRoutine "emit" (.standard .emit))),
    ("len", .builtin (.ofRoutine "len" (.standard .length))),
    ("time", .builtin (.ofRoutine "time" (.standard .clock)))], false⟩

end SymbolTable
end LineScript
