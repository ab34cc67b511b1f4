import LineScript.Engine.Session

/-! A session: the operations that a host asks of an engine between runs, the runs among them, one
after the other. -/
namespace LineScript

inductive Operation where
  | register (name : String) (target : Value)
  | registerNamespace (name : String) (target : Value)
  | bindHost (object : HostObject Value) (name : Option String)
  | unregister (name : String)
  | freeze
  | setVariable (name : String) (value : Value)
  | write (context : ContextRef) (name : String) (value : Value)
  | newContext
  | fork (context : ContextRef)
  | run (host : Host) (place : Place) (program : Program)

namespace Machine

def orKept (m : Machine) : Except Failure Machine → Machine × Option Failure
  | .ok n => (n, none)
  | .error f => (m, some f)

def operate (m : Machine) : Operation → Machine × Option Failure
  | .register name target => m.orKept (m.register name target)
  | .registerNamespace name target => m.orKept (m.registerNamespace name target)
  | .bindHost object name => m.bindHost object name
  | .unregister name => m.orKept (m.unregister name)
  | .freeze => (m.freeze, none)
  | .setVariable name value => (m.setVariable name value, none)
  | .write context name value => (m.assign context name value, none)
  | .newContext => (m.newContext.1, none)
  | .fork context =>
    match m.context? context with
    | some c => ((m.fork c).1, none)
    | none => (m, none)
  | .run host place program => ((Engine.run host place program m).2, none)

def session (m : Machine) : List Operation → Machine
  | [] => m
  | operation :: rest => (m.operate operation).1.session rest

theorem sessionAppend (m : Machine) (xs ys : List Operation) :
    m.session (xs ++ ys) = (m.session xs).session ys := by
  induction xs generalizing m with
  | nil => rfl
  | cons operation rest ih => exact ih (m.operate operation).1

end Machine
end LineScript
