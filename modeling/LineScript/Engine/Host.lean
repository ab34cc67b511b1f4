import LineScript.Engine.Effect

/-! What a host does when one of its functions is called. A call may act on the engine before it
returns, and goes on according to what came of each act. -/
namespace LineScript

inductive ContextRef where
  | main
  | layered (index : Nat)
  deriving DecidableEq, Repr

inductive Place where
  | session
  | fresh
  | within (context : ContextRef)
  deriving DecidableEq, Repr

/-- What a function of the host fails with. `speechless` is what asking the failure for its text fails
with, if it does. -/
structure Thrown where
  failure : Failure
  speechless : Option HostFault

inductive HostProgram where
  | finish (outcome : Except Thrown Value)
  | emit (effect : Effect) (next : Option Failure → HostProgram)
  | setVariable (name : String) (value : Value) (next : HostProgram)
  | register (name : String) (target : Value) (next : Option Failure → HostProgram)
  | run (source : String) (place : Place) (next : RunResult → HostProgram)

namespace HostProgram

def pure (value : Value) : HostProgram := .finish (.ok value)

def raise (f : Failure) : HostProgram := .finish (.error ⟨f, none⟩)

def orRaise (next : HostProgram) : Option Failure → HostProgram
  | none => next
  | some f => raise f

end HostProgram

inductive HostRecord where
  | call (label : String) (arguments : List Value)
  | nested (result : RunResult)

/-- A host: what its clock shows, and what a call of each function with given arguments does, after all
that the host has seen, this call included. Runs nest `room` deep; one more fails with `overflow`. -/
structure Host where
  clock : List HostRecord → Number
  behaviour : List HostRecord → Nat → List Value → HostProgram
  room : Nat
  overflow : HostFault

end LineScript
