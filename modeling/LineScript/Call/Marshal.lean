import LineScript.Call.Coerce

/-! Arguments of a call from a script, made ready for the native function. -/
namespace LineScript

structure Marshalled where
  arguments : List Value
  warning : Option String

namespace Builtin

def minArity (b : Builtin Value) : Nat := b.descriptor.minArity

def maxArity (b : Builtin Value) : Option Nat := b.descriptor.maxArity

def expectedArity (b : Builtin Value) : String :=
  match b.maxArity with
  | none => "at least " ++ toString b.minArity
  | some most =>
    if b.minArity = most then toString most
    else toString b.minArity ++ " to " ++ toString most

def fitsArity (b : Builtin Value) (count : Nat) : Bool :=
  b.minArity ≤ count &&
    match b.maxArity with
    | none => true
    | some most => count ≤ most

def arityWarning (b : Builtin Value) (count : Nat) : Option String :=
  if b.fitsArity count then none
  else some ("argument mismatch for " ++ b.name ++ ": expected " ++ b.expectedArity ++ ", got " ++
    toString count)

/-- Converts each value for its own parameter, and those past the last parameter for the variadic
one; without a variadic parameter they are dropped. -/
def coerceAll (variadic : Option ParamSpec) : List ParamSpec → List Value → Except Failure (List Value)
  | _, [] => .ok []
  | spec :: specs, v :: values => do
    let first ← v.coerce spec
    let others ← coerceAll variadic specs values
    return first :: others
  | [], v :: values =>
    match variadic with
    | none => .ok []
    | some spec => do
      let first ← v.coerce spec
      let others ← coerceAll variadic [] values
      return first :: others

def marshal (b : Builtin Value) (values : List Value) : Except Failure Marshalled := do
  let arguments ← coerceAll b.descriptor.variadic b.descriptor.parameters values
  return ⟨arguments, b.arityWarning values.length⟩

end Builtin
end LineScript
