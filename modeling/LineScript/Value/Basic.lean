import LineScript.Bindings
import LineScript.Call.Signature
import LineScript.Number.Basic

/-! Values. Scripts make nil, booleans, numbers and texts; a host may hand them integers, native
functions, groups of functions, objects with methods, and things that they can only pass on. -/
namespace LineScript

structure Appearance where
  typeName : String
  text : Except HostFault String
  inspection : Except HostFault String
  deriving Inhabited

def Appearance.plain (typeName text : String) : Appearance := ⟨typeName, .ok text, .ok text⟩

/-- A native function. What a call of it does is the host's affair and known by its `id`. A call goes by
the signature, which others cannot read if it is `hidden`. -/
structure HostFunction (V : Type) where
  id : Nat
  name : String
  signature : Signature V
  hidden : Bool
  appearance : Appearance
  deriving Inhabited

def HostFunction.plain {V : Type} (id : Nat) (name : String) (signature : Signature V) : HostFunction V :=
  let typeName := if signature.receivers = 0 then "function" else "method"
  ⟨id, name, signature, false, .plain typeName ("<function " ++ name ++ ">")⟩

structure Method (V : Type) where
  function : HostFunction V
  exposed : Bool
  deriving Inhabited

/-- Reading the members of an object runs code of the host, which may fail. -/
structure HostObject (V : Type) where
  className : String
  members : Except HostFault (List (Method V))
  inspection : Except HostFault String
  deriving Inhabited

inductive Standard where
  | emit
  | length
  | clock
  deriving DecidableEq, Repr

inductive Routine (V : Type) where
  | host (function : HostFunction V)
  | standard (function : Standard)
  deriving Inhabited

structure Builtin (V : Type) where
  name : String
  routine : Routine V
  descriptor : Descriptor
  deriving Inhabited

inductive Value where
  | nil
  | boolean (b : Bool)
  | number (x : Number)
  | integer (n : Int)
  | text (s : String)
  | function (f : HostFunction Value)
  | builtin (b : Builtin Value)
  | group (name : String) (members : List (String × Value))
  | mapping (members : List (String × Value))
  | object (o : HostObject Value)
  | foreign (appearance : Appearance)

instance : Inhabited Value := ⟨.nil⟩

namespace Value

def isNil : Value → Bool
  | .nil => true
  | _ => false

def typeName : Value → String
  | .nil => "NoneType"
  | .boolean _ => "bool"
  | .number _ => "float"
  | .integer _ => "int"
  | .text _ => "str"
  | .function f => f.appearance.typeName
  | .builtin _ => "Builtin"
  | .group _ _ => "Namespace"
  | .mapping _ => "dict"
  | .object o => o.className
  | .foreign appearance => appearance.typeName

def members? : Value → Option (Bindings Value)
  | .group _ members => some members
  | .mapping members => some members
  | _ => none

end Value

namespace Standard

def parameter (name : String) (declared : Annotation) : Parameter Value :=
  ⟨name, declared, none⟩

def signature : Standard → Signature Value
  | .emit =>
    ⟨"StdLib._emit", [parameter "topic" (.scalar .any)],
      some (parameter "message_parts" (.scalar .any)), [], 1⟩
  | .length => ⟨"StdLib._len", [parameter "value" (.scalar .str)], none, [], 1⟩
  | .clock => ⟨"StdLib._time", [], none, [], 1⟩

end Standard

def Routine.signature : Routine Value → Signature Value
  | .host function => function.signature
  | .standard function => function.signature

namespace HostFunction

def describe (f : HostFunction Value) : Except Failure Descriptor :=
  if f.hidden then .ok .unknown
  else
    match f.signature.unhashable? with
    | some typeName => .error (.unhashable typeName)
    | none => .ok (f.signature.describe Value.isNil)

def builtin (name : String) (f : HostFunction Value) : Except Failure (Builtin Value) := do
  return ⟨name, .host f, ← f.describe⟩

end HostFunction

def Builtin.ofRoutine (name : String) (routine : Routine Value) : Builtin Value :=
  ⟨name, routine, routine.signature.describe Value.isNil⟩

end LineScript
