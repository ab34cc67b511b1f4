import LineScript.Call.Annotation
import LineScript.Failure

/-! Parameters of native functions: as the function declares them, and as calls from scripts see
them. `V` is the type of values. -/
namespace LineScript

structure ParamSpec where
  name : String
  kind : Kind
  required : Bool
  nullable : Bool
  deriving DecidableEq, Repr

structure Parameter (V : Type) where
  name : String
  declared : Annotation
  fallback : Option V
  deriving Inhabited

/-- Declared parameters of a function, with the name that its complaints begin with. `receivers`
counts the arguments that a call supplies by itself, such as the object of a method. -/
structure Signature (V : Type) where
  label : String
  parameters : List (Parameter V)
  variadic : Option (Parameter V)
  keywordOnly : List (Parameter V)
  receivers : Nat
  deriving Inhabited

structure Descriptor where
  parameters : List ParamSpec
  variadic : Option ParamSpec
  deriving DecidableEq, Inhabited, Repr

namespace Descriptor

def minArity (d : Descriptor) : Nat := (d.parameters.filter (·.required)).length

def unknown : Descriptor := ⟨[], some ⟨"args", .any, false, true⟩⟩

def maxArity (d : Descriptor) : Option Nat :=
  match d.variadic with
  | some _ => none
  | none => some d.parameters.length

end Descriptor

namespace Signature

variable {V : Type}

def allParameters (s : Signature V) : List (Parameter V) :=
  s.parameters ++ s.variadic.toList ++ s.keywordOnly

def unhashable? (s : Signature V) : Option String := s.allParameters.findSome? (·.declared.unhashable?)

def meaning (s : Signature V) (p : Parameter V) : Kind × Bool :=
  if s.allParameters.all (·.declared.isReadable) then p.declared.resolved
  else p.declared.unresolved

def describe (isNil : V → Bool) (s : Signature V) : Descriptor where
  parameters := s.parameters.map fun p =>
    let (kind, nullable) := s.meaning p
    ⟨p.name, kind, p.fallback.isNone, nullable || (p.fallback.map isNil).getD false⟩
  variadic := s.variadic.map fun p =>
    let (kind, nullable) := s.meaning p
    ⟨p.name, kind, false, nullable⟩

/-- Arguments as the function's body sees them: one for each declared parameter, defaults filled
in, then the surplus ones if the function takes them. -/
def bind (s : Signature V) (arguments : List V) : Except ArityFault (List V) :=
  let most := s.parameters.length
  let required := (s.parameters.filter (·.fallback.isNone)).length
  if most < arguments.length && s.variadic.isNone then
    .error (.surplus s.label (required + s.receivers) (most + s.receivers)
      (arguments.length + s.receivers))
  else
    let missing := (s.parameters.drop arguments.length).filter (·.fallback.isNone)
    let unnamed := s.keywordOnly.filter (·.fallback.isNone)
    if !missing.isEmpty then .error (.missing s.label (missing.map (·.name)))
    else if !unnamed.isEmpty then .error (.missingKeywords s.label (unnamed.map (·.name)))
    else .ok (arguments ++ (s.parameters.drop arguments.length).filterMap (·.fallback))

end Signature
end LineScript
