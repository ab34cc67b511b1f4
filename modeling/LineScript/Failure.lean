import LineScript.Call.Kind
import LineScript.Text.Quoted

/-! Causes of failure. Each has a class and a message, which are what diagnostics show. What a host's
own code fails with is none of the engine's failures. -/
namespace LineScript

inductive PathFault where
  | malformed (path : String)
  | noSymbol (path : String)
  | noMethod (member : String)
  | notFunction (path : String)
  deriving DecidableEq, Repr

def PathFault.message : PathFault → String
  | .malformed path => "invalid builtin path: " ++ path
  | .noSymbol path => "symbol not found: " ++ path
  | .noMethod member => "method not found: " ++ member
  | .notFunction path => "not a function: " ++ path

inductive ArityFault where
  | missing (label : String) (names : List String)
  | missingKeywords (label : String) (names : List String)
  | surplus (label : String) (least most given : Nat)
  deriving DecidableEq, Repr

namespace ArityFault

def listing (names : List String) : String :=
  match names.map Text.quoted with
  | [] => ""
  | [a] => a
  | [a, b] => a ++ " and " ++ b
  | quoted => ", ".intercalate quoted.dropLast ++ ", and " ++ (quoted.getLast?.getD "")

def plural (count : Nat) : String := if count = 1 then "" else "s"

def message : ArityFault → String
  | .missing label names =>
    label ++ "() missing " ++ toString names.length ++ " required positional argument" ++
      plural names.length ++ ": " ++ listing names
  | .missingKeywords label names =>
    label ++ "() missing " ++ toString names.length ++ " required keyword-only argument" ++
      plural names.length ++ ": " ++ listing names
  | .surplus label least most given =>
    label ++ "() takes " ++
      (if least = most then toString most ++ " positional argument" ++ plural most
        else "from " ++ toString least ++ " to " ++ toString most ++ " positional arguments") ++
      " but " ++ toString given ++ (if given = 1 then " was" else " were") ++ " given"

end ArityFault

inductive Found where
  | nil
  | value (typeName rendering : String)
  deriving DecidableEq, Repr

def Found.text : Found → String
  | .nil => "nil"
  | .value typeName rendering => typeName ++ " " ++ Text.quoted rendering

/-- `mismatch` tells that the class is one of those that say that a call does not fit. -/
structure HostFault where
  className : String
  text : String
  mismatch : Bool
  deriving DecidableEq, Inhabited, Repr

inductive Failure where
  | unresolvedName (text : String)
  | path (fault : PathFault)
  | argument (parameter : String) (expected : Kind) (found : Found)
  | arity (fault : ArityFault)
  | integerTooLarge
  | integerTooLong
  | unhashable (typeName : String)
  | frozen (name : String)
  | invalidName (name : String)
  | notCallable (typeName name : String)
  | notMapping (typeName : String)
  | noKey (key : String)
  | raised (fault : HostFault)
  deriving DecidableEq, Repr

/-- Integers with more digits are not written out in decimal, nor read from it. -/
def maxDigits : Nat := 4300

namespace Failure

def className : Failure → String
  | .unresolvedName _ => "EvalError"
  | .path _ => "PathNotFound"
  | .argument _ _ _ => "ArgumentTypeError"
  | .arity _ => "TypeError"
  | .integerTooLarge => "OverflowError"
  | .integerTooLong => "ValueError"
  | .unhashable _ => "TypeError"
  | .frozen _ => "RuntimeError"
  | .invalidName _ => "ValueError"
  | .notCallable _ _ => "TypeError"
  | .notMapping _ => "AttributeError"
  | .noKey _ => "KeyError"
  | .raised fault => fault.className

def message : Failure → String
  | .unresolvedName text => "unresolved name: " ++ text
  | .path fault => fault.message
  | .argument parameter expected found =>
    "parameter '" ++ parameter ++ "' expects " ++ expected.name ++ ", got " ++ found.text
  | .arity fault => fault.message
  | .integerTooLarge => "int too large to convert to float"
  | .integerTooLong =>
    "Exceeds the limit (" ++ toString maxDigits ++ " digits) for integer string conversion; " ++
      "use sys.set_int_max_str_digits() to increase the limit"
  | .unhashable typeName => "unhashable type: '" ++ typeName ++ "'"
  | .frozen name => "symbol table is frozen; cannot register '" ++ name ++ "'"
  | .invalidName name => "invalid symbol name: " ++ Text.quoted name
  | .notCallable typeName name =>
    "cannot register non-callable " ++ typeName ++ " as '" ++ name ++ "'"
  | .notMapping typeName => "'" ++ typeName ++ "' object has no attribute 'items'"
  | .noKey key => "'" ++ key ++ "'"
  | .raised fault => fault.text

def isEngine : Failure → Bool
  | .unresolvedName _ => true
  | .path _ => true
  | _ => false

def isTypeMismatch : Failure → Bool
  | .argument _ _ _ => true
  | .arity _ => true
  | .unhashable _ => true
  | .notCallable _ _ => true
  | .raised fault => fault.mismatch
  | _ => false

end Failure
end LineScript
