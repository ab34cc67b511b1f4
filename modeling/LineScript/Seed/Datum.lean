import LineScript.Seed.Date
import LineScript.Seed.FileSystem
import LineScript.Text.Utf8
import LineScript.Value.Render

/-! Data that seed files hold, and the variables that they come to. Variables are scalars, so a
file has to be a mapping of names to scalars. -/
namespace LineScript

inductive Datum where
  | nil
  | boolean (b : Bool)
  | integer (n : Int)
  | number (x : Number)
  | text (s : String)
  | date (d : Date)
  | timestamp (t : Timestamp)
  | list (items : List Datum)
  | mapping (entries : List (Datum × Datum))
  | other (typeName shown : String)

inductive JsonFault where
  | malformed (text : String) (offset line column : Nat)
  | tooDeep (container : String)
  | tooLong (digits : Nat)
  deriving DecidableEq, Repr

namespace JsonFault

def className : JsonFault → String
  | .malformed _ _ _ _ => "JSONDecodeError"
  | .tooDeep _ => "RecursionError"
  | .tooLong _ => "ValueError"

def message : JsonFault → String
  | .malformed text offset line column =>
    text ++ ": line " ++ toString line ++ " column " ++ toString column ++ " (char " ++
      toString offset ++ ")"
  | .tooDeep container =>
    "maximum recursion depth exceeded while decoding a JSON " ++ container ++ " from a unicode string"
  | .tooLong digits =>
    "Exceeds the limit (" ++ toString maxDigits ++ " digits) for integer string conversion: value has " ++
      toString digits ++ " digits; use sys.set_int_max_str_digits() to increase the limit"

end JsonFault

/-- What a reader of YAML says of a text, or fails with besides. `reported` tells that it is one of the
failures of values and of files. -/
inductive YamlFault where
  | malformed (text : String)
  | other (className message : String) (reported : Bool)
  deriving DecidableEq, Repr

inductive SeedFault where
  | unsupportedFormat (path : String)
  | file (fault : FileFault) (path : String)
  | zeroInPath
  | encoding (fault : Text.Utf8Fault)
  | json (fault : JsonFault)
  | yaml (fault : YamlFault) (path : String)
  | keyTooLong
  | notMapping
  | notScalar (name typeName : String)
  | integerTooLarge
  deriving DecidableEq, Repr

namespace SeedFault

def className : SeedFault → String
  | .file fault _ => fault.className
  | .encoding _ => "UnicodeDecodeError"
  | .json fault => fault.className
  | .yaml (.other className _ _) _ => className
  | .integerTooLarge => Failure.integerTooLarge.className
  | _ => "ValueError"

def message : SeedFault → String
  | .unsupportedFormat path => "unsupported seed file format: " ++ path
  | .file fault path => fault.message path
  | .zeroInPath => "embedded null byte"
  | .encoding fault => fault.message
  | .json fault => fault.message
  | .yaml (.malformed text) path => "invalid YAML in " ++ path ++ ": " ++ text
  | .yaml (.other _ message _) _ => message
  | .keyTooLong => Failure.integerTooLong.message
  | .notMapping => "seed data must be a mapping of variable names to values"
  | .notScalar name typeName =>
    "seed value '" ++ name ++ "' must be a scalar, got " ++ typeName
  | .integerTooLarge => Failure.integerTooLarge.message

def isReported : SeedFault → Bool
  | .integerTooLarge => false
  | .json (.tooDeep _) => false
  | .yaml (.other _ _ reported) _ => reported
  | _ => true

end SeedFault

namespace Datum

def asInteger? : Datum → Option Int
  | .boolean b => some (if b then 1 else 0)
  | .integer n => some n
  | .number x => x.toInt?
  | _ => none

def sameKey (a b : Datum) : Bool :=
  match a.asInteger?, b.asInteger? with
  | some n, some m => n == m
  | none, none =>
    match a, b with
    | .nil, .nil => true
    | .number x, .number y => x == y
    | .text s, .text t => s == t
    | .date d, .date e => d == e
    | .timestamp t, .timestamp u => t.same u
    | _, _ => false
  | _, _ => false

def keyText : Datum → Except SeedFault String
  | .nil => .ok "None"
  | .boolean b => .ok (Value.truthText b)
  | .integer n => if n.natAbs < Nat.pow 10 maxDigits then .ok (toString n) else .error .keyTooLong
  | .number x => .ok x.text
  | .text s => .ok s
  | .date d => .ok d.text
  | .timestamp t => .ok (t.textWith " ")
  | .list _ => .ok "list"
  | .mapping _ => .ok "dict"
  | .other _ shown => .ok shown

def insert (entries : List (Datum × Datum)) (key value : Datum) : List (Datum × Datum) :=
  match entries with
  | [] => [(key, value)]
  | entry :: rest =>
    if entry.1.sameKey key then (entry.1, value) :: rest else entry :: insert rest key value

def toValue (name : String) : Datum → Except SeedFault Value
  | .nil => .ok .nil
  | .boolean b => .ok (.boolean b)
  | .integer n =>
    match Number.ofInt? n with
    | some x => .ok (.number x)
    | none => .error .integerTooLarge
  | .number x => .ok (.number x)
  | .text s => .ok (.text s)
  | .date d => .ok (.text d.text)
  | .timestamp t => .ok (.text t.text)
  | .list _ => .error (.notScalar name "list")
  | .mapping _ => .error (.notScalar name "dict")
  | .other typeName _ => .error (.notScalar name typeName)

def variablesOf (sofar : Bindings Value) : List (Datum × Datum) → Except SeedFault (Bindings Value)
  | [] => .ok sofar
  | (key, datum) :: rest => do
    let name ← key.keyText
    let value ← datum.toValue name
    variablesOf (sofar.set name value) rest

def toVariables : Datum → Except SeedFault (Bindings Value)
  | .nil => .ok []
  | .mapping entries => variablesOf [] entries
  | _ => .error .notMapping

end Datum
end LineScript
