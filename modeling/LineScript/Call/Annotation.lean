import LineScript.Call.TypeText
import LineScript.Text.Space

/-! Declared types of parameters. A declaration comes down to a kind of value, to which arguments
are converted, and to whether nil may stand in for it. -/
namespace LineScript

/-- `quoted` is a type written as a text, whose meaning is looked up late; `unhashable` is a value that
is no type and cannot be looked up at all. -/
inductive Annotation where
  | scalar (kind : Kind)
  | nil
  | union (members : List Annotation)
  | quoted (text : String)
  | unhashable (typeName : String)
  deriving Inhabited, Repr

namespace Annotation

def optional (a : Annotation) : Annotation := .union [a, .nil]

mutual

def alternatives? : Annotation → Option (List SimpleType)
  | .scalar kind => some [.scalar kind]
  | .nil => some [.nil]
  | .union members => allAlternatives? members
  | .quoted text => TypeText.read? text
  | .unhashable _ => some [.scalar .any]

def allAlternatives? : List Annotation → Option (List SimpleType)
  | [] => some []
  | a :: rest => do
    let first ← alternatives? a
    let others ← allAlternatives? rest
    some (first ++ others)

end

mutual

def literalAlternatives : Annotation → List SimpleType
  | .scalar kind => [.scalar kind]
  | .nil => [.nil]
  | .union members => allLiteralAlternatives members
  | .quoted _ => [.scalar .any]
  | .unhashable _ => [.scalar .any]

def allLiteralAlternatives : List Annotation → List SimpleType
  | [] => []
  | a :: rest => literalAlternatives a ++ allLiteralAlternatives rest

end

def classify (types : List SimpleType) : Kind × Bool :=
  match types.eraseDups.filter (· ≠ .nil) with
  | [.scalar kind] => (kind, types.contains .nil || kind = .any)
  | _ => (.any, true)

def unhashable? : Annotation → Option String
  | .unhashable typeName => some typeName
  | _ => none

def isReadable (a : Annotation) : Bool := a.alternatives?.isSome

def resolved (a : Annotation) : Kind × Bool := classify (a.alternatives?.getD [.scalar .any])

def unresolved : Annotation → Kind × Bool
  | .quoted text =>
    match Kind.ofName? (String.ofList (Text.trim text.toList)) with
    | some kind => (kind, false)
    | none => (.any, true)
  | a => classify (literalAlternatives a)

end Annotation
end LineScript
