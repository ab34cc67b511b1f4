import LineScript.Script.Line
import LineScript.Value.Compare

/-! Evaluation of expressions and conditions against what a context shows. -/
namespace LineScript

structure Scope where
  lookup : String → Option Value
  strict : Bool

namespace Expr

def base (e : Expr) : Nat := (e.tokens.head?.map (·.offset)).getD 0

def part (e : Expr) (tokens : List Token) : Expr :=
  match tokens.head?, tokens.getLast? with
  | some first, some last =>
    ⟨tokens, String.ofList
      ((e.text.toList.drop (first.offset - e.base)).take (last.stop - first.offset)), e.line⟩
  | _, _ => ⟨[], "", e.line⟩

def literal? (e : Expr) : Option String :=
  match e.tokens with
  | [⟨.literal content, _⟩] => some content
  | _ => none

def isSum (e : Expr) : Bool := e.tokens.any (·.isOp .plus)

def operands (e : Expr) : List Expr :=
  (dropEmptyLast (splitWhere (·.isOp .plus) e.tokens)).map e.part

/-- Value of an expression without a plus sign: nothing is nil, then a literal, a bound name, a
number, and at last the text itself, which is an error in a strict scope. -/
def evalOperand (scope : Scope) (e : Expr) : Except Failure Value :=
  if e.tokens.isEmpty then .ok .nil
  else
    match e.literal? with
    | some content => .ok (.text content)
    | none =>
      match scope.lookup e.text with
      | some value => .ok value
      | none =>
        match Number.ofText? e.text with
        | some x => .ok (.number x)
        | none => if scope.strict then .error (.unresolvedName e.text) else .ok (.text e.text)

def renderAll (scope : Scope) : List Expr → Except Failure String
  | [] => .ok ""
  | e :: rest => do
    let first ← (← e.evalOperand scope).render
    let others ← renderAll scope rest
    return first ++ others

/-- A sum whose whole text is a bound name is that name's value, else the concatenation of its
operands. -/
def eval (scope : Scope) (e : Expr) : Except Failure Value :=
  if e.isSum then
    match scope.lookup e.text with
    | some value => .ok value
    | none => return .text (← renderAll scope e.operands)
  else e.evalOperand scope

def inspect (e : Expr) : String := "Expr(" ++ Text.quoted e.text ++ ")"

def comparison? (e : Expr) : Option Comparison :=
  Comparison.all.find? fun c => e.tokens.any (·.isOp c.operator)

end Expr

structure Verdict where
  holds : Bool
  compared : Option (Value × Comparison × Value)

def Expr.evalCondition (scope : Scope) (e : Expr) : Except Failure Verdict :=
  match e.comparison? with
  | none => return ⟨(← e.eval scope).truthy, none⟩
  | some c => do
    let outside (t : Token) : Bool := !t.isOp c.operator
    let left ← (e.part (e.tokens.takeWhile outside)).eval scope
    let right ← (e.part ((e.tokens.dropWhile outside).drop 1)).eval scope
    return ⟨← left.compare right (some c), some (left, c, right)⟩

end LineScript
