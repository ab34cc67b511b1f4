import LineScript.Number.Literal
import LineScript.Script.Token
import LineScript.Value.Render

/-! Numeric view, truth and comparison of values. -/
namespace LineScript

inductive Comparison where
  | atLeast
  | atMost
  | equal
  | notEqual
  | greater
  | less
  deriving DecidableEq, Repr

namespace Comparison

def all : List Comparison := [.atLeast, .atMost, .equal, .notEqual, .greater, .less]

def operator : Comparison → Operator
  | .atLeast => .atLeast
  | .atMost => .atMost
  | .equal => .equal
  | .notEqual => .notEqual
  | .greater => .greater
  | .less => .less

def ofText? (text : String) : Option Comparison := all.find? (·.operator.text == text)

def holds (c : Comparison) (x y : Number) : Bool :=
  match c with
  | .atLeast => y.le x
  | .atMost => x.le y
  | .equal => x.eq y
  | .notEqual => !x.eq y
  | .greater => y.lt x
  | .less => x.lt y

end Comparison

namespace Value

def toNumber? : Value → Except Failure (Option Number)
  | .number x => .ok (some x)
  | .integer n => ofNearest some (Number.ofInt? n)
  | .text s => .ok (Number.ofText? s)
  | _ => .ok none

def truthy : Value → Bool
  | .boolean b => b
  | .number x => !x.isZero
  | .integer n => n ≠ 0
  | .text s => s ≠ ""
  | _ => false

/-- Two values with numeric views compare as numbers; others can only be equal or not, by their
renderings. No comparison at all never holds. -/
def compare (a b : Value) (comparison : Option Comparison) : Except Failure Bool := do
  let x? ← a.toNumber?
  let y? ← b.toNumber?
  match comparison with
  | none => return false
  | some c =>
    match x?, y? with
    | some x, some y => return c.holds x y
    | _, _ =>
      match c with
      | .equal => return (← a.render) == (← b.render)
      | .notEqual => return (← a.render) != (← b.render)
      | _ => return false

end Value
end LineScript
