import LineScript.Number.Basic

/-! Sums and products of numbers, rounded once. Only what counting in another base needs: operands
are not negative. -/
namespace LineScript.Number

def ratio? : Number → Option Nat
  | .finite _ rank => some (units rank.val)
  | _ => none

def addMagnitudes (x y : Number) : Number :=
  match x.ratio?, y.ratio? with
  | some a, some b => ofRatio false (a + b) unitsInOne
  | _, _ => .infinite false

def mulMagnitudes (x y : Number) : Number :=
  match x.ratio?, y.ratio? with
  | some a, some b => ofRatio false (a * b) (unitsInOne * unitsInOne)
  | _, _ => .infinite false

end LineScript.Number
