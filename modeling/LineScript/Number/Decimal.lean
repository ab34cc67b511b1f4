import LineScript.Number.Basic

/-! Decimal numerals and their nearest numbers, and the shortest decimal that reads back as a
given number. -/
namespace LineScript

structure Decimal where
  coefficient : Nat
  exponent : Int
  deriving DecidableEq, Repr

namespace Decimal

def digitCount (n : Nat) : Nat := (Nat.toDigits 10 n).length

def ratio (d : Decimal) : Nat × Nat :=
  if d.exponent < 0 then (d.coefficient, Nat.pow 10 d.exponent.natAbs)
  else (d.coefficient * Nat.pow 10 d.exponent.natAbs, 1)

/-- Rank of the magnitude nearest to a decimal. A decimal of at least `10 ^ 309` is past every
finite rank and one below `10 ^ (-330)` is nearest to zero, so neither is expanded. -/
def rank (d : Decimal) : Nat :=
  if d.coefficient = 0 then 0
  else
    let size := digitCount d.coefficient + d.exponent
    if 310 < size then Number.finiteRanks
    else if size < -330 then 0
    else Number.rankOfRatio d.ratio.1 d.ratio.2

def toNumber (negative : Bool) (d : Decimal) : Number := Number.ofRank negative d.rank

def leadingExponent (rank : Nat) : Int :=
  (digitCount (Number.units rank * Nat.pow 10 400 / Number.unitsInOne) : Int) - 401

def neighbours (rank : Nat) (exponent : Int) : List Decimal :=
  let power := Nat.pow 10 exponent.natAbs
  let numerator := Number.units rank * (if exponent < 0 then power else 1)
  let denominator := Number.unitsInOne * (if exponent < 0 then 1 else power)
  let below : Decimal := ⟨numerator / denominator, exponent⟩
  let above : Decimal := ⟨numerator / denominator + 1, exponent⟩
  if Number.roundHalfEven numerator denominator = below.coefficient then [below, above]
  else [above, below]

def withDigits? (rank : Nat) (count : Nat) : Option Decimal :=
  (neighbours rank (leadingExponent rank + 1 - count)).find? (·.rank == rank)

def allDigits (rank : Nat) : Decimal := ⟨Number.units rank * Nat.pow 5 1074, -1074⟩

def shortest (rank : Nat) : Decimal :=
  ((List.range 17).findSome? fun i => withDigits? rank (i + 1)).getD (allDigits rank)

def scientific (d : Decimal) : List Char × Int :=
  let digits := Nat.toDigits 10 d.coefficient
  ((digits.reverse.dropWhile (· = '0')).reverse, digits.length + d.exponent - 1)

end Decimal
end LineScript
