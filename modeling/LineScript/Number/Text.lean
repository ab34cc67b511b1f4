import LineScript.Number.Decimal

/-! Text of a number that reads back as the same number, with a point or an exponent in every
finite one. -/
namespace LineScript.Number

def exponentText (digits : List Char) (exponent : Int) : List Char :=
  let size := Nat.toDigits 10 exponent.natAbs
  let fraction := if digits.length ≤ 1 then [] else '.' :: digits.drop 1
  digits.take 1 ++ fraction ++ ['e', if exponent < 0 then '-' else '+'] ++
    (if size.length < 2 then '0' :: size else size)

def pointText (digits : List Char) (exponent : Int) : List Char :=
  if exponent < 0 then
    '0' :: '.' :: (List.replicate (exponent.natAbs - 1) '0' ++ digits)
  else
    let whole := exponent.natAbs + 1
    let fraction := digits.drop whole
    digits.take whole ++ List.replicate (whole - digits.length) '0' ++
      '.' :: (if fraction.isEmpty then ['0'] else fraction)

def magnitudeText (rank : Nat) : List Char :=
  if rank = 0 then ['0', '.', '0']
  else
    let (digits, exponent) := (Decimal.shortest rank).scientific
    if -4 ≤ exponent && exponent < 16 then pointText digits exponent
    else exponentText digits exponent

def text : Number → String
  | .nan => "nan"
  | .infinite negative => if negative then "-inf" else "inf"
  | .finite negative rank =>
    String.ofList ((if negative then ['-'] else []) ++ magnitudeText rank.val)

end LineScript.Number
