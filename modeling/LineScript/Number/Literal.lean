import LineScript.Number.Decimal
import LineScript.Text.Digit

/-! Number literals. A literal is an optional sign, digits with an optional point somewhere in or
beside them, and an optional exponent; or a name of an infinity or of the value that is not a
number, in letters of any case. -/
namespace LineScript.Number

structure Numeral where
  negative : Bool
  whole : List Nat
  fraction : List Nat
  exponent : Int
  deriving DecidableEq, Repr

def Numeral.decimal (n : Numeral) : Decimal :=
  ⟨Text.ofDigits (n.whole ++ n.fraction), n.exponent - n.fraction.length⟩

def Numeral.toNumber (n : Numeral) : Number := n.decimal.toNumber n.negative

def readDigits : List Char → List Nat × List Char
  | [] => ([], [])
  | c :: cs =>
    match Text.digitValue? c with
    | some d =>
      let more := readDigits cs
      (d :: more.1, more.2)
    | none => ([], c :: cs)

def readSign : List Char → Bool × List Char
  | '+' :: cs => (false, cs)
  | '-' :: cs => (true, cs)
  | cs => (false, cs)

def readExponent? : List Char → Option Int
  | [] => some 0
  | e :: cs =>
    if e = 'e' || e = 'E' then
      let (negative, cs) := readSign cs
      match readDigits cs with
      | (d :: ds, []) =>
        let size : Int := Text.ofDigits (d :: ds)
        some (if negative then -size else size)
      | _ => none
    else none

def readMantissa? (cs : List Char) : Option (List Nat × List Nat × List Char) :=
  match readDigits cs with
  | ([], '.' :: cs) =>
    match readDigits cs with
    | ([], _) => none
    | (fraction, cs) => some ([], fraction, cs)
  | ([], _) => none
  | (whole, '.' :: cs) => some (whole, readDigits cs)
  | (whole, cs) => some (whole, [], cs)

def readNumeral? (cs : List Char) : Option Numeral := do
  let (negative, cs) := readSign cs
  let (whole, fraction, cs) ← readMantissa? cs
  let exponent ← readExponent? cs
  some ⟨negative, whole, fraction, exponent⟩

def ofName? (name : String) : Option Number :=
  if name = "inf" || name = "+inf" || name = "infinity" || name = "+infinity" then
    some (.infinite false)
  else if name = "-inf" || name = "-infinity" then some (.infinite true)
  else if name = "nan" then some .nan
  else none

def ofChars? (cs : List Char) : Option Number :=
  match readNumeral? cs with
  | some numeral => some numeral.toNumber
  | none => ofName? (String.ofList (cs.map Char.toLower))

def ofText? (text : String) : Option Number := ofChars? text.toList

end LineScript.Number
