/-! Numbers of the language: the values of the 64 bit binary floating-point format, held exactly.
A finite number is a sign and a rank, its place in the increasing list of all magnitudes that the
format has. The order of ranks is the order of magnitudes, and no operation here is approximate
but for the one rounding it states. -/
namespace LineScript

def Number.binade : Nat := Nat.pow 2 52

def Number.finiteRanks : Nat := 2047 * Number.binade

inductive Number where
  | nan
  | infinite (negative : Bool)
  | finite (negative : Bool) (rank : Fin Number.finiteRanks)
  deriving DecidableEq, Repr

namespace Number

/-- How many units make one. The unit is the least positive number, `2 ^ (-1074)`. -/
def unitsInOne : Nat := Nat.pow 2 1074

def units (rank : Nat) : Nat :=
  if rank < binade then rank
  else (rank % binade + binade) * Nat.pow 2 (rank / binade - 1)

def roundHalfEven (numerator denominator : Nat) : Nat :=
  let quotient := numerator / denominator
  let remainder := numerator % denominator
  if 2 * remainder < denominator then quotient
  else if denominator < 2 * remainder then quotient + 1
  else quotient + quotient % 2

/-- Rank of the magnitude nearest to a ratio, a half going to the even rank. A ratio too large for
every finite magnitude gets a rank of `finiteRanks` or more. -/
def rankOfRatio (numerator denominator : Nat) : Nat :=
  let scaled := numerator * unitsInOne
  let excess := (scaled / denominator).log2 - 52
  roundHalfEven scaled (denominator * Nat.pow 2 excess) + excess * binade

def ofRank (negative : Bool) (rank : Nat) : Number :=
  if h : rank < finiteRanks then .finite negative ⟨rank, h⟩ else .infinite negative

def ofRatio (negative : Bool) (numerator denominator : Nat) : Number :=
  ofRank negative (rankOfRatio numerator denominator)

def zero : Number := .finite false ⟨0, by decide⟩

def ofNat (n : Nat) : Number := ofRatio false n 1

def unlessInfinite : Number → Option Number
  | .infinite _ => none
  | x => some x

def ofInt? (n : Int) : Option Number := (ofRatio (n < 0) n.natAbs 1).unlessInfinite

def toInt? : Number → Option Int
  | .finite negative rank =>
    let size := units rank.val
    if size % unitsInOne = 0 then
      let n : Int := (size / unitsInOne : Nat)
      some (if negative then -n else n)
    else none
  | _ => none

def place? : Number → Option Int
  | .nan => none
  | .infinite negative => some (if negative then -finiteRanks else finiteRanks)
  | .finite negative rank => some (if negative then -rank.val else rank.val)

def eq (x y : Number) : Bool :=
  match x.place?, y.place? with
  | some a, some b => a == b
  | _, _ => false

def lt (x y : Number) : Bool :=
  match x.place?, y.place? with
  | some a, some b => a < b
  | _, _ => false

def le (x y : Number) : Bool :=
  match x.place?, y.place? with
  | some a, some b => a ≤ b
  | _, _ => false

def isZero (x : Number) : Bool := x.place? == some 0

def neg : Number → Number
  | .nan => .nan
  | .infinite negative => .infinite !negative
  | .finite negative rank => .finite (!negative) rank

end Number
end LineScript
