import LineScript.Seed.Yaml.Token

/-! Where the reading of a text stands: the characters that are left and their place, the blocks
that are open, and the tokens so far. A scalar or a collection may turn out to be a key only when
the colon behind it is met, so its place among the tokens is remembered until then. -/
namespace LineScript.Yaml

structure PossibleKey where
  place : Nat
  required : Bool
  index : Nat
  line : Nat
  column : Nat
  deriving DecidableEq, Repr

structure Scanner where
  rest : List Char
  index : Nat
  line : Nat
  column : Nat
  flow : Nat
  indent : Int
  indents : List Int
  keyAllowed : Bool
  keys : List (Nat × PossibleKey)
  tokens : List Token

namespace Scanner

def start (text : List Char) : Scanner := ⟨text, 0, 0, 0, 0, -1, [], true, [], []⟩

def peek (s : Scanner) (n : Nat) : Char := s.rest.getD n '\x00'

def step (s : Scanner) : Scanner :=
  match s.rest with
  | [] => s
  | c :: rest =>
    let s := { s with rest := rest, index := s.index + 1 }
    if isBreak c && !(c = '\r' && rest.head? = some '\n') then
      { s with line := s.line + 1, column := 0 }
    else if c = '\ufeff' then s
    else { s with column := s.column + 1 }

def forward (s : Scanner) : Nat → Scanner
  | 0 => s
  | n + 1 => s.step.forward n

def skipWhile (s : Scanner) (p : Char → Bool) : Scanner := s.forward (s.rest.takeWhile p).length

/-- The break at hand and what is behind it. All but two kinds count as a plain line break. -/
def takeBreak? (s : Scanner) : Option (Char × Scanner) :=
  let c := s.peek 0
  if c = '\r' && s.peek 1 = '\n' then some ('\n', s.forward 2)
  else if c = '\u2028' || c = '\u2029' then some (c, s.step)
  else if isBreak c then some ('\n', s.step)
  else none

def atSeparator (s : Scanner) : Bool :=
  (s.rest.take 3 = ['-', '-', '-'] || s.rest.take 3 = ['.', '.', '.']) && isSpaceOrEnd (s.peek 3)

def push (s : Scanner) (t : Token) : Scanner := { s with tokens := s.tokens ++ [t] }

def insertAt (s : Scanner) (place : Nat) (t : Token) : Scanner :=
  { s with tokens := s.tokens.take place ++ t :: s.tokens.drop place }

/-! ### Blocks -/

def unwindFrom (column : Int) : List Int → Scanner → Scanner
  | [], s => s
  | outer :: indents, s =>
    if column < s.indent then
      unwindFrom column indents { s.push .blockEnd with indent := outer, indents := indents }
    else s

def unwind (s : Scanner) (column : Int) : Scanner :=
  if s.flow = 0 then unwindFrom column s.indents s else s

def openBlock (s : Scanner) (column place : Nat) (t : Token) : Scanner :=
  if s.indent < column then
    { s.insertAt place t with indent := column, indents := s.indent :: s.indents }
  else s

/-! ### Keys -/

def possibleKey? (s : Scanner) : Option PossibleKey := s.keys.lookup s.flow

def forgetKey (s : Scanner) : Scanner := { s with keys := s.keys.filter (·.1 ≠ s.flow) }

def removeKey? (s : Scanner) : Option Scanner :=
  match s.possibleKey? with
  | some key => if key.required then none else some s.forgetKey
  | none => some s

def saveKey? (s : Scanner) : Option Scanner :=
  if s.keyAllowed then do
    let required := s.flow = 0 && s.indent = s.column
    let s ← s.removeKey?
    some { s with
      keys := (s.flow, ⟨s.tokens.length, required, s.index, s.line, s.column⟩) :: s.keys }
  else some s

def isStale (s : Scanner) (key : PossibleKey) : Bool :=
  key.line ≠ s.line || 1024 < s.index - key.index

def dropStaleKeys? (s : Scanner) : Option Scanner :=
  if s.keys.any fun (_, key) => s.isStale key && key.required then none
  else some { s with keys := s.keys.filter fun (_, key) => !s.isStale key }

/-! ### Between tokens -/

def toNextToken : Nat → Scanner → Scanner
  | 0, s => s
  | lines + 1, s =>
    let s := s.skipWhile (· = ' ')
    let s := if s.peek 0 = '#' then s.skipWhile (!isLineEnd ·) else s
    match s.takeBreak? with
    | some (_, s) => toNextToken lines (if s.flow = 0 then { s with keyAllowed := true } else s)
    | none => s

def skipMark (s : Scanner) : Scanner :=
  if s.index = 0 && s.peek 0 = '\ufeff' then s.step else s

end Scanner
end LineScript.Yaml
