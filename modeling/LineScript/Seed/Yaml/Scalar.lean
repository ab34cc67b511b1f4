import LineScript.Number.Arithmetic
import LineScript.Seed.Json
import LineScript.Text.Split

/-! Meaning of plain scalars: the words of truth and nothing, integers in several bases, numbers,
dates and times. Every other plain scalar is a text. -/
namespace LineScript.Yaml

inductive ScalarFault where
  | noMeaning
  | date (fault : DateFault)
  | digits (base : Nat)
  deriving DecidableEq, Repr

def isUnderscored (p : Char → Bool) (c : Char) : Bool := c = '_' || p c

def splitSign : List Char → Bool × List Char
  | '-' :: cs => (true, cs)
  | '+' :: cs => (false, cs)
  | cs => (false, cs)

def withoutUnderscores (cs : List Char) : List Char := cs.filter (· ≠ '_')

def digitsIn (base : Nat) (cs : List Char) : Nat :=
  cs.foldl (fun n c => n * base + (Json.hexValue? c).getD 0) 0

def integerIn (base : Nat) (negative : Bool) (cs : List Char) : Except ScalarFault Datum :=
  match withoutUnderscores cs with
  | [] => .error (.digits base)
  | digits =>
    let size : Int := digitsIn base digits
    .ok (.integer (if negative then -size else size))

def isSixtieth : List Char → Bool
  | [a] => a.isDigit
  | [a, b] => '0' ≤ a && a ≤ '5' && b.isDigit
  | _ => false

def isPositiveDecimal : List Char → Bool
  | c :: cs => '1' ≤ c && c ≤ '9' && cs.all (isUnderscored Char.isDigit)
  | [] => false

def isDecimal : List Char → Bool
  | c :: cs => c.isDigit && cs.all (isUnderscored Char.isDigit)
  | [] => false

def integer? (cs : List Char) : Option (Except ScalarFault Datum) :=
  let (negative, body) := splitSign cs
  match body with
  | ['0'] => some (.ok (.integer 0))
  | '0' :: 'b' :: c :: digits =>
    if (c :: digits).all (isUnderscored fun c => c = '0' || c = '1') then
      some (integerIn 2 negative (c :: digits))
    else none
  | '0' :: 'x' :: c :: digits =>
    if (c :: digits).all (isUnderscored fun c => (Json.hexValue? c).isSome) then
      some (integerIn 16 negative (c :: digits))
    else none
  | '0' :: digits =>
    if digits.all (isUnderscored fun c => '0' ≤ c && c ≤ '7') then
      some (integerIn 8 negative ('0' :: digits))
    else none
  | _ =>
    match splitWhere (· = ':') body with
    | [whole] => if isPositiveDecimal whole then some (integerIn 10 negative whole) else none
    | whole :: parts =>
      if isPositiveDecimal whole && parts.all isSixtieth then
        let first := digitsIn 10 (withoutUnderscores whole)
        let size : Int := parts.foldl (fun n part => n * 60 + digitsIn 10 part) first
        some (.ok (.integer (if negative then -size else size)))
      else none
    | [] => none

def isExponent : List Char → Bool
  | [] => true
  | e :: sign :: c :: digits =>
    (e = 'e' || e = 'E') && (sign = '+' || sign = '-') && (c :: digits).all Char.isDigit
  | _ => false

def isFraction (cs : List Char) : Bool := isExponent (cs.dropWhile (isUnderscored Char.isDigit))

def signed (negative : Bool) (x : Number) : Datum := .number (if negative then x.neg else x)

def decimalOf (negative : Bool) (cs : List Char) : Datum :=
  signed negative ((Number.ofChars? (withoutUnderscores cs)).getD .nan)

def sixties (parts : List (List Char)) : Number :=
  let step (state : Number × Nat) (part : List Char) : Number × Nat :=
    let digit := (Number.ofChars? (withoutUnderscores part)).getD .nan
    (state.1.addMagnitudes (digit.mulMagnitudes (.ofNat state.2)), state.2 * 60)
  (parts.foldl step (Number.zero, 1)).1

def number? (cs : List Char) : Option Datum :=
  let (negative, body) := splitSign cs
  let whole := body.takeWhile (· ≠ '.')
  let after := (body.dropWhile (· ≠ '.')).drop 1
  if !body.contains '.' then none
  else if whole.isEmpty then
    if after = ['i', 'n', 'f'] || after = ['I', 'n', 'f'] || after = ['I', 'N', 'F'] then
      some (.number (.infinite negative))
    else if body.length ≠ cs.length then none
    else if after = ['n', 'a', 'n'] || after = ['N', 'a', 'N'] || after = ['N', 'A', 'N'] then
      some (.number .nan)
    else if (after.head?.map Char.isDigit).getD false && isFraction after then
      some (decimalOf negative body)
    else none
  else
    match splitWhere (· = ':') whole with
    | [whole] => if isDecimal whole && isFraction after then some (decimalOf negative body) else none
    | first :: parts =>
      if isDecimal first && parts.all isSixtieth && after.all (isUnderscored Char.isDigit) then
        let last := (parts.getLast?.getD []) ++ '.' :: after
        some (signed negative (sixties ((first :: parts.dropLast ++ [last]).reverse)))
      else none
    | [] => none

def takeDigits? (least most : Nat) (cs : List Char) : Option (Nat × List Char) :=
  let digits := (cs.take most).takeWhile Char.isDigit
  if digits.length < least then none else some (digitsIn 10 digits, cs.drop digits.length)

def expect? (c : Char) : List Char → Option (List Char)
  | d :: cs => if d = c then some cs else none
  | [] => none

def isBlank (c : Char) : Bool := c = ' ' || c = '\t'

def microseconds (digits : List Char) : Nat :=
  digitsIn 10 ((digits ++ List.replicate 6 '0').take 6)

def offset? (cs : List Char) : Option (Option Int) :=
  match cs with
  | [] => some none
  | _ =>
    match cs.dropWhile isBlank with
    | ['Z'] => some (some 0)
    | sign :: rest => do
      if sign ≠ '+' && sign ≠ '-' then none
      else
        let (hours, rest) ← takeDigits? 1 2 rest
        let minutes ← match rest with
          | [] => some 0
          | _ => do
            let (minutes, rest) ← takeDigits? 2 2 (← expect? ':' rest)
            if rest.isEmpty then some minutes else none
        let size : Int := hours * 60 + minutes
        some (some (if sign = '-' then -size else size))
    | [] => none

def dateOf (d : Date) : Except ScalarFault Datum :=
  match d.check with
  | .ok _ => .ok (.date d)
  | .error fault => .error (.date fault)

def timestampOf (t : Timestamp) : Except ScalarFault Datum :=
  match t.check with
  | .ok _ => .ok (.timestamp t)
  | .error fault => .error (.date fault)

def clock? (cs : List Char) : Option (Time × Option Int) := do
  let cs ← match cs with
    | c :: rest =>
      if c = 'T' || c = 't' then some rest
      else if isBlank c then some (rest.dropWhile isBlank)
      else none
    | [] => none
  let (hour, cs) ← takeDigits? 1 2 cs
  let (minute, cs) ← takeDigits? 2 2 (← expect? ':' cs)
  let (second, cs) ← takeDigits? 2 2 (← expect? ':' cs)
  let (fraction, cs) := match cs with
    | '.' :: cs => (cs.takeWhile Char.isDigit, cs.dropWhile Char.isDigit)
    | cs => ([], cs)
  let offset ← offset? cs
  some (⟨hour, minute, second, microseconds fraction⟩, offset)

def date? (cs : List Char) : Option (Except ScalarFault Datum) := do
  let (year, rest) ← takeDigits? 4 4 cs
  let (month, rest) ← takeDigits? 1 2 (← expect? '-' rest)
  let (day, rest) ← takeDigits? 1 2 (← expect? '-' rest)
  if rest.isEmpty then
    if cs.length = 10 then some (dateOf ⟨year, month, day⟩) else none
  else
    let (time, offset) ← clock? rest
    some (timestampOf ⟨⟨year, month, day⟩, time, offset⟩)

def isWord (word : String) (cs : List Char) : Bool :=
  let lower := word.toList
  let capital := match lower with
    | c :: rest => c.toUpper :: rest
    | [] => []
  cs = lower || cs = capital || cs = lower.map Char.toUpper

def plain (text : String) : Except ScalarFault Datum :=
  let cs := text.toList
  if cs.isEmpty || cs = ['~'] || isWord "null" cs then .ok .nil
  else if isWord "yes" cs || isWord "true" cs || isWord "on" cs then .ok (.boolean true)
  else if isWord "no" cs || isWord "false" cs || isWord "off" cs then .ok (.boolean false)
  else if text = "=" || text = "<<" then .error .noMeaning
  else
    match number? cs, integer? cs, date? cs with
    | some x, _, _ => .ok x
    | none, some n, _ => n
    | none, none, some d => d
    | none, none, none => .ok (.text text)

end LineScript.Yaml
