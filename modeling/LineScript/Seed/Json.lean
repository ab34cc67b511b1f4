import LineScript.Number.Literal
import LineScript.Seed.Datum

/-! Data in JSON, with the names of the numbers that have no digits besides. A reader takes a text
from the front and hands back the rest; what is wrong is said of the place where the rest at fault
starts. -/
namespace LineScript.Json

inductive Fault where
  | value
  | propertyName
  | colon
  | comma
  | unterminated
  | control
  | escape
  | unicodeEscape
  | extra
  | byteOrderMark
  deriving DecidableEq, Repr

def Fault.text : Fault → String
  | .value => "Expecting value"
  | .propertyName => "Expecting property name enclosed in double quotes"
  | .colon => "Expecting ':' delimiter"
  | .comma => "Expecting ',' delimiter"
  | .unterminated => "Unterminated string starting at"
  | .control => "Invalid control character at"
  | .escape => "Invalid \\escape"
  | .unicodeEscape => "Invalid \\uXXXX escape"
  | .extra => "Extra data"
  | .byteOrderMark => "Unexpected UTF-8 BOM (decode using utf-8-sig)"

inductive Stop where
  | malformed (fault : Fault) (left : Nat)
  | tooDeep (container : String)
  | tooLong (digits : Nat)
  deriving DecidableEq, Repr

def stopAt {α : Type} (fault : Fault) (cs : List Char) : Except Stop α :=
  .error (.malformed fault cs.length)

def isBlank (c : Char) : Bool := c = ' ' || c = '\t' || c = '\n' || c = '\r'

def skipBlanks (cs : List Char) : List Char := cs.dropWhile isBlank

def hexValue? (c : Char) : Option Nat :=
  if '0' ≤ c && c ≤ '9' then some (c.toNat - 48)
  else if 'a' ≤ c && c ≤ 'f' then some (c.toNat - 87)
  else if 'A' ≤ c && c ≤ 'F' then some (c.toNat - 55)
  else none

def hexValues? (a b c d : Char) : Option Nat := do
  return (((← hexValue? a) * 16 + (← hexValue? b)) * 16 + (← hexValue? c)) * 16 + (← hexValue? d)

def escaped? : Char → Option Char
  | '"' => some '"'
  | '\\' => some '\\'
  | '/' => some '/'
  | 'b' => some '\x08'
  | 'f' => some '\x0c'
  | 'n' => some '\n'
  | 'r' => some '\r'
  | 't' => some '\t'
  | _ => none

/-- Half of a character outside the first plane stands for no character when it is alone. -/
def charOf (code : Nat) : Char :=
  if 0xd800 ≤ code && code < 0xe000 then '\ufffd' else Char.ofNat code

def lowHalf? : List Char → Except Stop (Option Nat)
  | '\\' :: 'u' :: a :: b :: c :: d :: e :: rest =>
    match hexValues? a b c d with
    | none => stopAt .unicodeEscape ('u' :: a :: b :: c :: d :: e :: rest)
    | some low => .ok (if 0xdc00 ≤ low && low < 0xe000 then some low else none)
  | _ => .ok none

def readString : Nat → Nat → List Char → Except Stop (List Char × List Char)
  | 0, opened, _ => .error (.malformed .unterminated opened)
  | _ + 1, opened, [] => .error (.malformed .unterminated opened)
  | _ + 1, _, '"' :: cs => .ok ([], cs)
  | _ + 1, opened, ['\\'] => .error (.malformed .unterminated opened)
  | count + 1, opened, '\\' :: 'u' :: cs =>
    match cs with
    | a :: b :: c :: d :: e :: more =>
      match hexValues? a b c d with
      | none => stopAt .unicodeEscape ('u' :: cs)
      | some code => do
        let rest := e :: more
        let low ← if 0xd800 ≤ code && code < 0xdc00 then lowHalf? rest else .ok none
        match low with
        | some low =>
          let (chars, rest) ← readString count opened (rest.drop 6)
          return (Char.ofNat (0x10000 + (code - 0xd800) * 1024 + (low - 0xdc00)) :: chars, rest)
        | none =>
          let (chars, rest) ← readString count opened rest
          return (charOf code :: chars, rest)
    | _ => stopAt .unicodeEscape ('u' :: cs)
  | count + 1, opened, '\\' :: c :: cs =>
    match escaped? c with
    | none => stopAt .escape ('\\' :: c :: cs)
    | some char => do
      let (chars, rest) ← readString count opened cs
      return (char :: chars, rest)
  | count + 1, opened, c :: cs =>
    if c.toNat < 0x20 then stopAt .control (c :: cs)
    else do
      let (chars, rest) ← readString count opened cs
      return (c :: chars, rest)

def readText (cs : List Char) : Except Stop (String × List Char) := do
  let (chars, rest) ← readString (cs.length + 1) (cs.length + 1) cs
  return (String.ofList chars, rest)

def splitDigits (cs : List Char) : List Char × List Char :=
  (cs.takeWhile Char.isDigit, cs.dropWhile Char.isDigit)

def splitWhole : List Char → List Char × List Char
  | '0' :: cs => (['0'], cs)
  | cs => splitDigits cs

def splitFraction : List Char → List Char × List Char
  | '.' :: cs =>
    match splitDigits cs with
    | ([], _) => ([], '.' :: cs)
    | (digits, rest) => ('.' :: digits, rest)
  | cs => ([], cs)

def splitExponent (cs : List Char) : List Char × List Char :=
  match cs with
  | e :: after =>
    if e = 'e' || e = 'E' then
      let sign := after.takeWhile (fun c => c = '+' || c = '-') |>.take 1
      match splitDigits (after.drop sign.length) with
      | ([], _) => ([], cs)
      | (digits, rest) => (e :: sign ++ digits, rest)
    else ([], cs)
  | [] => ([], [])

def readNumber (cs : List Char) : Except Stop (Datum × List Char) :=
  let negative := cs.head? = some '-'
  let (whole, rest) := splitWhole (if negative then cs.drop 1 else cs)
  if whole.isEmpty then stopAt .value cs
  else
    let (fraction, rest) := splitFraction rest
    let (exponent, rest) := splitExponent rest
    if fraction.isEmpty && exponent.isEmpty then
      if maxDigits < whole.length then .error (.tooLong whole.length) else
      let size : Int := Text.ofDigits (whole.map fun c => c.toNat - 48)
      .ok (.integer (if negative then -size else size), rest)
    else
      let chars := (if negative then ['-'] else []) ++ whole ++ fraction ++ exponent
      .ok (.number ((Number.ofChars? chars).getD .nan), rest)

def words : List (String × Datum) :=
  [("null", .nil), ("true", .boolean true), ("false", .boolean false), ("NaN", .number .nan),
    ("Infinity", .number (.infinite false)), ("-Infinity", .number (.infinite true))]

def readWord? (cs : List Char) : Option (Datum × List Char) :=
  words.findSome? fun (word, datum) =>
    if word.toList.isPrefixOf cs then some (datum, cs.drop word.length) else none

mutual

/-- The first argument bounds the number of steps, the second how deep containers may still nest. -/
def readValue : Nat → Nat → List Char → Except Stop (Datum × List Char)
  | 0, _, cs => stopAt .value cs
  | _ + 1, _, [] => stopAt .value []
  | steps + 1, room, c :: cs =>
    if c = '"' then do
      let (text, rest) ← readText cs
      return (.text text, rest)
    else if c = '\x7b' then
      match room with
      | 0 => .error (.tooDeep "object")
      | room + 1 =>
        match skipBlanks cs with
        | '\x7d' :: rest => .ok (.mapping [], rest)
        | rest => do
          let (entries, rest) ← readEntries steps room [] rest
          return (.mapping entries, rest)
    else if c = '[' then
      match room with
      | 0 => .error (.tooDeep "array")
      | room + 1 =>
        match skipBlanks cs with
        | ']' :: rest => .ok (.list [], rest)
        | rest => do
          let (items, rest) ← readItems steps room rest
          return (.list items, rest)
    else
      match readWord? (c :: cs) with
      | some read => .ok read
      | none => readNumber (c :: cs)

def readEntries : Nat → Nat → List (Datum × Datum) → List Char →
    Except Stop (List (Datum × Datum) × List Char)
  | 0, _, _, cs => stopAt .propertyName cs
  | steps + 1, room, entries, cs =>
    match cs with
    | '"' :: cs => do
      let (name, cs) ← readText cs
      match skipBlanks cs with
      | ':' :: cs =>
        let (datum, cs) ← readValue steps room (skipBlanks cs)
        let entries := Datum.insert entries (.text name) datum
        match skipBlanks cs with
        | '\x7d' :: cs => return (entries, cs)
        | ',' :: cs => readEntries steps room entries (skipBlanks cs)
        | cs => stopAt .comma cs
      | cs => stopAt .colon cs
    | cs => stopAt .propertyName cs

def readItems : Nat → Nat → List Char → Except Stop (List Datum × List Char)
  | 0, _, cs => stopAt .value cs
  | steps + 1, room, cs => do
    let (first, cs) ← readValue steps room cs
    match skipBlanks cs with
    | ']' :: cs => return ([first], cs)
    | ',' :: cs =>
      let (others, cs) ← readItems steps room (skipBlanks cs)
      return (first :: others, cs)
    | cs => stopAt .comma cs

end

def readDocument (room : Nat) (cs : List Char) : Except Stop Datum :=
  if cs.head? = some '\ufeff' then stopAt .byteOrderMark cs
  else do
    let (datum, rest) ← readValue (cs.length + 1) room (skipBlanks cs)
    match skipBlanks rest with
    | [] => .ok datum
    | rest => stopAt .extra rest

def place (cs : List Char) (offset : Nat) : Nat × Nat :=
  let before := cs.take offset
  ((before.filter (· = '\n')).length + 1, (before.reverse.takeWhile (· ≠ '\n')).length + 1)

def read (room : Nat) (cs : List Char) : Except JsonFault Datum :=
  match readDocument room cs with
  | .ok datum => .ok datum
  | .error (.malformed fault left) =>
    let offset := cs.length - left
    let (line, column) := place cs offset
    .error (.malformed fault.text offset line column)
  | .error (.tooDeep container) => .error (.tooDeep container)
  | .error (.tooLong digits) => .error (.tooLong digits)

end LineScript.Json
