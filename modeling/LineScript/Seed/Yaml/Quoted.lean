import LineScript.Seed.Json
import LineScript.Seed.Yaml.Scanner

/-! Scalars: plain ones and those in quotes, with the folding of their line breaks. -/
namespace LineScript.Yaml.Scanner

def fold (first : Char) (others : List Char) : List Char :=
  (if first ≠ '\n' then [first] else if others.isEmpty then [' '] else []) ++ others

/-! ### Plain scalars -/

def isFlowMark (c : Char) : Bool := c = ',' || c = '[' || c = ']' || c = '\x7b' || c = '\x7d'

def plainLength (inFlow : Bool) : List Char → Nat
  | [] => 0
  | c :: cs =>
    let next := cs.headD '\x00'
    if isSpaceOrEnd c || (c = ':' && (isSpaceOrEnd next || (inFlow && isFlowMark next))) ||
        (inFlow && (isFlowMark c || c = '?')) then 0
    else plainLength inFlow cs + 1

def plainBreaks : Nat → Scanner → Option (List Char) × Scanner
  | 0, s => (some [], s)
  | count + 1, s =>
    if s.peek 0 = ' ' then plainBreaks count s.step
    else
      match s.takeBreak? with
      | none => (some [], s)
      | some (c, s) =>
        if s.atSeparator then (none, s)
        else
          let (more, s) := plainBreaks count s
          (more.map (c :: ·), s)

def plainSpaces (s : Scanner) : List Char × Scanner :=
  let blanks := s.rest.takeWhile (· = ' ')
  let s := s.forward blanks.length
  match s.takeBreak? with
  | none => (blanks, s)
  | some (c, s) =>
    let s := { s with keyAllowed := true }
    if s.atSeparator then ([], s)
    else
      match plainBreaks s.rest.length s with
      | (none, s) => ([], s)
      | (some more, s) => (fold c more, s)

def plainPieces (indent : Int) : Nat → List Char → Scanner → List Char × Scanner
  | 0, _, s => ([], s)
  | count + 1, spaces, s =>
    let length := plainLength (s.flow ≠ 0) s.rest
    if s.peek 0 = '#' || length = 0 then ([], s)
    else
      let piece := s.rest.take length
      let s := { s.forward length with keyAllowed := false }
      let (next, s) := plainSpaces s
      if next.isEmpty || s.peek 0 = '#' || (s.flow = 0 && s.column < indent) then
        (spaces ++ piece, s)
      else
        let (more, s) := plainPieces indent count next s
        (spaces ++ piece ++ more, s)

def takePlain (s : Scanner) : Scanner :=
  let (text, s) := plainPieces (s.indent + 1) s.rest.length [] s
  s.push (.scalar true (String.ofList text))

/-! ### Quoted scalars -/

def escapes : List (Char × Char) :=
  [('0', '\x00'), ('a', '\x07'), ('b', '\x08'), ('t', '\t'), ('\t', '\t'), ('n', '\n'),
    ('v', '\x0b'), ('f', '\x0c'), ('r', '\r'), ('e', '\x1b'), (' ', ' '), ('"', '"'),
    ('\\', '\\'), ('/', '/'), ('N', '\x85'), ('_', '\xa0'), ('L', '\u2028'), ('P', '\u2029')]

def hexEscapes : List (Char × Nat) := [('x', 2), ('u', 4), ('U', 8)]

def quotedBreaks? : Nat → Scanner → Option (List Char × Scanner)
  | 0, s => some ([], s)
  | count + 1, s =>
    if s.atSeparator then none
    else
      let s := s.skipWhile fun c => c = ' ' || c = '\t'
      match s.takeBreak? with
      | none => some ([], s)
      | some (c, s) => do
        let (more, s) ← quotedBreaks? count s
        some (c :: more, s)

def character? (code : Nat) : Option Char :=
  if code < 0x110000 then some (Json.charOf code) else none

def takeEscape? (s : Scanner) : Option (List (Option Char) × Scanner) :=
  let c := s.peek 0
  match escapes.lookup c, hexEscapes.lookup c with
  | some char, _ => some ([some char], s.step)
  | none, some width =>
    let s := s.step
    let digits := s.rest.take width
    if digits.length = width && digits.all fun d => (Json.hexValue? d).isSome then
      let code := digits.foldl (fun n d => n * 16 + (Json.hexValue? d).getD 0) 0
      some ([character? code], s.forward width)
    else none
  | none, none =>
    match s.takeBreak? with
    | some (_, s) => (quotedBreaks? (s.rest.length + 1) s).map fun (chars, s) => (chars.map some, s)
    | none => none

def quotedSpaces? (s : Scanner) : Option (List Char × Scanner) :=
  let blanks := s.rest.takeWhile fun c => c = ' ' || c = '\t'
  let s := s.forward blanks.length
  if s.rest.isEmpty then none
  else
    match s.takeBreak? with
    | none => some (blanks, s)
    | some (c, s) => do
      let (more, s) ← quotedBreaks? (s.rest.length + 1) s
      some (fold c more, s)

def quotedPiece? (quote : Char) (s : Scanner) : Option (Option (List (Option Char)) × Scanner) :=
  let c := s.peek 0
  if quote = '\'' && c = quote && s.peek 1 = quote then some (some [some quote], s.forward 2)
  else if c = quote then some (none, s.step)
  else if quote = '"' && c = '\\' then (takeEscape? s.step).map fun (chars, s) => (some chars, s)
  else if isSpaceOrEnd c then (quotedSpaces? s).map fun (chars, s) => (some (chars.map some), s)
  else some (some [some c], s.step)

def quotedChars? (quote : Char) : Nat → Scanner → Option (List (Option Char) × Scanner)
  | 0, _ => none
  | count + 1, s =>
    match quotedPiece? quote s with
    | none => none
    | some (none, s) => some ([], s)
    | some (some chars, s) => do
      let (more, s) ← quotedChars? quote count s
      some (chars ++ more, s)

def takeQuoted? (s : Scanner) : Option Scanner := do
  let (chars, s) ← quotedChars? (s.peek 0) (s.rest.length + 1) s.step
  match chars.mapM id with
  | some chars => some (s.push (.scalar false (String.ofList chars)))
  | none => some (s.push .noCharacter)

end LineScript.Yaml.Scanner
