import LineScript.Script.Token
import LineScript.Text.Space

/-! Reading a source as tokens. Each line is cut into segments, lexemes and the gaps between them,
which together are the line and nothing else; tokens are the lexemes at the places where the
segments before them end. No line depends on another. -/
namespace LineScript

inductive Segment where
  | gap (text : List Char)
  | lexeme (value : Lexeme)
  deriving DecidableEq, Repr

def Segment.chars : Segment → List Char
  | .gap text => text
  | .lexeme value => value.chars

namespace Lexer

def isBlank (c : Char) : Bool := c = ' ' || c = '\t' || c = '\r'

def operator? : Char → Option Operator
  | '>' => some .greater
  | '<' => some .less
  | '+' => some .plus
  | '=' => some .assign
  | '(' => some .openParen
  | ')' => some .closeParen
  | '\x7b' => some .openBrace
  | '\x7d' => some .closeBrace
  | ',' => some .comma
  | _ => none

def compound? : Char → Option Operator
  | '=' => some .equal
  | '!' => some .notEqual
  | '>' => some .atLeast
  | '<' => some .atMost
  | _ => none

def readOperator? : List Char → Option (Operator × List Char)
  | c :: '=' :: cs =>
    match compound? c with
    | some op => some (op, cs)
    | none => (operator? c).map (·, '=' :: cs)
  | c :: cs => (operator? c).map (·, cs)
  | [] => none

def endsWord (c : Char) : Bool := isBlank c || c = '\n' || c = '"' || (operator? c).isSome

def splitWord : List Char → List Char × List Char
  | [] => ([], [])
  | c :: cs =>
    if endsWord c || (c = '!' && cs.head? = some '=') then ([], c :: cs)
    else
      let more := splitWord cs
      (c :: more.1, more.2)

theorem splitWord_append (cs : List Char) : (splitWord cs).1 ++ (splitWord cs).2 = cs := by
  induction cs with
  | nil => rfl
  | cons c cs ih =>
    rw [splitWord]
    split
    · rfl
    · simp [ih]

theorem length_splitWord_le (cs : List Char) : (splitWord cs).2.length ≤ cs.length := by
  have whole := congrArg List.length (splitWord_append cs)
  rw [List.length_append] at whole
  omega

theorem length_readOperator_lt {cs : List Char} {op : Operator} {rest : List Char}
    (h : readOperator? cs = some (op, rest)) : rest.length < cs.length := by
  unfold readOperator? at h
  split at h
  · split at h
    · cases h
      simp only [List.length_cons]
      omega
    · obtain ⟨_, _, same⟩ := Option.map_eq_some_iff.1 h
      cases same
      simp only [List.length_cons]
      omega
  · obtain ⟨_, _, same⟩ := Option.map_eq_some_iff.1 h
    cases same
    simp only [List.length_cons]
    omega
  · cases h

/-- A quote without its partner on the line: the rest of the line is one word, and the white space
at its end is a gap. -/
def unclosedQuote (cs : List Char) : List Segment :=
  [.lexeme (.word (String.ofList (Text.trimEnd cs))), .gap (Text.trailingSpace cs)]

/-- Segments of the rest of a line. A comment can start at a boundary only: at the start of the
line or behind a blank, so that `//` inside a word is part of the word. -/
def lineSegments (boundary : Bool) : List Char → List Segment
  | [] => []
  | c :: cs =>
    if isBlank c then .gap [c] :: lineSegments true cs
    else if boundary && c = '/' && cs.head? = some '/' then [.gap (c :: cs)]
    else if c = '"' then
      match _split : cs.dropWhile (· ≠ '"') with
      | [] => unclosedQuote (c :: cs)
      | _ :: rest =>
        .lexeme (.literal (String.ofList (cs.takeWhile (· ≠ '"')))) :: lineSegments false rest
    else
      match _read : readOperator? (c :: cs) with
      | some (op, rest) => .lexeme (.op op) :: lineSegments false rest
      | none =>
        .lexeme (.word (String.ofList (c :: (splitWord cs).1))) ::
          lineSegments false (splitWord cs).2
termination_by cs => cs.length
decreasing_by
  · simp only [List.length_cons]
    omega
  · have shorter := (List.dropWhile_suffix (p := fun x => decide (x ≠ '"')) (l := cs)).length_le
    rw [_split] at shorter
    simp only [List.length_cons] at shorter ⊢
    omega
  · exact length_readOperator_lt _read
  · have shorter := length_splitWord_le cs
    simp only [List.length_cons]
    omega

def splitLines : List Char → List (List Char)
  | [] => [[]]
  | c :: cs =>
    if c = '\n' then [] :: splitLines cs
    else
      match splitLines cs with
      | [] => [[c]]
      | first :: others => (c :: first) :: others

def joinLines : List (List Segment) → List Segment
  | [] => []
  | [first] => first
  | first :: others => first ++ .lexeme .newline :: joinLines others

def segments (source : List Char) : List Segment :=
  joinLines ((splitLines source).map (lineSegments true))

def place (p : Position) : List Segment → List Token × Position
  | [] => ([], p)
  | .gap text :: rest => place (p.advance text.length) rest
  | .lexeme value :: rest =>
    let placed := place (p.after value) rest
    (⟨value, p⟩ :: placed.1, placed.2)

end Lexer

structure Scan where
  tokens : List Token
  finish : Position
  deriving DecidableEq, Repr

def scan (source : List Char) : Scan :=
  let placed := Lexer.place .start (Lexer.segments source)
  ⟨placed.1, placed.2⟩

def tokens (source : List Char) : List Token := (scan source).tokens

def braceDepth (source : List Char) : Int := braceBalance (tokens source)

end LineScript
