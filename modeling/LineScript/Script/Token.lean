/-! Tokens of a script: what was read, and where it stands in the source. Offsets, lines and
columns count characters; lines and columns start at one. -/
namespace LineScript

inductive Operator where
  | equal
  | notEqual
  | atLeast
  | atMost
  | greater
  | less
  | plus
  | assign
  | openParen
  | closeParen
  | openBrace
  | closeBrace
  | comma
  deriving DecidableEq, Repr

def Operator.text : Operator → String
  | .equal => "=="
  | .notEqual => "!="
  | .atLeast => ">="
  | .atMost => "<="
  | .greater => ">"
  | .less => "<"
  | .plus => "+"
  | .assign => "="
  | .openParen => "("
  | .closeParen => ")"
  | .openBrace => "\x7b"
  | .closeBrace => "\x7d"
  | .comma => ","

/-- A literal is a text between double quotes and has no escapes. A word is any other run of
characters: a name, a number, a path, or a quote that is never closed. -/
inductive Lexeme where
  | literal (content : String)
  | word (text : String)
  | op (operator : Operator)
  | newline
  deriving DecidableEq, Repr

def Lexeme.chars : Lexeme → List Char
  | .literal content => '"' :: (content.toList ++ ['"'])
  | .word text => text.toList
  | .op operator => operator.text.toList
  | .newline => ['\n']

def Lexeme.text (l : Lexeme) : String := String.ofList l.chars

structure Position where
  offset : Nat
  line : Nat
  column : Nat
  deriving DecidableEq, Repr

namespace Position

def start : Position := ⟨0, 1, 1⟩

def advance (p : Position) (count : Nat) : Position :=
  ⟨p.offset + count, p.line, p.column + count⟩

def after (p : Position) : Lexeme → Position
  | .newline => ⟨p.offset + 1, p.line + 1, 1⟩
  | l => p.advance l.chars.length

end Position

structure Token where
  lexeme : Lexeme
  position : Position
  deriving DecidableEq, Repr

namespace Token

def line (t : Token) : Nat := t.position.line

def offset (t : Token) : Nat := t.position.offset

def stop (t : Token) : Nat := t.offset + t.lexeme.chars.length

def isOp (t : Token) (operator : Operator) : Bool := t.lexeme == .op operator

def isWord (t : Token) (text : String) : Bool := t.lexeme == .word text

def isNewline (t : Token) : Bool := t.lexeme == .newline

def insideStatement (t : Token) : Bool :=
  !(t.isNewline || t.isOp .openBrace || t.isOp .closeBrace)

end Token

def braceBalance : List Token → Int
  | [] => 0
  | t :: ts =>
    if t.isOp .openBrace then 1 + braceBalance ts
    else if t.isOp .closeBrace then braceBalance ts - 1
    else braceBalance ts

end LineScript
