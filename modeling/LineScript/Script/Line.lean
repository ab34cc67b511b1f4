import LineScript.Script.Statement
import LineScript.Text.Split

/-! Statements that stand on one line: assignments, prints, calls, and lines that are none. The
tokens of such a line are cut into expressions, each with its exact text. -/
namespace LineScript

def sourceText (source : List Char) (tokens : List Token) : String :=
  match tokens.head?, tokens.getLast? with
  | some first, some last =>
    String.ofList ((source.drop first.offset).take (last.stop - first.offset))
  | _, _ => ""

def Expr.ofTokens (source : List Char) (line : Nat) (tokens : List Token) : Expr :=
  ⟨tokens, sourceText source tokens, (tokens.head?.map (·.line)).getD line⟩

namespace Line

def parenDepth (depth : Nat) (t : Token) : Nat :=
  if t.isOp .openParen then depth + 1
  else if t.isOp .closeParen then depth - 1
  else depth

def splitCommas : Nat → List Token → List (List Token)
  | _, [] => [[]]
  | depth, t :: ts =>
    if t.isOp .comma && depth == 0 then [] :: splitCommas depth ts
    else
      match splitCommas (parenDepth depth t) ts with
      | [] => [[t]]
      | first :: others => (t :: first) :: others

def argumentGroups (tokens : List Token) : List (List Token) :=
  dropEmptyLast (splitCommas 0 tokens)

def withoutCloseParen? (tokens : List Token) : Option (List Token) :=
  match tokens.getLast? with
  | some last => if last.isOp .closeParen then some tokens.dropLast else none
  | none => none

def unknown (source : List Char) (first : Token) (others : List Token) : Stmt :=
  .unknown first.line (sourceText source (first :: others)) .noCommand

def assignment (source : List Char) (first : Token) (others : List Token) : Stmt :=
  let name := others.takeWhile (!·.isOp .assign)
  match others.dropWhile (!·.isOp .assign) with
  | [] => .unknown first.line (sourceText source (first :: others)) .badAssignment
  | _ :: value =>
    if name.isEmpty then
      .unknown first.line (sourceText source (first :: others)) .badAssignment
    else
      .assign first.line (sourceText source name) (.ofTokens source first.line value)

def printing (source : List Char) (first : Token) (others : List Token) : Stmt :=
  match withoutCloseParen? (others.drop 1) with
  | some value => .print first.line (.ofTokens source first.line value)
  | none => unknown source first others

def calling (source : List Char) (first : Token) (others : List Token) : Stmt :=
  match first.lexeme, others with
  | .word path, second :: inner =>
    if second.isOp .openParen then
      match withoutCloseParen? inner with
      | some inner =>
        .call first.line path ((argumentGroups inner).map (.ofTokens source first.line))
      | none => unknown source first others
    else unknown source first others
  | _, _ => unknown source first others

def statement (source : List Char) (first : Token) (others : List Token) : Stmt :=
  if first.isWord "let" then assignment source first others
  else if first.isWord "print" && (others.head?.map (·.isOp .openParen)).getD false then
    printing source first others
  else calling source first others

def condition (source : List Char) (line : Nat) (tokens : List Token) : Expr :=
  match tokens with
  | first :: others =>
    match first.isOp .openParen, withoutCloseParen? others with
    | true, some inner => .ofTokens source line inner
    | _, _ => .ofTokens source line tokens
  | [] => .ofTokens source line []

end Line
end LineScript
