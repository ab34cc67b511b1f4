import LineScript.Script.Token

/-! Statement trees, and what a parser has to say about the layout of their blocks. -/
namespace LineScript

structure Expr where
  tokens : List Token
  text : String
  line : Nat
  deriving DecidableEq, Repr

structure Block (σ : Type) where
  line : Nat
  statements : List σ
  deriving Repr

inductive Misreading where
  | noCommand
  | badAssignment
  deriving DecidableEq, Repr

def Misreading.text : Misreading → String
  | .noCommand => "unknown command"
  | .badAssignment => "syntax error in let"

inductive Stmt where
  | block (body : Block Stmt)
  | assign (line : Nat) (name : String) (value : Expr)
  | print (line : Nat) (value : Expr)
  | branch (line : Nat) (condition : Expr) (thenBody : Block Stmt)
      (otherwise : Option (Block Stmt))
  | call (line : Nat) (path : String) (arguments : List Expr)
  | unknown (line : Nat) (text : String) (why : Misreading)
  deriving Repr

namespace Stmt

def line : Stmt → Nat
  | .block body => body.line
  | .assign line _ _ => line
  | .print line _ => line
  | .branch line _ _ _ => line
  | .call line _ _ => line
  | .unknown line _ _ => line

end Stmt

inductive BranchHead where
  | condition
  | otherwise
  deriving DecidableEq, Repr

def BranchHead.text : BranchHead → String
  | .condition => "if condition"
  | .otherwise => "else"

def maxNesting : Nat := 100

inductive Diagnostic where
  | unclosedBlock (opened : Nat)
  | tooDeep (line : Nat)
  | missingBrace (head : BranchHead) (line : Nat)
  deriving DecidableEq, Repr

namespace Diagnostic

def line : Diagnostic → Nat
  | .unclosedBlock opened => opened
  | .tooDeep line => line
  | .missingBrace _ line => line

def message : Diagnostic → String
  | .unclosedBlock opened => "unclosed block opened on line " ++ toString opened
  | .tooDeep _ => "block nested deeper than " ++ toString maxNesting ++ " levels skipped"
  | .missingBrace head _ => "missing '\x7b' after " ++ head.text

end Diagnostic

structure Program where
  statements : List Stmt
  diagnostics : List Diagnostic
  deriving Repr

end LineScript
