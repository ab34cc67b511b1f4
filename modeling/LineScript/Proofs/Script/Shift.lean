import LineScript.Engine.Evaluate
import LineScript.Proofs.Script.Lines
import LineScript.Proofs.Script.Statement

/-! Programs further down in a source. Every token, expression and statement moves by the same
offset and number of lines; what an expression evaluates to does not depend on where it stands. -/
namespace LineScript

def Expr.shift (offset lines : Nat) (e : Expr) : Expr :=
  ⟨e.tokens.map (Token.shift offset lines), e.text, e.line + lines⟩

mutual

def Stmt.shift (offset lines : Nat) : Stmt → Stmt
  | .block body => .block (shiftBlock offset lines body)
  | .assign line name value => .assign (line + lines) name (value.shift offset lines)
  | .print line value => .print (line + lines) (value.shift offset lines)
  | .branch line condition thenBody otherwise =>
    .branch (line + lines) (condition.shift offset lines) (shiftBlock offset lines thenBody)
      (shiftOtherwise offset lines otherwise)
  | .call line path arguments => .call (line + lines) path (arguments.map (Expr.shift offset lines))
  | .unknown line text why => .unknown (line + lines) text why

def shiftBlock (offset lines : Nat) : Block Stmt → Block Stmt
  | ⟨line, statements⟩ => ⟨line + lines, shiftList offset lines statements⟩

def shiftOtherwise (offset lines : Nat) : Option (Block Stmt) → Option (Block Stmt)
  | none => none
  | some body => some (shiftBlock offset lines body)

def shiftList (offset lines : Nat) : List Stmt → List Stmt
  | [] => []
  | s :: rest => s.shift offset lines :: shiftList offset lines rest

end

section
variable (offset lines : Nat)

@[simp] theorem Token.shiftIsOp (t : Token) (op : Operator) :
    (t.shift offset lines).isOp op = t.isOp op := rfl

@[simp] theorem Token.shiftIsWord (t : Token) (text : String) :
    (t.shift offset lines).isWord text = t.isWord text := rfl

@[simp] theorem Token.shiftIsNewline (t : Token) :
    (t.shift offset lines).isNewline = t.isNewline := rfl

@[simp] theorem Token.shiftLine (t : Token) : (t.shift offset lines).line = t.line + lines := rfl

@[simp] theorem Token.shiftOffset (t : Token) : (t.shift offset lines).offset = t.offset + offset := rfl

@[simp] theorem Token.shiftStop (t : Token) : (t.shift offset lines).stop = t.stop + offset :=
  Nat.add_right_comm _ _ _

theorem shiftListAppend (xs ys : List Stmt) :
    shiftList offset lines (xs ++ ys) = shiftList offset lines xs ++ shiftList offset lines ys := by
  induction xs with
  | nil => simp [shiftList]
  | cons s rest ih => simp [shiftList, ih]

theorem Stmt.shiftLine (s : Stmt) : (s.shift offset lines).line = s.line + lines := by
  cases s with
  | block body =>
    obtain ⟨line, statements⟩ := body
    simp only [Stmt.shift, shiftBlock, Stmt.line]
  | _ => simp only [Stmt.shift, Stmt.line]

end

theorem splitWhereMap {α β : Type} (f : α → β) (p : β → Bool) (xs : List α) :
    splitWhere p (xs.map f) = (splitWhere (fun x => p (f x)) xs).map (List.map f) := by
  induction xs with
  | nil => rfl
  | cons x xs ih =>
    simp only [List.map_cons, splitWhere, ih]
    split
    · rfl
    · cases splitWhere (fun x => p (f x)) xs <;> rfl

theorem dropEmptyLastMap {α β : Type} (f : α → β) (parts : List (List α)) :
    dropEmptyLast (parts.map (List.map f)) = (dropEmptyLast parts).map (List.map f) := by
  unfold dropEmptyLast
  rw [List.getLast?_map]
  cases parts.getLast? with
  | none => rfl
  | some last => cases last <;> simp [List.map_dropLast]

namespace Expr
variable (offset lines : Nat)

theorem partShift (e : Expr) (ts : List Token) (inside : ts ≠ [] → e.tokens ≠ []) :
    (e.shift offset lines).part (ts.map (Token.shift offset lines)) =
      (e.part ts).shift offset lines := by
  unfold part
  rw [List.head?_map, List.getLast?_map]
  cases ts with
  | nil => rfl
  | cons t rest =>
    cases tokens : e.tokens with
    | nil => exact absurd tokens (inside (by simp))
    | cons first others =>
      obtain ⟨last, found⟩ := Option.isSome_iff_exists.mp (List.getLast?_isSome.mpr (List.cons_ne_nil t rest))
      simp [found, shift, base, tokens, Nat.add_sub_add_right]

theorem operandsShift (e : Expr) :
    (e.shift offset lines).operands = e.operands.map (shift offset lines) := by
  have split : dropEmptyLast (splitWhere (·.isOp .plus) (e.shift offset lines).tokens) =
      (dropEmptyLast (splitWhere (·.isOp .plus) e.tokens)).map (List.map (Token.shift offset lines)) := by
    rw [← dropEmptyLastMap, shift, splitWhereMap]
    rfl
  unfold operands
  rw [split, List.map_map, List.map_map]
  by_cases empty : e.tokens = []
  · simp [empty, splitWhere, dropEmptyLast]
  · exact List.map_congr_left fun ts _ => partShift offset lines e ts (fun _ => empty)

theorem literalShift (e : Expr) : (e.shift offset lines).literal? = e.literal? := by
  unfold literal? shift
  cases e.tokens with
  | nil => rfl
  | cons t rest =>
    obtain ⟨lexeme, position⟩ := t
    cases rest with
    | nil => cases lexeme <;> rfl
    | cons u rest => cases lexeme <;> rfl

theorem evalOperandShift (scope : Scope) (e : Expr) :
    (e.shift offset lines).evalOperand scope = e.evalOperand scope := by
  unfold evalOperand
  rw [literalShift]
  simp [shift]

theorem renderAllShift (scope : Scope) (es : List Expr) :
    renderAll scope (es.map (shift offset lines)) = renderAll scope es := by
  induction es with
  | nil => rfl
  | cons e rest ih => simp only [List.map_cons, renderAll, evalOperandShift, ih]

theorem evalShift (scope : Scope) (e : Expr) :
    (e.shift offset lines).eval scope = e.eval scope := by
  have sum : (e.shift offset lines).isSum = e.isSum := by simp [isSum, shift, List.any_map, Function.comp_def]
  have text : (e.shift offset lines).text = e.text := rfl
  unfold eval
  rw [sum, text, operandsShift, renderAllShift, evalOperandShift]

theorem comparisonShift (e : Expr) : (e.shift offset lines).comparison? = e.comparison? := by
  simp [comparison?, shift, List.any_map, Function.comp_def]

theorem evalConditionShift (scope : Scope) (e : Expr) :
    (e.shift offset lines).evalCondition scope = e.evalCondition scope := by
  unfold evalCondition
  rw [comparisonShift, evalShift]
  cases e.comparison? with
  | none => rfl
  | some c =>
    have tokens : (e.shift offset lines).tokens = e.tokens.map (Token.shift offset lines) := rfl
    have side (ts : List Token) (inside : ts ≠ [] → e.tokens ≠ []) :
        ((e.shift offset lines).part (ts.map (Token.shift offset lines))).eval scope =
          (e.part ts).eval scope := by
      rw [partShift offset lines e ts inside, evalShift]
    have left := side (e.tokens.takeWhile (fun t => !t.isOp c.operator))
      (fun some empty => some (by simp [empty]))
    have right := side ((e.tokens.dropWhile (fun t => !t.isOp c.operator)).drop 1)
      (fun some empty => some (by simp [empty]))
    simp only [tokens, List.takeWhile_map, List.dropWhile_map, ← List.map_drop, Function.comp_def,
      Token.shiftIsOp]
    rw [left, right]

end Expr
end LineScript
