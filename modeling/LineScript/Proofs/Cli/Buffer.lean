import Mathlib.Algebra.Ring.Int.Defs
import LineScript.Cli.Repl
import LineScript.Proofs.Script.Compose
import LineScript.Proofs.Script.Lossless

/-! Lines of a session, read together. What is read on a line is read there whatever the other lines
say: a quote that is not closed or a comment goes no further, and each line adds its own braces. -/
namespace LineScript

theorem Position.behindBelow (a b : List Char) :
    Position.behind (a ++ '\n' :: b) = (Position.behind b).shift (a.length + 1) (1 + a.count '\n') := by
  have column : ((a ++ '\n' :: b).reverse.takeWhile (· ≠ '\n')).length =
      (b.reverse.takeWhile (· ≠ '\n')).length := by
    rw [List.reverse_append, List.reverse_cons, List.append_assoc, List.singleton_append,
      takeWhileUntil (by simp)]
  simp only [Position.behind, Position.shift, List.length_append, List.length_cons, List.count_append,
    List.count_cons_self, column, Position.mk.injEq, and_true]
  omega

theorem scanBelow (a b : List Char) : scan (a ++ '\n' :: b) =
    ⟨tokens a ++ ⟨.newline, .behind a⟩ :: (tokens b).map (Token.shift (a.length + 1) (1 + a.count '\n')),
      (scan b).finish.shift (a.length + 1) (1 + a.count '\n')⟩ := by
  have read := tokensAppend a b
  rw [scanBehind, lineCountNewlines] at read
  have finish := scanBehind (a ++ '\n' :: b)
  rw [Position.behindBelow, ← scanBehind] at finish
  rw [← read, ← finish]
  rfl

section Balance

theorem braceBalanceAppend (ts us : List Token) : braceBalance (ts ++ us) = braceBalance ts + braceBalance us := by
  induction ts with
  | nil => simp [braceBalance]
  | cons t ts ih =>
    simp only [List.cons_append, braceBalance, ih]
    split
    · omega
    · split
      · omega
      · rfl

theorem braceBalanceShift (offset lines : Nat) (ts : List Token) :
    braceBalance (ts.map (Token.shift offset lines)) = braceBalance ts := by
  induction ts with
  | nil => rfl
  | cons t ts ih => simp only [List.map_cons, braceBalance, Token.shiftIsOp, ih]

theorem braceDepthBelow (a b : List Char) : braceDepth (a ++ '\n' :: b) = braceDepth a + braceDepth b := by
  have newline : braceBalance [⟨.newline, .behind a⟩] = 0 := rfl
  unfold braceDepth
  rw [tokens, scanBelow, ← List.singleton_append, braceBalanceAppend, braceBalanceAppend, newline,
    braceBalanceShift, Int.zero_add]

end Balance

theorem tokensNil : tokens [] = [] := by
  have none : Lexer.segments [] = [] := by rw [Lexer.segmentsSingle List.not_mem_nil, Lexer.lineSegments]
  rw [tokens, scan, none]
  rfl

theorem Token.shiftTwice (offset lines above higher : Nat) (t : Token) :
    (t.shift above higher).shift offset lines = t.shift (offset + above) (lines + higher) := by
  simp [Token.shift, Position.shift, Nat.add_comm, Nat.add_left_comm]

namespace Cli.Repl

def layLines (offset lines : Nat) : List (List Char) → List Token
  | [] => []
  | [line] => (tokens line).map (Token.shift offset lines)
  | line :: others =>
    (tokens line ++ [Token.mk .newline (.behind line)]).map (Token.shift offset lines) ++
      layLines (offset + (line.length + 1)) (lines + (1 + line.count '\n')) others

theorem tokensLaid (offset lines : Nat) (buffer : List (List Char)) :
    (tokens (joinLines buffer)).map (Token.shift offset lines) = layLines offset lines buffer := by
  induction buffer generalizing offset lines with
  | nil => rw [joinLines, tokensNil, layLines, List.map_nil]
  | cons line others ih =>
    cases others with
    | nil => rfl
    | cons next others =>
      rw [joinLines, layLines, ← ih, tokens, scanBelow]
      · simp [Token.shiftTwice]
      · exact List.cons_ne_nil _ _
      · exact List.cons_ne_nil _ _

theorem braceDepthJoined (buffer : List (List Char)) : braceDepth (joinLines buffer) = (buffer.map braceDepth).sum := by
  induction buffer with
  | nil => rw [joinLines, braceDepth, tokensNil, List.map_nil, List.sum_nil, braceBalance]
  | cons line others ih =>
    cases others with
    | nil => simp [joinLines]
    | cons next others =>
      rw [joinLines, braceDepthBelow, ih, ← List.sum_cons, ← List.map_cons]
      exact List.cons_ne_nil _ _

/- Lines are read one by one: a text and what is below it, the lines of a buffer, and their braces. -/
theorem linesReadAlone :
    (∀ a b, scan (a ++ '\n' :: b) =
      ⟨tokens a ++ ⟨.newline, .behind a⟩ :: (tokens b).map (Token.shift (a.length + 1) (1 + a.count '\n')),
        (scan b).finish.shift (a.length + 1) (1 + a.count '\n')⟩) ∧
    (∀ buffer, tokens (joinLines buffer) = layLines 0 0 buffer) ∧
    ∀ buffer, braceDepth (joinLines buffer) = (buffer.map braceDepth).sum := by
  refine ⟨scanBelow, fun buffer => ?_, braceDepthJoined⟩
  rw [← tokensLaid, Token.mapShiftZero]

example : braceDepth (joinLines ["let s = \"a \x7b".toList, "// \x7d".toList, "if x \x7b".toList]) = 1 := by
  cbv

end Cli.Repl
end LineScript
