import LineScript.Proofs.Script.Shift
import LineScript.Script.Line

/-! Programs that stand elsewhere. A motion takes tokens to other places and leaves what was read
alone. If every run of some tokens spans the same text where it is moved to, then the statement
of those tokens is the statement that was read before, moved. -/
namespace LineScript

section Keeps
variable {f : Token → Token} (keeps : ∀ t, (f t).lexeme = t.lexeme) (t : Token)
include keeps

theorem keepsOp (op : Operator) : (f t).isOp op = t.isOp op := by
  simp only [Token.isOp, keeps]

theorem keepsWord (text : String) : (f t).isWord text = t.isWord text := by
  simp only [Token.isWord, keeps]

theorem keepsNewline : (f t).isNewline = t.isNewline := by
  simp only [Token.isNewline, keeps]

theorem keepsInside : (f t).insideStatement = t.insideStatement := by
  simp only [Token.insideStatement, keepsOp keeps, keepsNewline keeps]

end Keeps

structure Motion where
  token : Token → Token
  line : Nat → Nat
  keepsLexeme : ∀ t, (token t).lexeme = t.lexeme
  movesLine : ∀ t, (token t).line = line t.line

namespace Motion

def shift (offset lines : Nat) : Motion := ⟨Token.shift offset lines, (· + lines), fun _ => rfl, fun _ => rfl⟩

def erase : Motion := ⟨fun t => ⟨t.lexeme, ⟨0, 0, 0⟩⟩, fun _ => 0, fun _ => rfl, fun _ => rfl⟩

def andThen (m n : Motion) : Motion where
  token t := n.token (m.token t)
  line l := n.line (m.line l)
  keepsLexeme t := by rw [n.keepsLexeme, m.keepsLexeme]
  movesLine t := by rw [n.movesLine, m.movesLine]

theorem andThenErase (m : Motion) : m.andThen erase = erase := by
  simp only [andThen, erase, m.keepsLexeme]

theorem shiftAndThen (offset lines offset' lines' : Nat) :
    (shift offset lines).andThen (shift offset' lines') = shift (offset + offset') (lines + lines') := by
  simp only [andThen, shift, Nat.add_assoc]
  congr
  funext t
  simp only [Token.shift, Position.shift, Nat.add_assoc]

@[simp] theorem isOp (m : Motion) (t : Token) (op : Operator) : (m.token t).isOp op = t.isOp op :=
  keepsOp m.keepsLexeme t op

@[simp] theorem isWord (m : Motion) (t : Token) (text : String) :
    (m.token t).isWord text = t.isWord text :=
  keepsWord m.keepsLexeme t text

end Motion

def Expr.move (m : Motion) (e : Expr) : Expr := ⟨e.tokens.map m.token, e.text, m.line e.line⟩

mutual

def Stmt.move (m : Motion) : Stmt → Stmt
  | .block body => .block (moveBlock m body)
  | .assign line name value => .assign (m.line line) name (value.move m)
  | .print line value => .print (m.line line) (value.move m)
  | .branch line condition thenBody otherwise =>
    .branch (m.line line) (condition.move m) (moveBlock m thenBody) (moveOtherwise m otherwise)
  | .call line path arguments => .call (m.line line) path (arguments.map (Expr.move m))
  | .unknown line text why => .unknown (m.line line) text why

def moveBlock (m : Motion) : Block Stmt → Block Stmt
  | ⟨line, statements⟩ => ⟨m.line line, moveList m statements⟩

def moveOtherwise (m : Motion) : Option (Block Stmt) → Option (Block Stmt)
  | none => none
  | some body => some (moveBlock m body)

def moveList (m : Motion) : List Stmt → List Stmt
  | [] => []
  | s :: rest => s.move m :: moveList m rest

end

theorem Expr.moveMove (m n : Motion) (e : Expr) : (e.move m).move n = e.move (m.andThen n) := by
  simp only [Expr.move, List.map_map]
  rfl

theorem moveMove (m n : Motion) : (∀ s : Stmt, (s.move m).move n = s.move (m.andThen n)) ∧
    ∀ statements, moveList n (moveList m statements) = moveList (m.andThen n) statements := by
  have expr := Expr.moveMove m n
  apply Stmt.induction
  case block =>
    intro line statements inner
    simp only [Stmt.move, moveBlock, inner]
    rfl
  case assign =>
    intro line name value
    simp only [Stmt.move, expr]
    rfl
  case print =>
    intro line value
    simp only [Stmt.move, expr]
    rfl
  case branch =>
    intro line condition thenBody otherwise first second
    obtain ⟨opened, statements⟩ := thenBody
    simp only [Stmt.move, moveBlock, first, expr]
    cases otherwise with
    | none => rfl
    | some body =>
      obtain ⟨inner, -⟩ := second body rfl
      obtain ⟨opened, statements⟩ := body
      simp only [moveOtherwise, moveBlock, inner]
      rfl
  case call =>
    intro line path arguments
    simp only [Stmt.move, List.map_map, Function.comp_def, expr]
    rfl
  case unknown => exact fun _ _ _ => rfl
  case nil => rfl
  case cons =>
    intro s rest first others
    simp only [moveList, first, others]

theorem moveShift (offset lines : Nat) :
    (∀ s : Stmt, s.move (.shift offset lines) = s.shift offset lines) ∧
      ∀ statements, moveList (.shift offset lines) statements = shiftList offset lines statements := by
  have expr : Expr.move (.shift offset lines) = Expr.shift offset lines := rfl
  apply Stmt.induction
  case block =>
    intro line statements inner
    simp only [Stmt.move, Stmt.shift, moveBlock, shiftBlock, inner]
    rfl
  case assign => exact fun _ _ _ => rfl
  case print => exact fun _ _ => rfl
  case branch =>
    intro line condition thenBody otherwise first second
    obtain ⟨opened, statements⟩ := thenBody
    simp only [Stmt.move, Stmt.shift, moveBlock, shiftBlock, first, expr]
    cases otherwise with
    | none => rfl
    | some body =>
      obtain ⟨inner, -⟩ := second body rfl
      obtain ⟨opened, statements⟩ := body
      simp only [moveOtherwise, shiftOtherwise, moveBlock, shiftBlock, inner]
      rfl
  case call => exact fun _ _ _ => rfl
  case unknown => exact fun _ _ _ => rfl
  case nil => rfl
  case cons =>
    intro s rest first others
    simp only [moveList, shiftList, first, others]

def Agrees (source target : List Char) (m : Motion) (ts : List Token) : Prop :=
  ∀ us, us ⊆ ts → sourceText target (us.map m.token) = sourceText source us

theorem Agrees.sub {source target : List Char} {m : Motion} {ts us : List Token}
    (agrees : Agrees source target m ts) (sub : us ⊆ ts) : Agrees source target m us :=
  fun vs inside => agrees vs (fun _ member => sub (inside member))

namespace Line
variable {source target : List Char} {m : Motion}

theorem ofTokensMoved {ts us : List Token} (agrees : Agrees source target m ts) (sub : us ⊆ ts)
    (line : Nat) :
    Expr.ofTokens target (m.line line) (us.map m.token) = (Expr.ofTokens source line us).move m := by
  unfold Expr.ofTokens
  rw [agrees us sub, List.head?_map]
  cases us.head? with
  | none => rfl
  | some first => simp only [Option.map_some, Option.getD_some, m.movesLine, Expr.move]

theorem splitCommasMap (m : Motion) (depth : Nat) (ts : List Token) :
    splitCommas depth (ts.map m.token) = (splitCommas depth ts).map (List.map m.token) := by
  induction ts generalizing depth with
  | nil => rfl
  | cons t ts ih =>
    have depths : parenDepth depth (m.token t) = parenDepth depth t := by simp only [parenDepth, m.isOp]
    simp only [List.map_cons, splitCommas, ih, depths, m.isOp]
    split
    · rfl
    · cases splitCommas (parenDepth depth t) ts <;> rfl

theorem splitCommasSub (depth : Nat) (ts : List Token) : ∀ group ∈ splitCommas depth ts, group ⊆ ts := by
  induction ts generalizing depth with
  | nil => simp [splitCommas]
  | cons t ts ih =>
    rw [splitCommas]
    split
    · intro group member
      rcases List.mem_cons.mp member with rfl | later
      · simp
      · exact List.subset_cons_of_subset t (ih depth group later)
    · have inner := ih (parenDepth depth t)
      cases found : splitCommas (parenDepth depth t) ts with
      | nil => simp
      | cons first others =>
        rw [found] at inner
        intro group member
        rcases List.mem_cons.mp member with rfl | later
        · exact List.cons_subset_cons t (inner first (by simp))
        · exact List.subset_cons_of_subset t (inner group (by simp [later]))

theorem dropEmptyLastSub {α : Type} (parts : List (List α)) : dropEmptyLast parts ⊆ parts := by
  unfold dropEmptyLast
  split
  · exact List.dropLast_subset parts
  · exact List.Subset.refl parts

theorem withoutCloseParenMap (m : Motion) (ts : List Token) :
    withoutCloseParen? (ts.map m.token) = (withoutCloseParen? ts).map (List.map m.token) := by
  unfold withoutCloseParen?
  rw [List.getLast?_map]
  cases ts.getLast? with
  | none => rfl
  | some last =>
    by_cases paren : last.isOp .closeParen = true
    · simp [paren, List.map_dropLast]
    · simp [paren]

theorem withoutCloseParenSome {ts inner : List Token} (found : withoutCloseParen? ts = some inner) :
    ∃ close, ts = inner ++ [close] ∧ close.isOp .closeParen = true := by
  unfold withoutCloseParen? at found
  split at found
  · rename_i close atLast
    split at found
    · rename_i closes
      cases found
      obtain ⟨inner, rfl⟩ := List.getLast?_eq_some_iff.mp atLast
      exact ⟨close, by rw [List.dropLast_concat], closes⟩
    · contradiction
  · contradiction

theorem withoutCloseParenSub {ts inner : List Token} (found : withoutCloseParen? ts = some inner) :
    inner ⊆ ts := by
  obtain ⟨close, rfl, -⟩ := withoutCloseParenSome found
  exact List.subset_append_left inner [close]

section Statement
variable {first : Token} {others : List Token} (agrees : Agrees source target m (first :: others))
include agrees

theorem unknownMoved :
    unknown target (m.token first) (others.map m.token) = (unknown source first others).move m := by
  have text := agrees (first :: others) (List.Subset.refl _)
  simp only [unknown, Stmt.move, m.movesLine, ← List.map_cons, text]

theorem assignmentMoved :
    assignment target (m.token first) (others.map m.token) = (assignment source first others).move m := by
  have text := agrees (first :: others) (List.Subset.refl _)
  have behind : others ⊆ first :: others := List.subset_cons_self first others
  have name := agrees (others.takeWhile (!·.isOp .assign))
    (List.Subset.trans (List.takeWhile_subset _) behind)
  unfold assignment
  simp only [List.takeWhile_map, List.dropWhile_map, Function.comp_def, m.isOp, List.isEmpty_map,
    ← List.map_cons, text, name, m.movesLine]
  cases found : others.dropWhile (!·.isOp .assign) with
  | nil => simp [Stmt.move]
  | cons sign value =>
    have sub : value ⊆ first :: others := by
      have whole := List.dropWhile_subset (l := others) (!·.isOp .assign)
      rw [found] at whole
      exact List.Subset.trans (List.subset_of_cons_subset whole) behind
    simp only [List.map_cons]
    split
    · simp [Stmt.move]
    · simp only [Stmt.move, ofTokensMoved agrees sub]

theorem printingMoved :
    printing target (m.token first) (others.map m.token) = (printing source first others).move m := by
  unfold printing
  rw [← List.map_drop, withoutCloseParenMap]
  cases found : withoutCloseParen? (others.drop 1) with
  | none => exact unknownMoved agrees
  | some value =>
    have sub : value ⊆ first :: others :=
      List.Subset.trans (withoutCloseParenSub found)
        (List.Subset.trans (List.drop_subset 1 others) (List.subset_cons_self first others))
    simp only [Option.map_some, Stmt.move, m.movesLine, ofTokensMoved agrees sub]

theorem callingMoved :
    calling target (m.token first) (others.map m.token) = (calling source first others).move m := by
  have unknown := unknownMoved agrees
  unfold calling
  rw [m.keepsLexeme]
  cases kind : first.lexeme with
  | word path =>
    cases others with
    | nil => exact unknown
    | cons second inner =>
      simp only [List.map_cons, m.isOp, withoutCloseParenMap] at unknown ⊢
      split
      · cases found : withoutCloseParen? inner with
        | none => exact unknown
        | some inside =>
          have sub : inside ⊆ first :: second :: inner :=
            List.Subset.trans (withoutCloseParenSub found) (by simp)
          have groups : ∀ group ∈ argumentGroups inside, group ⊆ first :: second :: inner :=
            fun group member => List.Subset.trans
              (splitCommasSub 0 inside group (dropEmptyLastSub _ member)) sub
          simp only [Option.map_some, argumentGroups, splitCommasMap, dropEmptyLastMap, List.map_map,
            Stmt.move, m.movesLine]
          congr 1
          exact List.map_congr_left fun group member => ofTokensMoved agrees (groups group member) first.line
      · exact unknown
  | _ => exact unknown

theorem statementMoved :
    statement target (m.token first) (others.map m.token) = (statement source first others).move m := by
  have head : ((others.map m.token).head?.map (·.isOp .openParen)) =
      others.head?.map (·.isOp .openParen) := by
    cases others <;> simp
  unfold statement
  rw [head, m.isWord, m.isWord]
  by_cases isLet : first.isWord "let" = true
  · rw [if_pos isLet, if_pos isLet]
    exact assignmentMoved agrees
  · rw [if_neg isLet, if_neg isLet]
    by_cases isPrint : (first.isWord "print" &&
        (others.head?.map (·.isOp .openParen)).getD false) = true
    · rw [if_pos isPrint, if_pos isPrint]
      exact printingMoved agrees
    · rw [if_neg isPrint, if_neg isPrint]
      exact callingMoved agrees

end Statement

theorem conditionMoved {ts : List Token} (agrees : Agrees source target m ts) (line : Nat) :
    condition target (m.line line) (ts.map m.token) = (condition source line ts).move m := by
  have whole := ofTokensMoved agrees (List.Subset.refl _) line
  cases ts with
  | nil => exact whole
  | cons first others =>
    simp only [List.map_cons] at whole
    simp only [condition, List.map_cons, m.isOp, withoutCloseParenMap]
    cases first.isOp .openParen with
    | false => exact whole
    | true =>
      cases found : withoutCloseParen? others with
      | none => exact whole
      | some inner =>
        have sub : inner ⊆ first :: others :=
          List.Subset.trans (withoutCloseParenSub found) (List.subset_cons_self first others)
        exact ofTokensMoved agrees sub line

end Line
end LineScript
