import LineScript.Proofs.Script.Levels
import LineScript.Proofs.Script.Spaced

/-! Parentheses that are dropped around an expression. Only the first and the last token of what is
cut out for it are looked at, so they may belong to two pairs; that is the one way in which tokens
with balanced parentheses become an expression without. -/
namespace LineScript
namespace Line

def openParens : Nat → List Token → Option Nat
  | depth, [] => some depth
  | depth, t :: ts =>
    if t.isOp .closeParen && depth == 0 then none else openParens (parenDepth depth t) ts

def Balanced (ts : List Token) : Prop := openParens 0 ts = some 0

instance (ts : List Token) : Decidable (Balanced ts) := inferInstanceAs (Decidable (_ = _))

/- Tokens that begin and end with a parenthesis, where the first one is closed before the last. -/
def PairApart (ts : List Token) : Prop :=
  ∃ first front back last, ts = first :: (front ++ back ++ [last]) ∧
    first.isOp .openParen = true ∧ last.isOp .closeParen = true ∧ Balanced (first :: front)

section Scan
variable {depth : Nat} {t : Token}

theorem openParensAppend (depth : Nat) (xs ys : List Token) :
    openParens depth (xs ++ ys) = (openParens depth xs).bind (openParens · ys) := by
  induction xs generalizing depth with
  | nil => rfl
  | cons x xs ih =>
    rw [List.cons_append, openParens, openParens]
    split
    · rfl
    · exact ih _

theorem openParensOpen (opens : t.isOp .openParen = true) (depth : Nat) (ts : List Token) :
    openParens depth (t :: ts) = openParens (depth + 1) ts := by
  have other : t.isOp .closeParen = false := by
    simp only [Token.isOp, beq_iff_eq] at opens
    simp [Token.isOp, opens]
  rw [openParens, other, parenDepth, if_pos opens]
  rfl

theorem openParensWord {text : String} (word : t.isWord text = true) (depth : Nat) (ts : List Token) :
    openParens depth (t :: ts) = openParens depth ts := by
  simp only [Token.isWord, beq_iff_eq] at word
  simp [openParens, parenDepth, Token.isOp, word]

theorem openParensClose (closes : t.isOp .closeParen = true) (depth : Nat) :
    openParens depth [t] = some 0 ↔ depth = 1 := by
  have other : t.isOp .openParen = false := by
    simp only [Token.isOp, beq_iff_eq] at closes
    simp [Token.isOp, closes]
  cases depth with
  | zero => simp [openParens, closes]
  | succ depth => simp [openParens, parenDepth, closes, other]

theorem openParensDeeper {ts : List Token} {after : Nat} (opened : openParens depth ts = some after)
    (more : Nat) : openParens (depth + more) ts = some (after + more) := by
  induction ts generalizing depth with
  | nil =>
    cases opened
    rfl
  | cons t ts ih =>
    rw [openParens] at opened ⊢
    split at opened
    · contradiction
    · rename_i goesOn
      have deeper : parenDepth (depth + more) t = parenDepth depth t + more := by
        simp only [parenDepth, Bool.and_eq_true, beq_iff_eq, not_and] at goesOn ⊢
        split
        · omega
        · split
          · have := goesOn ‹_›
            omega
          · rfl
      have still : ¬(t.isOp .closeParen && depth + more == 0) = true := by
        simp only [Bool.and_eq_true, beq_iff_eq, not_and] at goesOn ⊢
        intro closes
        have := goesOn closes
        omega
      rw [if_neg still, deeper]
      exact ih opened

theorem openParensFails {ts : List Token} (fails : openParens depth ts = none) :
    ∃ front close back, ts = front ++ close :: back ∧ close.isOp .closeParen = true ∧
      openParens depth front = some 0 := by
  induction ts generalizing depth with
  | nil => cases fails
  | cons t ts ih =>
    rw [openParens] at fails
    split at fails
    · rename_i stray
      rw [Bool.and_eq_true, beq_iff_eq] at stray
      exact ⟨[], t, ts, rfl, stray.1, by rw [openParens, stray.2]⟩
    · rename_i goesOn
      obtain ⟨front, close, back, rfl, closes, opened⟩ := ih fails
      exact ⟨t :: front, close, back, rfl, closes, by rw [openParens, if_neg goesOn, opened]⟩

end Scan

def Encloses (ts inner : List Token) : Prop :=
  ∃ opening close, ts = opening :: (inner ++ [close]) ∧ opening.isOp .openParen = true ∧
    close.isOp .closeParen = true

theorem enclosesOf {opening : Token} {others inner : List Token} (opens : opening.isOp .openParen = true)
    (found : withoutCloseParen? others = some inner) : Encloses (opening :: others) inner := by
  obtain ⟨close, rfl, closes⟩ := withoutCloseParenSome found
  exact ⟨opening, close, rfl, opens, closes⟩

theorem Encloses.balanced {ts inner : List Token} (encloses : Encloses ts inner) (balanced : Balanced ts) :
    Balanced inner ↔ ¬PairApart ts := by
  obtain ⟨opening, close, rfl, opens, closes⟩ := encloses
  have opened : openParens 1 inner = some 1 := by
    rw [Balanced, openParensOpen opens, openParensAppend] at balanced
    obtain ⟨after, opened, ends⟩ := Option.bind_eq_some_iff.mp balanced
    rw [opened, (openParensClose closes after).mp ends]
  constructor
  · rintro within ⟨first, front, back, last, same, -, -, paired⟩
    obtain ⟨rfl, behind⟩ := List.cons.inj same
    obtain ⟨rfl, -⟩ := List.append_inj' behind rfl
    rw [Balanced, openParensAppend] at within
    obtain ⟨after, reached, -⟩ := Option.bind_eq_some_iff.mp within
    rw [Balanced, openParensOpen opens, openParensDeeper reached 1] at paired
    simp at paired
  · intro one
    cases reached : openParens 0 inner with
    | some after =>
      have deeper := openParensDeeper reached 1
      rw [Nat.zero_add, opened] at deeper
      simpa [Balanced, reached] using deeper.symm
    | none =>
      obtain ⟨front, partner, back, rfl, partnerCloses, settled⟩ := openParensFails reached
      refine absurd ⟨opening, front ++ [partner], back, close, by simp, opens, closes, ?_⟩ one
      rw [Balanced, openParensOpen opens, openParensAppend, openParensDeeper settled 1]
      exact (openParensClose partnerCloses 1).mpr rfl

theorem pairApartBehind {opening : Token} {others : List Token} (apart : PairApart (opening :: others)) :
    opening.isOp .openParen = true ∧ ∃ inner, withoutCloseParen? others = some inner := by
  obtain ⟨first, front, back, last, same, opens, closes, -⟩ := apart
  obtain ⟨rfl, rfl⟩ := List.cons.inj same
  refine ⟨opens, front ++ back, ?_⟩
  rw [withoutCloseParen?, List.getLast?_concat]
  simp [closes]

theorem conditionBalanced (source : List Char) (line : Nat) {run : List Token} (balanced : Balanced run) :
    Balanced (condition source line run).tokens ↔ ¬PairApart run := by
  cases run with
  | nil =>
    refine iff_of_true balanced ?_
    rintro ⟨first, front, back, last, same, -⟩
    contradiction
  | cons first others =>
    simp only [condition]
    split
    · rename_i inner opens found
      exact (enclosesOf opens found).balanced balanced
    · rename_i kept
      refine iff_of_true balanced fun apart => ?_
      obtain ⟨opens, inner, found⟩ := pairApartBehind apart
      exact kept inner opens found

theorem splitCommasBalanced (depth : Nat) (ts : List Token) :
    ∃ first others, splitCommas depth ts = first :: others ∧
      (openParens depth ts = some 0 ↔ openParens depth first = some 0 ∧ ∀ group ∈ others, Balanced group) := by
  induction ts generalizing depth with
  | nil => exact ⟨[], [], rfl, by simp⟩
  | cons t ts ih =>
    rw [splitCommas]
    split
    · rename_i comma
      rw [Bool.and_eq_true, beq_iff_eq] at comma
      obtain ⟨isComma, rfl⟩ := comma
      obtain ⟨first, others, parts, balanced⟩ := ih 0
      refine ⟨[], splitCommas 0 ts, rfl, ?_⟩
      have passed : openParens 0 (t :: ts) = openParens 0 ts := by
        simp only [Token.isOp, beq_iff_eq] at isComma
        simp [openParens, parenDepth, Token.isOp, isComma]
      rw [passed, balanced, parts, List.forall_mem_cons]
      exact ⟨fun each => ⟨rfl, each⟩, fun each => each.2⟩
    · obtain ⟨first, others, parts, balanced⟩ := ih (parenDepth depth t)
      rw [parts]
      refine ⟨t :: first, others, rfl, ?_⟩
      rw [openParens, openParens]
      split
      · simp
      · exact balanced

theorem groupsBalanced (ts : List Token) : (∀ group ∈ argumentGroups ts, Balanced group) ↔ Balanced ts := by
  obtain ⟨first, others, parts, balanced⟩ := splitCommasBalanced 0 ts
  have all : (∀ group ∈ splitCommas 0 ts, Balanced group) ↔ Balanced ts := by
    rw [parts, List.forall_mem_cons]
    exact balanced.symm
  rw [← all, argumentGroups, dropEmptyLast]
  split
  · rename_i empty
    obtain ⟨groups, same⟩ := List.getLast?_eq_some_iff.mp empty
    rw [same, List.dropLast_concat, List.forall_mem_append]
    have nothing : ∀ group ∈ [([] : List Token)], Balanced group := by simp [Balanced, openParens]
    exact ⟨fun each => ⟨each, nothing⟩, fun each => each.1⟩
  · rfl

end Line

def Stmt.enclosed? : Stmt → Option (List Expr)
  | .branch _ condition _ _ => some [condition]
  | .print _ value => some [value]
  | .call _ _ arguments => some arguments
  | _ => none

namespace Line

section Statement
variable {source : List Char} {first : Token} {others : List Token} {es : List Expr}

theorem printingEnclosed (isOpen : (others.head?.map (·.isOp .openParen)).getD false = true)
    (enclosed : (printing source first others).enclosed? = some es) :
    ∃ inner, Encloses others inner ∧ ((∀ e ∈ es, Balanced e.tokens) ↔ Balanced inner) := by
  unfold printing at enclosed
  split at enclosed
  · rename_i value found
    cases enclosed
    cases others with
    | nil => contradiction
    | cons opening rest => exact ⟨value, enclosesOf isOpen found, List.forall_mem_singleton⟩
  · contradiction

theorem callingEnclosed (enclosed : (calling source first others).enclosed? = some es) :
    (∃ path, first.isWord path = true) ∧
      ∃ inner, Encloses others inner ∧ ((∀ e ∈ es, Balanced e.tokens) ↔ Balanced inner) := by
  unfold calling at enclosed
  split at enclosed
  · rename_i path opening rest kind
    split at enclosed
    · rename_i opens
      split at enclosed
      · rename_i inner found
        cases enclosed
        refine ⟨⟨path, by simp [Token.isWord, kind]⟩, inner, enclosesOf opens found, ?_⟩
        rw [← groupsBalanced, List.forall_mem_map]
        rfl
      · contradiction
    · contradiction
  · contradiction

theorem statementEnclosed (enclosed : (statement source first others).enclosed? = some es) :
    (∃ text, first.isWord text = true) ∧
      ∃ inner, Encloses others inner ∧ ((∀ e ∈ es, Balanced e.tokens) ↔ Balanced inner) := by
  unfold statement at enclosed
  split at enclosed
  · unfold assignment at enclosed
    dsimp only at enclosed
    split at enclosed
    · contradiction
    · split at enclosed <;> contradiction
  · split at enclosed
    · rename_i isPrint
      rw [Bool.and_eq_true] at isPrint
      exact ⟨⟨_, isPrint.1⟩, printingEnclosed isPrint.2 enclosed⟩
    · exact callingEnclosed enclosed

theorem statementBalanced (enclosed : (statement source first others).enclosed? = some es)
    (balanced : Balanced (first :: others)) : (∀ e ∈ es, Balanced e.tokens) ↔ ¬PairApart others := by
  obtain ⟨⟨text, word⟩, inner, encloses, each⟩ := statementEnclosed enclosed
  rw [Balanced, openParensWord word] at balanced
  exact each.trans (encloses.balanced balanced)

end Statement
end Line

structure Collected (source : List Char) (run : List Token) : Prop where
  inside : ∀ t ∈ run, t.insideStatement = true
  whole : ∃ before behind, tokens source = before ++ (run ++ behind) ∧
    ∀ t, behind.head? = some t → t.insideStatement = false

inductive Cut (source : List Char) : Stmt → List Token → List Token → Prop where
  | line {first others} (collected : Collected source (first :: others)) :
      Cut source (Line.statement source first others) (first :: others) others
  | branch {line run thenBody otherwise} (collected : Collected source run) :
      Cut source (.branch line (Line.condition source line run) thenBody otherwise) run run

def Stmt.FromRun (source : List Char) (s : Stmt) : Prop :=
  (∃ body, s = .block body) ∨ ∃ run behind, Cut source s run behind

theorem collectedRun {source : List Char} {ts : List Token} (suffix : ts <:+ tokens source) :
    Collected source (ts.takeWhile Token.insideStatement) := by
  obtain ⟨before, whole⟩ := suffix
  refine ⟨Parser.lineInside ts, before, ts.dropWhile Token.insideStatement, ?_, fun t head => ?_⟩
  · rw [List.takeWhile_append_dropWhile, whole]
  · have outside := List.head?_dropWhile_not Token.insideStatement ts
    rw [head] at outside
    simpa using outside

theorem cutBalanced {source : List Char} {s : Stmt} {run behind : List Token} {es : List Expr}
    (cut : Cut source s run behind) (enclosed : s.enclosed? = some es) (balanced : Line.Balanced run) :
    (∀ e ∈ es, Line.Balanced e.tokens) ↔ ¬Line.PairApart behind := by
  cases cut with
  | line collected => exact Line.statementBalanced enclosed balanced
  | branch collected =>
    cases enclosed
    rw [List.forall_mem_singleton]
    exact Line.conditionBalanced source _ balanced

namespace Parser

def Product.FromRuns (source : List Char) : Product → Prop
  | .statements value => Everywhere (fun _ => Stmt.FromRun source) value
  | .statement value => Everywhere (fun _ => Stmt.FromRun source) [value]
  | .block value => Everywhere (fun _ => Stmt.FromRun source) value.statements
  | .body value => Everywhere (fun _ => Stmt.FromRun source) value.block.statements

theorem readingCut {source : List Char} {room : Nat} {task : Task} {ts : List Token} {summary : Summary}
    (reading : Reading source room task ts summary) (within : task.Within (tokens source) ts) :
    summary.product.FromRuns source := by
  induction reading with
  | finish room scope => exact everywhereNil
  | newline isNewline next ih => exact ih ((List.suffix_cons _ _).trans within)
  | stray inLine brace next ih => exact ih ((List.suffix_cons _ _).trans within)
  | close inLine brace => exact everywhereNil
  | leave inLine brace => exact everywhereNil
  | step inLine brace first others firstIh othersIh =>
    have left := ((readingSuffix first).trans (List.suffix_cons _ _)).trans within
    exact everywhereCons (firstIh ⟨inLine, brace, within⟩) (othersIh left)
  | block brace inner ih =>
    exact everywhereBlock (.inl ⟨_, rfl⟩) (ih ((List.suffix_cons _ _).trans within.2.2))
  | branching brace word inner ih => exact ih ((List.suffix_cons _ _).trans within.2.2)
  | @line room t ts brace word =>
    have inside : t.insideStatement = true := by
      simp [Token.insideStatement, within.1, within.2.1, brace]
    have collected := collectedRun within.2.2
    rw [List.takeWhile_cons, if_pos inside] at collected
    exact everywhereLine (Line.statementIsLine _ _ _) (.inr ⟨_, _, .line collected⟩)
  | skipUnclosed none => exact everywhereNil
  | skipBraced found => exact everywhereNil
  | enterBraced inner ih => exact ih within
  | skipBare line ts => exact everywhereNil
  | enterBare inner ih => exact ih within
  | bracedBody found inner ih => exact ih ((behindOpenBrace found).trans within)
  | bareBody missing inner ih => exact ih ((List.dropWhile_suffix _).trans within)
  | alone inner ends ih =>
    have body := ih ((List.dropWhile_suffix _).trans within)
    exact everywhereBranch (.inr ⟨_, _, .branch (collectedRun within)⟩) body (by simp) (by simp)
  | link inner braced isElse isIf next firstIh nextIh =>
    have left := (List.dropWhile_suffix Token.insideStatement).trans within
    have chain := nextIh (((takeWordSuffix isIf).trans (behindElse inner isElse)).trans within)
    refine everywhereBranch (.inr ⟨_, _, .branch (collectedRun within)⟩) (firstIh left) ?_ ?_
    · rintro _ ⟨⟩ -
      exact chain
    · rintro _ ⟨⟩ -
      exact chain
  | otherwise inner braced isElse noIf next firstIh nextIh =>
    have left := (List.dropWhile_suffix Token.insideStatement).trans within
    have chain := nextIh ((behindElse inner isElse).trans within)
    refine everywhereBranch (.inr ⟨_, _, .branch (collectedRun within)⟩) (firstIh left) ?_ ?_
    · rintro _ ⟨⟩ -
      exact chain
    · rintro _ ⟨⟩ -
      exact chain

end Parser

theorem programCut (source : List Char) :
    Everywhere (fun _ => Stmt.FromRun source) (parse source).statements :=
  Parser.readingCut (Parser.readProgram source maxNesting) (List.suffix_refl _)

/- Expressions of tokens with balanced parentheses have balanced parentheses, unless the two that were
dropped do not belong together. -/
theorem balancedUnlessApart {source : List Char} {depth : Nat} {s : Stmt} {es : List Expr}
    (stands : Stands depth s (parse source).statements) (enclosed : s.enclosed? = some es) :
    (∃ run behind, Cut source s run behind) ∧
      ∀ run behind, Cut source s run behind → Line.Balanced run →
        ((∀ e ∈ es, Line.Balanced e.tokens) ↔ ¬Line.PairApart behind) := by
  constructor
  · rcases programCut source depth s stands with ⟨body, rfl⟩ | found
    · cases enclosed
    · exact found
  · exact fun run behind cut balanced => cutBalanced cut enclosed balanced

def twoPairs : List Char := "if (1) == (1) \x7b\x7d".toList

section TwoPairs

def onFirstLine (offset : Nat) (l : Lexeme) : Token := ⟨l, ⟨offset, 1, offset + 1⟩⟩

def twoPairsRun : List Token :=
  [onFirstLine 3 (.op .openParen), onFirstLine 4 (.word "1"), onFirstLine 5 (.op .closeParen),
    onFirstLine 7 (.op .equal), onFirstLine 10 (.op .openParen), onFirstLine 11 (.word "1"),
    onFirstLine 12 (.op .closeParen)]

def emptyBody : List Token := [onFirstLine 14 (.op .openBrace), onFirstLine 15 (.op .closeBrace)]

def twoPairsBranch : Stmt := .branch 1 (Line.condition twoPairs 1 twoPairsRun) ⟨1, []⟩ none

theorem twoPairsTokens : tokens twoPairs = onFirstLine 0 (.word "if") :: (twoPairsRun ++ emptyBody) := by
  decide +kernel

theorem twoPairsStands : Stands 0 twoPairsBranch (parse twoPairs).statements := by
  have body : Parser.Reading twoPairs 100 (.body .condition 1) emptyBody ⟨.body ⟨⟨1, []⟩, true⟩, [], []⟩ :=
    .bracedBody rfl (.enterBraced (.close rfl rfl))
  have branch : Parser.Reading twoPairs 100 (.branch 1) (twoPairsRun ++ emptyBody) _ := .alone body (.inr rfl)
  have whole : Parser.Reading twoPairs 100 (.statements .top) (tokens twoPairs)
      ⟨.statements [twoPairsBranch], [], []⟩ := by
    rw [twoPairsTokens]
    exact .step rfl rfl (.branching (t := onFirstLine 0 (.word "if")) rfl rfl branch) (.finish _ _)
  rw [Parser.parseOfReading whole]
  exact .here (List.mem_singleton_self _)

theorem twoPairsCut : Cut twoPairs twoPairsBranch twoPairsRun twoPairsRun :=
  .branch ⟨by decide, [onFirstLine 0 (.word "if")], emptyBody, twoPairsTokens, by decide⟩

theorem twoPairsApart : ∃ es, Stands 0 twoPairsBranch (parse twoPairs).statements ∧
    twoPairsBranch.enclosed? = some es ∧ Line.Balanced twoPairsRun ∧ Line.PairApart twoPairsRun := by
  have balanced : Line.Balanced twoPairsRun := by decide
  refine ⟨_, twoPairsStands, rfl, balanced, Classical.byContradiction fun one => ?_⟩
  have each := (balancedUnlessApart twoPairsStands rfl).2 _ _ twoPairsCut balanced
  exact absurd (List.forall_mem_singleton.mp (each.mpr one)) (by decide)

theorem twoPairsDropped : ¬∀ source depth s es, Stands depth s (parse source).statements →
    s.enclosed? = some es → ∀ run behind, Cut source s run behind → Line.Balanced run →
      ∀ e ∈ es, Line.Balanced e.tokens := by
  intro kept
  have each := kept twoPairs 0 twoPairsBranch _ twoPairsStands rfl _ _ twoPairsCut (by decide)
  exact absurd (List.forall_mem_singleton.mp each) (by decide)

end TwoPairs

end LineScript
