import Mathlib.Data.List.Flatten
import LineScript.Proofs.Script.Expressions
import LineScript.Proofs.Script.Lossless

/-! Expressions as slices of the source. Listed from the front of the tree, each is made of tokens that
stand behind those of the one before, and the lines of statements and blocks never go back. -/
namespace LineScript
open Lexer

mutual

def Stmt.preorder : Stmt → List Stmt
  | .block body => blockPreorder body
  | .branch line condition thenBody otherwise =>
    .branch line condition thenBody otherwise :: (blockPreorder thenBody ++ otherwisePreorder otherwise)
  | s => [s]

def blockPreorder : Block Stmt → List Stmt
  | ⟨line, statements⟩ => .block ⟨line, statements⟩ :: listPreorder statements

def otherwisePreorder : Option (Block Stmt) → List Stmt
  | none => []
  | some body => blockPreorder body

def listPreorder : List Stmt → List Stmt
  | [] => []
  | s :: rest => s.preorder ++ listPreorder rest

end

def Program.preorder (p : Program) : List Stmt := blockPreorder ⟨1, p.statements⟩

theorem preorderOfLine {s : Stmt} (isLine : s.isLine = true) : s.preorder = [s] := by
  cases s with
  | block body | branch line condition thenBody otherwise => contradiction
  | _ => simp [Stmt.preorder]

structure Expr.Slice (source : List Char) (line : Nat) (e : Expr) : Prop where
  run : e.tokens <:+: LineScript.tokens source
  inside : ∀ t ∈ e.tokens, t.insideStatement = true
  single : ∀ t ∈ e.tokens, t.line = e.line
  text : ∀ first last, e.tokens.head? = some first → e.tokens.getLast? = some last →
    e.text.toList = source.extract first.offset last.stop
  empty : e.tokens = [] → e.text = "" ∧ e.line = line

def Token.Before (s t : Token) : Prop := s.offset < t.offset ∧ s.stop ≤ t.offset

def Expr.Before (e f : Expr) : Prop := ∀ s ∈ e.tokens, ∀ t ∈ f.tokens, s.Before t

section Tokens

theorem placeInline {xs : List Segment} (inline : Inline xs) (p : Position) :
    ∀ t ∈ (place p xs).1, t.line = p.line := by
  induction inline generalizing p with
  | nil => nofun
  | blank isBlank next ih => exact ih _
  | literal noQuote next ih => exact List.forall_mem_cons.mpr ⟨rfl, ih _⟩
  | op operator next ih => exact List.forall_mem_cons.mpr ⟨rfl, ih _⟩
  | word plain next ih => exact List.forall_mem_cons.mpr ⟨rfl, ih _⟩
  | unclosed noQuote ends => exact List.forall_mem_singleton.mpr rfl

theorem ofTokensSlice {source : List Char} {run : List Token} (within : run <:+: tokens source)
    (inside : ∀ t ∈ run, t.insideStatement = true) (line : Nat) :
    (Expr.ofTokens source line run).Slice source line where
  run := within
  inside := inside
  single := by
    cases run with
    | nil => nofun
    | cons first others =>
      obtain ⟨xs, inline, -, spans, -⟩ := inlineRun within fun t member => Parser.insideInLine (inside t member)
      have onLine := placeInline inline first.position
      rw [spans] at onLine
      exact onLine
  text first last head ends := by
    have same : run.head? = some first ∧ run.getLast? = some last := ⟨head, ends⟩
    simp only [Expr.ofTokens, sourceText, same, String.toList_ofList]
  empty none := by
    obtain rfl : run = [] := none
    exact ⟨rfl, rfl⟩

theorem tokensBefore (source : List Char) : (tokens source).Pairwise Token.Before := by
  refine List.Pairwise.imp_of_mem (fun first second stops => ?_) (placeOrdered .start)
  exact ⟨Nat.lt_of_lt_of_le (tokenNonempty first) stops, stops⟩

theorem lineOfToken {source : List Char} {t : Token} (member : t ∈ tokens source) :
    t.line = 1 + (source.take t.offset).count '\n' := by
  rw [Token.line, positionOfToken member]
  rfl

theorem linesRise (source : List Char) : (tokens source).Pairwise fun s t => s.line ≤ t.line := by
  refine List.Pairwise.imp_of_mem (fun first second before => ?_) (tokensBefore source)
  rw [lineOfToken first, lineOfToken second]
  have front := (List.take_prefix_take_left (l := source) (Nat.le_of_lt before.1)).sublist
  exact Nat.add_le_add_left (front.count_le _) 1

theorem lineWithin {source : List Char} {t : Token} (member : t ∈ tokens source) :
    1 ≤ t.line ∧ t.line ≤ lineCount source := by
  rw [lineOfToken member, lineCountNewlines]
  have front := (List.take_prefix t.offset source).sublist.count_le '\n'
  omega

end Tokens

def Stmt.CutFrom (source : List Char) (ts : List Token) (s : Stmt) : Prop :=
  ∃ runs : List (List Token), s.expressions = runs.map (.ofTokens source s.line) ∧ runs.flatten.Sublist ts ∧
    ∀ run ∈ runs, run <:+: ts

section Cut
variable {source : List Char} {ts : List Token} {s : Stmt}

theorem cutNone (none : s.expressions = []) : s.CutFrom source ts :=
  ⟨[], none, List.nil_sublist _, nofun⟩

theorem cutOne {run : List Token} (one : s.expressions = [.ofTokens source s.line run]) (within : run <:+: ts) :
    s.CutFrom source ts :=
  ⟨[run], one, by simpa using within.sublist, List.forall_mem_singleton.mpr within⟩

theorem cutInOrder (cut : s.CutFrom source ts) : (s.expressions.flatMap Expr.tokens).Sublist ts := by
  obtain ⟨runs, same, ordered, -⟩ := cut
  rw [same, List.flatMap_map]
  rwa [← List.flatMap_id'] at ordered

end Cut

namespace Line

theorem splitCommasSublist (depth : Nat) (ts : List Token) : (splitCommas depth ts).flatten.Sublist ts := by
  induction ts generalizing depth with
  | nil => exact List.Sublist.refl _
  | cons t ts ih =>
    rw [splitCommas]
    split
    · exact (ih depth).cons t
    · obtain ⟨first, others, parts, -⟩ := splitCommasInfix (parenDepth depth t) ts
      have inner := ih (parenDepth depth t)
      rw [parts] at inner ⊢
      exact inner.cons_cons t

theorem groupsSublist (ts : List Token) : (argumentGroups ts).flatten.Sublist ts := by
  refine List.Sublist.trans (List.Sublist.flatten ?_) (splitCommasSublist 0 ts)
  unfold argumentGroups dropEmptyLast
  split
  · exact List.dropLast_sublist _
  · exact List.Sublist.refl _

section Statement
variable (source : List Char) (first : Token) (others : List Token)

theorem assignmentCut : (assignment source first others).CutFrom source others ∧
    (assignment source first others).line = first.line := by
  unfold assignment
  dsimp only
  split
  · exact ⟨cutNone rfl, rfl⟩
  · rename_i sign value found
    split
    · exact ⟨cutNone rfl, rfl⟩
    · have suffix : sign :: value <:+ others := found ▸ List.dropWhile_suffix _
      exact ⟨cutOne rfl ((List.suffix_cons sign value).trans suffix).isInfix, rfl⟩

theorem printingCut : (printing source first others).CutFrom source others ∧
    (printing source first others).line = first.line := by
  unfold printing
  split
  · rename_i value found
    exact ⟨cutOne rfl ((withoutCloseParenInfix found).trans (List.drop_suffix 1 others).isInfix), rfl⟩
  · exact ⟨cutNone rfl, rfl⟩

theorem callingCut : (calling source first others).CutFrom source others ∧
    (calling source first others).line = first.line := by
  unfold calling
  split
  · rename_i path opening inner kind
    split
    · split
      · rename_i arguments found
        have within : arguments <:+: opening :: inner :=
          (withoutCloseParenInfix found).trans (List.suffix_cons opening inner).isInfix
        exact ⟨⟨argumentGroups arguments, rfl, (groupsSublist arguments).trans within.sublist,
          fun group member => (groupsInfix arguments group member).trans within⟩, rfl⟩
      · exact ⟨cutNone rfl, rfl⟩
    · exact ⟨cutNone rfl, rfl⟩
  · exact ⟨cutNone rfl, rfl⟩

theorem statementCut : (statement source first others).CutFrom source others ∧
    (statement source first others).line = first.line := by
  unfold statement
  split
  · exact assignmentCut source first others
  · split
    · exact printingCut source first others
    · exact callingCut source first others

theorem conditionCut (line : Nat) (ts : List Token) (thenBody : Block Stmt) (otherwise : Option (Block Stmt)) :
    (Stmt.branch line (condition source line ts) thenBody otherwise).CutFrom source ts := by
  cases ts with
  | nil => exact cutOne rfl (List.infix_refl _)
  | cons first others =>
    simp only [condition]
    split
    · rename_i inner opens found
      exact cutOne rfl ((withoutCloseParenInfix found).trans (List.suffix_cons first others).isInfix)
    · exact cutOne rfl (List.infix_refl _)

end Statement
end Line

/- The expressions of a statement are cut out of a run among some tokens that no line break and no brace
interrupts. -/
def Stmt.CutWithin (source : List Char) (ts : List Token) (s : Stmt) : Prop :=
  ∃ run, s.CutFrom source run ∧ run <:+: ts ∧ ∀ t ∈ run, t.insideStatement = true

theorem Stmt.CutWithin.within {source : List Char} {ts us : List Token} {s : Stmt} (cut : s.CutWithin source ts)
    (within : ts <:+: us) : s.CutWithin source us := by
  obtain ⟨run, here, among, inside⟩ := cut
  exact ⟨run, here, among.trans within, inside⟩

namespace Parser

structure Lists (source : List Char) (lines : List Nat) (used : List Token) (nodes : List Stmt) : Prop where
  cuts : ∀ s ∈ nodes, s.CutWithin source used
  order : ((nodes.flatMap Stmt.expressions).flatMap Expr.tokens).Sublist used
  lines : (nodes.map Stmt.line).Sublist (lines ++ used.flatMap fun t => [t.line, t.line])

def Listed (source : List Char) (lines : List Nat) (ts rest : List Token) (nodes : List Stmt) : Prop :=
  ∃ used, ts = used ++ rest ∧ Lists source lines used nodes

section Listed
variable {source : List Char} {lines more : List Nat} {ts middle rest : List Token} {xs ys : List Stmt}

theorem listedNone (suffix : rest <:+ ts) : Listed source lines ts rest [] := by
  obtain ⟨used, same⟩ := suffix
  exact ⟨used, same.symm, nofun, List.nil_sublist _, List.nil_sublist _⟩

theorem Listed.widen (listed : Listed source lines ts rest xs) (sub : lines.Sublist more) :
    Listed source more ts rest xs := by
  obtain ⟨used, same, lists⟩ := listed
  exact ⟨used, same, lists.cuts, lists.order, lists.lines.trans (sub.append_right _)⟩

theorem Listed.skip (listed : Listed source lines ts rest xs) {all : List Token} (suffix : ts <:+ all) :
    Listed source lines all rest xs := by
  obtain ⟨used, rfl, lists⟩ := listed
  obtain ⟨front, rfl⟩ := suffix
  refine ⟨front ++ used, (List.append_assoc _ _ _).symm, fun s member => ?_, ?_, ?_⟩
  · exact (lists.cuts s member).within (List.suffix_append front used).isInfix
  · exact lists.order.trans (List.sublist_append_right _ _)
  · rw [List.flatMap_append]
    exact lists.lines.trans ((List.sublist_append_right _ _).append_left _)

theorem Listed.append (first : Listed source lines ts middle xs) (others : Listed source [] middle rest ys) :
    Listed source lines ts rest (xs ++ ys) := by
  obtain ⟨used, rfl, left⟩ := first
  obtain ⟨later, rfl, right⟩ := others
  refine ⟨used ++ later, (List.append_assoc _ _ _).symm, List.forall_mem_append.mpr ⟨?_, ?_⟩, ?_, ?_⟩
  · exact fun s member => (left.cuts s member).within (List.prefix_append used later).isInfix
  · exact fun s member => (right.cuts s member).within (List.suffix_append used later).isInfix
  · rw [List.flatMap_append, List.flatMap_append]
    exact left.order.append right.order
  · rw [List.map_append, List.flatMap_append, ← List.append_assoc]
    exact left.lines.append right.lines

theorem Listed.token {t : Token} (listed : Listed source lines ts rest xs) (sub : lines.Sublist [t.line, t.line]) :
    Listed source [] (t :: ts) rest xs := by
  obtain ⟨used, rfl, lists⟩ := listed
  refine ⟨t :: used, rfl, fun s member => ?_, lists.order.cons t, lists.lines.trans (sub.append_right _)⟩
  exact (lists.cuts s member).within (List.suffix_cons t used).isInfix

theorem Listed.node {s : Stmt} {run : List Token} (listed : Listed source lines ts rest xs)
    (cut : s.CutFrom source run) (inside : ∀ t ∈ run, t.insideStatement = true) :
    Listed source (s.line :: lines) (run ++ ts) rest (s :: xs) := by
  obtain ⟨used, rfl, lists⟩ := listed
  refine ⟨run ++ used, (List.append_assoc _ _ _).symm, List.forall_mem_cons.mpr ⟨?_, fun t member => ?_⟩, ?_, ?_⟩
  · exact ⟨run, cut, (List.prefix_append run used).isInfix, inside⟩
  · exact (lists.cuts t member).within (List.suffix_append run used).isInfix
  · rw [List.flatMap_cons, List.flatMap_append]
    exact (cutInOrder cut).append lists.order
  · rw [List.map_cons, List.flatMap_append]
    exact (lists.lines.trans ((List.sublist_append_right _ _).append_left _)).cons_cons s.line

theorem Listed.block (listed : Listed source [] ts rest (listPreorder xs)) (line : Nat) :
    Listed source [line] ts rest (blockPreorder ⟨line, xs⟩) := by
  rw [blockPreorder]
  exact @Listed.node _ _ _ _ _ (.block ⟨line, xs⟩) [] listed (cutNone rfl) nofun

theorem listedEmpty (suffix : rest <:+ ts) (line : Nat) : Listed source [line] ts rest (blockPreorder ⟨line, []⟩) := by
  have none := @listedNone source [] ts rest suffix
  rw [← listPreorder] at none
  exact none.block line

theorem listedLine (t : Token) (ts : List Token) :
    Listed source [] (t :: ts) (ts.dropWhile Token.insideStatement)
      (Line.statement source t (ts.takeWhile Token.insideStatement)).preorder := by
  obtain ⟨cut, line⟩ := Line.statementCut source t (ts.takeWhile Token.insideStatement)
  have none := @listedNone source [] _ _ (List.suffix_refl (ts.dropWhile Token.insideStatement))
  have here := none.node cut (lineInside ts)
  rw [List.takeWhile_append_dropWhile, line] at here
  rw [preorderOfLine (Line.statementIsLine _ _ _)]
  exact here.token (List.sublist_append_left [t.line] [t.line])

theorem Listed.branch {line : Nat} {thenBody : Block Stmt} {otherwise : Option (Block Stmt)}
    (bodies : Listed source [line] (ts.dropWhile Token.insideStatement) rest
      (blockPreorder thenBody ++ otherwisePreorder otherwise)) :
    Listed source [line, line] ts rest (Stmt.preorder (.branch line
      (Line.condition source line (ts.takeWhile Token.insideStatement)) thenBody otherwise)) := by
  have cut := Line.conditionCut source line (ts.takeWhile Token.insideStatement) thenBody otherwise
  have here := bodies.node cut (lineInside ts)
  rw [List.takeWhile_append_dropWhile] at here
  rw [Stmt.preorder]
  exact here

end Listed

def Product.nodes : Product → List Stmt
  | .statements value => listPreorder value
  | .statement value => value.preorder
  | .block value => blockPreorder value
  | .body value => blockPreorder value.block

def Task.lines : Task → List Nat
  | .braced line => [line]
  | .bare line => [line]
  | .body _ line => [line]
  | .branch line => [line, line]
  | _ => []

def Task.given (ts : List Token) : Task → List Token
  | .statement first => first :: ts
  | _ => ts

theorem readingListed {source : List Char} {room : Nat} {task : Task} {ts : List Token} {summary : Summary}
    (reading : Reading source room task ts summary) :
    Listed source task.lines (task.given ts) summary.rest summary.product.nodes := by
  induction reading with
  | finish room scope => exact listedNone (List.suffix_refl _)
  | newline isNewline next ih => exact ih.skip (List.suffix_cons _ _)
  | stray inLine brace next ih => exact ih.skip (List.suffix_cons _ _)
  | close inLine brace => exact listedNone (List.suffix_cons _ _)
  | leave inLine brace => exact listedNone (List.suffix_refl _)
  | step inLine brace first others firstIh othersIh =>
    rw [Product.nodes, listPreorder]
    exact firstIh.append othersIh
  | @block room t ts body ds rest brace inner ih =>
    rw [Product.nodes, Stmt.preorder]
    exact ih.token (List.sublist_append_left [t.line] [t.line])
  | branching brace word inner ih => exact ih.token (List.Sublist.refl _)
  | line ts brace word => exact listedLine _ ts
  | skipUnclosed none => exact listedEmpty List.nil_suffix _
  | skipBraced found => exact listedEmpty ((List.suffix_cons _ _).trans (found ▸ fromClosingBraceSuffix 0 _)) _
  | enterBraced inner ih => exact ih.block _
  | skipBare line ts => exact listedEmpty (fromClosingBraceSuffix 0 ts) line
  | enterBare inner ih => exact ih.block _
  | @bracedBody room head line ts brace behind block ds rest found inner ih =>
    have body := ih.token (List.sublist_append_left [brace.line] [brace.line])
    have suffix : brace :: behind <:+ ts := (takeOpenBraceCons found).1 ▸ List.dropWhile_suffix _
    exact (body.skip suffix).widen (List.nil_sublist [line])
  | bareBody missing inner ih => exact ih.skip (List.dropWhile_suffix _)
  | alone inner ends ih =>
    refine Listed.branch ?_
    rw [otherwisePreorder, List.append_nil]
    exact ih
  | @link room line ts first ds middle elseToken behind ifToken after s es rest inner braced isElse isIf next
      firstIh nextIh =>
    -- The branch has the line of its `if`, the block around it that of the `else`.
    have link : Listed source [] (ifToken :: after) rest s.preorder := nextIh.token (List.Sublist.refl _)
    have single : listPreorder [s] = s.preorder := by rw [listPreorder, listPreorder, List.append_nil]
    rw [← (takeWordCons isIf).1, ← single] at link
    have other := (link.block elseToken.line).token (List.sublist_append_left _ [elseToken.line])
    rw [← (takeWordCons isElse).1] at other
    exact Listed.branch (firstIh.append (other.skip (List.dropWhile_suffix _)))
  | @otherwise room line ts first ds middle elseToken behind other es rest inner braced isElse noIf next
      firstIh nextIh =>
    have body : Listed source [] (elseToken :: behind) rest (blockPreorder other.block) :=
      nextIh.token (List.sublist_append_left [elseToken.line] [elseToken.line])
    rw [← (takeWordCons isElse).1] at body
    exact Listed.branch (firstIh.append (body.skip (List.dropWhile_suffix _)))

end Parser

structure Slices (source : List Char) (nodes : List Stmt) : Prop where
  expressions : ∀ s ∈ nodes, ∀ e ∈ s.expressions, e.Slice source s.line
  ordered : (nodes.flatMap Stmt.expressions).Pairwise Expr.Before
  lines : (nodes.map Stmt.line).Pairwise (· ≤ ·)
  within : ∀ s ∈ nodes, 1 ≤ s.line ∧ s.line ≤ lineCount source

theorem programListed (source : List Char) :
    Parser.Lists source [1] (tokens source) (parse source).preorder := by
  have listed : Parser.Listed source [] (tokens source) [] (listPreorder (parse source).statements) :=
    Parser.readingListed (Parser.readProgram source maxNesting)
  obtain ⟨used, whole, lists⟩ := listed.block 1
  rw [List.append_nil] at whole
  exact whole ▸ lists

theorem linesListed (source : List Char) :
    (1 :: (tokens source).flatMap fun t => [t.line, t.line]).Pairwise (· ≤ ·) ∧
      ∀ line ∈ 1 :: (tokens source).flatMap fun t => [t.line, t.line], 1 ≤ line ∧ line ≤ lineCount source := by
  have within : ∀ line ∈ (tokens source).flatMap fun t => [t.line, t.line], 1 ≤ line ∧ line ≤ lineCount source := by
    intro line member
    obtain ⟨t, token, same⟩ := List.mem_flatMap.mp member
    obtain rfl : line = t.line := by simpa using same
    exact lineWithin token
  have first : 1 ≤ lineCount source := by
    rw [lineCountNewlines]
    omega
  refine ⟨.cons (fun line member => (within line member).1) (List.pairwise_flatMap.mpr ⟨fun t _ => by simp, ?_⟩),
    List.forall_mem_cons.mpr ⟨⟨Nat.le_refl 1, first⟩, within⟩⟩
  exact (linesRise source).imp fun le => by simpa using le

/- The expressions of a program are slices of its source, and its lines do not go back. -/
theorem programSlices (source : List Char) : Slices source (parse source).preorder := by
  have listed := programListed source
  obtain ⟨rise, within⟩ := linesListed source
  refine ⟨fun s member e has => ?_, ?_, rise.sublist listed.lines,
    fun s member => within _ (listed.lines.subset (List.mem_map_of_mem member))⟩
  · obtain ⟨run, ⟨runs, same, -, parts⟩, among, inside⟩ := listed.cuts s member
    rw [same] at has
    obtain ⟨part, found, rfl⟩ := List.mem_map.mp has
    exact ofTokensSlice ((parts part found).trans among) (fun t has => inside t ((parts part found).subset has)) s.line
  · exact (List.pairwise_flatMap.mp ((tokensBefore source).sublist listed.order)).2

end LineScript
