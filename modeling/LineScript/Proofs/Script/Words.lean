import Mathlib.Data.List.Permutation
import LineScript.Proofs.Script.Cut
import LineScript.Proofs.Script.Compose

/-! Every word of a program is in its tree once, and in its place. Listed from the front of the
tree, the words and literals are those of the source, whatever braces it has too many or too few;
only a block that is too deep hides the words in it. -/
namespace LineScript
open Lexer

def Lexeme.says : Lexeme → Bool
  | .word _ => true
  | .literal _ => true
  | _ => false

def wordsOf (ts : List Token) : List Lexeme := (ts.map Token.lexeme).filter Lexeme.says

def wordsIn (text : String) : List Lexeme := wordsOf (tokens text.toList)

def Expr.words (e : Expr) : List Lexeme := wordsOf e.tokens

mutual

def Stmt.words : Stmt → List Lexeme
  | .block body => blockWords body
  | .assign _ name value => .word "let" :: wordsIn name ++ value.words
  | .print _ value => .word "print" :: value.words
  | .branch _ condition thenBody otherwise =>
    .word "if" :: condition.words ++ blockWords thenBody ++ otherwiseWords otherwise
  | .call _ path arguments => .word path :: arguments.flatMap Expr.words
  | .unknown _ text _ => wordsIn text

def blockWords : Block Stmt → List Lexeme
  | ⟨_, statements⟩ => listWords statements

def otherwiseWords : Option (Block Stmt) → List Lexeme
  | none => []
  | some body => .word "else" :: blockWords body

def listWords : List Stmt → List Lexeme
  | [] => []
  | s :: rest => s.words ++ listWords rest

end

section Words

theorem wordsAppend (xs ys : List Token) : wordsOf (xs ++ ys) = wordsOf xs ++ wordsOf ys := by
  simp [wordsOf]

theorem wordsCons (t : Token) (ts : List Token) : wordsOf (t :: ts) = wordsOf [t] ++ wordsOf ts :=
  wordsAppend [t] ts

theorem wordsBehindWord {t : Token} {text : String} (word : t.isWord text = true) (ts : List Token) :
    wordsOf (t :: ts) = .word text :: wordsOf ts := by
  simp only [Token.isWord, beq_iff_eq] at word
  simp only [wordsOf, List.map_cons, word]
  rfl

theorem wordsBehindOp {t : Token} {op : Operator} (is : t.isOp op = true) (ts : List Token) :
    wordsOf (t :: ts) = wordsOf ts := by
  simp only [Token.isOp, beq_iff_eq] at is
  simp only [wordsOf, List.map_cons, is]
  rfl

theorem wordsBehindNewline {t : Token} (is : t.isNewline = true) (ts : List Token) :
    wordsOf (t :: ts) = wordsOf ts := by
  simp only [Token.isNewline, beq_iff_eq] at is
  simp only [wordsOf, List.map_cons, is]
  rfl

theorem wordsSplit (p : Token → Bool) (ts : List Token) :
    wordsOf (ts.takeWhile p) ++ wordsOf (ts.dropWhile p) = wordsOf ts := by
  rw [← wordsAppend, List.takeWhile_append_dropWhile]

theorem wordsDropNewlines (ts : List Token) : wordsOf (Parser.dropNewlines ts) = wordsOf ts := by
  unfold Parser.dropNewlines
  induction ts with
  | nil => rfl
  | cons t ts ih =>
    rw [List.dropWhile_cons]
    split
    · rw [ih, wordsBehindNewline ‹_›]
    · rfl

end Words

def WordsApart (source : List Char) : Prop :=
  ∀ t ∈ tokens source, ∀ text, t.lexeme = .word text → ¬['/', '/'] <+: text.toList

theorem WordsApart.noComment {source : List Char} (apart : WordsApart source) {t : Token}
    (member : t ∈ tokens source) : ¬['/', '/'] <+: t.lexeme.chars := by
  cases kind : t.lexeme with
  | word text => exact apart t member text kind
  | literal content => simp [Lexeme.chars]
  | op op => cases op <;> decide
  | newline => decide

theorem wordsOfText {source : List Char} (apart : WordsApart source) {run : List Token}
    (inside : run <:+: tokens source) (inLine : ∀ t ∈ run, t.lexeme ≠ .newline) :
    wordsIn (sourceText source run) = wordsOf run := by
  cases run with
  | nil => simp [wordsIn, wordsOf, sourceText, tokens, scan, segments, splitLines, joinLines, lineSegments, place]
  | cons first others =>
    have read := tokensOfRun inside (inLine first (by simp)) (apart.noComment (inside.subset (by simp)))
    rw [wordsIn, wordsOf, read, wordsOf]

namespace Line

theorem withoutCloseParenWords {ts inner : List Token} (found : withoutCloseParen? ts = some inner) :
    wordsOf inner = wordsOf ts := by
  obtain ⟨close, rfl, closes⟩ := withoutCloseParenSome found
  rw [wordsAppend, wordsBehindOp closes]
  exact (List.append_nil _).symm

theorem splitCommasWords (depth : Nat) (ts : List Token) :
    (splitCommas depth ts).flatMap wordsOf = wordsOf ts := by
  induction ts generalizing depth with
  | nil => rfl
  | cons t ts ih =>
    rw [splitCommas]
    split
    · rename_i comma
      rw [Bool.and_eq_true] at comma
      rw [List.flatMap_cons, ih, wordsBehindOp comma.1]
      rfl
    · have inner := ih (parenDepth depth t)
      cases found : splitCommas (parenDepth depth t) ts with
      | nil =>
        rw [found] at inner
        rw [wordsCons t ts, ← inner]
        rfl
      | cons first others =>
        rw [found] at inner
        rw [wordsCons t ts, ← inner, List.flatMap_cons, List.flatMap_cons, wordsCons, List.append_assoc]

theorem argumentWords (ts : List Token) : (argumentGroups ts).flatMap wordsOf = wordsOf ts := by
  have whole := splitCommasWords 0 ts
  unfold argumentGroups dropEmptyLast
  split
  · rename_i last
    obtain ⟨parts, same⟩ := List.getLast?_eq_some_iff.mp last
    rw [← whole, same, List.dropLast_concat, List.flatMap_append]
    simp [wordsOf]
  · exact whole

theorem conditionWords (source : List Char) (line : Nat) (ts : List Token) :
    (condition source line ts).words = wordsOf ts := by
  cases ts with
  | nil => rfl
  | cons first others =>
    simp only [condition]
    split
    · rename_i inner isParen found
      show wordsOf inner = _
      rw [wordsBehindOp isParen, withoutCloseParenWords found]
    · rfl

section Statement
variable {source : List Char} {first : Token} {others : List Token} (apart : WordsApart source)
  (inside : first :: others <:+: tokens source) (inLine : ∀ t ∈ first :: others, t.lexeme ≠ .newline)
include apart inside inLine

theorem unknownWords : (unknown source first others).words = wordsOf (first :: others) :=
  wordsOfText apart inside inLine

theorem assignmentWords (isLet : first.isWord "let" = true) :
    (assignment source first others).words = wordsOf (first :: others) := by
  have unread := wordsOfText apart inside inLine
  unfold assignment
  cases found : others.dropWhile (!·.isOp .assign) with
  | nil => exact unread
  | cons sign value =>
    simp only
    split
    · exact unread
    · have parts := List.takeWhile_append_dropWhile (p := fun t => !t.isOp .assign) (l := others)
      have isSign : sign.isOp .assign = true := by simpa using dropWhileHead found
      have name : wordsIn (sourceText source (others.takeWhile (!·.isOp .assign))) =
          wordsOf (others.takeWhile (!·.isOp .assign)) := by
        refine wordsOfText apart ?_ (fun t member => inLine t (by simp [List.takeWhile_subset _ member]))
        exact ((List.takeWhile_prefix _).isInfix.trans (List.suffix_cons first others).isInfix).trans inside
      rw [found] at parts
      have value : wordsOf others = wordsOf (others.takeWhile (!·.isOp .assign)) ++ wordsOf value := by
        rw [← wordsBehindOp isSign value, ← wordsAppend, parts]
      rw [wordsBehindWord isLet, value, ← name]
      rfl

theorem printingWords (isPrint : first.isWord "print" = true)
    (isOpen : (others.head?.map (·.isOp .openParen)).getD false = true) :
    (printing source first others).words = wordsOf (first :: others) := by
  unfold printing
  split
  · rename_i value found
    cases others with
    | nil => simp at isOpen
    | cons paren inner =>
      rw [wordsBehindWord isPrint, wordsBehindOp isOpen, ← show wordsOf value = wordsOf inner from
        withoutCloseParenWords found]
      rfl
  · exact unknownWords apart inside inLine

theorem callingWords : (calling source first others).words = wordsOf (first :: others) := by
  have unread := unknownWords apart inside inLine
  unfold calling
  split
  · rename_i path second inner kind
    split
    · rename_i isOpen
      split
      · rename_i arguments found
        have isPath : first.isWord path = true := by simp [Token.isWord, kind]
        have groups : ((argumentGroups arguments).map (Expr.ofTokens source first.line)).flatMap Expr.words =
            (argumentGroups arguments).flatMap wordsOf := by
          rw [List.flatMap_map]
          rfl
        rw [Stmt.words, groups, argumentWords, wordsBehindWord isPath, wordsBehindOp isOpen,
          withoutCloseParenWords found]
      · exact unread
    · exact unread
  · exact unread

theorem statementWords : (statement source first others).words = wordsOf (first :: others) := by
  unfold statement
  split
  · exact assignmentWords apart inside inLine ‹_›
  · split
    · rename_i isPrint
      rw [Bool.and_eq_true] at isPrint
      exact printingWords apart inside inLine isPrint.1 isPrint.2
    · exact callingWords apart inside inLine

end Statement
end Line

namespace Parser

def Product.words : Product → List Lexeme
  | .statements value => listWords value
  | .statement value => value.words
  | .block value => blockWords value
  | .body value => blockWords value.block

def Task.words (ts : List Token) : Task → List Lexeme
  | .statement first => wordsOf (first :: ts)
  | .branch _ => .word "if" :: wordsOf ts
  | _ => wordsOf ts

theorem takeOpenBraceWords {ts rest : List Token} {t : Token}
    (found : takeOpenBrace? (dropNewlines ts) = some (t, rest)) : wordsOf rest = wordsOf ts := by
  obtain ⟨front, brace⟩ := takeOpenBraceCons found
  rw [← wordsDropNewlines ts, front, wordsBehindOp brace]

theorem takeWordWords {text : String} {ts rest : List Token} {t : Token}
    (found : takeWord? text ts = some (t, rest)) : wordsOf ts = .word text :: wordsOf rest := by
  obtain ⟨rfl, word⟩ := takeWordCons found
  exact wordsBehindWord word rest

theorem readingWords {source : List Char} (apart : WordsApart source) {room : Nat} {task : Task}
    {ts : List Token} {summary : Summary} (reading : Reading source room task ts summary)
    (shallow : ∀ line, Diagnostic.tooDeep line ∉ summary.diagnostics)
    (within : task.Within (tokens source) ts) :
    summary.product.words ++ wordsOf summary.rest = task.words ts := by
  induction reading with
  | finish room scope => rfl
  | @newline room scope t ts summary isNewline next ih =>
    exact (ih shallow ((List.suffix_cons t ts).trans within)).trans (wordsBehindNewline isNewline ts).symm
  | @stray room t ts summary inLine brace next ih =>
    exact (ih shallow ((List.suffix_cons t ts).trans within)).trans (wordsBehindOp brace ts).symm
  | @close room opened t ts inLine brace => exact (wordsBehindOp brace ts).symm
  | leave inLine brace => rfl
  | @step room scope t ts s ds middle value es rest inLine brace first others firstIh othersIh =>
    simp only [List.mem_append, not_or] at shallow
    have here : s.words ++ wordsOf middle = wordsOf (t :: ts) :=
      firstIh (fun l => (shallow l).1) ⟨inLine, brace, within⟩
    have left := ((readingSuffix first).trans (List.suffix_cons t ts)).trans within
    have later : listWords value ++ wordsOf rest = wordsOf middle := othersIh (fun l => (shallow l).2) left
    show (s.words ++ listWords value) ++ wordsOf rest = wordsOf (t :: ts)
    rw [List.append_assoc, later, here]
  | @block room t ts body ds rest brace inner ih =>
    have block := ih shallow ((List.suffix_cons t ts).trans within.2.2)
    exact block.trans (wordsBehindOp brace ts).symm
  | @branching room t ts summary brace word inner ih =>
    have branch := ih shallow ((List.suffix_cons t ts).trans within.2.2)
    exact branch.trans (wordsBehindWord word ts).symm
  | @line room t ts brace word =>
    have front : t :: ts.takeWhile Token.insideStatement <+: t :: ts :=
      (List.prefix_cons_inj t).mpr (List.takeWhile_prefix _)
    have inLine : ∀ u ∈ t :: ts.takeWhile Token.insideStatement, u.lexeme ≠ .newline := by
      intro u member
      rcases List.mem_cons.mp member with rfl | later
      · simpa [Token.isNewline] using within.1
      · exact insideInLine (List.all_eq_true.mp List.all_takeWhile u later)
    have line := Line.statementWords apart (front.isInfix.trans within.2.2.isInfix) inLine
    show (Line.statement source t _).words ++ wordsOf (ts.dropWhile Token.insideStatement) = _
    rw [line, ← wordsAppend, List.cons_append, List.takeWhile_append_dropWhile]
    rfl
  | skipUnclosed none => simp at shallow
  | skipBraced found => simp at shallow
  | enterBraced inner ih => exact ih shallow within
  | skipBare line ts => simp at shallow
  | enterBare inner ih => exact ih shallow within
  | bracedBody found inner ih =>
    exact (ih shallow ((behindOpenBrace found).trans within)).trans (takeOpenBraceWords found)
  | @bareBody room head line ts block ds rest missing inner ih =>
    simp only [List.mem_cons, not_or] at shallow
    have block := ih (fun l => (shallow l).2) ((List.dropWhile_suffix _).trans within)
    exact block.trans (wordsDropNewlines ts)
  | @alone room line ts first ds rest inner ends ih =>
    have body : blockWords first.block ++ wordsOf rest = wordsOf (ts.dropWhile Token.insideStatement) :=
      ih shallow ((List.dropWhile_suffix _).trans within)
    simp only [Product.words, Stmt.words, otherwiseWords, Line.conditionWords, Task.words,
      List.append_nil, List.append_assoc, List.cons_append, body, wordsSplit]
  | @link room line ts first ds middle elseToken behind ifToken after s es rest inner braced isElse isIf next
      firstIh nextIh =>
    simp only [List.mem_append, not_or] at shallow
    have left := (List.dropWhile_suffix Token.insideStatement).trans within
    have body : blockWords first.block ++ wordsOf middle = wordsOf (ts.dropWhile Token.insideStatement) :=
      firstIh (fun l => (shallow l).1) left
    have chain : s.words ++ wordsOf rest = wordsOf behind := by
      rw [takeWordWords isIf]
      exact nextIh (fun l => (shallow l).2)
        (((takeWordSuffix isIf).trans (behindElse inner isElse)).trans within)
    have whole := takeWordWords isElse
    rw [wordsDropNewlines, ← chain] at whole
    simp only [Product.words, Stmt.words, otherwiseWords, blockWords, listWords, Line.conditionWords,
      Task.words, List.append_nil, List.append_assoc, List.cons_append, ← whole, body, wordsSplit]
  | @otherwise room line ts first ds middle elseToken behind other es rest inner braced isElse noIf next
      firstIh nextIh =>
    simp only [List.mem_append, not_or] at shallow
    have left := (List.dropWhile_suffix Token.insideStatement).trans within
    have body : blockWords first.block ++ wordsOf middle = wordsOf (ts.dropWhile Token.insideStatement) :=
      firstIh (fun l => (shallow l).1) left
    have chain : blockWords other.block ++ wordsOf rest = wordsOf behind :=
      nextIh (fun l => (shallow l).2) ((behindElse inner isElse).trans within)
    have whole := takeWordWords isElse
    rw [wordsDropNewlines, ← chain] at whole
    simp only [Product.words, Stmt.words, otherwiseWords, Line.conditionWords,
      Task.words, List.append_assoc, List.cons_append, ← whole, body, wordsSplit]

def Task.levels (ts : List Token) : Task → Nat
  | .statements _ => ts.length
  | _ => ts.length + 1

theorem readingShallow {source : List Char} {room : Nat} {task : Task} {ts : List Token}
    {summary : Summary} (reading : Reading source room task ts summary)
    (enough : task.levels ts ≤ room) (line : Nat) : Diagnostic.tooDeep line ∉ summary.diagnostics := by
  induction reading with
  | finish room scope => cases scope <;> simp [Scope.atEnd]
  | newline isNewline next ih => exact ih (Nat.le_of_succ_le enough)
  | stray inLine brace next ih => exact ih (Nat.le_of_succ_le enough)
  | close inLine brace => simp
  | leave inLine brace => simp
  | step inLine brace first others firstIh othersIh =>
    have left : _ ≤ _ := (readingSuffix first).length_le
    rw [List.mem_append, not_or]
    exact ⟨firstIh enough, othersIh (Nat.le_trans left (Nat.le_of_succ_le enough))⟩
  | block brace inner ih => exact ih enough
  | branching brace word inner ih => exact ih enough
  | line ts brace word => simp
  | skipUnclosed none => exact absurd enough (Nat.not_succ_le_zero _)
  | skipBraced found => exact absurd enough (Nat.not_succ_le_zero _)
  | skipBare line ts => exact absurd enough (Nat.not_succ_le_zero _)
  | enterBraced inner ih => exact ih (Nat.le_of_succ_le_succ enough)
  | enterBare inner ih => exact ih (Nat.le_of_succ_le_succ enough)
  | bracedBody found inner ih =>
    exact ih (Nat.le_trans (Nat.succ_le_succ (behindOpenBrace found).length_le) enough)
  | bareBody missing inner ih =>
    have block := ih (Nat.le_trans (Nat.succ_le_succ (length_dropNewlines_le _)) enough)
    simpa using block
  | alone inner ends ih => exact ih (Nat.le_trans (Nat.succ_le_succ (length_dropWhile_le _ _)) enough)
  | @link room line ts first ds middle elseToken behind ifToken after s es rest inner braced isElse isIf next
      firstIh nextIh =>
    have fewer := length_dropWhile_le Token.insideStatement ts
    have left := ((behindWord isElse).trans (readingSuffix inner)).length_le
    have shorter := length_takeWord_lt isIf
    simp only [Task.levels, List.mem_append, not_or] at enough firstIh nextIh left ⊢
    exact ⟨firstIh (by omega), nextIh (by omega)⟩
  | @otherwise room line ts first ds middle elseToken behind other es rest inner braced isElse noIf next
      firstIh nextIh =>
    have fewer := length_dropWhile_le Token.insideStatement ts
    have left := ((behindWord isElse).trans (readingSuffix inner)).length_le
    simp only [Task.levels, List.mem_append, not_or] at enough firstIh nextIh left ⊢
    exact ⟨firstIh (by omega), nextIh (by omega)⟩

theorem shallowOfShort {source : List Char} (short : (tokens source).length ≤ maxNesting) (line : Nat) :
    Diagnostic.tooDeep line ∉ (parse source).diagnostics :=
  readingShallow (readProgram source maxNesting) short line

end Parser

/- Nothing that a program says is lost, said twice or moved. -/
theorem wordsKept {source : List Char} (apart : WordsApart source)
    (shallow : ∀ line, Diagnostic.tooDeep line ∉ (parse source).diagnostics) :
    listWords (parse source).statements = wordsOf (tokens source) := by
  have read := Parser.readingWords apart (Parser.readProgram source maxNesting) shallow (List.suffix_refl _)
  exact (List.append_nil _).symm.trans read

def malformed : List Char :=
  "else x \x7d\nif f \x7b\nlet e = // g\n\x7d else if a == 1\ny(b, \"c d\") \x7b".toList

theorem malformedWords : wordsOf (tokens malformed) =
    [.word "else", .word "x", .word "if", .word "f", .word "let", .word "e", .word "else", .word "if",
      .word "a", .word "1", .word "y", .word "b", .literal "c d"] := by cbv

theorem wordsOfMalformed : WordsApart malformed ∧
    (∀ line, Diagnostic.tooDeep line ∉ (parse malformed).diagnostics) ∧
      listWords (parse malformed).statements =
        [.word "else", .word "x", .word "if", .word "f", .word "let", .word "e", .word "else",
          .word "if", .word "a", .word "1", .word "y", .word "b", .literal "c d"] := by
  have apart : WordsApart malformed := by
    intro t member text word
    have said : Lexeme.word text ∈ wordsOf (tokens malformed) := by
      rw [wordsOf, List.mem_filter]
      exact ⟨word ▸ List.mem_map_of_mem member, rfl⟩
    rw [malformedWords] at said
    simp only [List.mem_cons, Lexeme.word.injEq, reduceCtorEq, List.not_mem_nil, or_false] at said
    rcases said with rfl | rfl | rfl | rfl | rfl | rfl | rfl | rfl | rfl | rfl | rfl | rfl <;> decide
  have shallow := @Parser.shallowOfShort malformed (by cbv)
  exact ⟨apart, shallow, (wordsKept apart shallow).trans malformedWords⟩

end LineScript
