import LineScript.Proofs.Script.Cut
import LineScript.Proofs.Script.Spaced
import Mathlib.Data.List.Permutation
import Mathlib.Logic.Relation

/-! Layout does not count. Lines without code may be put between the lines of a program, and line
breaks before and behind braces; every program, well formed or not, is read as the same tree with
the same diagnostics, only that everything stands elsewhere. -/
namespace LineScript
open Lexer

def Filler (line : List Char) : Prop :=
  '\n' ∉ line ∧ (line.dropWhile isBlank = [] ∨ ['/', '/'] <+: line.dropWhile isBlank)

def Token.isBrace (t : Token) : Bool := t.isOp .openBrace || t.isOp .closeBrace

/- One change of layout. What stands behind a brace must not become a comment. -/
inductive Relayout : List Char → List Char → Prop where
  | line {above line below} (filler : Filler line) :
      Relayout (above ++ '\n' :: below) (above ++ '\n' :: (line ++ '\n' :: below))
  | before {source t} (member : t ∈ tokens source) (brace : t.isBrace = true) :
      Relayout source (source.take t.offset ++ '\n' :: source.drop t.offset)
  | behind {source t} (member : t ∈ tokens source) (brace : t.isBrace = true)
      (noComment : ¬['/', '/'] <+: source.drop t.stop) :
      Relayout source (source.take t.stop ++ '\n' :: source.drop t.stop)

section Rebase

def Position.rebase (x p q : Position) : Position :=
  ⟨x.offset - p.offset + q.offset, x.line - p.line + q.line,
    if x.line = p.line then x.column - p.column + q.column else x.column⟩

def Motion.rebase (p q : Position) : Motion where
  token t := ⟨t.lexeme, t.position.rebase p q⟩
  line l := l - p.line + q.line
  keepsLexeme _ := rfl
  movesLine _ := rfl

structure Position.Reaches (p x : Position) : Prop where
  offset : p.offset ≤ x.offset
  line : p.line ≤ x.line
  column : x.line = p.line → p.column ≤ x.column

theorem Position.rebaseSelf (p q : Position) : p.rebase p q = q := by
  simp [Position.rebase]

section
variable {p x : Position} (reaches : p.Reaches x) (q : Position)
include reaches

theorem Position.Reaches.advance (n : Nat) :
    p.Reaches (x.advance n) ∧ (x.rebase p q).advance n = (x.advance n).rebase p q := by
  obtain ⟨offset, line, column⟩ := reaches
  constructor
  · exact ⟨Nat.le_trans offset (Nat.le_add_right _ n), line,
      fun same => Nat.le_trans (column same) (Nat.le_add_right _ n)⟩
  · have columns : (if x.line = p.line then x.column - p.column + q.column else x.column) + n =
        if x.line = p.line then x.column + n - p.column + q.column else x.column + n := by
      split
      · have := column ‹_›
        omega
      · rfl
    have offsets : x.offset - p.offset + q.offset + n = x.offset + n - p.offset + q.offset := by omega
    exact (Position.mk.injEq ..).mpr ⟨offsets, rfl, columns⟩

theorem Position.Reaches.after (value : Lexeme) :
    p.Reaches (x.after value) ∧ (x.rebase p q).after value = (x.after value).rebase p q := by
  cases value with
  | newline =>
    obtain ⟨offset, line, column⟩ := reaches
    have below : x.line + 1 ≠ p.line := by omega
    constructor
    · exact ⟨Nat.le_succ_of_le offset, Nat.le_succ_of_le line, fun same => absurd same below⟩
    · have columns : 1 = if x.line + 1 = p.line then 1 - p.column + q.column else 1 := (if_neg below).symm
      have offsets : x.offset - p.offset + q.offset + 1 = x.offset + 1 - p.offset + q.offset := by omega
      have lines : x.line - p.line + q.line + 1 = x.line + 1 - p.line + q.line := by omega
      exact (Position.mk.injEq ..).mpr ⟨offsets, lines, columns⟩
  | _ => exact reaches.advance q _

theorem placeRebase (xs : List Segment) :
    (place (x.rebase p q) xs).1 = (place x xs).1.map (Motion.rebase p q).token := by
  induction xs generalizing x with
  | nil => rfl
  | cons segment xs ih =>
    cases segment with
    | gap text =>
      obtain ⟨further, moved⟩ := reaches.advance q text.length
      simp only [place, moved, ih further]
    | lexeme value =>
      obtain ⟨further, moved⟩ := reaches.after q value
      simp only [place, moved, ih further, List.map_cons]
      rfl

end

theorem Position.Reaches.refl (p : Position) : p.Reaches p :=
  ⟨Nat.le_refl _, Nat.le_refl _, fun _ => Nat.le_refl _⟩

theorem agreesRebased {a a' : List Char} (b : List Char) {p q : Position} (atEnd : p.offset = a.length)
    (atEnd' : q.offset = a'.length) {ts : List Token} (behind : ∀ t ∈ ts, p.offset ≤ t.offset) :
    Agrees (a ++ b) (a' ++ b) (.rebase p q) ts := by
  intro us sub
  unfold sourceText
  rw [List.head?_map, List.getLast?_map]
  cases atHead : us.head? with
  | none => rfl
  | some first =>
    cases atLast : us.getLast? with
    | none => rfl
    | some last =>
      have start := behind first (sub (List.mem_of_mem_head? atHead))
      have stop := behind last (sub (List.mem_of_getLast? atLast))
      obtain ⟨skipped, far⟩ := Nat.exists_eq_add_of_le start
      have width : (last.offset - p.offset + q.offset + last.lexeme.chars.length) -
          (first.offset - p.offset + q.offset) = last.stop - first.offset := by
        rw [Token.stop]
        omega
      have there : first.offset - p.offset + q.offset = a'.length + skipped := by omega
      show String.ofList (((a' ++ b).drop (first.offset - p.offset + q.offset)).take
        ((last.offset - p.offset + q.offset + last.lexeme.chars.length) -
          (first.offset - p.offset + q.offset))) =
        String.ofList (((a ++ b).drop first.offset).take (last.stop - first.offset))
      rw [width, there, far, atEnd, List.drop_length_add_append, List.drop_length_add_append]

end Rebase

def Loose (before behind : List Token) : Prop :=
  ∀ s ∈ before.getLast?, ∀ t ∈ behind.head?, s.insideStatement = true → t.insideStatement = false

theorem Loose.aside {before behind run : List Token} (loose : Loose before behind)
    (part : run <:+: before ++ behind) (inside : ∀ t ∈ run, t.insideStatement = true) :
    run ⊆ before ∨ run ⊆ behind := by
  obtain ⟨xs, ys, whole⟩ := part
  rcases List.append_eq_append_iff.mp whole with ⟨more, rfl, -⟩ | ⟨rest, front, rfl⟩
  · exact .inl (by simp)
  · rcases List.append_eq_append_iff.mp front with ⟨first, rfl, rfl⟩ | ⟨first, -, rfl⟩
    · cases rest with
      | nil => exact .inl (by simp)
      | cons t rest =>
        cases List.eq_nil_or_concat first with
        | inl none => exact .inr (by simp [none])
        | inr some =>
          obtain ⟨init, s, rfl⟩ := some
          have apart := loose s (by simp) t (by simp) (inside s (by simp))
          rw [inside t (by simp)] at apart
          contradiction
    · exact .inr (by simp)

theorem spacedAll (f : Token → Token) (inLine : Bool) (ts : List Token) : Spaced f inLine ts (ts.map f) := by
  induction ts generalizing inLine with
  | nil => exact .nil inLine
  | cons t ts ih => exact .token (ih _)

theorem spacedInto (f : Token → Token) {before behind : List Token} {newline : Token}
    (isNewline : newline.isNewline = true) {inLine : Bool}
    (apart : (before.getLast?.map Token.insideStatement).getD inLine = true →
      ∀ t ∈ behind.head?, t.insideStatement = false) :
    Spaced f inLine (before ++ behind) (before.map f ++ newline :: behind.map f) := by
  induction before generalizing inLine with
  | nil => exact .newline isNewline apart (spacedAll f false behind)
  | cons t before ih =>
    refine .token (ih ?_)
    rw [List.getLast?_cons] at apart
    cases found : before.getLast? <;> simpa [found] using apart

theorem Loose.spaced {before behind : List Token} (loose : Loose before behind) (f : Token → Token)
    {newline : Token} (isNewline : newline.isNewline = true) :
    Spaced f false (before ++ behind) (before.map f ++ newline :: behind.map f) := by
  apply spacedInto f isNewline
  intro inside t member
  cases found : before.getLast? with
  | none => simp [found] at inside
  | some s => exact loose s found t member (by simpa [found] using inside)

theorem cutTokens {a b : List Char} {front back : List Segment} (split : segments (a ++ b) = front ++ back)
    (left : ∀ p, place p (segments a) = place p front) (right : segments b = back) :
    tokens (a ++ b) = tokens a ++ (place (scan a).finish (segments b)).1 := by
  simp only [tokens, scan, split, placeAppend, left, right]

/- A source that is cut between two tokens of which no line has both. -/
structure Seam (a b : List Char) : Prop where
  cut : tokens (a ++ b) = tokens a ++ (place (scan a).finish (segments b)).1
  loose : Loose (tokens a) (place (scan a).finish (segments b)).1

section Seam
variable {a b filler : List Char}

def behindSeam (a filler : List Char) : Position :=
  Position.start.shift ((a ++ filler).length + 1) (lineCount (a ++ filler))

def seamMotion (a filler : List Char) : Motion := .rebase (scan a).finish (behindSeam a filler)

def acrossSeam (a filler : List Char) (t : Token) : Token :=
  if t.stop ≤ a.length then t else (seamMotion a filler).token t

theorem acrossBefore (filler : List Char) {t : Token} (member : t ∈ tokens a) : acrossSeam a filler t = t :=
  if_pos (tokensWithin a t member)

theorem acrossBehind (filler : List Char) {t : Token}
    (member : t ∈ (place (scan a).finish (segments b)).1) :
    acrossSeam a filler t = (seamMotion a filler).token t := by
  obtain ⟨behind, lexeme⟩ := placeBehind _ _ t member
  have some := List.length_pos_iff.mpr (lexemeChars b t.lexeme lexeme)
  rw [(scanFinish a).1] at behind
  exact if_neg (by simp only [Token.stop]; omega)

theorem tokensSeamed (b : List Char) (quiet : tokens (a ++ filler) = tokens a) :
    tokens (a ++ filler ++ '\n' :: b) = (tokens a).map (acrossSeam a filler) ++
      ⟨.newline, (scan (a ++ filler)).finish⟩ ::
        (place (scan a).finish (segments b)).1.map (acrossSeam a filler) := by
  have before : (tokens a).map (acrossSeam a filler) = tokens a :=
    (List.map_congr_left (g := id) fun t member => acrossBefore filler member).trans (List.map_id _)
  have behind : (tokens b).map (Token.shift ((a ++ filler).length + 1) (lineCount (a ++ filler))) =
      (place (scan a).finish (segments b)).1.map (acrossSeam a filler) := by
    have moved := placeRebase (Position.Reaches.refl (scan a).finish) (behindSeam a filler) (segments b)
    rw [Position.rebaseSelf, behindSeam, placeShift] at moved
    rw [List.map_congr_left fun t member => acrossBehind filler member]
    exact moved
  rw [tokensAppend, quiet, before, behind]

theorem Seam.carries (seam : Seam a b) :
    Parser.Carries (a ++ b) (a ++ filler ++ '\n' :: b) (acrossSeam a filler) (tokens (a ++ b)) where
  keeps t := by
    unfold acrossSeam
    split <;> rfl
  lines run part inside := by
    rw [seam.cut] at part
    rcases seam.loose.aside part inside with before | behind
    · refine ⟨.shift 0 0, List.map_congr_left fun t member => acrossBefore filler (before member), ?_⟩
      intro us sub
      have within (t : Token) (member : t ∈ us) := tokensWithin a t (before (sub member))
      have target := agreesBefore (filler ++ '\n' :: b) within us (List.Subset.refl us)
      rw [← List.append_assoc] at target
      exact target.trans (sourceTextBefore b within).symm
    · refine ⟨seamMotion a filler,
        List.map_congr_left fun t member => acrossBehind filler (behind member), ?_⟩
      have offset : (behindSeam a filler).offset = (a ++ filler ++ ['\n']).length := by
        simp [behindSeam, Position.shift, Position.start, Nat.add_assoc]
      have agrees := agreesRebased b (scanFinish a).1 offset
        (fun t member => (placeBehind _ _ t (behind member)).1)
      rwa [List.append_assoc, List.singleton_append] at agrees

theorem parseSeamed (seam : Seam a b) (quiet : tokens (a ++ filler) = tokens a) (room : Nat) :
    (Parser.parseWithin room (a ++ filler ++ '\n' :: b)).unplaced =
      (Parser.parseWithin room (a ++ b)).unplaced := by
  apply Parser.parseSpaced seam.carries
  rw [tokensSeamed b quiet, seam.cut]
  exact seam.loose.spaced _ rfl

end Seam

section Places

theorem fillerSilent {line : List Char} (filler : Filler line) : tokens line = [] := by
  have none (p : Position) : (place p (lineSegments true line)).1 = [] := by
    obtain ⟨-, rest⟩ := filler
    induction line generalizing p with
    | nil => simp [lineSegments, place]
    | cons c cs ih =>
      by_cases blank : isBlank c = true
      · rw [List.dropWhile_cons_of_pos blank] at rest
        rw [lineSegments, if_pos blank]
        exact ih _ rest
      · rw [List.dropWhile_cons_of_neg blank] at rest
        rcases rest with none | ⟨tail, same⟩
        · cases none
        · cases same
          simp [lineSegments, isBlank, place]
  simp only [tokens, scan, segmentsSingle filler.1, none]

theorem lineSeam (above below : List Char) : Seam (above ++ ['\n']) below := by
  have last : tokens (above ++ ['\n']) = tokens above ++ [⟨.newline, (scan above).finish⟩] := by
    rw [tokensAppend]
    simp [tokens, scan, segments, splitLines, joinLines, lineSegments, place]
  constructor
  · apply @cutTokens _ _ (segments above ++ [.lexeme .newline]) (segments below)
    · rw [List.append_assoc, List.singleton_append, segmentsAppend]
      simp
    · rw [segmentsAppend]
      simp [segments, splitLines, joinLines, lineSegments]
    · rfl
  · intro s member t _ inside
    rw [last, List.getLast?_concat] at member
    cases member
    cases inside

theorem tokenCut {source : List Char} {t : Token} (member : t ∈ tokens source) :
    ∃ front back, segments source = front ++ .lexeme t.lexeme :: back ∧
      source.take t.offset = charsOf front ∧
      source.drop t.offset = charsOf (.lexeme t.lexeme :: back) ∧
      source.take t.stop = charsOf (front ++ [.lexeme t.lexeme]) ∧
      source.drop t.stop = charsOf back := by
  obtain ⟨before, behind, whole⟩ := List.append_of_mem member
  obtain ⟨front, back, split, here, -⟩ := placeSplit whole
  have offset := offsetAt here
  have stop : t.stop = (charsOf (front ++ [.lexeme t.lexeme])).length := by
    rw [Token.stop, offset, charsAppend, List.length_append]
    simp [charsOf, Segment.chars]
  have chars : source = charsOf front ++ charsOf (.lexeme t.lexeme :: back) := by
    rw [← charsAppend, ← split, segmentsChars]
  have chars' : source = charsOf (front ++ [.lexeme t.lexeme]) ++ charsOf back := by
    rw [chars, ← charsAppend, ← charsAppend, List.append_assoc, List.singleton_append]
  refine ⟨front, back, split, ?_, ?_, ?_, ?_⟩
  · rw [offset, chars, List.take_left]
  · rw [offset, chars, List.drop_left]
  · rw [stop]
    conv => lhs; rw [chars', List.take_left]
  · rw [stop]
    conv => lhs; rw [chars', List.drop_left]

theorem braceLexeme {t : Token} (brace : t.isBrace = true) :
    ∃ op, t.lexeme = .op op ∧ ∀ p, (⟨t.lexeme, p⟩ : Token).insideStatement = false := by
  simp only [Token.isBrace, Token.isOp, Bool.or_eq_true, beq_iff_eq] at brace
  rcases brace with opens | closes
  · exact ⟨_, opens, fun p => by simp [Token.insideStatement, Token.isOp, opens]⟩
  · exact ⟨_, closes, fun p => by simp [Token.insideStatement, Token.isOp, closes]⟩

theorem noCommentOp (op : Operator) : ¬['/', '/'] <+: (Lexeme.op op).chars := by
  cases op <;> decide

theorem seamBefore {source : List Char} {t : Token} (member : t ∈ tokens source)
    (brace : t.isBrace = true) : Seam (source.take t.offset) (source.drop t.offset) := by
  obtain ⟨op, isOp, outside⟩ := braceLexeme brace
  obtain ⟨front, back, split, before, from', -⟩ := tokenCut member
  have right : segments (source.drop t.offset) = .lexeme t.lexeme :: back := by
    rw [from']
    exact segmentsFrom split (by simp [isOp]) (isOp ▸ noCommentOp op)
  constructor
  · refine cutTokens (by rw [List.take_append_drop]; exact split) ?_ right
    rw [before]
    exact segmentsCut split
  · intro s _ u first _
    rw [right] at first
    cases first
    exact outside _

theorem seamBehind {source : List Char} {t : Token} (member : t ∈ tokens source)
    (brace : t.isBrace = true) (noComment : ¬['/', '/'] <+: source.drop t.stop) :
    Seam (source.take t.stop) (source.drop t.stop) := by
  obtain ⟨op, isOp, outside⟩ := braceLexeme brace
  obtain ⟨front, back, split, -, -, before, behind⟩ := tokenCut member
  have right : segments (source.drop t.stop) = back := by
    rw [behind] at noComment ⊢
    exact segmentsBehind (isOp ▸ split) noComment
  have split' : segments source = (front ++ [.lexeme t.lexeme]) ++ back := by simpa using split
  have left : ∀ p, place p (segments (source.take t.stop)) = place p (front ++ [.lexeme t.lexeme]) := by
    rw [before]
    exact segmentsCut split'
  constructor
  · exact cutTokens (by rw [List.take_append_drop]; exact split') left right
  · intro s last u _ inside
    rw [tokens, scan, left, placeAppend] at last
    simp only [place, List.getLast?_concat, Option.mem_def, Option.some.injEq] at last
    subst last
    rw [outside] at inside
    contradiction

end Places

theorem relayoutIgnored {source target : List Char} (edit : Relayout source target) (room : Nat) :
    (Parser.parseWithin room target).unplaced = (Parser.parseWithin room source).unplaced := by
  cases edit with
  | @line above line below filler =>
    have quiet : tokens (above ++ ['\n'] ++ line) = tokens (above ++ ['\n']) := by
      rw [List.append_assoc, List.singleton_append, tokensAppend, tokensAppend, fillerSilent filler]
      simp [tokens, scan, segments, splitLines, joinLines, lineSegments, place]
    simpa using parseSeamed (lineSeam above below) quiet room
  | before member brace =>
    have read := @parseSeamed _ _ [] (seamBefore member brace) (by rw [List.append_nil]) room
    rwa [List.append_nil, List.take_append_drop] at read
  | behind member brace noComment =>
    have read := @parseSeamed _ _ [] (seamBehind member brace noComment) (by rw [List.append_nil]) room
    rwa [List.append_nil, List.take_append_drop] at read

/- Whatever is changed of the layout of a program, it is read as the same tree, and the same is
reported about it. -/
theorem layoutIgnored {source target : List Char} (edits : Relation.ReflTransGen Relayout source target) :
    (parse target).unplaced = (parse source).unplaced := by
  induction edits with
  | refl => rfl
  | tail _ edit ih => exact (relayoutIgnored edit maxNesting).trans ih

def elseJoined : List Char := "if a \x7b\n\x7d else \x7b\n\x7d \x7d".toList

def elseApart : List Char := "if a \x7b\n\x7d\n // b\n else \n\x7b\n\x7d \x7d".toList

theorem elseOnItsOwnLine : Relation.ReflTransGen Relayout elseJoined elseApart ∧
    (parse elseApart).unplaced = (parse elseJoined).unplaced := by
  have edits : Relation.ReflTransGen Relayout elseJoined elseApart := by
    have behind : Relayout elseJoined "if a \x7b\n\x7d\n else \x7b\n\x7d \x7d".toList :=
      @Relayout.behind elseJoined ⟨.op .closeBrace, ⟨7, 2, 1⟩⟩ (List.elem_iff.mp (by cbv)) rfl (by decide)
    have before : Relayout "if a \x7b\n\x7d\n else \x7b\n\x7d \x7d".toList
        "if a \x7b\n\x7d\n else \n\x7b\n\x7d \x7d".toList :=
      @Relayout.before _ ⟨.op .openBrace, ⟨15, 3, 7⟩⟩ (List.elem_iff.mp (by cbv)) rfl
    have comment : Relayout "if a \x7b\n\x7d\n else \n\x7b\n\x7d \x7d".toList elseApart :=
      @Relayout.line "if a \x7b\n\x7d".toList " // b".toList " else \n\x7b\n\x7d \x7d".toList (by
        unfold Filler
        decide)
    exact ((Relation.ReflTransGen.single behind).tail before).tail comment
  exact ⟨edits, layoutIgnored edits⟩

end LineScript
