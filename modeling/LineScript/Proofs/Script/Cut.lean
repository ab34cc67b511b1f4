import LineScript.Proofs.Script.Lines
import LineScript.Script.Line

/-! Sources that are cut between two tokens. The text before the cut and the text behind it are
read as they were in one piece, a comment that only the cut would start apart; so the text of a
run of tokens is read as that run. -/
namespace LineScript.Lexer

theorem lexemeChars (source : List Char) :
    ∀ value, Segment.lexeme value ∈ segments source → value.chars ≠ [] := by
  induction source using sourceInduction with
  | single line free =>
    rw [segmentsSingle free]
    exact traceNonempty (lineTrace true line)
  | above line below free ih =>
    intro value member
    rw [segmentsAppend, segmentsSingle free, List.mem_append, List.mem_cons] at member
    rcases member with here | newline | later
    · exact traceNonempty (lineTrace true line) value here
    · cases newline
      simp [Lexeme.chars]
    · exact ih value later

section Cut
variable {source : List Char} {front back : List Segment}

theorem segmentsCut (split : segments source = front ++ back) (p : Position) :
    place p (segments (charsOf front)) = place p front := by
  have within {line : List Char} (free : '\n' ∉ line) {front back : List Segment}
      (split : lineSegments true line = front ++ back) (p : Position) :
      place p (segments (charsOf front)) = place p front := by
    obtain ⟨ys, read, same⟩ := traceCut (lineTrace true line) split
    have short : '\n' ∉ charsOf front := by
      rw [← lineSegmentsChars true line, split, charsAppend, List.mem_append, not_or] at free
      exact free.1
    rw [segmentsSingle short, traceSound read, same]
  induction source using sourceInduction generalizing front p with
  | single line free => exact within free (segmentsSingle free ▸ split) p
  | above line below free ih =>
    rw [segmentsAppend, segmentsSingle free] at split
    rcases List.append_eq_append_iff.mp split with ⟨more, rfl, rest⟩ | ⟨more, whole, -⟩
    · rcases List.cons_eq_append_iff.mp rest with ⟨rfl, -⟩ | ⟨tail, rfl, later⟩
      · exact @within line free _ [] (by simp) p
      · rw [charsAppend, charsCons, lineSegmentsChars]
        show place p (segments (line ++ '\n' :: charsOf tail)) = _
        rw [segmentsAppend, segmentsSingle free, placeAppend, placeAppend, placeCons (ih later)]
    · exact within free whole p

structure OnLine (value : Lexeme) (back : List Segment) (tail : List Segment) : Prop where
  read : ∃ boundary, Trace boundary (charsOf (.lexeme value :: tail)) (.lexeme value :: tail)
  single : '\n' ∉ charsOf (.lexeme value :: tail)
  below : back = tail ∨ ∃ below, back = tail ++ .lexeme .newline :: segments below

theorem onLine {value : Lexeme} (split : segments source = front ++ .lexeme value :: back)
    (inLine : value ≠ .newline) : ∃ tail, OnLine value back tail := by
  have within {line : List Char} (free : '\n' ∉ line) {front tail : List Segment}
      (split : lineSegments true line = front ++ .lexeme value :: tail) :
      (∃ boundary, Trace boundary (charsOf (.lexeme value :: tail)) (.lexeme value :: tail)) ∧
        '\n' ∉ charsOf (.lexeme value :: tail) := by
    refine ⟨traceFrom (split ▸ lineTrace true line), ?_⟩
    rw [← lineSegmentsChars true line, split, charsAppend, List.mem_append, not_or] at free
    exact free.2
  induction source using sourceInduction generalizing front with
  | single line free =>
    obtain ⟨read, single⟩ := within free (segmentsSingle free ▸ split)
    exact ⟨back, read, single, .inl rfl⟩
  | above line below free ih =>
    rw [segmentsAppend, segmentsSingle free] at split
    rcases List.append_eq_append_iff.mp split with ⟨more, rfl, rest⟩ | ⟨more, whole, rest⟩
    · rcases List.cons_eq_append_iff.mp rest with ⟨rfl, same⟩ | ⟨tail, rfl, later⟩
      · cases same
        contradiction
      · exact ih later
    · rcases List.cons_eq_append_iff.mp rest with ⟨rfl, same⟩ | ⟨tail, rfl, rfl⟩
      · cases same
        contradiction
      · obtain ⟨read, single⟩ := within free whole
        exact ⟨tail, read, single, .inr ⟨below, rfl⟩⟩

theorem segmentsBelow {xs ys : List Segment} (read : segments (charsOf xs) = xs)
    (below : ys = xs ∨ ∃ below, ys = xs ++ .lexeme .newline :: segments below) :
    segments (charsOf ys) = ys := by
  rcases below with rfl | ⟨below, rfl⟩
  · exact read
  · rw [charsAppend, charsCons, segmentsChars]
    show segments (charsOf xs ++ '\n' :: below) = _
    rw [segmentsAppend, read]

theorem noCommentFrom {boundary : Bool} {cs : List Char} {value : Lexeme} {xs all : List Segment}
    (trace : Trace boundary cs all) (split : all = .lexeme value :: xs)
    (noComment : ¬['/', '/'] <+: value.chars) : ¬['/', '/'] <+: cs := by
  rintro ⟨rest, same⟩
  cases trace with
  | done | blank | comment => cases split
  | unclosed noQuote | literal noQuote next => cases same
  | operator read next =>
    subst same
    exact (operatorFirst read).2.1 rfl
  | @word _ c more tail xs begins ends next =>
    cases split
    cases more with
    | nil =>
      have stops := splitWordStops tail
      rw [List.nil_append] at ends same
      rw [ends] at stops
      cases same
      simp [stopsWord, endsWord, isBlank, operator?] at stops
    | cons d more =>
      cases same
      exact noComment ⟨more, by simp [Lexeme.chars]⟩

theorem segmentsFrom {value : Lexeme} (split : segments source = front ++ .lexeme value :: back)
    (inLine : value ≠ .newline) (noComment : ¬['/', '/'] <+: value.chars) :
    segments (charsOf (.lexeme value :: back)) = .lexeme value :: back := by
  obtain ⟨tail, ⟨boundary, read⟩, single, below⟩ := onLine split inLine
  have here := traceSound (traceAnywhere read (noCommentFrom read rfl noComment) true)
  rw [← segmentsSingle single] at here
  apply segmentsBelow here
  simpa using below

theorem segmentsBehind {op : Operator} (split : segments source = front ++ .lexeme (.op op) :: back)
    (noComment : ¬['/', '/'] <+: charsOf back) : segments (charsOf back) = back := by
  obtain ⟨tail, ⟨boundary, read⟩, single, below⟩ := onLine split (by simp)
  have short : ¬['/', '/'] <+: charsOf tail := by
    rcases below with rfl | ⟨below, rfl⟩
    · exact noComment
    · rw [charsAppend] at noComment
      exact fun starts => noComment (starts.trans (List.prefix_append _ _))
  have here := traceSound (traceAnywhere (traceBehind read) short true)
  rw [charsCons, List.mem_append, not_or] at single
  rw [← segmentsSingle single.2] at here
  exact segmentsBelow here below

end Cut

theorem placeSplit {p : Position} {xs : List Segment} {before behind : List Token} {t : Token}
    (placed : (place p xs).1 = before ++ t :: behind) :
    ∃ front back, xs = front ++ .lexeme t.lexeme :: back ∧ place p front = (before, t.position) ∧
      (place (t.position.after t.lexeme) back).1 = behind := by
  induction xs generalizing p before with
  | nil => simp [place] at placed
  | cons x xs ih =>
    cases x with
    | gap text =>
      obtain ⟨front, back, rfl, here, later⟩ := ih placed
      exact ⟨.gap text :: front, back, rfl, here, later⟩
    | lexeme value =>
      rcases List.cons_eq_append_iff.mp placed with ⟨rfl, same⟩ | ⟨tail, rfl, rest⟩
      · cases same
        exact ⟨[], xs, rfl, rfl, rfl⟩
      · obtain ⟨front, back, rfl, here, later⟩ := ih rest
        exact ⟨.lexeme value :: front, back, rfl, by simp [place, here], later⟩

theorem offsetAt {front : List Segment} {before : List Token} {t : Token}
    (here : place .start front = (before, t.position)) : t.offset = (charsOf front).length := by
  have moved := placeOffset .start front
  rw [here] at moved
  simpa [Token.offset, Position.start] using moved

theorem placeBehind (p : Position) (xs : List Segment) :
    ∀ t ∈ (place p xs).1, p.offset ≤ t.offset ∧ .lexeme t.lexeme ∈ xs := by
  induction xs generalizing p with
  | nil => simp [place]
  | cons x xs ih =>
    intro t member
    cases x with
    | gap text =>
      obtain ⟨behind, lexeme⟩ := ih _ t member
      exact ⟨Nat.le_trans (Nat.le_add_right _ _) behind, by simp [lexeme]⟩
    | lexeme value =>
      rcases List.mem_cons.mp member with rfl | later
      · exact ⟨Nat.le_refl _, by simp⟩
      · obtain ⟨behind, lexeme⟩ := ih _ t later
        rw [afterOffset] at behind
        exact ⟨Nat.le_trans (Nat.le_add_right _ _) behind, by simp [lexeme]⟩

theorem placeLexemes (p q : Position) (xs : List Segment) :
    (place p xs).1.map Token.lexeme = (place q xs).1.map Token.lexeme := by
  induction xs generalizing p q with
  | nil => rfl
  | cons x xs ih =>
    cases x with
    | gap text => exact ih _ _
    | lexeme value => simp only [place, List.map_cons, ih (p.after value) (q.after value)]

theorem placeFront {p : Position} {xs : List Segment} {run behind : List Token}
    (placed : (place p xs).1 = run ++ behind) :
    ∃ front back, xs = front ++ back ∧ (place p front).1 = run ∧ ∀ last, run.getLast? = some last →
      last.stop = p.offset + (charsOf front).length ∧ ∃ before, front = before ++ [.lexeme last.lexeme] := by
  rcases List.eq_nil_or_concat run with rfl | ⟨others, last, rfl⟩
  · exact ⟨[], xs, rfl, rfl, by simp⟩
  · rw [List.concat_eq_append, List.append_assoc, List.singleton_append] at placed
    rw [List.concat_eq_append]
    obtain ⟨front, back, rfl, here, -⟩ := placeSplit placed
    have offset : last.position.offset = p.offset + (charsOf front).length := by
      rw [← placeOffset, here]
    refine ⟨front ++ [.lexeme last.lexeme], back, by simp, by simp [placeAppend, here, place], ?_⟩
    intro other same
    rw [List.getLast?_concat] at same
    cases same
    refine ⟨?_, front, rfl⟩
    rw [Token.stop, Token.offset, offset, charsAppend, List.length_append]
    simp [charsOf, Segment.chars, Nat.add_assoc]

end LineScript.Lexer

namespace LineScript
open Lexer

theorem segmentsOfRun {source : List Char} {first : Token} {others : List Token}
    (run : first :: others <:+: tokens source) :
    ∃ front middle back before last, segments source = front ++ (.lexeme first.lexeme :: middle) ++ back ∧
      .lexeme first.lexeme :: middle = before ++ [.lexeme last] ∧
      (place first.position (.lexeme first.lexeme :: middle)).1 = first :: others ∧
      sourceText source (first :: others) = String.ofList (charsOf (.lexeme first.lexeme :: middle)) := by
  obtain ⟨before, behind, run⟩ := run
  obtain ⟨front, tail, split, here, later⟩ := @placeSplit .start (segments source) before
    (others ++ behind) first (by simpa [tokens, scan] using run.symm)
  have placed : (place first.position (.lexeme first.lexeme :: tail)).1 = (first :: others) ++ behind := by
    simp [place, later]
  obtain ⟨run, back, whole, spans, reach⟩ := placeFront placed
  obtain ⟨last, found⟩ := Option.isSome_iff_exists.mp
    (List.getLast?_isSome.mpr (List.cons_ne_nil first others))
  obtain ⟨stop, ahead, ends⟩ := reach last found
  obtain ⟨middle, rfl⟩ : ∃ middle, run = .lexeme first.lexeme :: middle := by
    rcases List.cons_eq_append_iff.mp whole with ⟨rfl, -⟩ | ⟨middle, rfl, -⟩
    · contradiction
    · exact ⟨middle, rfl⟩
  refine ⟨front, middle, back, ahead, last.lexeme, ?_, ends, spans, ?_⟩
  · rw [split, whole, List.append_assoc]
  · have start := offsetAt here
    have chars : source = charsOf front ++ (charsOf (.lexeme first.lexeme :: middle) ++ charsOf back) := by
      rw [← charsAppend, ← whole, ← charsAppend, ← split, segmentsChars]
    have width : last.stop - first.offset = (charsOf (.lexeme first.lexeme :: middle)).length := by
      rw [stop, Token.offset, Nat.add_sub_cancel_left]
    unfold sourceText
    simp only [List.head?_cons, found, width]
    rw [start, chars, List.drop_left, List.take_left]

theorem tokensOfRun {source : List Char} {first : Token} {others : List Token}
    (run : first :: others <:+: tokens source) (inLine : first.lexeme ≠ .newline)
    (noComment : ¬['/', '/'] <+: first.lexeme.chars) :
    (tokens (sourceText source (first :: others)).toList).map Token.lexeme =
      (first :: others).map Token.lexeme := by
  obtain ⟨front, middle, back, -, -, split, -, spans, text⟩ := segmentsOfRun run
  rw [List.append_assoc, List.cons_append] at split
  have alone := segmentsFrom split inLine noComment
  have read := @segmentsCut _ (.lexeme first.lexeme :: middle) back alone .start
  have lexemes := placeLexemes .start first.position (.lexeme first.lexeme :: middle)
  rw [spans] at lexemes
  simpa only [text, tokens, scan, String.toList_ofList, read] using lexemes

end LineScript
