import LineScript.Proofs.Script.Segments

/-! Reading is lossless and goes line by line: the segments of a source are the source, and the
tokens of two texts with a line break between them are those of the first, the line break, and
those of the second further down. -/
namespace LineScript

def Position.shift (offset lines : Nat) (p : Position) : Position :=
  ⟨p.offset + offset, p.line + lines, p.column⟩

def Token.shift (offset lines : Nat) (t : Token) : Token := ⟨t.lexeme, t.position.shift offset lines⟩

def lineCount (source : List Char) : Nat := (Lexer.splitLines source).length

namespace Lexer

theorem splitLinesNonempty (cs : List Char) : splitLines cs ≠ [] := by
  cases cs with
  | nil => simp [splitLines]
  | cons c cs =>
    rw [splitLines]
    split
    · simp
    · split <;> simp

theorem splitLinesAppend (a b : List Char) :
    splitLines (a ++ '\n' :: b) = splitLines a ++ splitLines b := by
  induction a with
  | nil => simp [splitLines]
  | cons c a ih =>
    rw [List.cons_append, splitLines, splitLines, ih]
    split
    · rfl
    · cases found : splitLines a with
      | nil => exact absurd found (splitLinesNonempty a)
      | cons first others => rfl

theorem joinLinesAppend {xs ys : List (List Segment)} (left : xs ≠ []) (right : ys ≠ []) :
    joinLines (xs ++ ys) = joinLines xs ++ .lexeme .newline :: joinLines ys := by
  induction xs with
  | nil => contradiction
  | cons x xs ih =>
    cases xs with
    | nil =>
      cases ys with
      | nil => contradiction
      | cons y ys => rfl
    | cons z zs =>
      have rest := ih (by simp)
      simp only [List.cons_append, joinLines, List.append_assoc] at rest ⊢
      rw [rest]

theorem segmentsAppend (a b : List Char) :
    segments (a ++ '\n' :: b) = segments a ++ .lexeme .newline :: segments b := by
  unfold segments
  rw [splitLinesAppend, List.map_append]
  apply joinLinesAppend <;> simp [splitLinesNonempty]

theorem splitLinesSingle {line : List Char} (single : '\n' ∉ line) : splitLines line = [line] := by
  induction line with
  | nil => rfl
  | cons c cs ih =>
    rw [List.mem_cons, not_or] at single
    rw [splitLines, if_neg (Ne.symm single.1), ih single.2]

theorem segmentsSingle {line : List Char} (single : '\n' ∉ line) :
    segments line = lineSegments true line := by
  simp only [segments, splitLinesSingle single, List.map_cons, List.map_nil, joinLines]

theorem sourceInduction {P : List Char → Prop} (single : ∀ line, '\n' ∉ line → P line)
    (above : ∀ line below, '\n' ∉ line → P below → P (line ++ '\n' :: below)) (source : List Char) :
    P source := by
  by_cases more : '\n' ∈ source
  · obtain ⟨line, below, same, free⟩ := List.eq_append_cons_of_mem more
    have shorter : below.length < source.length := by
      rw [same, List.length_append, List.length_cons]
      omega
    rw [same]
    exact above line below free (sourceInduction single above below)
  · exact single source more
termination_by source.length

theorem segmentsChars (source : List Char) : charsOf (segments source) = source := by
  induction source using sourceInduction with
  | single line free => rw [segmentsSingle free, lineSegmentsChars]
  | above line below free ih =>
    rw [segmentsAppend, segmentsSingle free, charsAppend, charsCons, lineSegmentsChars, ih]
    rfl

theorem placeAppend (p : Position) (xs ys : List Segment) :
    place p (xs ++ ys) =
      ((place p xs).1 ++ (place (place p xs).2 ys).1, (place (place p xs).2 ys).2) := by
  induction xs generalizing p with
  | nil => rfl
  | cons x xs ih => cases x <;> simp [place, ih]

theorem placeShift (offset lines : Nat) (p : Position) (xs : List Segment) :
    place (p.shift offset lines) xs =
      ((place p xs).1.map (Token.shift offset lines), (place p xs).2.shift offset lines) := by
  induction xs generalizing p with
  | nil => rfl
  | cons x xs ih =>
    cases x with
    | gap text =>
      have moved : (p.shift offset lines).advance text.length =
          (p.advance text.length).shift offset lines := by
        simp [Position.shift, Position.advance, Nat.add_right_comm]
      simp only [place, moved, ih]
    | lexeme value =>
      have moved : (p.shift offset lines).after value = (p.after value).shift offset lines := by
        cases value <;> simp [Position.shift, Position.after, Position.advance, Nat.add_right_comm]
      simp only [place, moved, ih, List.map_cons]
      rfl

theorem afterOffset (p : Position) (value : Lexeme) :
    (p.after value).offset = p.offset + value.chars.length := by
  cases value <;> rfl

theorem placeOffset (p : Position) (xs : List Segment) :
    (place p xs).2.offset = p.offset + (charsOf xs).length := by
  induction xs generalizing p with
  | nil => rfl
  | cons x xs ih =>
    rw [charsCons, List.length_append]
    cases x with
    | gap text =>
      simp only [place, ih, Segment.chars, Position.advance]
      omega
    | lexeme value =>
      simp only [place, ih, Segment.chars, afterOffset]
      omega

theorem placeWithin (p : Position) (xs : List Segment) :
    ∀ t ∈ (place p xs).1, t.stop ≤ p.offset + (charsOf xs).length := by
  induction xs generalizing p with
  | nil => simp [place]
  | cons x xs ih =>
    intro t member
    rw [charsCons, List.length_append]
    cases x with
    | gap text =>
      have bound := ih (p.advance text.length) t member
      simp only [Position.advance] at bound
      simp only [Segment.chars]
      omega
    | lexeme value =>
      rcases List.mem_cons.mp member with rfl | later
      · simp only [Token.stop, Token.offset, Segment.chars]
        omega
      · have bound := ih (p.after value) t later
        rw [afterOffset] at bound
        simp only [Segment.chars]
        omega

def newlines (xs : List Segment) : Nat := xs.count (.lexeme .newline)

theorem placeLine (p : Position) (xs : List Segment) :
    (place p xs).2.line = p.line + newlines xs := by
  induction xs generalizing p with
  | nil => rfl
  | cons x xs ih =>
    cases x with
    | gap text => simp [place, ih, newlines, Position.advance]
    | lexeme value =>
      cases value <;> simp [place, ih, newlines, Position.after, Position.advance]
      omega

theorem segmentsNewlines (source : List Char) :
    newlines (segments source) + 1 = (splitLines source).length := by
  have none (line : List Char) : newlines (lineSegments true line) = 0 :=
    List.count_eq_zero.mpr (lineSegmentsNoNewline true line)
  induction source using sourceInduction with
  | single line free => rw [segmentsSingle free, splitLinesSingle free, none, List.length_singleton]
  | above line below free ih =>
    have here := none line
    rw [segmentsAppend, segmentsSingle free, splitLinesAppend, splitLinesSingle free]
    simp only [newlines, List.count_append, List.count_cons_self, List.length_append,
      List.length_singleton] at here ih ⊢
    omega

end Lexer

open Lexer

theorem scanFinish (source : List Char) :
    (scan source).finish.offset = source.length ∧ (scan source).finish.line = lineCount source := by
  constructor
  · show (place .start (segments source)).2.offset = _
    rw [placeOffset, segmentsChars]
    simp [Position.start]
  · show (place .start (segments source)).2.line = _
    rw [placeLine]
    rw [Nat.add_comm]
    exact segmentsNewlines source

theorem tokensWithin (source : List Char) : ∀ t ∈ tokens source, t.stop ≤ source.length := by
  intro t member
  have bound := placeWithin .start (segments source) t member
  rw [segmentsChars] at bound
  simpa [Position.start] using bound

theorem tokensAppend (a b : List Char) :
    tokens (a ++ '\n' :: b) = tokens a ++ ⟨.newline, (scan a).finish⟩ ::
      (tokens b).map (Token.shift (a.length + 1) (lineCount a)) := by
  obtain ⟨offset, line⟩ := scanFinish a
  have behind : (scan a).finish.after .newline = Position.start.shift (a.length + 1) (lineCount a) := by
    simp only [Position.after, Position.shift, Position.start, offset, line]
    simp [Nat.add_comm]
  simp only [tokens, scan, segmentsAppend, placeAppend, place]
  simp only [scan] at behind
  rw [behind, placeShift]

end LineScript
