import LineScript.Proofs.Script.Inline

/-! Tokens and the gaps between them are the source, each at its place. Positions count what stands
before them; between two tokens are blanks, perhaps a comment behind them, or the white space that a
quote without its partner leaves at the end of its line. -/
namespace LineScript
open Lexer

def Position.behind (before : List Char) : Position :=
  ⟨before.length, 1 + before.count '\n', 1 + (before.reverse.takeWhile (· ≠ '\n')).length⟩

theorem behindInline {cs : List Char} (single : '\n' ∉ cs) (before : List Char) :
    Position.behind (before ++ cs) = (Position.behind before).advance cs.length := by
  have inside : ∀ c ∈ cs.reverse, decide (c ≠ '\n') = true := by
    intro c member
    have other : c ≠ '\n' := fun same => single (same ▸ List.mem_reverse.mp member)
    simpa using other
  simp only [Position.behind, Position.advance, List.length_append, List.count_append, List.reverse_append,
    List.takeWhile_append_of_pos inside, List.count_eq_zero.mpr single, List.length_reverse, Nat.add_zero]
  congr 1
  omega

theorem behindNewline (before : List Char) :
    Position.behind (before ++ ['\n']) = (Position.behind before).after .newline := by
  simp [Position.behind, Position.after]
  omega

def Segment.Single (x : Segment) : Prop := x = .lexeme .newline ∨ '\n' ∉ x.chars

/- What a lexeme is made of. Only words that begin with a quote, which is never closed, may have
blanks and operators in them. -/
def Lexeme.Shaped : Lexeme → Prop
  | .literal content => '"' ∉ content.toList ∧ '\n' ∉ content.toList
  | .word text => text.toList ≠ [] ∧ (text.toList.head? ≠ some '"' →
      (∀ c ∈ text.toList, isBlank c = false ∧ c ≠ '\n' ∧ c ≠ '"' ∧ operator? c = none) ∧
        ¬['!', '='] <:+: text.toList)
  | _ => True

namespace Lexer

theorem segmentOnLine (source : List Char) : ∀ x ∈ segments source,
    x = .lexeme .newline ∨ ∃ line, '\n' ∉ line ∧ x ∈ lineSegments true line := by
  induction source using sourceInduction with
  | single line free =>
    rw [segmentsSingle free]
    exact fun x member => .inr ⟨line, free, member⟩
  | above line below free ih =>
    rw [segmentsAppend, segmentsSingle free, List.forall_mem_append, List.forall_mem_cons]
    exact ⟨fun x member => .inr ⟨line, free, member⟩, .inl rfl, ih⟩

theorem segmentsSingleLine (source : List Char) : ∀ x ∈ segments source, x.Single := by
  intro x member
  rcases segmentOnLine source x member with newline | ⟨line, free, among⟩
  · exact .inl newline
  · refine .inr fun inside => free ?_
    rw [← lineSegmentsChars true line]
    exact List.mem_flatMap_of_mem among inside

theorem placeReaches {xs : List Segment} (single : ∀ x ∈ xs, x.Single) (before : List Char) :
    (place (.behind before) xs).2 = .behind (before ++ charsOf xs) := by
  induction xs generalizing before with
  | nil => simp [place, charsOf]
  | cons x xs ih =>
    obtain ⟨here, later⟩ := List.forall_mem_cons.mp single
    rw [charsCons, ← List.append_assoc, ← ih later]
    cases x with
    | gap text =>
      have free : '\n' ∉ text := here.resolve_left (by simp)
      rw [place, Segment.chars, behindInline free]
    | lexeme value =>
      have reached : (Position.behind before).after value = .behind (before ++ value.chars) := by
        cases value with
        | newline => exact (behindNewline before).symm
        | _ => exact (behindInline (here.resolve_left (by simp)) before).symm
      rw [place, Segment.chars, reached]

theorem placeOrdered {xs : List Segment} (p : Position) :
    (place p xs).1.Pairwise fun s t => s.stop ≤ t.offset := by
  induction xs generalizing p with
  | nil => exact .nil
  | cons x xs ih =>
    cases x with
    | gap text => exact ih _
    | lexeme value =>
      refine .cons (fun t member => ?_) (ih _)
      have behind := (placeBehind (p.after value) xs t member).1
      rwa [afterOffset] at behind

section Shape

theorem noOperatorFirst {c : Char} {cs : List Char} (missing : readOperator? (c :: cs) = none) :
    operator? c = none := by
  have alone := noOperatorCut missing (List.nil_prefix (l := cs))
  rw [readOperatorCons, if_neg (by simp)] at alone
  exact Option.map_eq_none_iff.mp alone

theorem shapedCons {first : Lexeme} {xs : List Segment} (here : first.Shaped)
    (others : ∀ value, Segment.lexeme value ∈ xs → value.Shaped) :
    ∀ value, Segment.lexeme value ∈ .lexeme first :: xs → value.Shaped := by
  intro value member
  rcases List.mem_cons.mp member with same | later
  · cases same
    exact here
  · exact others value later

theorem traceShaped {boundary : Bool} {cs : List Char} {xs : List Segment} (trace : Trace boundary cs xs)
    (single : '\n' ∉ cs) : ∀ value, Segment.lexeme value ∈ xs → value.Shaped := by
  induction trace with
  | done boundary => simp
  | comment cs => simp
  | blank isBlank next ih => simpa using ih (List.not_mem_of_not_mem_cons single)
  | unclosed noQuote => simp [unclosedQuote, Lexeme.Shaped, trimEndQuote]
  | literal noQuote next ih =>
    simp only [List.mem_cons, List.mem_append, not_or] at single
    exact shapedCons (by simp [Lexeme.Shaped, noQuote, single.2.1]) (ih single.2.2.2)
  | operator read next ih =>
    rw [← readOperatorChars read, List.mem_append, not_or] at single
    exact shapedCons trivial (ih single.2)
  | @word boundary c more rest xs front split next ih =>
    simp only [List.mem_cons, List.mem_append, not_or] at single
    refine shapedCons ?_ (ih single.2.2)
    have others (d) (inside : d ∈ more) : isBlank d = false ∧ d ≠ '\n' ∧ d ≠ '"' ∧ operator? d = none := by
      have goesOn := splitWordFree split d inside
      simpa [endsWord, and_assoc] using goesOn
    have all : ∀ d ∈ c :: more, isBlank d = false ∧ d ≠ '\n' ∧ d ≠ '"' ∧ operator? d = none :=
      List.forall_mem_cons.mpr ⟨⟨front.notBlank, Ne.symm single.1, front.notQuote,
        noOperatorFirst front.noOperator⟩, others⟩
    rw [Lexeme.Shaped, String.toList_ofList]
    refine ⟨List.cons_ne_nil _ _, fun _ => ⟨all, fun notEqual => ?_⟩⟩
    -- The second character of `!=` is an operator by itself.
    have operator := (all '=' (notEqual.subset (by simp))).2.2.2
    cases operator

theorem lexemesShaped (source : List Char) :
    ∀ value, Segment.lexeme value ∈ segments source → value.Shaped := by
  intro value member
  rcases segmentOnLine source _ member with newline | ⟨line, free, among⟩
  · cases newline
    trivial
  · exact traceShaped (lineTrace true line) free value among

end Shape

section Gaps

def BreaksLine (neighbour : Option Lexeme) : Prop := ∀ value, neighbour = some value → value = .newline

inductive Gap : Option Lexeme → List Char → Option Lexeme → Prop where
  | blanks {last text next} (blank : ∀ c ∈ text, isBlank c = true) : Gap last text next
  | comment {last blanks text next} (blank : ∀ c ∈ blanks, isBlank c = true)
      (boundary : blanks ≠ [] ∨ BreaksLine last) (single : '\n' ∉ text) (ends : BreaksLine next) :
      Gap last (blanks ++ '/' :: '/' :: text) next
  | trailing {quoted text next} (space : ∀ c ∈ text, Text.isSpace c = true) (single : '\n' ∉ text)
      (ends : BreaksLine next) : Gap (some (.word (String.ofList ('"' :: quoted)))) text next

theorem Gap.above {last : Option Lexeme} {text : List Char} (gap : Gap last text none) :
    Gap last text (some .newline) := by
  have newline : BreaksLine (some .newline) := fun value same => (Option.some.inj same).symm
  cases gap with
  | blanks blank => exact .blanks blank
  | comment blank boundary single ends => exact .comment blank boundary single newline
  | trailing space single ends => exact .trailing space single newline

def Laid (last : Option Lexeme) (text : List Char) : List Segment → Prop
  | [] => Gap last text none
  | .gap more :: xs => Laid last (text ++ more) xs
  | .lexeme value :: xs => Gap last text (some value) ∧ Laid (some value) [] xs

theorem endsSource : BreaksLine none := nofun

theorem laidTrace {boundary : Bool} {cs text : List Char} {xs : List Segment} {last : Option Lexeme}
    (trace : Trace boundary cs xs) (single : '\n' ∉ cs) (blank : ∀ c ∈ text, isBlank c = true)
    (start : boundary = true → text ≠ [] ∨ BreaksLine last) : Laid last text xs := by
  have none : ∀ c ∈ ([] : List Char), isBlank c = true := by simp
  -- The blanks that have been read go along: behind one of them a comment can start.
  induction trace generalizing last text with
  | done boundary => exact .blanks blank
  | @blank boundary c cs xs isBlank next ih =>
    refine ih (List.not_mem_of_not_mem_cons single) ?_ fun _ => .inl (by simp)
    exact List.forall_mem_append.mpr ⟨blank, List.forall_mem_singleton.mpr isBlank⟩
  | comment cs =>
    simp only [List.mem_cons, not_or] at single
    exact .comment blank (start rfl) single.2.2 endsSource
  | @unclosed boundary cs noQuote =>
    rw [unclosedQuote, trimEndQuote]
    refine ⟨.blanks blank, .trailing (fun c member => ?_) (fun member => single ?_) endsSource⟩
    · simp only [Text.trailingSpace, List.nil_append, List.mem_reverse] at member
      exact List.all_eq_true.mp List.all_takeWhile c member
    · rw [← Text.trimEnd_append_trailingSpace ('"' :: cs)]
      exact List.mem_append_right _ member
  | @literal boundary content rest xs noQuote next ih =>
    simp only [List.mem_cons, List.mem_append, not_or] at single
    exact ⟨.blanks blank, ih single.2.2.2 none (by simp)⟩
  | @operator boundary cs op rest xs read next ih =>
    rw [← readOperatorChars read, List.mem_append, not_or] at single
    exact ⟨.blanks blank, ih single.2 none (by simp)⟩
  | @word boundary c more rest xs front split next ih =>
    simp only [List.mem_cons, List.mem_append, not_or] at single
    exact ⟨.blanks blank, ih single.2.2 none (by simp)⟩

theorem laidAbove {last : Option Lexeme} {text : List Char} {xs ys : List Segment} (line : Laid last text xs)
    (below : Laid (some .newline) [] ys) : Laid last text (xs ++ .lexeme .newline :: ys) := by
  induction xs generalizing last text with
  | nil => exact ⟨line.above, below⟩
  | cons x xs ih =>
    cases x with
    | gap more => exact @ih last (text ++ more) line
    | lexeme value => exact ⟨line.1, ih line.2⟩

theorem laidSegments (source : List Char) {last : Option Lexeme} (start : BreaksLine last) :
    Laid last [] (segments source) := by
  induction source using sourceInduction generalizing last with
  | single line free =>
    rw [segmentsSingle free]
    exact laidTrace (lineTrace true line) free (by simp) fun _ => .inr start
  | above line below free ih =>
    rw [segmentsAppend, segmentsSingle free]
    refine laidAbove (laidTrace (lineTrace true line) free (by simp) fun _ => .inr start) (ih ?_)
    exact fun value same => (Option.some.inj same).symm

theorem laidBehind {last : Option Lexeme} {text : List Char} {front back : List Segment} {value : Lexeme}
    (laid : Laid last text (front ++ .lexeme value :: back)) : Laid (some value) [] back := by
  induction front generalizing last text with
  | nil => exact laid.2
  | cons x front ih =>
    cases x with
    | gap more => exact @ih last (text ++ more) laid
    | lexeme other => exact ih laid.2

theorem laidFirst {last : Option Lexeme} {text : List Char} {xs : List Segment} (laid : Laid last text xs)
    (p : Position) : ∃ gap rest, charsOf xs = gap ++ rest ∧
      Gap last (text ++ gap) ((place p xs).1.head?.map Token.lexeme) ∧
      ((place p xs).1.head?.map Token.offset).getD (p.offset + (charsOf xs).length) = p.offset + gap.length := by
  induction xs generalizing text p with
  | nil => exact ⟨[], [], rfl, by rwa [List.append_nil], rfl⟩
  | cons x xs ih =>
    cases x with
    | gap more =>
      obtain ⟨gap, rest, whole, here, reach⟩ := ih laid (p.advance more.length)
      refine ⟨more ++ gap, rest, ?_, ?_, ?_⟩
      · rw [charsCons, whole, List.append_assoc]
        rfl
      · rw [← List.append_assoc]
        exact here
      · rw [charsCons, List.length_append, List.length_append, ← Nat.add_assoc, ← Nat.add_assoc]
        exact reach
    | lexeme value => exact ⟨[], _, rfl, by rw [List.append_nil]; exact laid.1, rfl⟩

end Gaps
end Lexer

def stopOf (before : List Token) : Nat := (before.getLast?.map Token.stop).getD 0

def startOf (source : List Char) (behind : List Token) : Nat :=
  (behind.head?.map Token.offset).getD source.length

structure Lossless (source : List Char) : Prop where
  text : ∀ t ∈ tokens source, t.stop ≤ source.length ∧ source.extract t.offset t.stop = t.lexeme.chars
  nonempty : ∀ t ∈ tokens source, t.offset < t.stop
  ordered : (tokens source).Pairwise fun s t => s.stop ≤ t.offset
  position : ∀ t ∈ tokens source, t.position = .behind (source.take t.offset)
  finish : (scan source).finish = .behind source
  newlines : ∀ i, source[i]? = some '\n' ↔ ∃ t ∈ tokens source, t.offset = i ∧ t.isNewline = true
  gaps : ∀ before behind, tokens source = before ++ behind →
    Gap (before.getLast?.map Token.lexeme) (source.extract (stopOf before) (startOf source behind))
      (behind.head?.map Token.lexeme)
  shapes : ∀ t ∈ tokens source, t.lexeme.Shaped

section Lossless
variable {source : List Char}

theorem scanBehind (source : List Char) : (scan source).finish = .behind source := by
  have reaches := placeReaches (segmentsSingleLine source) []
  rwa [List.nil_append, segmentsChars] at reaches

theorem tokenSplit {t : Token} (member : t ∈ tokens source) : ∃ front back before,
    segments source = front ++ .lexeme t.lexeme :: back ∧ place .start front = (before, t.position) ∧
      source = charsOf front ++ (t.lexeme.chars ++ charsOf back) ∧ t.offset = (charsOf front).length := by
  obtain ⟨before, behind, whole⟩ := List.append_of_mem member
  obtain ⟨front, back, split, here, -⟩ := placeSplit whole
  refine ⟨front, back, before, split, here, ?_, offsetAt here⟩
  rw [← segmentsChars source, split, charsAppend, charsCons]
  rfl

theorem tokenNonempty {t : Token} (member : t ∈ tokens source) : t.offset < t.stop := by
  have lexeme := (placeBehind .start (segments source) t member).2
  exact Nat.lt_add_of_pos_right (List.length_pos_iff.mpr (lexemeChars source _ lexeme))

theorem textOfToken {t : Token} (member : t ∈ tokens source) :
    source.extract t.offset t.stop = t.lexeme.chars := by
  obtain ⟨front, back, before, -, -, whole, offset⟩ := tokenSplit member
  rw [whole, List.extract, Token.stop, offset, Nat.add_sub_cancel_left, List.drop_left, List.take_left]

theorem positionOfToken {t : Token} (member : t ∈ tokens source) :
    t.position = .behind (source.take t.offset) := by
  obtain ⟨front, back, before, split, here, whole, offset⟩ := tokenSplit member
  have single : ∀ x ∈ front, x.Single := by
    intro x inside
    refine segmentsSingleLine source x ?_
    rw [split]
    exact List.mem_append_left _ inside
  have reaches := placeReaches single []
  rw [List.nil_append] at reaches
  rw [offset, whole, List.take_left, ← reaches]
  exact (congrArg Prod.snd here).symm

theorem newlineTokens (i : Nat) :
    source[i]? = some '\n' ↔ ∃ t ∈ tokens source, t.offset = i ∧ t.isNewline = true := by
  constructor
  · intro found
    obtain ⟨inside, here⟩ := List.getElem?_eq_some_iff.mp found
    have whole : source.take i ++ '\n' :: source.drop (i + 1) = source := by
      rw [← here, List.getElem_cons_drop, List.take_append_drop]
    have split := tokensAppend (source.take i) (source.drop (i + 1))
    rw [whole] at split
    refine ⟨⟨.newline, (scan (source.take i)).finish⟩, by simp [split], ?_, rfl⟩
    rw [Token.offset, (scanFinish _).1, List.length_take, Nat.min_eq_left (Nat.le_of_lt inside)]
  · rintro ⟨t, member, rfl, newline⟩
    have kind : t.lexeme = .newline := eq_of_beq newline
    obtain ⟨front, back, before, -, -, whole, offset⟩ := tokenSplit member
    rw [offset, whole, kind]
    simp [Lexeme.chars]

theorem gapSplit {before behind : List Token} (split : tokens source = before ++ behind) :
    ∃ front back, source = charsOf front ++ charsOf back ∧ stopOf before = (charsOf front).length ∧
      Laid (before.getLast?.map Token.lexeme) [] back ∧ ∃ p, p.offset = (charsOf front).length ∧
        (place p back).1 = behind := by
  have laid := laidSegments source endsSource
  have chars {front back : List Segment} (whole : segments source = front ++ back) :
      source = charsOf front ++ charsOf back := by
    rw [← charsAppend, ← whole, segmentsChars]
  rcases List.eq_nil_or_concat before with rfl | ⟨others, last, rfl⟩
  · exact ⟨[], segments source, chars rfl, rfl, laid, .start, rfl, split⟩
  · rw [List.concat_eq_append, List.append_assoc, List.singleton_append] at split
    obtain ⟨front, back, whole, here, later⟩ := placeSplit split
    have offset : last.offset = (charsOf front).length := offsetAt here
    have reach : last.stop = (charsOf (front ++ [.lexeme last.lexeme])).length := by
      rw [Token.stop, offset, charsAppend, List.length_append]
      simp [charsOf, Segment.chars]
    refine ⟨front ++ [.lexeme last.lexeme], back, chars (by simpa using whole), ?_, ?_,
      last.position.after last.lexeme, ?_, later⟩
    · simp [stopOf, reach]
    · rw [whole] at laid
      simpa using laidBehind laid
    · rw [afterOffset, ← reach]
      rfl

theorem gapBetween {before behind : List Token} (split : tokens source = before ++ behind) :
    Gap (before.getLast?.map Token.lexeme) (source.extract (stopOf before) (startOf source behind))
      (behind.head?.map Token.lexeme) := by
  obtain ⟨front, back, whole, stop, laid, p, offset, rfl⟩ := gapSplit split
  obtain ⟨gap, rest, chars, here, reach⟩ := laidFirst laid p
  have start : startOf source (place p back).1 = (charsOf front).length + gap.length := by
    rw [startOf, whole, List.length_append, ← offset, reach]
  rw [List.extract, stop, start, Nat.add_sub_cancel_left, whole, List.drop_left, chars, List.take_left]
  exact here

end Lossless

/- Tokens and gaps are the source. -/
theorem tokensLossless (source : List Char) : Lossless source where
  text t member := ⟨tokensWithin source t member, textOfToken member⟩
  nonempty _ := tokenNonempty
  ordered := placeOrdered .start
  position _ := positionOfToken
  finish := scanBehind source
  newlines := newlineTokens
  gaps _ _ := gapBetween
  shapes t member := lexemesShaped source _ (placeBehind .start (segments source) t member).2

end LineScript
