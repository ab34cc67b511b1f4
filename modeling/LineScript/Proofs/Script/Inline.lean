import LineScript.Proofs.Script.Cut

/-! What can stand between two tokens of a line. Words and operators have no quotes and no blanks in
them, a plus sign is an operator wherever it is not between quotes, and a quote that is never closed
has everything behind it to itself. -/
namespace LineScript.Lexer

def isPlain (c : Char) : Bool := !isBlank c && c ≠ '"' && c ≠ '+'

def isPlus : Segment → Bool
  | .gap _ => false
  | .lexeme value => value == .op .plus

def isGap : Segment → Bool
  | .gap _ => true
  | .lexeme _ => false

inductive Inline : List Segment → Prop where
  | nil : Inline []
  | blank {c xs} (isBlank : isBlank c = true) (next : Inline xs) : Inline (.gap [c] :: xs)
  | literal {content xs} (noQuote : '"' ∉ content) (next : Inline xs) :
      Inline (.lexeme (.literal (String.ofList content)) :: xs)
  | op (operator) {xs} (next : Inline xs) : Inline (.lexeme (.op operator) :: xs)
  | word {c more xs} (plain : ∀ d ∈ c :: more, isPlain d = true) (next : Inline xs) :
      Inline (.lexeme (.word (String.ofList (c :: more))) :: xs)
  | unclosed {text} (noQuote : '"' ∉ text) (ends : ∀ d, ('"' :: text).getLast? = some d → isBlank d = false) :
      Inline [.lexeme (.word (String.ofList ('"' :: text)))]

theorem Inline.behind {xs ys : List Segment} (inline : Inline (xs ++ ys)) : Inline ys := by
  induction xs with
  | nil => exact inline
  | cons x xs ih =>
    rw [List.cons_append] at inline
    generalize whole : xs ++ ys = rest at inline
    rw [whole] at ih
    cases inline with
    | blank isBlank next => exact ih next
    | literal noQuote next => exact ih next
    | op operator next => exact ih next
    | word plain next => exact ih next
    | unclosed noQuote ends =>
      obtain ⟨-, rfl⟩ := List.append_eq_nil_iff.mp whole
      exact .nil

theorem Inline.front {xs ys : List Segment} (inline : Inline (xs ++ ys)) : Inline xs := by
  induction xs with
  | nil => exact .nil
  | cons x xs ih =>
    rw [List.cons_append] at inline
    generalize whole : xs ++ ys = rest at inline
    rw [whole] at ih
    cases inline with
    | blank isBlank next => exact .blank isBlank (ih next)
    | literal noQuote next => exact .literal noQuote (ih next)
    | op operator next => exact .op operator (ih next)
    | word plain next => exact .word plain (ih next)
    | unclosed noQuote ends =>
      obtain ⟨rfl, -⟩ := List.append_eq_nil_iff.mp whole
      exact .unclosed noQuote ends

section Trace

theorem spaceOfBlank {c : Char} (blank : isBlank c = true) : Text.isSpace c = true := by
  simp only [isBlank, Bool.or_eq_true, decide_eq_true_eq] at blank
  rcases blank with (rfl | rfl) | rfl <;> decide

theorem trimEndSolid (cs : List Char) : ∀ c, (Text.trimEnd cs).getLast? = some c → isBlank c = false := by
  intro c last
  rw [Text.trimEnd, List.getLast?_reverse] at last
  obtain ⟨rest, found⟩ := List.head?_eq_some_iff.mp last
  have solid := dropWhileHead found
  cases blank : isBlank c with
  | false => rfl
  | true => rw [spaceOfBlank blank] at solid; cases solid

theorem plainOfWord {c : Char} (goesOn : endsWord c = false) : isPlain c = true := by
  simp only [endsWord, Bool.or_eq_false_iff, decide_eq_false_iff_not] at goesOn
  obtain ⟨⟨⟨blank, -⟩, quote⟩, operator⟩ := goesOn
  have plus : c ≠ '+' := by
    rintro rfl
    cases operator
  simp [isPlain, blank, quote, plus]

theorem splitWordFree {cs more rest : List Char} (split : splitWord cs = (more, rest)) :
    ∀ c ∈ more, endsWord c = false := by
  induction cs generalizing more with
  | nil =>
    cases split
    simp
  | cons c cs ih =>
    rw [splitWord] at split
    split at split
    · cases split
      simp
    · rename_i goesOn
      cases split
      simp only [Bool.or_eq_true, not_or, Bool.not_eq_true] at goesOn
      exact List.forall_mem_cons.mpr ⟨goesOn.1, ih rfl⟩

theorem startPlain {boundary : Bool} {c : Char} {cs : List Char} (begins : StartsWord boundary c cs) :
    isPlain c = true := by
  have plus : c ≠ '+' := by
    rintro rfl
    have read := begins.noOperator
    rw [readOperatorCons] at read
    simp [compound?, operator?] at read
  simp [isPlain, begins.notBlank, begins.notQuote, plus]

def EndsSolid (xs : List Segment) : Prop := ∀ text, xs.getLast? ≠ some (.gap text)

theorem inlineFront {x : Segment} {all xs ys : List Segment} (split : x :: all = xs ++ ys) (ends : EndsSolid xs)
    (next : ∀ tail, all = tail ++ ys → EndsSolid (x :: tail) → EndsSolid tail → Inline (x :: tail)) : Inline xs := by
  rcases List.cons_eq_append_iff.mp split with ⟨rfl, -⟩ | ⟨tail, rfl, rest⟩
  · exact .nil
  · refine next tail rest ends fun text last => ends text ?_
    rw [List.getLast?_cons, last]
    rfl

theorem inlineTrace {boundary : Bool} {cs : List Char} {all xs ys : List Segment} (trace : Trace boundary cs all)
    (split : all = xs ++ ys) (ends : EndsSolid xs) : Inline xs := by
  induction trace generalizing xs with
  | done boundary =>
    obtain ⟨rfl, -⟩ := List.append_eq_nil_iff.mp split.symm
    exact .nil
  | comment cs =>
    refine inlineFront split ends fun tail rest ends _ => ?_
    obtain ⟨rfl, -⟩ := List.append_eq_nil_iff.mp rest.symm
    exact absurd rfl (ends _)
  | blank isBlank next ih => exact inlineFront split ends fun tail rest _ ends => .blank isBlank (ih rest ends)
  | @unclosed boundary cs noQuote =>
    refine inlineFront split ends fun tail rest _ ends => ?_
    rcases List.cons_eq_append_iff.mp rest with ⟨rfl, -⟩ | ⟨tail, rfl, last⟩
    · have solid := trimEndSolid ('"' :: cs)
      rw [trimEndQuote] at solid ⊢
      refine .unclosed ?_ solid
      rw [← Text.trimEnd_append_trailingSpace cs, List.mem_append, not_or] at noQuote
      exact noQuote.1
    · -- The blanks behind an unclosed quote are no part of it, and no lexeme comes after them.
      obtain ⟨rfl, -⟩ := List.append_eq_nil_iff.mp last.symm
      exact absurd rfl (ends _)
  | literal noQuote next ih => exact inlineFront split ends fun tail rest _ ends => .literal noQuote (ih rest ends)
  | operator read next ih => exact inlineFront split ends fun tail rest _ ends => .op _ (ih rest ends)
  | @word boundary c more rest xs begins split' next ih =>
    refine inlineFront split ends fun tail rest _ ends => .word ?_ (ih rest ends)
    exact List.forall_mem_cons.mpr ⟨startPlain begins, fun d member => plainOfWord (splitWordFree split' d member)⟩

end Trace

structure Framed (xs : List Segment) : Prop where
  first : ∃ value rest, xs = .lexeme value :: rest
  last : ∃ front value, xs = front ++ [.lexeme value]

theorem placeHas {value : Lexeme} {xs : List Segment} (member : .lexeme value ∈ xs) (p : Position) :
    ∃ t ∈ (place p xs).1, t.lexeme = value := by
  induction xs generalizing p with
  | nil => contradiction
  | cons x xs ih =>
    rcases List.mem_cons.mp member with rfl | later
    · exact ⟨_, List.mem_cons_self, rfl⟩
    · cases x with
      | gap text => exact ih later _
      | lexeme other =>
        obtain ⟨t, found, same⟩ := ih later (p.after other)
        exact ⟨t, List.mem_cons_of_mem _ found, same⟩

theorem inlineRun {source : List Char} {first : Token} {others : List Token}
    (run : first :: others <:+: tokens source) (inLine : ∀ t ∈ first :: others, t.lexeme ≠ .newline) :
    ∃ xs, Inline xs ∧ Framed xs ∧ (place first.position xs).1 = first :: others ∧
      sourceText source (first :: others) = String.ofList (charsOf xs) := by
  obtain ⟨front, middle, back, before, last, split, ends, spans, text⟩ := segmentsOfRun run
  refine ⟨.lexeme first.lexeme :: middle, ?_, ⟨⟨_, _, rfl⟩, ⟨_, _, ends⟩⟩, spans, text⟩
  rw [List.append_assoc, List.cons_append] at split
  obtain ⟨tail, ⟨boundary, read⟩, -, below⟩ := onLine split (inLine first List.mem_cons_self)
  have within : ∃ rest, tail = middle ++ rest := by
    rcases below with whole | ⟨below, whole⟩
    · exact ⟨back, whole.symm⟩
    · rcases List.append_eq_append_iff.mp whole with ⟨rest, same, -⟩ | ⟨rest, same, behind⟩
      · exact ⟨rest, same⟩
      · rcases List.cons_eq_append_iff.mp behind with ⟨rfl, -⟩ | ⟨more, rfl, -⟩
        · exact ⟨[], by simpa using same.symm⟩
        · have inside : .lexeme .newline ∈ .lexeme first.lexeme :: middle := by simp [same]
          obtain ⟨t, found, newline⟩ := placeHas inside first.position
          exact absurd newline (inLine t (spans ▸ found))
  obtain ⟨rest, rfl⟩ := within
  refine @inlineTrace _ _ _ _ rest read rfl fun text gap => ?_
  rw [ends, List.getLast?_concat] at gap
  cases gap

section Gaps
variable {xs : List Segment}

theorem placeGaps (gaps : ∀ x ∈ xs, isGap x = true) (p : Position) : (place p xs).1 = [] := by
  induction xs generalizing p with
  | nil => rfl
  | cons x xs ih =>
    obtain ⟨first, others⟩ := List.forall_mem_cons.mp gaps
    cases x with
    | gap text => exact ih others _
    | lexeme value => cases first

theorem inlineGaps (inline : Inline xs) (gaps : ∀ x ∈ xs, isGap x = true) : ∀ c ∈ charsOf xs, isBlank c = true := by
  induction inline with
  | nil => simp [charsOf]
  | blank isBlank next ih =>
    rw [charsCons, Segment.chars, List.singleton_append]
    exact List.forall_mem_cons.mpr ⟨isBlank, ih (List.forall_mem_cons.mp gaps).2⟩
  | literal noQuote next => cases (List.forall_mem_cons.mp gaps).1
  | op operator next => cases (List.forall_mem_cons.mp gaps).1
  | word plain next => cases (List.forall_mem_cons.mp gaps).1
  | unclosed noQuote ends => cases (List.forall_mem_cons.mp gaps).1

theorem framedCore (xs : List Segment) : ∃ lead core trail, xs = lead ++ (core ++ trail) ∧
    (∀ x ∈ lead, isGap x = true) ∧ (∀ x ∈ trail, isGap x = true) ∧ (core = [] ∨ Framed core) := by
  induction xs with
  | nil => exact ⟨[], [], [], rfl, by simp, by simp, .inl rfl⟩
  | cons x xs ih =>
    obtain ⟨lead, core, trail, rfl, before, behind, framed⟩ := ih
    cases x with
    | gap text => exact ⟨.gap text :: lead, core, trail, rfl, by simpa using ⟨rfl, before⟩, behind, framed⟩
    | lexeme value =>
      rcases framed with rfl | ⟨-, front, last, ends⟩
      · refine ⟨[], [.lexeme value], lead ++ trail, by simp, by simp, ?_, .inr ⟨⟨_, _, rfl⟩, [], _, rfl⟩⟩
        exact List.forall_mem_append.mpr ⟨before, behind⟩
      · refine ⟨[], .lexeme value :: (lead ++ core), trail, by simp, by simp, behind, .inr ⟨⟨_, _, rfl⟩, ?_⟩⟩
        exact ⟨.lexeme value :: (lead ++ front), last, by rw [ends]; simp⟩

end Gaps

section Ends
variable {xs : List Segment} {value : Lexeme}

theorem plainSolid {c : Char} (plain : isPlain c = true) : isBlank c = false := by
  simp only [isPlain, Bool.and_eq_true, Bool.not_eq_true'] at plain
  exact plain.1.1

theorem inlineStarts (inline : Inline (.lexeme value :: xs)) : ∃ c cs, value.chars = c :: cs ∧ isBlank c = false := by
  cases inline with
  | literal noQuote next => exact ⟨_, _, rfl, rfl⟩
  | op operator next => cases operator <;> exact ⟨_, _, rfl, rfl⟩
  | word plain next => exact ⟨_, _, String.toList_ofList, plainSolid (plain _ List.mem_cons_self)⟩
  | unclosed noQuote ends => exact ⟨_, _, String.toList_ofList, rfl⟩

theorem inlineEnds (inline : Inline [.lexeme value]) : ∃ cs c, value.chars = cs ++ [c] ∧ isBlank c = false := by
  cases inline with
  | literal noQuote next => exact ⟨'"' :: _, _, rfl, rfl⟩
  | op operator next =>
    cases operator with
    | equal | notEqual | atLeast | atMost => exact ⟨[_], _, rfl, rfl⟩
    | _ => exact ⟨[], _, rfl, rfl⟩
  | @word c more _ plain next =>
    have solid := plain _ (List.getLast_mem (List.cons_ne_nil c more))
    refine ⟨(c :: more).dropLast, (c :: more).getLast (List.cons_ne_nil c more), ?_, plainSolid solid⟩
    rw [List.dropLast_concat_getLast]
    exact String.toList_ofList
  | @unclosed text noQuote ends =>
    refine ⟨('"' :: text).dropLast, ('"' :: text).getLast (List.cons_ne_nil _ _), ?_, ends _ (List.getLast?_eq_some_getLast _)⟩
    rw [List.dropLast_concat_getLast]
    exact String.toList_ofList

theorem inlineNonempty {x : Segment} (inline : Inline (x :: xs)) : charsOf (x :: xs) ≠ [] := by
  rw [charsCons]
  cases x with
  | gap text =>
    cases inline
    simp [Segment.chars]
  | lexeme value =>
    obtain ⟨c, cs, chars, -⟩ := inlineStarts inline
    simp [Segment.chars, chars]

theorem placeEnds (framed : Framed xs) (p : Position) : ∃ first last, (place p xs).1.head? = some first ∧
    (place p xs).1.getLast? = some last ∧ first.offset = p.offset ∧ last.stop = p.offset + (charsOf xs).length := by
  obtain ⟨⟨value, rest, starts⟩, front, last, ends⟩ := framed
  refine ⟨⟨value, p⟩, ⟨last, (place p front).2⟩, by rw [starts]; rfl, ?_, rfl, ?_⟩
  · rw [ends, placeAppend]
    exact List.getLast?_concat
  · rw [Token.stop, Token.offset, placeOffset, ends, charsAppend, List.length_append]
    simp [charsOf, Segment.chars, Nat.add_assoc]

end Ends

end LineScript.Lexer
