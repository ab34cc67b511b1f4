import LineScript.Script.Lexer

/-! Cutting a line into segments, as a relation: one rule for each thing that can stand at the
front of a line. The relation is exactly the graph of `lineSegments`. Segments lose no character,
and a line that is cut between two of its segments is read as the same segments on both sides. -/
namespace LineScript.Lexer

def charsOf (segments : List Segment) : List Char := segments.flatMap Segment.chars

theorem charsAppend (xs ys : List Segment) : charsOf (xs ++ ys) = charsOf xs ++ charsOf ys :=
  List.flatMap_append

theorem charsCons (x : Segment) (xs : List Segment) : charsOf (x :: xs) = x.chars ++ charsOf xs := rfl

theorem headOfFront {α : Type} {xs ys : List α} {x : α} (front : xs <+: ys)
    (head : xs.head? = some x) : ys.head? = some x := by
  obtain ⟨more, rfl⟩ := front
  simp [List.head?_append, head]

theorem dropWhileHead {α : Type} {p : α → Bool} {xs rest : List α} {x : α}
    (found : xs.dropWhile p = x :: rest) : p x = false := by
  have head := List.head?_dropWhile_not p xs
  rw [found] at head
  simpa using head

section Operators

theorem operatorChars {c : Char} {op : Operator} (found : operator? c = some op) :
    op.text.toList = [c] := by
  unfold operator? at found
  split at found <;> cases found <;> rfl

theorem compoundChars {c : Char} {op : Operator} (found : compound? c = some op) :
    op.text.toList = [c, '='] := by
  unfold compound? at found
  split at found <;> cases found <;> rfl

theorem readOperatorCons (c : Char) (cs : List Char) :
    readOperator? (c :: cs) =
      if cs.head? = some '=' ∧ (compound? c).isSome then (compound? c).map (·, cs.tail)
      else (operator? c).map (·, cs) := by
  cases cs with
  | nil => simp [readOperator?]
  | cons d cs =>
    by_cases equals : d = '='
    · subst equals
      cases found : compound? c <;> simp [readOperator?, found]
    · rw [readOperator?.eq_2 c (d :: cs) (by simp [equals])]
      simp [equals]

theorem readOperatorCut {cs rest short : List Char} {op : Operator}
    (read : readOperator? cs = some (op, rest)) (front : short <+: rest) :
    readOperator? (op.text.toList ++ short) = some (op, short) := by
  cases cs with
  | nil => cases read
  | cons c cs =>
    rw [readOperatorCons] at read
    split at read
    · obtain ⟨_, two, same⟩ := Option.map_eq_some_iff.mp read
      cases same
      simp [compoundChars two, readOperatorCons, two]
    · rename_i alone
      obtain ⟨_, one, same⟩ := Option.map_eq_some_iff.mp read
      cases same
      have stays : ¬(short.head? = some '=' ∧ (compound? c).isSome) :=
        fun longer => alone ⟨headOfFront front longer.1, longer.2⟩
      simp only [operatorChars one, List.singleton_append, readOperatorCons, if_neg stays, one, Option.map_some]

theorem readOperatorChars {cs rest : List Char} {op : Operator}
    (read : readOperator? cs = some (op, rest)) : op.text.toList ++ rest = cs := by
  cases cs with
  | nil => cases read
  | cons c cs =>
    rw [readOperatorCons] at read
    split at read
    · rename_i longer
      obtain ⟨tail, rfl⟩ := List.head?_eq_some_iff.mp longer.1
      obtain ⟨_, two, same⟩ := Option.map_eq_some_iff.mp read
      cases same
      simp [compoundChars two]
    · obtain ⟨_, one, same⟩ := Option.map_eq_some_iff.mp read
      cases same
      simp [operatorChars one]

theorem noOperatorCut {c : Char} {cs short : List Char} (missing : readOperator? (c :: cs) = none)
    (front : short <+: cs) : readOperator? (c :: short) = none := by
  rw [readOperatorCons] at missing ⊢
  split at missing
  · rename_i longer
    rw [Option.map_eq_none_iff.mp missing] at longer
    simp at longer
  · rename_i alone
    have stays : ¬(short.head? = some '=' ∧ (compound? c).isSome) :=
      fun longer => alone ⟨headOfFront front longer.1, longer.2⟩
    rw [if_neg stays, Option.map_eq_none_iff.mp missing]
    rfl

end Operators

section Words

def stopsWord : List Char → Bool
  | [] => true
  | c :: cs => endsWord c || (c = '!' && cs.head? = some '=')

theorem splitWordStop {cs : List Char} (stops : stopsWord cs = true) : splitWord cs = ([], cs) := by
  cases cs with
  | nil => rfl
  | cons c cs =>
    unfold stopsWord at stops
    rw [splitWord, if_pos stops]

theorem splitWordStops (cs : List Char) : stopsWord (splitWord cs).2 = true := by
  induction cs with
  | nil => rfl
  | cons c cs ih =>
    rw [splitWord]
    split
    · assumption
    · exact ih

theorem splitWordCut {more rest short : List Char} (split : splitWord (more ++ rest) = (more, rest))
    (front : short <+: rest) (stops : stopsWord short = true) :
    splitWord (more ++ short) = (more, short) := by
  induction more with
  | nil => exact splitWordStop stops
  | cons c more ih =>
    rw [List.cons_append, splitWord] at split
    split at split
    · cases split
    · rename_i goesOn
      have tail : splitWord (more ++ rest) = (more, rest) := by
        simp only [Prod.mk.injEq, List.cons.injEq, true_and] at split
        exact Prod.ext split.1 split.2
      have goesOn' : ¬(endsWord c || (c = '!' && (more ++ short).head? = some '=')) = true := by
        intro ends
        apply goesOn
        simp only [Bool.or_eq_true, Bool.and_eq_true, decide_eq_true_eq] at ends ⊢
        exact ends.imp id (And.imp id (headOfFront ((List.prefix_append_right_inj more).mpr front)))
      rw [List.cons_append, splitWord, if_neg goesOn', ih tail]

end Words

theorem quoteFree (cs : List Char) : '"' ∉ cs.takeWhile (· ≠ '"') := by
  intro member
  simpa using List.all_eq_true.mp List.all_takeWhile _ member

theorem upToQuote {content : List Char} (noQuote : '"' ∉ content) (rest : List Char) :
    (content ++ '"' :: rest).takeWhile (· ≠ '"') = content ∧
      (content ++ '"' :: rest).dropWhile (· ≠ '"') = '"' :: rest := by
  have inside : ∀ c ∈ content, decide (c ≠ '"') = true := by
    intro c member
    simpa using fun (quote : c = '"') => noQuote (quote ▸ member)
  rw [List.takeWhile_append_of_pos inside, List.dropWhile_append_of_pos inside]
  simp

structure StartsWord (boundary : Bool) (c : Char) (cs : List Char) : Prop where
  notBlank : isBlank c = false
  notQuote : c ≠ '"'
  noOperator : readOperator? (c :: cs) = none
  noComment : boundary = true → c = '/' → cs.head? ≠ some '/'

inductive Trace : Bool → List Char → List Segment → Prop where
  | done (boundary) : Trace boundary [] []
  | blank {boundary c cs xs} (isBlank : isBlank c = true) (next : Trace true cs xs) :
      Trace boundary (c :: cs) (.gap [c] :: xs)
  | comment (cs) : Trace true ('/' :: '/' :: cs) [.gap ('/' :: '/' :: cs)]
  | unclosed {boundary cs} (noQuote : '"' ∉ cs) :
      Trace boundary ('"' :: cs) (unclosedQuote ('"' :: cs))
  | literal {boundary content rest xs} (noQuote : '"' ∉ content) (next : Trace false rest xs) :
      Trace boundary ('"' :: (content ++ '"' :: rest))
        (.lexeme (.literal (String.ofList content)) :: xs)
  | operator {boundary cs op rest xs} (read : readOperator? cs = some (op, rest))
      (next : Trace false rest xs) : Trace boundary cs (.lexeme (.op op) :: xs)
  | word {boundary c more rest xs} (front : StartsWord boundary c (more ++ rest))
      (split : splitWord (more ++ rest) = (more, rest)) (next : Trace false rest xs) :
      Trace boundary (c :: (more ++ rest)) (.lexeme (.word (String.ofList (c :: more))) :: xs)

theorem lineTrace (boundary : Bool) (cs : List Char) : Trace boundary cs (lineSegments boundary cs) := by
  induction boundary, cs using lineSegments.induct with
  | case1 boundary =>
    rw [lineSegments]
    exact .done boundary
  | case2 boundary c cs blank ih =>
    rw [lineSegments, if_pos blank]
    exact .blank blank ih
  | case3 boundary c cs blank comment =>
    rw [lineSegments, if_neg blank, if_pos comment]
    simp only [Bool.and_eq_true, decide_eq_true_eq] at comment
    obtain ⟨⟨rfl, rfl⟩, second⟩ := comment
    obtain ⟨rest, rfl⟩ := List.head?_eq_some_iff.mp second
    exact .comment rest
  | case4 boundary cs unclosed blank comment =>
    rw [lineSegments, if_neg blank, if_neg comment, if_pos rfl]
    split
    · have whole := List.takeWhile_append_dropWhile (p := fun x => decide (x ≠ '"')) (l := cs)
      rw [unclosed, List.append_nil] at whole
      exact .unclosed (whole ▸ quoteFree cs)
    · rename_i found
      cases unclosed.symm.trans found
  | case5 boundary cs quote rest closed blank comment ih =>
    rw [lineSegments, if_neg blank, if_neg comment, if_pos rfl]
    split
    · rename_i found
      cases closed.symm.trans found
    · rename_i other later found
      obtain ⟨rfl, rfl⟩ := List.cons.inj (found.symm.trans closed)
      have isQuote : other = '"' := by simpa using dropWhileHead closed
      have whole := List.takeWhile_append_dropWhile (p := fun x => decide (x ≠ '"')) (l := cs)
      rw [closed, isQuote] at whole
      have read := @Trace.literal boundary _ _ _ (quoteFree cs) ih
      rwa [whole] at read
  | case6 boundary c cs blank comment quote op rest read ih =>
    rw [lineSegments, if_neg blank, if_neg comment, if_neg quote]
    split
    · rename_i other later found
      obtain ⟨rfl, rfl⟩ := Prod.mk.inj (Option.some.inj (found.symm.trans read))
      exact .operator read ih
    · rename_i found
      cases read.symm.trans found
  | case7 boundary c cs blank comment quote read ih =>
    rw [lineSegments, if_neg blank, if_neg comment, if_neg quote]
    split
    · rename_i found
      cases read.symm.trans found
    · have front : StartsWord boundary c cs :=
        ⟨by simpa using blank, quote, read,
          fun atBoundary slash second => comment (by simp [atBoundary, slash, second])⟩
      have whole := splitWord_append cs
      have word := @Trace.word boundary c (splitWord cs).1 (splitWord cs).2 _
        (by rwa [whole]) (by rw [whole]) ih
      rwa [whole] at word

theorem operatorFirst {c : Char} {cs rest : List Char} {op : Operator}
    (read : readOperator? (c :: cs) = some (op, rest)) : isBlank c = false ∧ c ≠ '/' ∧ c ≠ '"' := by
  have chars := readOperatorChars read
  cases op <;> cases chars <;> decide

theorem traceSound {boundary : Bool} {cs : List Char} {xs : List Segment}
    (trace : Trace boundary cs xs) : lineSegments boundary cs = xs := by
  induction trace with
  | done boundary => rw [lineSegments]
  | blank isBlank next ih => rw [lineSegments, if_pos isBlank, ih]
  | comment cs => simp [lineSegments, isBlank]
  | @unclosed boundary cs noQuote =>
    rw [lineSegments, if_neg (by decide), if_neg (by simp), if_pos rfl]
    split
    · rfl
    · rename_i found
      have quote : '"' ∈ cs.dropWhile (· ≠ '"') := by
        have isQuote := dropWhileHead found
        simp_all
      exact absurd (List.dropWhile_subset _ quote) noQuote
  | @literal boundary content rest xs noQuote next ih =>
    obtain ⟨before, behind⟩ := upToQuote noQuote rest
    rw [lineSegments, if_neg (by decide), if_neg (by simp), if_pos rfl]
    split
    · rename_i found
      cases behind.symm.trans found
    · rename_i found
      obtain ⟨-, rfl⟩ := List.cons.inj (found.symm.trans behind)
      rw [before, ih]
  | @operator boundary cs op rest xs read next ih =>
    cases cs with
    | nil => cases read
    | cons c cs =>
      obtain ⟨blank, slash, quote⟩ := operatorFirst read
      rw [lineSegments, if_neg (by simp [blank]), if_neg (by simp [slash]), if_neg quote]
      split
      · rename_i found
        obtain ⟨rfl, rfl⟩ := Prod.mk.inj (Option.some.inj (found.symm.trans read))
        rw [ih]
      · rename_i found
        cases read.symm.trans found
  | @word boundary c more rest xs front split next ih =>
    have comment : ¬(boundary && c = '/' && (more ++ rest).head? = some '/') = true := by
      simpa using front.noComment
    rw [lineSegments, if_neg (by simp [front.notBlank]), if_neg comment, if_neg front.notQuote]
    split
    · rename_i found
      cases front.noOperator.symm.trans found
    · rw [split, ih]

theorem unclosedQuoteChars (cs : List Char) : charsOf (unclosedQuote cs) = cs := by
  simp [charsOf, unclosedQuote, Segment.chars, Lexeme.chars, Text.trimEnd_append_trailingSpace]

theorem traceChars {boundary : Bool} {cs : List Char} {xs : List Segment}
    (trace : Trace boundary cs xs) : charsOf xs = cs := by
  induction trace with
  | done boundary => rfl
  | blank isBlank next ih => simp [charsCons, ih, Segment.chars]
  | comment cs => simp [charsOf, Segment.chars]
  | unclosed noQuote => exact unclosedQuoteChars _
  | literal noQuote next ih => simp [charsCons, ih, Segment.chars, Lexeme.chars]
  | operator read next ih =>
    rw [charsCons, ih]
    exact readOperatorChars read
  | word front split next ih => simp [charsCons, ih, Segment.chars, Lexeme.chars]

theorem lineSegmentsChars (boundary : Bool) (cs : List Char) :
    charsOf (lineSegments boundary cs) = cs := traceChars (lineTrace boundary cs)

theorem traceNoNewline {boundary : Bool} {cs : List Char} {xs : List Segment}
    (trace : Trace boundary cs xs) : Segment.lexeme .newline ∉ xs := by
  induction trace with
  | done boundary => simp
  | comment cs => simp
  | unclosed noQuote => simp [unclosedQuote]
  | _ => simpa using ‹_›

theorem lineSegmentsNoNewline (boundary : Bool) (cs : List Char) :
    Segment.lexeme .newline ∉ lineSegments boundary cs := traceNoNewline (lineTrace boundary cs)

theorem trimEndQuote (cs : List Char) : Text.trimEnd ('"' :: cs) = '"' :: Text.trimEnd cs := by
  have stays : ['"'].dropWhile Text.isSpace = ['"'] := by decide
  simp only [Text.trimEnd, List.reverse_cons, List.dropWhile_append, stays]
  split
  · simp_all
  · simp

theorem traceNonempty {boundary : Bool} {cs : List Char} {xs : List Segment}
    (trace : Trace boundary cs xs) : ∀ value, Segment.lexeme value ∈ xs → value.chars ≠ [] := by
  induction trace with
  | done boundary => simp
  | comment cs => simp
  | blank isBlank next ih => simpa using ih
  | unclosed noQuote => simp [unclosedQuote, Lexeme.chars, trimEndQuote]
  | literal noQuote next ih => simpa [Lexeme.chars] using ih
  | @operator boundary cs op rest xs read next ih =>
    have chars : op.text.toList ≠ [] := by cases op <;> decide
    simpa [Lexeme.chars, chars] using ih
  | word begins ends next ih => simpa [Lexeme.chars] using ih

section Cut

theorem trimEndTwice (cs : List Char) : Text.trimEnd (Text.trimEnd cs) = Text.trimEnd cs ∧
    Text.trailingSpace (Text.trimEnd cs) = [] := by
  have none : (cs.reverse.dropWhile Text.isSpace).takeWhile Text.isSpace = [] := by
    cases found : cs.reverse.dropWhile Text.isSpace with
    | nil => rfl
    | cons c rest => simp [dropWhileHead found]
  have whole := Text.trimEnd_append_trailingSpace (Text.trimEnd cs)
  have empty : Text.trailingSpace (Text.trimEnd cs) = [] := by
    simp [Text.trailingSpace, Text.trimEnd, none]
  rw [empty, List.append_nil] at whole
  exact ⟨whole, empty⟩

theorem lineNotEqual (boundary : Bool) (rest : List Char) :
    lineSegments boundary ('!' :: '=' :: rest) = .lexeme (.op .notEqual) :: lineSegments false rest :=
  traceSound (.operator rfl (lineTrace false rest))

theorem stopsWordCut {front back : List Segment} {rest : List Char}
    (trace : Trace false rest (front ++ back)) (stops : stopsWord rest = true) :
    stopsWord (charsOf front) = true := by
  have whole := traceChars trace
  rw [charsAppend] at whole
  cases short : charsOf front with
  | nil => rfl
  | cons c cs =>
    rw [short] at whole
    subst whole
    cases cs with
    | cons d cs => exact stops
    | nil =>
      -- the two characters of `!=` are in one segment
      simp only [List.singleton_append, stopsWord, Bool.or_eq_true, Bool.and_eq_true,
        decide_eq_true_eq] at stops ⊢
      refine stops.imp id ?_
      rintro ⟨rfl, equals⟩
      obtain ⟨rest, found⟩ := List.head?_eq_some_iff.mp equals
      have read := traceSound trace
      rw [List.singleton_append, found, lineNotEqual] at read
      rcases List.cons_eq_append_iff.mp read with ⟨rfl, -⟩ | ⟨tail, rfl, -⟩
      · cases short
      · simp [charsCons, Segment.chars, Lexeme.chars, Operator.text] at short

theorem placeCons {xs ys : List Segment} (same : ∀ p, place p xs = place p ys) (x : Segment)
    (p : Position) : place p (x :: xs) = place p (x :: ys) := by
  cases x <;> simp [place, same]

theorem traceCut {boundary : Bool} {cs : List Char} {xs front back : List Segment}
    (trace : Trace boundary cs xs) (split : xs = front ++ back) :
    ∃ ys, Trace boundary (charsOf front) ys ∧ ∀ p, place p ys = place p front := by
  have nothing (boundary : Bool) : ∃ ys, Trace boundary (charsOf []) ys ∧ ∀ p, place p ys = place p [] :=
    ⟨[], .done boundary, fun _ => rfl⟩
  induction trace generalizing front with
  | done boundary =>
    obtain ⟨rfl, -⟩ := List.append_eq_nil_iff.mp split.symm
    exact nothing boundary
  | @blank boundary c cs xs isBlank next ih =>
    rcases List.cons_eq_append_iff.mp split with ⟨rfl, -⟩ | ⟨tail, rfl, rest⟩
    · exact nothing boundary
    · obtain ⟨ys, read, same⟩ := ih rest
      exact ⟨_, .blank isBlank read, placeCons same _⟩
  | comment cs =>
    rcases List.cons_eq_append_iff.mp split with ⟨rfl, -⟩ | ⟨tail, rfl, rest⟩
    · exact nothing true
    · obtain ⟨rfl, -⟩ := List.append_eq_nil_iff.mp rest.symm
      exact ⟨_, by simpa [charsOf, Segment.chars] using Trace.comment cs, fun _ => rfl⟩
  | @unclosed boundary cs noQuote =>
    rcases List.cons_eq_append_iff.mp split with ⟨rfl, -⟩ | ⟨tail, rfl, behind⟩
    · exact nothing boundary
    · rcases List.cons_eq_append_iff.mp behind with ⟨rfl, -⟩ | ⟨tail, rfl, last⟩
      · -- without its white space the quote leaves an empty gap, which moves nothing
        have free : '"' ∉ Text.trimEnd cs := by
          rw [← Text.trimEnd_append_trailingSpace cs, List.mem_append, not_or] at noQuote
          exact noQuote.1
        have read := @Trace.unclosed boundary _ free
        rw [← trimEndQuote] at read
        refine ⟨_, by simpa [charsOf, Segment.chars, Lexeme.chars] using read, fun p => ?_⟩
        simp only [unclosedQuote, trimEndTwice, place, List.length_nil]
        rfl
      · obtain ⟨rfl, -⟩ := List.append_eq_nil_iff.mp last.symm
        have whole := unclosedQuoteChars ('"' :: cs)
        unfold unclosedQuote at whole
        rw [whole]
        exact ⟨_, .unclosed noQuote, fun _ => rfl⟩
  | @literal boundary content rest xs noQuote next ih =>
    rcases List.cons_eq_append_iff.mp split with ⟨rfl, -⟩ | ⟨tail, rfl, behind⟩
    · exact nothing boundary
    · obtain ⟨ys, read, same⟩ := ih behind
      refine ⟨_, ?_, placeCons same _⟩
      simpa [charsCons, Segment.chars, Lexeme.chars] using Trace.literal noQuote read
  | @operator boundary cs op rest xs read next ih =>
    rcases List.cons_eq_append_iff.mp split with ⟨rfl, -⟩ | ⟨tail, rfl, behind⟩
    · exact nothing boundary
    · obtain ⟨ys, later, same⟩ := ih behind
      have short : charsOf tail <+: rest := ⟨charsOf back, by rw [← charsAppend, ← behind, traceChars next]⟩
      exact ⟨_, .operator (readOperatorCut read short) later, placeCons same _⟩
  | @word boundary c more rest xs begins ends next ih =>
    rcases List.cons_eq_append_iff.mp split with ⟨rfl, -⟩ | ⟨tail, rfl, behind⟩
    · exact nothing boundary
    · obtain ⟨ys, later, same⟩ := ih behind
      have short : charsOf tail <+: rest := ⟨charsOf back, by rw [← charsAppend, ← behind, traceChars next]⟩
      have shorter := (List.prefix_append_right_inj more).mpr short
      have stillBegins : StartsWord boundary c (more ++ charsOf tail) :=
        ⟨begins.notBlank, begins.notQuote, noOperatorCut begins.noOperator shorter,
          fun atBoundary slash head => begins.noComment atBoundary slash (headOfFront shorter head)⟩
      have stops : stopsWord rest = true := by
        have found := splitWordStops (more ++ rest)
        rwa [ends] at found
      have read := Trace.word stillBegins (splitWordCut ends short (stopsWordCut (behind ▸ next) stops)) later
      refine ⟨_, ?_, placeCons same _⟩
      simpa [charsCons, Segment.chars, Lexeme.chars] using read

/- Away from comments the boundary does not count. -/
theorem traceAnywhere {boundary : Bool} {cs : List Char} {xs : List Segment}
    (trace : Trace boundary cs xs) (noComment : ¬['/', '/'] <+: cs) (other : Bool) :
    Trace other cs xs := by
  cases trace with
  | done => exact .done other
  | blank isBlank next => exact .blank isBlank next
  | comment cs => simp at noComment
  | unclosed noQuote => exact .unclosed noQuote
  | literal noQuote next => exact .literal noQuote next
  | operator read next => exact .operator read next
  | word begins ends next =>
    refine .word ⟨begins.notBlank, begins.notQuote, begins.noOperator, ?_⟩ ends next
    rintro - rfl second
    obtain ⟨tail, same⟩ := List.head?_eq_some_iff.mp second
    exact noComment ⟨tail, by simp [same]⟩

theorem traceTail {boundary : Bool} {cs : List Char} {x : Segment} {xs all : List Segment}
    (trace : Trace boundary cs all) (split : all = x :: xs) :
    (∃ other rest, Trace other rest xs) ∨ ∀ value, Segment.lexeme value ∉ xs := by
  cases trace with
  | done => cases split
  | comment cs =>
    cases split
    exact .inr (by simp)
  | unclosed noQuote =>
    cases split
    exact .inr (by simp)
  | blank isBlank next | literal noQuote next | operator read next | word begins ends next =>
    cases split
    exact .inl ⟨_, _, next⟩

theorem traceFrom {boundary : Bool} {cs : List Char} {front back : List Segment} {value : Lexeme}
    (trace : Trace boundary cs (front ++ .lexeme value :: back)) :
    ∃ other, Trace other (charsOf (.lexeme value :: back)) (.lexeme value :: back) := by
  induction front generalizing boundary cs with
  | nil => exact ⟨boundary, (traceChars trace).symm ▸ trace⟩
  | cons x front ih =>
    rcases traceTail trace rfl with ⟨_, _, next⟩ | none
    · exact ih next
    · exact absurd (by simp) (none value)

theorem traceBehind {boundary : Bool} {cs : List Char} {op : Operator} {xs : List Segment}
    (trace : Trace boundary cs (.lexeme (.op op) :: xs)) : Trace false (charsOf xs) xs := by
  cases trace with
  | operator read next => exact (traceChars next).symm ▸ next

end Cut

end LineScript.Lexer
