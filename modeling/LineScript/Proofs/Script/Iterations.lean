import LineScript.Proofs.Script.Lossless

/-! Reading a source as one loop over an index into it, which remembers the line it is on and where
that line starts. Every turn of the loop moves the index on, so the loop ends within as many turns
as the source has characters, and then it has read the tokens of the source. -/
namespace LineScript.Lexer

structure Reader where
  index : Nat
  line : Nat
  lineStart : Nat
  deriving DecidableEq, Repr

namespace Reader

def start : Reader := ⟨0, 1, 0⟩

def position (r : Reader) : Position := ⟨r.index, r.line, r.index - r.lineStart + 1⟩

def move (r : Reader) (count : Nat) : Reader := { r with index := r.index + count }

def breakLine (r : Reader) : Reader := ⟨r.index + 1, r.line + 1, r.index + 1⟩

def boundary (source : List Char) (r : Reader) : Bool :=
  r.index = r.lineStart || (source.take r.index).getLast?.any isBlank

def turn (source : List Char) (r : Reader) : List Token × Reader :=
  match source.drop r.index with
  | [] => ([], r)
  | c :: cs =>
    if c = '\n' then ([⟨.newline, r.position⟩], r.breakLine)
    else if isBlank c then ([], r.move 1)
    else if c = '/' && cs.head? = some '/' && r.boundary source then
      ([], r.move ((c :: cs).takeWhile (· ≠ '\n')).length)
    else if c = '"' then
      let onLine := cs.takeWhile (· ≠ '\n')
      let content := cs.takeWhile (· ≠ '"')
      if content.length < onLine.length then
        ([⟨.literal (String.ofList content), r.position⟩], r.move (content.length + 2))
      else ([⟨.word (String.ofList (Text.trimEnd (c :: onLine))), r.position⟩], r.move (onLine.length + 1))
    else
      match readOperator? (c :: cs) with
      | some (op, _) => ([⟨.op op, r.position⟩], r.move op.text.toList.length)
      | none =>
        let word := (splitWord (c :: cs)).1
        ([⟨.word (String.ofList word), r.position⟩], r.move word.length)

def loop (source : List Char) : Nat → Reader → Option (List Token × Reader)
  | 0, r => if r.index < source.length then none else some ([], r)
  | turns + 1, r =>
    if r.index < source.length then
      (loop source turns (r.turn source).2).map fun later => ((r.turn source).1 ++ later.1, later.2)
    else some ([], r)

end Reader

section Progress

theorem wordStarts {c : Char} {cs : List Char} (missing : readOperator? (c :: cs) = none)
    (newline : c ≠ '\n') (blank : isBlank c = false) (quote : c ≠ '"') :
    splitWord (c :: cs) = (c :: (splitWord cs).1, (splitWord cs).2) := by
  have single : operator? c = none := noOperatorFirst missing
  have notEqual : ¬(c = '!' ∧ cs.head? = some '=') := by
    rintro ⟨rfl, equals⟩
    rw [readOperatorCons, if_pos ⟨equals, rfl⟩] at missing
    cases missing
  rw [splitWord, if_neg]
  simpa [endsWord, single, newline, blank, quote] using notEqual

theorem turnAdvances {source : List Char} {r : Reader} (more : r.index < source.length) :
    r.index < (r.turn source).2.index ∧ (r.turn source).2.index ≤ source.length := by
  have length : (source.drop r.index).length = source.length - r.index := List.length_drop
  have far {count : Nat} (some : 0 < count) (fits : count ≤ (source.drop r.index).length) :
      r.index < (r.move count).index ∧ (r.move count).index ≤ source.length := by
    simp only [Reader.move]
    omega
  unfold Reader.turn
  cases here : source.drop r.index with
  | nil =>
    rw [here, List.length_nil] at length
    omega
  | cons c cs =>
    rw [here] at far
    simp only
    split
    · exact far Nat.one_pos (by simp)
    rename_i newline
    split
    · exact far Nat.one_pos (by simp)
    rename_i blank
    split
    · refine far ?_ (List.takeWhile_prefix _).length_le
      simp [newline]
    split
    · have onLine := (List.takeWhile_prefix (l := cs) (· ≠ '\n')).length_le
      split
      · refine far (by omega) ?_
        rw [List.length_cons]
        omega
      · refine far (by omega) ?_
        rw [List.length_cons]
        omega
    rename_i quote
    split
    · rename_i op rest read
      have whole := congrArg List.length (readOperatorChars read)
      have text : 0 < op.text.toList.length := by cases op <;> decide
      rw [List.length_append] at whole
      exact far text (by omega)
    · rename_i read
      have whole := congrArg List.length (splitWord_append (c :: cs))
      rw [List.length_append] at whole
      refine far ?_ (by omega)
      rw [wordStarts read newline (by simpa using blank) quote]
      simp

end Progress

section Runs

inductive Goes (source : List Char) : Reader → List Token → Reader → Prop where
  | stay (r) : Goes source r [] r
  | step {r ts last} (more : r.index < source.length) (next : Goes source (r.turn source).2 ts last) :
      Goes source r ((r.turn source).1 ++ ts) last

theorem Goes.trans {source : List Char} {r s t : Reader} {ts us : List Token} (first : Goes source r ts s)
    (later : Goes source s us t) : Goes source r (ts ++ us) t := by
  induction first with
  | stay r => exact later
  | step more next ih =>
    rw [List.append_assoc]
    exact .step more (ih later)

theorem Goes.turn {source : List Char} {r s : Reader} {ts : List Token} (more : r.index < source.length)
    (one : r.turn source = (ts, s)) : Goes source r ts s := by
  have step := Goes.step more (.stay (r.turn source).2)
  rwa [one, List.append_nil] at step

theorem loopGoes {source : List Char} {r last : Reader} {ts : List Token} (goes : Goes source r ts last)
    (ends : source.length ≤ last.index) {turns : Nat} (enough : source.length ≤ r.index + turns) :
    r.loop source turns = some (ts, last) := by
  induction goes generalizing turns with
  | stay r => cases turns <;> rw [Reader.loop, if_neg (Nat.not_lt.mpr ends)]
  | @step r ts last more next ih =>
    have advances := (turnAdvances more).1
    cases turns with
    | zero => omega
    | succ turns => rw [Reader.loop, if_pos more, ih ends (by omega), Option.map_some]

end Runs

section Lines

def EndsLine (tail : List Char) : Prop := ∀ c, tail.head? = some c → c = '\n'

variable {tail : List Char}

theorem headOfLine {c : Char} (ends : EndsLine tail) (cs : List Char) (other : c ≠ '\n') :
    (cs ++ tail).head? = some c ↔ cs.head? = some c := by
  cases cs with
  | nil => simpa using fun here => other (ends c here)
  | cons d cs => rfl

theorem otherOnly {c : Char} {cs : List Char} (free : c ∉ cs) : ∀ d ∈ cs, decide (d ≠ c) = true := by
  intro d member
  simpa using fun (same : d = c) => free (same ▸ member)

theorem takeLine {cs : List Char} (ends : EndsLine tail) (single : '\n' ∉ cs) :
    (cs ++ tail).takeWhile (· ≠ '\n') = cs := by
  rw [List.takeWhile_append_of_pos (otherOnly single)]
  cases tail with
  | nil => simp
  | cons c tail => simp [ends c rfl]

theorem operatorInLine {cs rest : List Char} {op : Operator} (ends : EndsLine tail)
    (read : readOperator? cs = some (op, rest)) : readOperator? (cs ++ tail) = some (op, rest ++ tail) := by
  cases cs with
  | nil => cases read
  | cons c cs =>
    simp only [List.cons_append, readOperatorCons, headOfLine ends cs (show '=' ≠ '\n' by decide)] at read ⊢
    split at read
    · rename_i longer
      obtain ⟨cs, rfl⟩ := List.head?_eq_some_iff.mp longer.1
      obtain ⟨_, two, same⟩ := Option.map_eq_some_iff.mp read
      cases same
      rw [if_pos longer, two]
      rfl
    · rename_i alone
      obtain ⟨_, one, same⟩ := Option.map_eq_some_iff.mp read
      cases same
      rw [if_neg alone, one]
      rfl

theorem noOperatorInLine {c : Char} {cs : List Char} (ends : EndsLine tail)
    (missing : readOperator? (c :: cs) = none) : readOperator? (c :: (cs ++ tail)) = none := by
  simp only [readOperatorCons, headOfLine ends cs (show '=' ≠ '\n' by decide)] at missing ⊢
  split at missing
  · rename_i longer
    rw [Option.map_eq_none_iff.mp missing] at longer
    simp at longer
  · rename_i alone
    rw [if_neg alone, Option.map_eq_none_iff.mp missing]
    rfl

theorem splitWordInLine (ends : EndsLine tail) (cs : List Char) :
    splitWord (cs ++ tail) = ((splitWord cs).1, (splitWord cs).2 ++ tail) := by
  induction cs with
  | nil =>
    refine splitWordStop ?_
    cases tail with
    | nil => rfl
    | cons c tail => simp [stopsWord, ends c rfl, endsWord]
  | cons c cs ih =>
    simp only [List.cons_append, splitWord, headOfLine ends cs (show '=' ≠ '\n' by decide), ih]
    split <;> rfl

structure Passes (source : List Char) (r : Reader) (before cs tail : List Char) : Prop where
  whole : source = before ++ (cs ++ tail)
  index : r.index = before.length
  onLine : r.lineStart ≤ r.index

theorem Passes.here {source before cs : List Char} {r : Reader} (passes : Passes source r before cs tail) :
    source.drop r.index = cs ++ tail := by
  rw [passes.whole, passes.index, List.drop_left]

theorem Passes.first {source before cs : List Char} {r : Reader} {c : Char}
    (passes : Passes source r before (c :: cs) tail) : source.drop r.index = c :: (cs ++ tail) := passes.here

theorem Passes.more {source before cs : List Char} {r : Reader} {c : Char}
    (passes : Passes source r before (c :: cs) tail) : r.index < source.length := by
  rw [passes.whole, passes.index]
  simp

theorem Passes.moved {source before front cs : List Char} {r : Reader}
    (passes : Passes source r before (front ++ cs) tail) :
    Passes source (r.move front.length) (before ++ front) cs tail where
  whole := by rw [passes.whole, List.append_assoc, List.append_assoc]
  index := by rw [List.length_append, ← passes.index, Reader.move]
  onLine := Nat.le_add_right_of_le passes.onLine

theorem Passes.broken {source before below : List Char} {r : Reader}
    (passes : Passes source r before [] ('\n' :: below)) :
    Passes source r.breakLine (before ++ ['\n']) below [] where
  whole := by simpa using passes.whole
  index := by simpa [Reader.breakLine] using passes.index
  onLine := Nat.le_refl _

theorem Passes.position {source before cs : List Char} {r : Reader} (passes : Passes source r before cs tail)
    (count : Nat) : (r.move count).position = r.position.advance count := by
  have onLine := passes.onLine
  simp only [Reader.position, Reader.move, Position.advance, Position.mk.injEq, true_and]
  omega

theorem Passes.boundary {source before front cs : List Char} {r : Reader} {c : Char}
    (passes : Passes source r before (front ++ cs) tail) (last : front.getLast? = some c) :
    (r.move front.length).boundary source = isBlank c := by
  have moved := passes.moved
  have onLine := passes.onLine
  have some : 0 < front.length := List.length_pos_iff.mpr (by rintro rfl; cases last)
  have away : ¬(r.move front.length).index = (r.move front.length).lineStart := by
    simp only [Reader.move]
    omega
  have read : source.take (r.move front.length).index = before ++ front := by
    rw [moved.whole, moved.index, List.take_left]
  simp [Reader.boundary, away, read, List.getLast?_append, last]

theorem placeInLine {xs : List Segment} (inLine : Segment.lexeme .newline ∉ xs) (p : Position) :
    (place p xs).2 = p.advance (charsOf xs).length := by
  induction xs generalizing p with
  | nil => rfl
  | cons x xs ih =>
    rw [List.mem_cons, not_or] at inLine
    rw [charsCons, List.length_append]
    have further (front back : Nat) : (p.advance front).advance back = p.advance (front + back) := by
      simp only [Position.advance, Nat.add_assoc]
    cases x with
    | gap text => rw [place, ih inLine.2, further, Segment.chars]
    | lexeme value =>
      have behind : p.after value = p.advance value.chars.length := by
        cases value with
        | newline => exact absurd rfl inLine.1
        | _ => rfl
      rw [place, behind, ih inLine.2, further, Segment.chars]

theorem Goes.segment {source before cs : List Char} {r : Reader} {x : Segment} {xs : List Segment}
    (passes : Passes source r before (x.chars ++ cs) tail) (solid : x.chars ≠ []) (inLine : x ≠ .lexeme .newline)
    (one : r.turn source = ((place r.position [x]).1, r.move x.chars.length))
    (later : Goes source (r.move x.chars.length) (place (r.move x.chars.length).position xs).1
      ((r.move x.chars.length).move cs.length)) :
    Goes source r (place r.position (x :: xs)).1 (r.move (x.chars ++ cs).length) := by
  have more : r.index < source.length := by
    have some : 0 < x.chars.length := List.length_pos_iff.mpr solid
    rw [passes.whole, passes.index, List.length_append, List.length_append, List.length_append]
    omega
  have placed := placeAppend r.position [x] xs
  rw [List.singleton_append, placeInLine (by simpa using Ne.symm inLine) r.position] at placed
  simp only [charsOf, List.flatMap_singleton, ← passes.position] at placed
  have far : r.move (x.chars ++ cs).length = (r.move x.chars.length).move cs.length := by
    simp only [Reader.move, List.length_append, Nat.add_assoc]
  rw [placed, far]
  exact (Goes.turn more one).trans later

section Turns
variable {source cs : List Char} {r : Reader}

theorem turnNewline (here : source.drop r.index = '\n' :: cs) :
    r.turn source = ([⟨.newline, r.position⟩], r.breakLine) := by
  simp [Reader.turn, here]

theorem turnBlank {c : Char} (here : source.drop r.index = c :: cs) (newline : c ≠ '\n')
    (blank : isBlank c = true) : r.turn source = ([], r.move 1) := by
  simp [Reader.turn, here, newline, blank]

theorem turnComment (here : source.drop r.index = '/' :: cs) (second : cs.head? = some '/')
    (starts : r.boundary source = true) :
    r.turn source = ([], r.move (('/' :: cs).takeWhile (· ≠ '\n')).length) := by
  simp only [Reader.turn, here, second, starts]
  rfl

theorem turnLiteral (here : source.drop r.index = '"' :: cs)
    (closed : (cs.takeWhile (· ≠ '"')).length < (cs.takeWhile (· ≠ '\n')).length) :
    r.turn source = ([⟨.literal (String.ofList (cs.takeWhile (· ≠ '"'))), r.position⟩],
      r.move ((cs.takeWhile (· ≠ '"')).length + 2)) := by
  simp only [Reader.turn, here]
  rw [if_neg (by decide), if_neg (by decide), if_neg (by simp), if_pos trivial, if_pos closed]

theorem turnUnclosed (here : source.drop r.index = '"' :: cs)
    (unclosed : (cs.takeWhile (· ≠ '\n')).length ≤ (cs.takeWhile (· ≠ '"')).length) :
    r.turn source = ([⟨.word (String.ofList (Text.trimEnd ('"' :: cs.takeWhile (· ≠ '\n')))), r.position⟩],
      r.move ((cs.takeWhile (· ≠ '\n')).length + 1)) := by
  simp only [Reader.turn, here]
  rw [if_neg (by decide), if_neg (by decide), if_neg (by simp), if_pos trivial,
    if_neg (Nat.not_lt.mpr unclosed)]

theorem turnOperator {c : Char} {op : Operator} {rest : List Char} (here : source.drop r.index = c :: cs)
    (read : readOperator? (c :: cs) = some (op, rest)) :
    r.turn source = ([⟨.op op, r.position⟩], r.move op.text.toList.length) := by
  have newline : c ≠ '\n' := by
    rintro rfl
    have chars := readOperatorChars read
    cases op <;> cases chars
  obtain ⟨blank, slash, quote⟩ := operatorFirst read
  simp [Reader.turn, here, newline, blank, slash, quote, read]

theorem turnWord {c : Char} (here : source.drop r.index = c :: cs) (newline : c ≠ '\n')
    (word : StartsWord (r.boundary source) c cs) :
    r.turn source = ([⟨.word (String.ofList (c :: (splitWord cs).1)), r.position⟩],
      r.move (c :: (splitWord cs).1).length) := by
  have comment : ¬(c = '/' && cs.head? = some '/' && r.boundary source) = true := by
    simp only [Bool.and_eq_true, decide_eq_true_eq, not_and]
    exact fun start boundary => word.noComment boundary start.1 start.2
  have split := wordStarts word.noOperator newline word.notBlank word.notQuote
  simp only [Reader.turn, here]
  rw [if_neg newline, if_neg (by simp [word.notBlank]), if_neg comment, if_neg word.notQuote,
    word.noOperator, split]

end Turns

section Segments
variable {source before : List Char} {r : Reader}

theorem literalTurn {content rest : List Char} (noQuote : '"' ∉ content) (ends : EndsLine tail)
    (single : '\n' ∉ content ++ '"' :: rest)
    (passes : Passes source r before ('"' :: (content ++ '"' :: rest)) tail) :
    r.turn source = ([⟨.literal (String.ofList content), r.position⟩], r.move (content.length + 2)) := by
  have line := takeLine ends single
  have quoted : (content ++ '"' :: rest ++ tail).takeWhile (· ≠ '"') = content := by
    rw [List.append_assoc]
    exact (upToQuote noQuote (rest ++ tail)).1
  have one := turnLiteral passes.first (by
    rw [line, quoted, List.length_append, List.length_cons]
    omega)
  rwa [quoted] at one

theorem unclosedTurn {cs : List Char} (noQuote : '"' ∉ cs) (ends : EndsLine tail) (single : '\n' ∉ cs)
    (passes : Passes source r before ('"' :: cs) tail) :
    r.turn source = ([⟨.word (String.ofList (Text.trimEnd ('"' :: cs))), r.position⟩], r.move (cs.length + 1)) := by
  have line := takeLine ends single
  have one := turnUnclosed passes.first (by
    rw [line, List.takeWhile_append_of_pos (otherOnly noQuote), List.length_append]
    exact Nat.le_add_right _ _)
  rwa [line] at one

theorem operatorTurn {cs rest : List Char} {op : Operator} (read : readOperator? cs = some (op, rest))
    (ends : EndsLine tail) (passes : Passes source r before cs tail) :
    r.turn source = ([⟨.op op, r.position⟩], r.move op.text.toList.length) := by
  cases cs with
  | nil => cases read
  | cons c cs => exact turnOperator passes.first (operatorInLine ends read)

theorem wordTurn {c : Char} {more rest : List Char} (front : StartsWord (r.boundary source) c (more ++ rest))
    (split : splitWord (more ++ rest) = (more, rest)) (newline : c ≠ '\n') (ends : EndsLine tail)
    (passes : Passes source r before (c :: (more ++ rest)) tail) :
    r.turn source = ([⟨.word (String.ofList (c :: more)), r.position⟩], r.move (c :: more).length) := by
  have extended : StartsWord (r.boundary source) c (more ++ rest ++ tail) := by
    refine ⟨front.notBlank, front.notQuote, noOperatorInLine ends front.noOperator, ?_⟩
    intro here slash second
    exact front.noComment here slash ((headOfLine ends _ (by decide)).mp second)
  have one := turnWord passes.first newline extended
  rwa [splitWordInLine ends, split] at one

/- No lexeme ends in a blank, so that no comment starts right behind one. -/
theorem operatorSolid (op : Operator) : ∃ last, op.text.toList.getLast? = some last ∧ isBlank last = false := by
  cases op <;> exact ⟨_, rfl, rfl⟩

theorem wordSolid {boundary : Bool} {c : Char} {more rest : List Char} (front : StartsWord boundary c (more ++ rest))
    (split : splitWord (more ++ rest) = (more, rest)) :
    ∃ last, (c :: more).getLast? = some last ∧ isBlank last = false := by
  have solid : ∀ d ∈ c :: more, isBlank d = false := by
    refine List.forall_mem_cons.mpr ⟨front.notBlank, fun d inside => ?_⟩
    have plain := plainOfWord (splitWordFree split d inside)
    simp only [isPlain, Bool.and_eq_true, Bool.not_eq_true'] at plain
    exact plain.1.1
  exact ⟨_, List.getLast?_eq_some_getLast (List.cons_ne_nil c more), solid _ (List.getLast_mem _)⟩

end Segments

theorem lineRead {source before cs : List Char} {r : Reader} {boundary : Bool} {xs : List Segment}
    (trace : Trace boundary cs xs) (single : '\n' ∉ cs) (ends : EndsLine tail)
    (passes : Passes source r before cs tail) (starts : r.boundary source = boundary) :
    Goes source r (place r.position xs).1 (r.move cs.length) := by
  -- The reader sees what stands behind the line, too: nothing there makes a lexeme of the line longer.
  induction trace generalizing r before with
  | done boundary => exact .stay r
  | @blank boundary c cs xs isBlank next ih =>
    have newline : c ≠ '\n' := fun same => single (same ▸ List.mem_cons_self)
    have along : Passes source r before ([c] ++ cs) tail := passes
    refine .segment (x := .gap [c]) along (List.cons_ne_nil c []) (by simp) ?_ ?_
    · exact turnBlank passes.first newline isBlank
    · exact ih (List.not_mem_of_not_mem_cons single) along.moved ((along.boundary rfl).trans isBlank)
  | comment cs =>
    have one := turnComment passes.first rfl starts
    rw [← List.cons_append, takeLine ends single] at one
    exact .turn passes.more one
  | unclosed noQuote =>
    exact .turn passes.more (unclosedTurn noQuote ends (List.not_mem_of_not_mem_cons single) passes)
  | @literal boundary content rest xs noQuote next ih =>
    have one := literalTurn noQuote ends (List.not_mem_of_not_mem_cons single) passes
    simp only [List.mem_cons, List.mem_append, not_or] at single
    have chars : (Segment.lexeme (.literal (String.ofList content))).chars = '"' :: (content ++ ['"']) := by
      rw [Segment.chars, Lexeme.chars, String.toList_ofList]
    have whole : '"' :: (content ++ '"' :: rest) =
        (Segment.lexeme (.literal (String.ofList content))).chars ++ rest := by simp [chars]
    have length : (Segment.lexeme (.literal (String.ofList content))).chars.length = content.length + 2 := by
      simp [chars]
    rw [← length] at one
    rw [whole] at passes ⊢
    refine .segment passes (chars ▸ List.cons_ne_nil _ _) (by simp) one ?_
    refine ih single.2.2.2 passes.moved ?_
    exact passes.boundary (c := '"') (by simp [chars, List.getLast?_cons])
  | @operator boundary cs op rest xs read next ih =>
    have one := operatorTurn read ends passes
    have whole : cs = (Segment.lexeme (.op op)).chars ++ rest := (readOperatorChars read).symm
    obtain ⟨last, isLast, solid⟩ := operatorSolid op
    subst whole
    refine .segment passes (by cases op <;> decide) (by simp) one ?_
    refine ih (fun inside => single (List.mem_append_right _ inside)) passes.moved ?_
    exact (passes.boundary isLast).trans solid
  | @word boundary c more rest xs front split next ih =>
    have newline : c ≠ '\n' := fun same => single (same ▸ List.mem_cons_self)
    have one := wordTurn (starts ▸ front) split newline ends passes
    obtain ⟨last, isLast, solid⟩ := wordSolid front split
    simp only [List.mem_cons, List.mem_append, not_or] at single
    have chars : (Segment.lexeme (.word (String.ofList (c :: more)))).chars = c :: more := by
      rw [Segment.chars, Lexeme.chars, String.toList_ofList]
    have whole : c :: (more ++ rest) = (Segment.lexeme (.word (String.ofList (c :: more)))).chars ++ rest := by
      rw [chars, List.cons_append]
    have nonempty : (Segment.lexeme (.word (String.ofList (c :: more)))).chars ≠ [] := by
      rw [chars]
      exact List.cons_ne_nil c more
    rw [← congrArg List.length chars] at one
    rw [← chars] at isLast
    rw [whole] at passes ⊢
    refine .segment passes nonempty (by simp) one ?_
    exact ih single.2.2 passes.moved ((passes.boundary isLast).trans solid)

theorem sourceRead {source : List Char} (below before : List Char) {r : Reader}
    (passes : Passes source r before below []) (lineStarts : r.index = r.lineStart) :
    ∃ last, Goes source r (place r.position (segments below)).1 last ∧ last.index = source.length ∧
      last.position = (place r.position (segments below)).2 := by
  induction below using sourceInduction generalizing before r with
  | single line free =>
    have starts : r.boundary source = true := by simp [Reader.boundary, lineStarts]
    have inLine := lineSegmentsNoNewline true line
    rw [segmentsSingle free]
    refine ⟨_, lineRead (lineTrace true line) free (by nofun) passes starts, ?_, ?_⟩
    · rw [Reader.move, passes.whole, passes.index]
      simp
    · rw [placeInLine inLine, lineSegmentsChars, passes.position]
  | above line below free ih =>
    have starts : r.boundary source = true := by simp [Reader.boundary, lineStarts]
    have inLine := lineSegmentsNoNewline true line
    have ends : EndsLine ('\n' :: below) := fun c first => (Option.some.inj first).symm
    have along : Passes source r before (line ++ []) ('\n' :: below) :=
      ⟨by simpa using passes.whole, passes.index, passes.onLine⟩
    have onLine := lineRead (lineTrace true line) free ends (by simpa using along) starts
    have atEnd := along.moved
    have next := turnNewline atEnd.here
    obtain ⟨last, later, finish⟩ := ih _ atEnd.broken rfl
    have more : (r.move line.length).index < source.length := by
      rw [atEnd.whole, atEnd.index]
      simp
    have position : (r.move line.length).breakLine.position = (r.move line.length).position.after .newline := by
      simp [Reader.position, Reader.breakLine, Position.after]
    have placed := placeAppend r.position (lineSegments true line) (.lexeme .newline :: segments below)
    rw [placeInLine inLine, lineSegmentsChars, ← passes.position, place, ← position] at placed
    rw [segmentsAppend, segmentsSingle free, placed]
    exact ⟨last, onLine.trans ((Goes.turn more next).trans later), finish⟩

end Lines

theorem loopRead (source : List Char) {turns : Nat} (enough : source.length ≤ turns) :
    ∃ last, Reader.start.loop source turns = some (tokens source, last) ∧ last.index = source.length ∧
      last.position = (scan source).finish := by
  have whole : Passes source .start [] source [] := ⟨by simp, rfl, Nat.le_refl _⟩
  obtain ⟨last, goes, ends, position⟩ := sourceRead source [] whole rfl
  refine ⟨last, loopGoes goes (Nat.le_of_eq ends.symm) ?_, ends, position⟩
  rw [Reader.start, Nat.zero_add]
  exact enough

end LineScript.Lexer
