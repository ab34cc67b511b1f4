import LineScript.Proofs.Script.Spaced
import LineScript.Proofs.Script.Words

/-! How deep blocks may nest decides what is read of them and not where they end. A block that is
too deep is passed over by counting braces, which stops at the very token at which reading it would
have stopped; so everything around it is read as if nothing were too deep. -/
namespace LineScript

theorem Token.notOpening {t : Token} (closes : t.isOp .closeBrace = true) : t.isOp .openBrace = false := by
  simp only [isOp, beq_iff_eq] at closes
  simp [isOp, closes]

theorem Token.wordNotOp {t : Token} {text : String} (word : t.isWord text = true) (op : Operator) :
    t.isOp op = false := by
  simp only [isWord, beq_iff_eq] at word
  simp [isOp, word]

def OnlyBraces {α : Type} (scan : List Token → α) : Prop :=
  ∀ t, t.isOp .openBrace = false → t.isOp .closeBrace = false → ∀ ts, scan (t :: ts) = scan ts

section OnlyBraces
variable {α : Type} {scan : List Token → α} (only : OnlyBraces scan)
include only

theorem OnlyBraces.dropped {p : Token → Bool}
    (other : ∀ t, p t = true → t.isOp .openBrace = false ∧ t.isOp .closeBrace = false) (ts : List Token) :
    scan (ts.dropWhile p) = scan ts := by
  induction ts with
  | nil => rfl
  | cons t ts ih =>
    by_cases drops : p t = true
    · rw [List.dropWhile_cons, if_pos drops, ih, only t (other t drops).1 (other t drops).2]
    · rw [List.dropWhile_cons, if_neg drops]

theorem OnlyBraces.inside (ts : List Token) : scan (ts.dropWhile Token.insideStatement) = scan ts := by
  refine only.dropped (fun t inside => ?_) ts
  simp only [Token.insideStatement, Bool.not_eq_true', Bool.or_eq_false_iff] at inside
  exact ⟨inside.1.2, inside.2⟩

theorem OnlyBraces.newlines (ts : List Token) : scan (Parser.dropNewlines ts) = scan ts :=
  only.dropped (fun _ isNewline => ⟨Token.notOp isNewline _, Token.notOp isNewline _⟩) ts

end OnlyBraces

namespace Parser

section Closing
variable {t : Token} {ts rest : List Token} {depth : Nat}

theorem closingOpen (opens : t.isOp .openBrace = true) (depth : Nat) (ts : List Token) :
    fromClosingBrace depth (t :: ts) = fromClosingBrace (depth + 1) ts := by
  rw [fromClosingBrace.eq_def]
  simp [opens]

theorem closingHere (closes : t.isOp .closeBrace = true) (ts : List Token) :
    fromClosingBrace 0 (t :: ts) = t :: ts := by
  simp [fromClosingBrace, Token.notOpening closes, closes]

theorem closingClose (closes : t.isOp .closeBrace = true) (depth : Nat) (ts : List Token) :
    fromClosingBrace (depth + 1) (t :: ts) = fromClosingBrace depth ts := by
  simp [fromClosingBrace, Token.notOpening closes, closes]

theorem closingOther (opens : t.isOp .openBrace = false) (closes : t.isOp .closeBrace = false)
    (depth : Nat) (ts : List Token) : fromClosingBrace depth (t :: ts) = fromClosingBrace depth ts := by
  rw [fromClosingBrace.eq_def]
  simp [opens, closes]

theorem closingInside (depth : Nat) (ts : List Token) :
    fromClosingBrace depth (ts.dropWhile Token.insideStatement) = fromClosingBrace depth ts :=
  OnlyBraces.inside (fun _ opens closes => closingOther opens closes depth) ts

theorem closingNewlines (depth : Nat) (ts : List Token) :
    fromClosingBrace depth (dropNewlines ts) = fromClosingBrace depth ts :=
  OnlyBraces.newlines (fun _ opens closes => closingOther opens closes depth) ts

theorem closingBehind (found : fromClosingBrace depth ts = t :: rest) (more : Nat) :
    fromClosingBrace (depth + more + 1) ts = fromClosingBrace more rest := by
  fun_induction fromClosingBrace depth ts with
  | case1 => cases found
  | case2 depth u us opens ih =>
    rw [closingOpen opens, ← ih found]
    congr 1
    omega
  | case3 u us opens closes =>
    cases found
    rw [Nat.zero_add, closingClose closes]
  | case4 u us opens closes depth ih =>
    have same : depth + 1 + more + 1 = depth + more + 1 + 1 := by omega
    rw [same, closingClose closes, ih found]
  | case5 depth u us opens closes ih =>
    rw [closingOther (by simpa using opens) (by simpa using closes), ih found]

theorem closingNowhere (missing : fromClosingBrace depth ts = []) (more : Nat) :
    fromClosingBrace (depth + more) ts = [] := by
  fun_induction fromClosingBrace depth ts with
  | case1 => rfl
  | case2 depth u us opens ih =>
    rw [closingOpen opens, ← ih missing]
    congr 1
    omega
  | case3 u us opens closes => cases missing
  | case4 u us opens closes depth ih =>
    have same : depth + 1 + more = depth + more + 1 := by omega
    rw [same, closingClose closes, ih missing]
  | case5 depth u us opens closes ih =>
    rw [closingOther (by simpa using opens) (by simpa using closes), ih missing]

theorem closingFound (found : fromClosingBrace depth ts = t :: rest) : t.isOp .closeBrace = true := by
  fun_induction fromClosingBrace depth ts with
  | case1 => cases found
  | case2 depth u us opens ih => exact ih found
  | case3 u us opens closes =>
    cases found
    exact closes
  | case4 u us opens closes depth ih => exact ih found
  | case5 depth u us opens closes ih => exact ih found

theorem closingBraced (depth : Nat) (ts : List Token) :
    fromClosingBrace depth (fromClosingBrace 0 ts).tail = fromClosingBrace (depth + 1) ts := by
  cases found : fromClosingBrace 0 ts with
  | nil =>
    have nowhere := closingNowhere found (depth + 1)
    rw [Nat.zero_add] at nowhere
    rw [nowhere]
    rfl
  | cons t rest =>
    have behind := closingBehind found depth
    rw [Nat.zero_add] at behind
    exact behind.symm

theorem closingBare (depth : Nat) (ts : List Token) :
    fromClosingBrace depth (fromClosingBrace 0 ts) = fromClosingBrace depth ts := by
  cases depth with
  | zero =>
    cases found : fromClosingBrace 0 ts with
    | nil => rfl
    | cons t rest => exact closingHere (closingFound found) rest
  | succ depth =>
    rw [← closingBraced depth ts]
    cases found : fromClosingBrace 0 ts with
    | nil => rfl
    | cons t rest =>
      rw [closingClose (closingFound found), List.tail_cons]

end Closing

/- Where a task ends, told by braces alone: a scope at its closing brace, and anything else where as
many blocks are open as before. -/
def Task.Ends (ts rest : List Token) : Task → Prop
  | .statements .top => rest = []
  | .statements (.braced _) => rest = (fromClosingBrace 0 ts).tail
  | .statements .bare => rest = fromClosingBrace 0 ts
  | .statement first => first.isOp .closeBrace = false →
      ∀ depth, fromClosingBrace depth rest = fromClosingBrace depth (first :: ts)
  | .braced _ => rest = (fromClosingBrace 0 ts).tail
  | .bare _ => rest = fromClosingBrace 0 ts
  | .body _ _ => ∀ depth, fromClosingBrace depth rest = fromClosingBrace depth ts
  | .branch _ => ∀ depth, fromClosingBrace depth rest = fromClosingBrace depth ts

theorem Task.Ends.scope {scope : Scope} {ts us rest : List Token}
    (same : fromClosingBrace 0 us = fromClosingBrace 0 ts)
    (ends : (Task.statements scope).Ends ts rest) : (Task.statements scope).Ends us rest := by
  cases scope with
  | top => exact ends
  | braced opened => exact ends.trans (congrArg List.tail same).symm
  | bare => exact ends.trans same.symm

theorem closingWord {text : String} {ts rest : List Token} {t : Token}
    (found : takeWord? text (dropNewlines ts) = some (t, rest)) (depth : Nat) :
    fromClosingBrace depth rest = fromClosingBrace depth ts := by
  obtain ⟨front, word⟩ := takeWordCons found
  rw [← closingNewlines depth ts, front, closingOther (Token.wordNotOp word _) (Token.wordNotOp word _)]

theorem readingEnds {source : List Char} {room : Nat} {task : Task} {ts : List Token} {summary : Summary}
    (reading : Reading source room task ts summary) : task.Ends ts summary.rest := by
  induction reading with
  | finish room scope => cases scope <;> rfl
  | newline isNewline next ih =>
    exact ih.scope (closingOther (Token.notOp isNewline _) (Token.notOp isNewline _) 0 _)
  | stray inLine brace next ih => exact ih
  | close inLine brace =>
    simp only [Task.Ends, closingHere brace, List.tail_cons]
  | leave inLine brace =>
    simp only [Task.Ends, closingHere brace]
  | step inLine brace first others firstIh othersIh => exact othersIh.scope (firstIh brace 0).symm
  | block brace inner ih =>
    intro _ depth
    have ended : _ = (fromClosingBrace 0 _).tail := ih
    rw [ended, closingBraced, closingOpen brace]
  | branching brace word inner ih =>
    intro closes depth
    rw [closingOther brace closes]
    exact ih depth
  | line ts brace word =>
    intro closes depth
    rw [closingInside, closingOther brace closes]
  | skipUnclosed none =>
    simp only [Task.Ends, none, List.tail_nil]
  | skipBraced found =>
    simp only [Task.Ends, found, List.tail_cons]
  | enterBraced inner ih => exact ih
  | skipBare line ts => rfl
  | enterBare inner ih => exact ih
  | bracedBody found inner ih =>
    intro depth
    obtain ⟨front, brace⟩ := takeOpenBraceCons found
    have ended : _ = (fromClosingBrace 0 _).tail := ih
    rw [ended, closingBraced, ← closingOpen brace, ← front, closingNewlines]
  | bareBody missing inner ih =>
    intro depth
    have ended : _ = fromClosingBrace 0 _ := ih
    rw [ended, closingBare, closingNewlines]
  | alone inner ends ih =>
    intro depth
    rw [ih depth, closingInside]
  | link inner braced isElse isIf next firstIh nextIh =>
    intro depth
    obtain ⟨front, word⟩ := takeWordCons isIf
    have behind := closingWord isElse depth
    rw [front, closingOther (Token.wordNotOp word _) (Token.wordNotOp word _)] at behind
    rw [nextIh depth, behind, firstIh depth, closingInside]
  | otherwise inner braced isElse noIf next firstIh nextIh =>
    intro depth
    rw [nextIh depth, closingWord isElse, firstIh depth, closingInside]

def unclosed (line : Nat) (ts : List Token) : List Diagnostic :=
  if (fromClosingBrace 0 ts).isEmpty then [.unclosedBlock line] else []

theorem skipBracedReport (line : Nat) (ts : List Token) :
    (skipBraced line ts).summary .block =
      ⟨.block ⟨line, []⟩, .tooDeep line :: unclosed line ts, (fromClosingBrace 0 ts).tail⟩ := by
  cases found : fromClosingBrace 0 ts with
  | nil => simp [skipBracedUnclosed found, unclosed, found]
  | cons t rest => simp [skipBracedClosed found, unclosed, found]

/- Statements in braces are those that would stand there without braces. They end one token later,
and only a brace that is missing is reported of the braces themselves. -/
theorem readingUnbraced {source : List Char} {room opened : Nat} {task : Task} {ts : List Token}
    {summary : Summary} (reading : Reading source room task ts summary)
    (braced : task = .statements (.braced opened)) {value : List Stmt}
    (product : summary.product = .statements value) :
    ∃ ds, Reading source room (.statements .bare) ts ⟨.statements value, ds, fromClosingBrace 0 ts⟩ ∧
      summary.diagnostics = ds ++ unclosed opened ts := by
  induction reading generalizing value with
  | finish room scope =>
    cases braced
    cases product
    exact ⟨[], .finish room .bare, rfl⟩
  | newline isNewline next ih =>
    obtain ⟨ds, bare, same⟩ := ih braced product
    have passed := closingOther (Token.notOp isNewline _) (Token.notOp isNewline _) 0
    refine ⟨ds, ?_, ?_⟩
    · rw [passed]
      exact .newline isNewline bare
    · rw [same, unclosed, unclosed, passed]
  | close inLine brace =>
    cases product
    refine ⟨[], ?_, ?_⟩
    · rw [closingHere brace]
      exact .leave inLine brace
    · simp [unclosed, closingHere brace]
  | @step room scope t ts s ds middle _ _ rest inLine brace first others firstIh othersIh =>
    cases product
    obtain ⟨es, bare, same⟩ := othersIh braced rfl
    have ended : fromClosingBrace 0 middle = fromClosingBrace 0 (t :: ts) := readingEnds first brace 0
    refine ⟨ds ++ es, ?_, ?_⟩
    · rw [← ended]
      exact .step inLine brace first bare
    · simp only [unclosed, ended] at same ⊢
      rw [same, List.append_assoc]
  | _ => cases braced

/- Two readings of one text, with `room` for fewer blocks in the second. They are the same but for the
blocks that are too deep there: such a block is empty, and what is reported of its inside gives way
to one notice. What is left unread is always the same. -/
inductive Curtailed : Nat → Summary → Summary → Prop where
  | nothing (room ds rest) : Curtailed room ⟨.statements [], ds, rest⟩ ⟨.statements [], ds, rest⟩
  | step {room s s' ds ds' middle value value' es es' rest}
      (first : Curtailed room ⟨.statement s, ds, middle⟩ ⟨.statement s', ds', middle⟩)
      (others : Curtailed room ⟨.statements value, es, rest⟩ ⟨.statements value', es', rest⟩) :
      Curtailed room ⟨.statements (s :: value), ds ++ es, rest⟩ ⟨.statements (s' :: value'), ds' ++ es', rest⟩
  | line (room s rest) : Curtailed room ⟨.statement s, [], rest⟩ ⟨.statement s, [], rest⟩
  | block {room body body' ds ds' rest}
      (inner : Curtailed room ⟨.block body, ds, rest⟩ ⟨.block body', ds', rest⟩) :
      Curtailed room ⟨.statement (.block body), ds, rest⟩ ⟨.statement (.block body'), ds', rest⟩
  | tooDeep (line value ds rest) {own} (known : own = [] ∨ own = [.unclosedBlock line]) :
      Curtailed 0 ⟨.block ⟨line, value⟩, ds ++ own, rest⟩ ⟨.block ⟨line, []⟩, .tooDeep line :: own, rest⟩
  | enter {room line value value' ds ds' rest}
      (inner : Curtailed room ⟨.statements value, ds, rest⟩ ⟨.statements value', ds', rest⟩) :
      Curtailed (room + 1) ⟨.block ⟨line, value⟩, ds, rest⟩ ⟨.block ⟨line, value'⟩, ds', rest⟩
  | body {room body body' ds ds' rest} (missing braced)
      (inner : Curtailed room ⟨.block body, ds, rest⟩ ⟨.block body', ds', rest⟩) :
      Curtailed room ⟨.body ⟨body, braced⟩, missing ++ ds, rest⟩ ⟨.body ⟨body', braced⟩, missing ++ ds', rest⟩
  | alone {room first first' ds ds' rest} (line condition)
      (inner : Curtailed room ⟨.body first, ds, rest⟩ ⟨.body first', ds', rest⟩) :
      Curtailed room ⟨.statement (.branch line condition first.block none), ds, rest⟩
        ⟨.statement (.branch line condition first'.block none), ds', rest⟩
  | link {room first first' ds ds' middle s s' es es' rest} (line condition elseLine)
      (inner : Curtailed room ⟨.body first, ds, middle⟩ ⟨.body first', ds', middle⟩)
      (next : Curtailed room ⟨.statement s, es, rest⟩ ⟨.statement s', es', rest⟩) :
      Curtailed room ⟨.statement (.branch line condition first.block (some ⟨elseLine, [s]⟩)), ds ++ es, rest⟩
        ⟨.statement (.branch line condition first'.block (some ⟨elseLine, [s']⟩)), ds' ++ es', rest⟩
  | otherwise {room first first' ds ds' middle other other' es es' rest} (line condition)
      (inner : Curtailed room ⟨.body first, ds, middle⟩ ⟨.body first', ds', middle⟩)
      (next : Curtailed room ⟨.body other, es, rest⟩ ⟨.body other', es', rest⟩) :
      Curtailed room ⟨.statement (.branch line condition first.block (some other.block)), ds ++ es, rest⟩
        ⟨.statement (.branch line condition first'.block (some other'.block)), ds' ++ es', rest⟩

section Shape
variable {room : Nat} {full : Summary} {ds : List Diagnostic} {rest : List Token}

theorem Curtailed.ofStatements {value : List Stmt} (curtailed : Curtailed room full ⟨.statements value, ds, rest⟩) :
    ∃ value' ds', full = ⟨.statements value', ds', rest⟩ := by
  cases curtailed <;> exact ⟨_, _, rfl⟩

theorem Curtailed.ofStatement {s : Stmt} (curtailed : Curtailed room full ⟨.statement s, ds, rest⟩) :
    ∃ s' ds', full = ⟨.statement s', ds', rest⟩ := by
  cases curtailed <;> exact ⟨_, _, rfl⟩

theorem Curtailed.ofBlock {block : Block Stmt} (curtailed : Curtailed room full ⟨.block block, ds, rest⟩) :
    ∃ block' ds', full = ⟨.block block', ds', rest⟩ := by
  cases curtailed <;> exact ⟨_, _, rfl⟩

theorem Curtailed.ofBody {body : Body} (curtailed : Curtailed room full ⟨.body body, ds, rest⟩) :
    ∃ block' ds', full = ⟨.body ⟨block', body.braced⟩, ds', rest⟩ := by
  cases curtailed
  exact ⟨_, _, rfl⟩

end Shape

theorem unclosedCases (line : Nat) (ts : List Token) :
    unclosed line ts = [] ∨ unclosed line ts = [.unclosedBlock line] := by
  unfold unclosed
  split
  · exact .inr rfl
  · exact .inl rfl

theorem bracedCurtailed (source : List Char) (room line : Nat) (ts : List Token) :
    ∃ full, Reading source room (.braced line) ts full ∧
      Curtailed 0 full ⟨.block ⟨line, []⟩, .tooDeep line :: unclosed line ts, (fromClosingBrace 0 ts).tail⟩ := by
  refine ⟨_, reading source room (.braced line) ts, ?_⟩
  rw [readBraced]
  cases room with
  | zero =>
    simp only [skipBracedReport]
    exact .tooDeep line [] [.tooDeep line] _ (unclosedCases line ts)
  | succ room =>
    have inner := reading source room (.statements (.braced line)) ts
    obtain ⟨ds, -, own⟩ := readingUnbraced inner rfl rfl
    have ended : (statements source room (.braced line) ts).rest = (fromClosingBrace 0 ts).tail :=
      readingEnds inner
    simp only [read, Parsed.summary] at own
    simp only [own, ended]
    exact .tooDeep line _ ds _ (unclosedCases line ts)

theorem bareCurtailed (source : List Char) (room line : Nat) (ts : List Token) :
    ∃ full, Reading source room (.bare line) ts full ∧
      Curtailed 0 full ⟨.block ⟨line, []⟩, [.tooDeep line], fromClosingBrace 0 ts⟩ := by
  refine ⟨_, reading source room (.bare line) ts, ?_⟩
  rw [readBare]
  cases room with
  | zero => exact .tooDeep line [] [.tooDeep line] _ (.inl rfl)
  | succ room =>
    have ended : (statements source room .bare ts).rest = fromClosingBrace 0 ts :=
      readingEnds (reading source room (.statements .bare) ts)
    simp only [ended]
    have cut := Curtailed.tooDeep line (statements source room .bare ts).value
      (statements source room .bare ts).diagnostics (fromClosingBrace 0 ts) (.inl rfl)
    rwa [List.append_nil] at cut

theorem readingCurtailed {source : List Char} {room : Nat} {task : Task} {ts : List Token} {summary : Summary}
    (limited : Reading source room task ts summary) (more : Nat) :
    ∃ full, Reading source (room + more) task ts full ∧ Curtailed room full summary := by
  induction limited with
  | finish room scope => exact ⟨_, .finish _ scope, .nothing room _ _⟩
  | newline isNewline next ih =>
    obtain ⟨full, reads, curtailed⟩ := ih
    exact ⟨full, .newline isNewline reads, curtailed⟩
  | stray inLine brace next ih =>
    obtain ⟨full, reads, curtailed⟩ := ih
    exact ⟨full, .stray inLine brace reads, curtailed⟩
  | close inLine brace => exact ⟨_, .close inLine brace, .nothing _ _ _⟩
  | leave inLine brace => exact ⟨_, .leave inLine brace, .nothing _ _ _⟩
  | step inLine brace first others firstIh othersIh =>
    obtain ⟨_, reads, curtailed⟩ := firstIh
    obtain ⟨s', ds', rfl⟩ := curtailed.ofStatement
    obtain ⟨_, reads', curtailed'⟩ := othersIh
    obtain ⟨value', es', rfl⟩ := curtailed'.ofStatements
    exact ⟨_, .step inLine brace reads reads', .step curtailed curtailed'⟩
  | block brace inner ih =>
    obtain ⟨_, reads, curtailed⟩ := ih
    obtain ⟨body', ds', rfl⟩ := curtailed.ofBlock
    exact ⟨_, .block brace reads, .block curtailed⟩
  | branching brace word inner ih =>
    obtain ⟨full, reads, curtailed⟩ := ih
    exact ⟨full, .branching brace word reads, curtailed⟩
  | line ts brace word => exact ⟨_, .line ts brace word, .line _ _ _⟩
  | @skipUnclosed line ts none =>
    obtain ⟨full, reads, curtailed⟩ := bracedCurtailed source (0 + more) line ts
    exact ⟨full, reads, by simpa [unclosed, none] using curtailed⟩
  | @skipBraced line ts t rest found =>
    obtain ⟨full, reads, curtailed⟩ := bracedCurtailed source (0 + more) line ts
    exact ⟨full, reads, by simpa [unclosed, found] using curtailed⟩
  | skipBare line ts => exact bareCurtailed source (0 + more) line ts
  | enterBraced inner ih =>
    obtain ⟨_, reads, curtailed⟩ := ih
    obtain ⟨value', ds', rfl⟩ := curtailed.ofStatements
    rw [Nat.add_right_comm]
    exact ⟨_, .enterBraced reads, .enter curtailed⟩
  | enterBare inner ih =>
    obtain ⟨_, reads, curtailed⟩ := ih
    obtain ⟨value', ds', rfl⟩ := curtailed.ofStatements
    rw [Nat.add_right_comm]
    exact ⟨_, .enterBare reads, .enter curtailed⟩
  | bracedBody found inner ih =>
    obtain ⟨_, reads, curtailed⟩ := ih
    obtain ⟨block', ds', rfl⟩ := curtailed.ofBlock
    exact ⟨_, .bracedBody found reads, .body [] true curtailed⟩
  | @bareBody room head line ts block ds rest missing inner ih =>
    obtain ⟨_, reads, curtailed⟩ := ih
    obtain ⟨block', ds', rfl⟩ := curtailed.ofBlock
    exact ⟨_, .bareBody missing reads, .body [.missingBrace head line] false curtailed⟩
  | alone inner ends ih =>
    obtain ⟨_, reads, curtailed⟩ := ih
    obtain ⟨block', ds', rfl⟩ := curtailed.ofBody
    exact ⟨_, .alone reads ends, .alone _ _ curtailed⟩
  | link inner braced isElse isIf next firstIh nextIh =>
    obtain ⟨_, reads, curtailed⟩ := firstIh
    obtain ⟨block', ds', rfl⟩ := curtailed.ofBody
    obtain ⟨_, reads', curtailed'⟩ := nextIh
    obtain ⟨s', es', rfl⟩ := curtailed'.ofStatement
    exact ⟨_, .link reads braced isElse isIf reads', .link _ _ _ curtailed curtailed'⟩
  | otherwise inner braced isElse noIf next firstIh nextIh =>
    obtain ⟨_, reads, curtailed⟩ := firstIh
    obtain ⟨block', ds', rfl⟩ := curtailed.ofBody
    obtain ⟨_, reads', curtailed'⟩ := nextIh
    obtain ⟨other', es', rfl⟩ := curtailed'.ofBody
    exact ⟨_, .otherwise reads braced isElse noIf reads', .otherwise _ _ curtailed curtailed'⟩

end Parser

def Program.summary (p : Program) : Parser.Summary := ⟨.statements p.statements, p.diagnostics, []⟩

theorem programCurtailed (source : List Char) (limit more : Nat) :
    Parser.Curtailed limit (Parser.parseWithin (limit + more) source).summary
      (Parser.parseWithin limit source).summary := by
  obtain ⟨full, reads, curtailed⟩ := Parser.readingCurtailed (Parser.readProgram source limit) more
  have same := (Parser.readingSound reads).symm.trans
    (Parser.readingSound (Parser.readProgram source (limit + more)))
  rwa [same] at curtailed

/- Skipping is compared with reading at any number of levels left, which may be more than there are
tokens; as many levels as tokens are no limit, for then nothing is too deep. -/
theorem skippingEndsAsReading (source : List Char) :
    (∀ room line ts,
      let skipped := Parser.skipBraced line ts
      let braced := Parser.statements source room (.braced line) ts
      let bare := Parser.statements source room .bare ts
      skipped.rest = braced.rest ∧ (Parser.skipBare line ts).rest = bare.rest ∧
        skipped.diagnostics = .tooDeep line :: Parser.unclosed line ts ∧
        braced.diagnostics = bare.diagnostics ++ Parser.unclosed line ts ∧ braced.value = bare.value ∧
        (Parser.unclosed line ts = [.unclosedBlock line] ↔ bare.rest = [])) ∧
      (∀ room room' scope ts,
        (Parser.statements source room scope ts).rest = (Parser.statements source room' scope ts).rest) ∧
      (∀ limit more, Parser.Curtailed limit (Parser.parseWithin (limit + more) source).summary
        (Parser.parseWithin limit source).summary) ∧
      ∀ more line, Diagnostic.tooDeep line ∉
        (Parser.parseWithin ((tokens source).length + more) source).diagnostics := by
  have ends (room : Nat) (scope : Parser.Scope) (ts : List Token) :
      (Parser.Task.statements scope).Ends ts (Parser.statements source room scope ts).rest :=
    Parser.readingEnds (Parser.reading source room (.statements scope) ts)
  refine ⟨?_, ?_, programCurtailed source, ?_⟩
  · intro room line ts
    have skipped := Parser.skipBracedReport line ts
    simp only [Parser.Parsed.summary, Parser.Summary.mk.injEq] at skipped
    have bareEnds : (Parser.statements source room .bare ts).rest = Parser.fromClosingBrace 0 ts :=
      ends room .bare ts
    obtain ⟨ds, reads, own⟩ :=
      Parser.readingUnbraced (Parser.reading source room (.statements (.braced line)) ts) rfl rfl
    have bare := Parser.readingSound reads
    simp only [Parser.read, Parser.Parsed.summary, Parser.Summary.mk.injEq,
      Parser.Product.statements.injEq] at bare own
    refine ⟨skipped.2.2.trans (ends room (.braced line) ts).symm, bareEnds.symm, skipped.2.1, ?_,
      bare.1.symm, ?_⟩
    · rw [own, bare.2.1]
    · rw [bareEnds, Parser.unclosed]
      cases Parser.fromClosingBrace 0 ts <;> simp
  · intro room room' scope ts
    have one := ends room scope ts
    have other := ends room' scope ts
    cases scope with
    | top => exact one.trans other.symm
    | braced opened => exact one.trans other.symm
    | bare => exact one.trans other.symm
  · intro more
    exact Parser.readingShallow (Parser.readProgram source _) (Nat.le_add_right _ more)

end LineScript
