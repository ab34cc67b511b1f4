import LineScript.Script.Parser

/-! The parser as a relation: one rule for each way in which a step can go, so that a claim about
all parses is an induction over rules. The relation is exactly the graph of the parser. -/
namespace LineScript.Parser

inductive Task where
  | statements (scope : Scope)
  | statement (first : Token)
  | braced (line : Nat)
  | bare (line : Nat)
  | body (head : BranchHead) (line : Nat)
  | branch (line : Nat)

inductive Product where
  | statements (value : List Stmt)
  | statement (value : Stmt)
  | block (value : Block Stmt)
  | body (value : Body)

structure Summary where
  product : Product
  diagnostics : List Diagnostic
  rest : List Token

def Parsed.summary {α : Type} {size : Nat} (product : α → Product) (p : Parsed α size) : Summary :=
  ⟨product p.value, p.diagnostics, p.rest⟩

def read (source : List Char) (room : Nat) (ts : List Token) : Task → Summary
  | .statements scope => (statements source room scope ts).summary .statements
  | .statement first => (statement source room first ts).summary .statement
  | .braced line => (bracedBlock source room line ts).summary .block
  | .bare line => (bareBlock source room line ts).summary .block
  | .body head line => (body source room head line ts).summary .body
  | .branch line => (branch source room line ts).summary .statement

inductive Reading (source : List Char) : Nat → Task → List Token → Summary → Prop where
  | finish (room scope) : Reading source room (.statements scope) [] ⟨.statements [], scope.atEnd, []⟩
  | newline {room scope t ts summary} (isNewline : t.isNewline = true)
      (next : Reading source room (.statements scope) ts summary) :
      Reading source room (.statements scope) (t :: ts) summary
  | stray {room t ts summary} (inLine : t.isNewline = false) (brace : t.isOp .closeBrace = true)
      (next : Reading source room (.statements .top) ts summary) :
      Reading source room (.statements .top) (t :: ts) summary
  | close {room opened t ts} (inLine : t.isNewline = false) (brace : t.isOp .closeBrace = true) :
      Reading source room (.statements (.braced opened)) (t :: ts) ⟨.statements [], [], ts⟩
  | leave {room t ts} (inLine : t.isNewline = false) (brace : t.isOp .closeBrace = true) :
      Reading source room (.statements .bare) (t :: ts) ⟨.statements [], [], t :: ts⟩
  | step {room scope t ts s ds middle value es rest} (inLine : t.isNewline = false)
      (brace : t.isOp .closeBrace = false)
      (first : Reading source room (.statement t) ts ⟨.statement s, ds, middle⟩)
      (others : Reading source room (.statements scope) middle ⟨.statements value, es, rest⟩) :
      Reading source room (.statements scope) (t :: ts) ⟨.statements (s :: value), ds ++ es, rest⟩
  | block {room t ts body ds rest} (brace : t.isOp .openBrace = true)
      (inner : Reading source room (.braced t.line) ts ⟨.block body, ds, rest⟩) :
      Reading source room (.statement t) ts ⟨.statement (.block body), ds, rest⟩
  | branching {room t ts summary} (brace : t.isOp .openBrace = false) (word : t.isWord "if" = true)
      (inner : Reading source room (.branch t.line) ts summary) :
      Reading source room (.statement t) ts summary
  | line {room t} (ts) (brace : t.isOp .openBrace = false) (word : t.isWord "if" = false) :
      Reading source room (.statement t) ts
        ⟨.statement (Line.statement source t (ts.takeWhile Token.insideStatement)), [],
          ts.dropWhile Token.insideStatement⟩
  | skipUnclosed {line ts} (none : fromClosingBrace 0 ts = []) :
      Reading source 0 (.braced line) ts ⟨.block ⟨line, []⟩, [.tooDeep line, .unclosedBlock line], []⟩
  | skipBraced {line ts t rest} (found : fromClosingBrace 0 ts = t :: rest) :
      Reading source 0 (.braced line) ts ⟨.block ⟨line, []⟩, [.tooDeep line], rest⟩
  | enterBraced {room line ts value ds rest}
      (inner : Reading source room (.statements (.braced line)) ts ⟨.statements value, ds, rest⟩) :
      Reading source (room + 1) (.braced line) ts ⟨.block ⟨line, value⟩, ds, rest⟩
  | skipBare (line ts) :
      Reading source 0 (.bare line) ts ⟨.block ⟨line, []⟩, [.tooDeep line], fromClosingBrace 0 ts⟩
  | enterBare {room line ts value ds rest}
      (inner : Reading source room (.statements .bare) ts ⟨.statements value, ds, rest⟩) :
      Reading source (room + 1) (.bare line) ts ⟨.block ⟨line, value⟩, ds, rest⟩
  | bracedBody {room head line ts brace behind block ds rest}
      (found : takeOpenBrace? (dropNewlines ts) = some (brace, behind))
      (inner : Reading source room (.braced brace.line) behind ⟨.block block, ds, rest⟩) :
      Reading source room (.body head line) ts ⟨.body ⟨block, true⟩, ds, rest⟩
  | bareBody {room head line ts block ds rest} (missing : takeOpenBrace? (dropNewlines ts) = none)
      (inner : Reading source room (.bare line) (dropNewlines ts) ⟨.block block, ds, rest⟩) :
      Reading source room (.body head line) ts
        ⟨.body ⟨block, false⟩, .missingBrace head line :: ds, rest⟩
  | alone {room line ts first ds rest}
      (inner : Reading source room (.body .condition line) (ts.dropWhile Token.insideStatement)
        ⟨.body first, ds, rest⟩)
      (ends : first.braced = false ∨ takeWord? "else" (dropNewlines rest) = none) :
      Reading source room (.branch line) ts
        ⟨.statement (.branch line (Line.condition source line (ts.takeWhile Token.insideStatement))
          first.block none), ds, rest⟩
  | link {room line ts first ds middle elseToken behind ifToken after s es rest}
      (inner : Reading source room (.body .condition line) (ts.dropWhile Token.insideStatement)
        ⟨.body first, ds, middle⟩)
      (braced : first.braced = true)
      (isElse : takeWord? "else" (dropNewlines middle) = some (elseToken, behind))
      (isIf : takeWord? "if" behind = some (ifToken, after))
      (next : Reading source room (.branch ifToken.line) after ⟨.statement s, es, rest⟩) :
      Reading source room (.branch line) ts
        ⟨.statement (.branch line (Line.condition source line (ts.takeWhile Token.insideStatement))
          first.block (some ⟨elseToken.line, [s]⟩)), ds ++ es, rest⟩
  | otherwise {room line ts first ds middle elseToken behind other es rest}
      (inner : Reading source room (.body .condition line) (ts.dropWhile Token.insideStatement)
        ⟨.body first, ds, middle⟩)
      (braced : first.braced = true)
      (isElse : takeWord? "else" (dropNewlines middle) = some (elseToken, behind))
      (noIf : takeWord? "if" behind = none)
      (next : Reading source room (.body .otherwise elseToken.line) behind ⟨.body other, es, rest⟩) :
      Reading source room (.branch line) ts
        ⟨.statement (.branch line (Line.condition source line (ts.takeWhile Token.insideStatement))
          first.block (some other.block)), ds ++ es, rest⟩

theorem readStatements (source : List Char) (room : Nat) (scope : Scope) (t : Token) (ts : List Token) :
    read source room (t :: ts) (.statements scope) =
      if t.isNewline then read source room ts (.statements scope)
      else if t.isOp .closeBrace then
        match scope with
        | .top => read source room ts (.statements .top)
        | .braced _ => ⟨.statements [], [], ts⟩
        | .bare => ⟨.statements [], [], t :: ts⟩
      else
        let first := statement source room t ts
        let others := statements source room scope first.rest
        ⟨.statements (first.value :: others.value), first.diagnostics ++ others.diagnostics, others.rest⟩ := by
  simp only [read]
  rw [statements.eq_def]
  simp only
  split
  · rfl
  · split
    · cases scope <;> rfl
    · rfl

theorem readBody (source : List Char) (room : Nat) (head : BranchHead) (line : Nat) (ts : List Token) :
    read source room ts (.body head line) =
      match takeOpenBrace? (dropNewlines ts) with
      | some (brace, behind) =>
        let block := bracedBlock source room brace.line behind
        ⟨.body ⟨block.value, true⟩, block.diagnostics, block.rest⟩
      | none =>
        let block := bareBlock source room line (dropNewlines ts)
        ⟨.body ⟨block.value, false⟩, .missingBrace head line :: block.diagnostics, block.rest⟩ := by
  simp only [read]
  rw [body.eq_def]
  simp only
  split
  · rename_i found
    simp only [found]
    rfl
  · rename_i found
    simp only [found]
    rfl
theorem readBranch (source : List Char) (room : Nat) (line : Nat) (ts : List Token) :
    read source room ts (.branch line) =
      let condition := Line.condition source line (ts.takeWhile Token.insideStatement)
      let first := body source room .condition line (ts.dropWhile Token.insideStatement)
      let alone : Summary := ⟨.statement (.branch line condition first.value.block none), first.diagnostics, first.rest⟩
      if first.value.braced then
        match takeWord? "else" (dropNewlines first.rest) with
        | none => alone
        | some (elseToken, behind) =>
          match takeWord? "if" behind with
          | some (ifToken, after) =>
            let link := branch source room ifToken.line after
            ⟨.statement (.branch line condition first.value.block (some ⟨elseToken.line, [link.value]⟩)),
              first.diagnostics ++ link.diagnostics, link.rest⟩
          | none =>
            let other := body source room .otherwise elseToken.line behind
            ⟨.statement (.branch line condition first.value.block (some other.value.block)),
              first.diagnostics ++ other.diagnostics, other.rest⟩
      else alone := by
  simp only [read]
  rw [branch.eq_def]
  simp only
  split
  · split
    · rename_i found
      simp only [found]
      rfl
    · rename_i found
      simp only [found]
      split
      · rename_i found
        simp only [found]
        rfl
      · rename_i found
        simp only [found]
        rfl
  · rfl

theorem readBraced (source : List Char) (room line : Nat) (ts : List Token) :
    read source room ts (.braced line) =
      match room with
      | 0 => (skipBraced line ts).summary .block
      | room + 1 =>
        let inner := statements source room (.braced line) ts
        ⟨.block ⟨line, inner.value⟩, inner.diagnostics, inner.rest⟩ := by
  simp only [read]
  rw [bracedBlock.eq_def]
  cases room <;> rfl

theorem readBare (source : List Char) (room line : Nat) (ts : List Token) :
    read source room ts (.bare line) =
      match room with
      | 0 => ⟨.block ⟨line, []⟩, [.tooDeep line], fromClosingBrace 0 ts⟩
      | room + 1 =>
        let inner := statements source room .bare ts
        ⟨.block ⟨line, inner.value⟩, inner.diagnostics, inner.rest⟩ := by
  simp only [read]
  rw [bareBlock.eq_def]
  cases room <;> rfl

theorem readStatement (source : List Char) (room : Nat) (t : Token) (ts : List Token) :
    read source room ts (.statement t) =
      if t.isOp .openBrace then
        let inner := bracedBlock source room t.line ts
        ⟨.statement (.block inner.value), inner.diagnostics, inner.rest⟩
      else if t.isWord "if" then read source room ts (.branch t.line)
      else ⟨.statement (Line.statement source t (ts.takeWhile Token.insideStatement)), [],
        ts.dropWhile Token.insideStatement⟩ := by
  simp only [read]
  rw [statement.eq_def]
  split
  · rfl
  · split <;> rfl

theorem skipBracedUnclosed {line : Nat} {ts : List Token} (none : fromClosingBrace 0 ts = []) :
    (skipBraced line ts).summary .block =
      ⟨.block ⟨line, []⟩, [.tooDeep line, .unclosedBlock line], []⟩ := by
  unfold skipBraced
  split
  · rfl
  · simp_all

theorem skipBracedClosed {line : Nat} {ts rest : List Token} {t : Token}
    (found : fromClosingBrace 0 ts = t :: rest) :
    (skipBraced line ts).summary .block = ⟨.block ⟨line, []⟩, [.tooDeep line], rest⟩ := by
  unfold skipBraced
  split
  · simp_all
  · rename_i other
    obtain ⟨rfl, rfl⟩ := List.cons.inj (other.symm.trans found)
    rfl

theorem readingSound {source : List Char} {room : Nat} {task : Task} {ts : List Token} {summary : Summary}
    (reading : Reading source room task ts summary) : read source room ts task = summary := by
  induction reading with
  | finish room scope => simp [read, statements, Parsed.summary]
  | newline isNewline next ih => rw [readStatements, if_pos isNewline, ih]
  | stray inLine brace next ih => rw [readStatements, if_neg (by simp [inLine]), if_pos brace, ih]
  | close inLine brace => rw [readStatements, if_neg (by simp [inLine]), if_pos brace]
  | leave inLine brace => rw [readStatements, if_neg (by simp [inLine]), if_pos brace]
  | step inLine brace first others firstIh othersIh =>
    cases firstIh
    cases othersIh
    rw [readStatements, if_neg (by simp [inLine]), if_neg (by simp [brace])]
  | block brace inner ih =>
    cases ih
    rw [readStatement, if_pos brace]
  | branching brace word inner ih => rw [readStatement, if_neg (by simp [brace]), if_pos word, ih]
  | line ts brace word => rw [readStatement, if_neg (by simp [brace]), if_neg (by simp [word])]
  | skipUnclosed none => rw [readBraced, skipBracedUnclosed none]
  | skipBraced found => rw [readBraced, skipBracedClosed found]
  | enterBraced inner ih =>
    cases ih
    rw [readBraced]
  | skipBare line ts => rw [readBare]
  | enterBare inner ih =>
    cases ih
    rw [readBare]
  | bracedBody found inner ih =>
    cases ih
    rw [readBody, found]
  | bareBody missing inner ih =>
    cases ih
    rw [readBody, missing]
  | alone inner ends ih =>
    cases ih
    rw [readBranch]
    rcases ends with bare | none
    · simp only [bare]
      rfl
    · simp only [none, ite_self]
  | link inner braced isElse isIf next firstIh nextIh =>
    cases firstIh
    cases nextIh
    rw [readBranch]
    simp only [braced, isElse, isIf, if_pos]
  | otherwise inner braced isElse noIf next firstIh nextIh =>
    cases firstIh
    cases nextIh
    rw [readBranch]
    simp only [braced, isElse, noIf, if_pos]

def Task.weight : Task → Nat
  | .statements _ => 3
  | .statement _ => 7
  | .braced _ => 4
  | .bare _ => 4
  | .body _ _ => 5
  | .branch _ => 6

/- Each step leaves fewer tokens, or as many and a smaller task. -/
theorem reading (source : List Char) (room : Nat) (task : Task) (ts : List Token) :
    Reading source room task ts (read source room ts task) := by
  cases task with
  | statements scope =>
    cases ts with
    | nil =>
      have same : read source room [] (.statements scope) = ⟨.statements [], scope.atEnd, []⟩ := by
        simp [read, statements, Parsed.summary]
      rw [same]
      exact .finish room scope
    | cons t ts =>
      rw [readStatements]
      split
      · exact .newline ‹_› (reading source room (.statements scope) ts)
      · rename_i inLine
        split
        · rename_i brace
          cases scope with
          | top => exact .stray (by simpa using inLine) brace (reading source room (.statements .top) ts)
          | braced opened => exact .close (by simpa using inLine) brace
          | bare => exact .leave (by simpa using inLine) brace
        · rename_i brace
          have shorter := (statement source room t ts).rest_le
          exact .step (by simpa using inLine) (by simpa using brace)
            (reading source room (.statement t) ts) (reading source room (.statements scope) _)
  | statement t =>
    rw [readStatement]
    split
    · exact .block ‹_› (reading source room (.braced t.line) ts)
    · rename_i brace
      split
      · exact .branching (by simpa using brace) ‹_› (reading source room (.branch t.line) ts)
      · rename_i word
        exact .line ts (by simpa using brace) (by simpa using word)
  | braced line =>
    rw [readBraced]
    cases room with
    | zero =>
      cases found : fromClosingBrace 0 ts with
      | nil =>
        simp only [skipBracedUnclosed found]
        exact .skipUnclosed found
      | cons t rest =>
        simp only [skipBracedClosed found]
        exact .skipBraced found
    | succ room => exact .enterBraced (reading source room (.statements (.braced line)) ts)
  | bare line =>
    rw [readBare]
    cases room with
    | zero => exact .skipBare line ts
    | succ room => exact .enterBare (reading source room (.statements .bare) ts)
  | body head line =>
    have fewer := length_dropNewlines_le ts
    rw [readBody]
    split
    · rename_i brace behind found
      have shorter := length_takeOpenBrace_lt found
      exact .bracedBody found (reading source room (.braced brace.line) behind)
    · exact .bareBody ‹_› (reading source room (.bare line) (dropNewlines ts))
  | branch line =>
    have fewer := length_dropWhile_le Token.insideStatement ts
    have kept := (body source room .condition line (ts.dropWhile Token.insideStatement)).rest_le
    have inner := reading source room (.body .condition line) (ts.dropWhile Token.insideStatement)
    rw [readBranch]
    simp only
    split
    · rename_i braced
      split
      · exact .alone inner (.inr ‹_›)
      · rename_i elseToken behind isElse
        have behindElse := length_takeWord_lt isElse
        have left := length_dropNewlines_le
          (body source room .condition line (ts.dropWhile Token.insideStatement)).rest
        split
        · rename_i ifToken after isIf
          have behindIf := length_takeWord_lt isIf
          exact .link inner braced isElse isIf (reading source room (.branch ifToken.line) after)
        · exact .otherwise inner braced isElse ‹_›
            (reading source room (.body .otherwise elseToken.line) behind)
    · rename_i bare
      exact .alone inner (.inl (by simpa using bare))
termination_by 7 * ts.length + task.weight
decreasing_by
  all_goals simp only [Task.weight, List.length_cons]
  all_goals omega

theorem readingExact (source : List Char) (room : Nat) (task : Task) (ts : List Token) (summary : Summary) :
    read source room ts task = summary ↔ Reading source room task ts summary := by
  constructor
  · intro same
    exact same ▸ reading source room task ts
  · exact readingSound

theorem parseOfReading {source : List Char} {value : List Stmt} {ds : List Diagnostic} {rest : List Token}
    (reading : Reading source maxNesting (.statements .top) (tokens source) ⟨.statements value, ds, rest⟩) :
    parse source = ⟨value, ds⟩ := by
  have same := readingSound reading
  simp only [Parser.read, Parsed.summary, Summary.mk.injEq, Product.statements.injEq] at same
  simp only [parse, parseWithin, same.1, same.2.1]

end LineScript.Parser
