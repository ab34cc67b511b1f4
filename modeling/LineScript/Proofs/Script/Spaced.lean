import LineScript.Proofs.Script.Compose

/-! Tokens with more line breaks between them. A line break may be put next to another one or next
to a brace, but not between two tokens of one line. The parser reads the spaced tokens as the same
tree, only that everything stands elsewhere. -/
namespace LineScript

namespace Diagnostic

def unplaced : Diagnostic → Diagnostic
  | .unclosedBlock _ => .unclosedBlock 0
  | .tooDeep _ => .tooDeep 0
  | .missingBrace head _ => .missingBrace head 0

end Diagnostic

def Program.unplaced (p : Program) : Program :=
  ⟨moveList .erase p.statements, p.diagnostics.map Diagnostic.unplaced⟩

/- `us` are the tokens `ts`, each taken elsewhere, with more line breaks between them. A token of
a line that goes on stands before them if `inLine`. -/
inductive Spaced (f : Token → Token) : Bool → List Token → List Token → Prop where
  | nil (inLine) : Spaced f inLine [] []
  | token {inLine t ts us} (next : Spaced f t.insideStatement ts us) :
      Spaced f inLine (t :: ts) (f t :: us)
  | newline {inLine u ts us} (isNewline : u.isNewline = true)
      (between : inLine = true → ∀ t ∈ ts.head?, t.insideStatement = false)
      (next : Spaced f false ts us) : Spaced f inLine ts (u :: us)

theorem spacedLoose {f : Token → Token} {ts us : List Token} (spaced : Spaced f true ts us) :
    Spaced f false ts us := by
  cases spaced with
  | nil => exact .nil false
  | token next => exact .token next
  | newline isNewline between next => exact .newline isNewline (by simp) next

theorem Token.notOp {t : Token} (isNewline : t.isNewline = true) (op : Operator) : t.isOp op = false := by
  simp only [Token.isNewline, beq_iff_eq] at isNewline
  simp [Token.isOp, isNewline]

theorem Token.notWord {t : Token} (isNewline : t.isNewline = true) (text : String) :
    t.isWord text = false := by
  simp only [Token.isNewline, beq_iff_eq] at isNewline
  simp [Token.isWord, isNewline]

theorem Token.outside {t : Token} (isNewline : t.isNewline = true) : t.insideStatement = false := by
  simp [Token.insideStatement, isNewline]

theorem Token.wordInside {t : Token} {text : String} (word : t.isWord text = true) :
    t.insideStatement = true := by
  simp only [Token.isWord, beq_iff_eq] at word
  simp [Token.insideStatement, Token.isNewline, Token.isOp, word]

theorem Token.openOutside {t : Token} (brace : t.isOp .openBrace = true) : t.insideStatement = false := by
  simp [Token.insideStatement, brace]

theorem Token.braceOutside {t : Token} (brace : t.isOp .closeBrace = true) : t.insideStatement = false := by
  simp [Token.insideStatement, brace]

inductive Front (f : Token → Token) : List Token → List Token → Prop where
  | nil : Front f [] []
  | cons {t ts us} (next : Spaced f t.insideStatement ts us) : Front f (t :: ts) (f t :: us)

theorem Front.spaced {f : Token → Token} {ts us : List Token} (front : Front f ts us) (inLine : Bool) :
    Spaced f inLine ts us := by
  cases front with
  | nil => exact .nil inLine
  | cons next => exact .token next

theorem frontNil {f : Token → Token} {us : List Token} (front : Front f [] us) : us = [] := by
  cases front
  rfl

theorem frontCons {f : Token → Token} {t : Token} {ts us : List Token} (front : Front f (t :: ts) us) :
    ∃ us', us = f t :: us' ∧ Spaced f t.insideStatement ts us' := by
  cases front with
  | cons next => exact ⟨_, rfl, next⟩

namespace Parser
variable {f : Token → Token} (keeps : ∀ t, (f t).lexeme = t.lexeme) {inLine : Bool} {ts us : List Token}

section
include keeps

theorem spacedLine (spaced : Spaced f true ts us) :
    us.takeWhile Token.insideStatement = (ts.takeWhile Token.insideStatement).map f ∧
      Spaced f false (ts.dropWhile Token.insideStatement) (us.dropWhile Token.insideStatement) := by
  generalize atLine : true = inLine at spaced
  induction spaced with
  | nil => exact ⟨rfl, .nil false⟩
  | @token inLine t ts us next ih =>
    by_cases inside : t.insideStatement = true
    · obtain ⟨same, rest⟩ := ih inside.symm
      simp only [List.takeWhile_cons, List.dropWhile_cons, keepsInside keeps, if_pos inside, same,
        List.map_cons]
      exact ⟨trivial, rest⟩
    · simp only [List.takeWhile_cons, List.dropWhile_cons, keepsInside keeps, if_neg inside, List.map_nil]
      exact ⟨trivial, .token next⟩
  | @newline inLine u ts us isNewline between next ih =>
    subst atLine
    have stops : ts.takeWhile Token.insideStatement = [] ∧ ts.dropWhile Token.insideStatement = ts := by
      cases ts with
      | nil => exact ⟨rfl, rfl⟩
      | cons t ts => simp [between rfl t rfl]
    simp only [List.takeWhile_cons, List.dropWhile_cons, Token.outside isNewline, stops, List.map_nil]
    exact ⟨rfl, .newline isNewline (by simp) next⟩

theorem spacedNewlines (spaced : Spaced f inLine ts us) : Front f (dropNewlines ts) (dropNewlines us) := by
  unfold dropNewlines
  induction spaced with
  | nil => exact .nil
  | @token inLine t ts us next ih =>
    simp only [List.dropWhile_cons, keepsNewline keeps]
    split
    · exact ih
    · exact .cons next
  | newline isNewline between next ih => simpa [isNewline] using ih

theorem spacedClosing (spaced : Spaced f inLine ts us) (depth : Nat) :
    Front f (fromClosingBrace depth ts) (fromClosingBrace depth us) := by
  induction spaced generalizing depth with
  | nil => exact .nil
  | @token inLine t ts us next ih =>
    simp only [fromClosingBrace, keepsOp keeps]
    split
    · exact ih _
    · split
      · cases depth with
        | zero => exact .cons next
        | succ depth => exact ih depth
      · exact ih depth
  | newline isNewline between next ih =>
    simpa [fromClosingBrace, Token.notOp isNewline] using ih depth

theorem frontOpenBrace {t : Token} {behind : List Token} (front : Front f ts us)
    (found : takeOpenBrace? ts = some (t, behind)) :
    ∃ behind', takeOpenBrace? us = some (f t, behind') ∧ Spaced f false behind behind' := by
  obtain ⟨rfl, brace⟩ := takeOpenBraceCons found
  cases front with
  | cons next =>
    have outside : t.insideStatement = false := by simp [Token.insideStatement, brace]
    exact ⟨_, by simp [takeOpenBrace?, keepsOp keeps, brace], outside ▸ next⟩

theorem frontNoOpenBrace (front : Front f ts us) (missing : takeOpenBrace? ts = none) :
    takeOpenBrace? us = none := by
  cases front with
  | nil => rfl
  | cons next => simpa [takeOpenBrace?, keepsOp keeps] using missing

theorem frontWord {text : String} {t : Token} {behind : List Token} (front : Front f ts us)
    (found : takeWord? text ts = some (t, behind)) :
    ∃ behind', takeWord? text us = some (f t, behind') ∧ Spaced f true behind behind' := by
  obtain ⟨rfl, word⟩ := takeWordCons found
  cases front with
  | cons next =>
    exact ⟨_, by simp [takeWord?, keepsWord keeps, word], Token.wordInside word ▸ next⟩

theorem frontNoWord {text : String} (front : Front f ts us) (missing : takeWord? text ts = none) :
    takeWord? text us = none := by
  cases front with
  | nil => rfl
  | cons next => simpa [takeWord?, keepsWord keeps] using missing

theorem spacedWord {text : String} {t : Token} {behind : List Token} (spaced : Spaced f true ts us)
    (found : takeWord? text ts = some (t, behind)) :
    ∃ behind', takeWord? text us = some (f t, behind') ∧ Spaced f true behind behind' := by
  obtain ⟨rfl, word⟩ := takeWordCons found
  cases spaced with
  | token next => exact frontWord keeps (.cons next) found
  | newline isNewline between next =>
    have outside := between rfl t rfl
    rw [Token.wordInside word] at outside
    contradiction

theorem spacedNoWord {text : String} (spaced : Spaced f inLine ts us) (missing : takeWord? text ts = none) :
    takeWord? text us = none := by
  cases spaced with
  | nil => rfl
  | token next => exact frontNoWord keeps (.cons next) missing
  | newline isNewline between next => simp [takeWord?, Token.notWord isNewline]

end

theorem spacedStatements (target : List Char) (spaced : Spaced f inLine ts us) :
    ∃ vs, Front f ts vs ∧ ∀ room scope summary, Reading target room (.statements scope) vs summary →
      Reading target room (.statements scope) us summary := by
  induction spaced with
  | nil => exact ⟨[], .nil, fun _ _ _ read => read⟩
  | token next => exact ⟨_, .cons next, fun _ _ _ read => read⟩
  | newline isNewline between next ih =>
    obtain ⟨vs, front, skips⟩ := ih
    exact ⟨vs, front, fun room scope summary read => .newline isNewline (skips room scope summary read)⟩

def Scope.unplaced : Scope → Scope
  | .top => .top
  | .braced _ => .braced 0
  | .bare => .bare

def Product.unplaced : Product → Product
  | .statements value => .statements (moveList .erase value)
  | .statement value => .statement (value.move .erase)
  | .block value => .block (moveBlock .erase value)
  | .body value => .body ⟨moveBlock .erase value.block, value.braced⟩

inductive Task.Spaced (f : Token → Token) : Task → List Token → Task → List Token → Prop where
  | statements {scope scope' ts us} (same : scope'.unplaced = scope.unplaced)
      (spaced : LineScript.Spaced f false ts us) : Task.Spaced f (.statements scope) ts (.statements scope') us
  | statement {t ts us} (spaced : LineScript.Spaced f t.insideStatement ts us) :
      Task.Spaced f (.statement t) ts (.statement (f t)) us
  | braced {line line' ts us} (spaced : LineScript.Spaced f false ts us) :
      Task.Spaced f (.braced line) ts (.braced line') us
  | bare {line line' ts us} (spaced : LineScript.Spaced f false ts us) :
      Task.Spaced f (.bare line) ts (.bare line') us
  | body {head line line' ts us} (spaced : LineScript.Spaced f false ts us) :
      Task.Spaced f (.body head line) ts (.body head line') us
  | branch {line line' ts us} (spaced : LineScript.Spaced f true ts us) :
      Task.Spaced f (.branch line) ts (.branch line') us

theorem spacedFirst (target : List Char) {scope : Scope} {t : Token} {task : Task}
    (spaced : Task.Spaced f (.statements scope) (t :: ts) task us) :
    ∃ scope' us', scope'.unplaced = scope.unplaced ∧ LineScript.Spaced f t.insideStatement ts us' ∧
      ∀ room summary, Reading target room (.statements scope') (f t :: us') summary →
        Reading target room task us summary := by
  cases spaced with
  | @statements _ scope' _ _ same spaced =>
    obtain ⟨vs, front, skips⟩ := spacedStatements target spaced
    obtain ⟨us', rfl, after⟩ := frontCons front
    exact ⟨scope', us', same, after, fun room summary => skips room scope' summary⟩

structure Summary.Spaced (f : Token → Token) (s s' : Summary) : Prop where
  product : s'.product.unplaced = s.product.unplaced
  diagnostics : s'.diagnostics.map Diagnostic.unplaced = s.diagnostics.map Diagnostic.unplaced
  rest : LineScript.Spaced f false s.rest s'.rest

structure Carries (source target : List Char) (f : Token → Token) (whole : List Token) : Prop where
  keeps : ∀ t, (f t).lexeme = t.lexeme
  lines : ∀ run, run <:+: whole → (∀ t ∈ run, t.insideStatement = true) →
    ∃ m : Motion, run.map f = run.map m.token ∧ Agrees source target m run

section Unplaced
variable {p : Product}

theorem unplacedStatements {value : List Stmt}
    (same : p.unplaced = (Product.statements value).unplaced) :
    ∃ value', p = .statements value' ∧ moveList .erase value' = moveList .erase value := by
  cases p <;> simp_all [Product.unplaced]

theorem unplacedStatement {s : Stmt} (same : p.unplaced = (Product.statement s).unplaced) :
    ∃ s', p = .statement s' ∧ s'.move .erase = s.move .erase := by
  cases p <;> simp_all [Product.unplaced]

theorem unplacedBlock {block : Block Stmt} (same : p.unplaced = (Product.block block).unplaced) :
    ∃ block', p = .block block' ∧ moveBlock .erase block' = moveBlock .erase block := by
  cases p <;> simp_all [Product.unplaced]

theorem unplacedBody {body : Body} (same : p.unplaced = (Product.body body).unplaced) :
    ∃ body', p = .body body' ∧ moveBlock .erase body'.block = moveBlock .erase body.block ∧
      body'.braced = body.braced := by
  cases p <;> simp_all [Product.unplaced]

end Unplaced

theorem eraseMoved (m : Motion) (s : Stmt) : (s.move m).move .erase = s.move .erase := by
  rw [(moveMove m .erase).1, m.andThenErase]

theorem statementCarried {source target : List Char} {whole : List Token}
    (carries : Carries source target f whole) {first : Token} {others : List Token}
    (run : first :: others <:+: whole) (inside : ∀ t ∈ first :: others, t.insideStatement = true) :
    (Line.statement target (f first) (others.map f)).move .erase =
      (Line.statement source first others).move .erase := by
  obtain ⟨m, same, agrees⟩ := carries.lines _ run inside
  obtain ⟨head, tail⟩ := List.cons.inj same
  rw [head, tail, Line.statementMoved agrees, eraseMoved]

theorem conditionLine (source : List Char) (line line' : Nat) (ts : List Token) :
    (Line.condition source line ts).move .erase = (Line.condition source line' ts).move .erase := by
  cases ts with
  | nil => rfl
  | cons first others =>
    simp only [Line.condition]
    split <;> rfl

theorem conditionCarried {source target : List Char} {whole : List Token}
    (carries : Carries source target f whole) {run : List Token} (part : run <:+: whole)
    (inside : ∀ t ∈ run, t.insideStatement = true) (line line' : Nat) :
    (Line.condition target line' (run.map f)).move .erase = (Line.condition source line run).move .erase := by
  obtain ⟨m, same, agrees⟩ := carries.lines _ part inside
  rw [same, conditionLine target line' (m.line line), Line.conditionMoved agrees, Expr.moveMove,
    m.andThenErase]

theorem lineFront {whole ts : List Token} (within : ts <:+ whole) :
    ts.takeWhile Token.insideStatement <:+: whole :=
  (List.takeWhile_prefix _).isInfix.trans within.isInfix

theorem lineInside (ts : List Token) :
    ∀ t ∈ ts.takeWhile Token.insideStatement, t.insideStatement = true :=
  List.all_eq_true.mp List.all_takeWhile

theorem fromClosingBraceHead {depth : Nat} {ts rest : List Token} {t : Token}
    (found : fromClosingBrace depth ts = t :: rest) : t.isOp .closeBrace = true := by
  fun_induction fromClosingBrace depth ts with
  | case1 => cases found
  | case2 depth u us _ ih => exact ih found
  | case3 u us _ brace =>
    cases found
    exact brace
  | case4 u us _ _ depth ih => exact ih found
  | case5 depth u us _ _ ih => exact ih found

theorem readingSpaced {source target : List Char} {whole : List Token}
    (carries : Carries source target f whole) {room : Nat} {task task' : Task} {ts us : List Token}
    {summary : Summary} (reading : Reading source room task ts summary) (within : task.Within whole ts)
    (spaced : Task.Spaced f task ts task' us) :
    ∃ summary', Reading target room task' us summary' ∧ Summary.Spaced f summary summary' := by
  induction reading generalizing task' us with
  | finish room scope =>
    obtain @⟨_, scope', _, _, same, spaced⟩ := spaced
    obtain ⟨vs, front, skips⟩ := spacedStatements target spaced
    cases front
    refine ⟨_, skips _ _ _ (.finish room scope'), rfl, ?_, .nil false⟩
    cases scope <;> cases scope' <;> simp_all [Scope.unplaced, Scope.atEnd, Diagnostic.unplaced]
  | @newline room scope t ts summary isNewline next ih =>
    obtain ⟨scope', us', same, after, skips⟩ := spacedFirst target spaced
    rw [Token.outside isNewline] at after
    obtain ⟨summary', read, alike⟩ := ih ((List.suffix_cons t ts).trans within) (.statements same after)
    exact ⟨summary', skips _ _ (.newline ((keepsNewline carries.keeps t).trans isNewline) read), alike⟩
  | @stray room t ts summary inLine brace next ih =>
    obtain ⟨scope', us', same, after, skips⟩ := spacedFirst target spaced
    rw [Token.braceOutside brace] at after
    cases scope' with
    | top =>
      obtain ⟨summary', read, alike⟩ := ih ((List.suffix_cons t ts).trans within) (.statements rfl after)
      exact ⟨summary', skips _ _ (.stray ((keepsNewline carries.keeps t).trans inLine)
        ((keepsOp carries.keeps t _).trans brace) read), alike⟩
    | _ => cases same
  | @close room opened t ts inLine brace =>
    obtain ⟨scope', us', same, after, skips⟩ := spacedFirst target spaced
    rw [Token.braceOutside brace] at after
    cases scope' with
    | braced opened' =>
      exact ⟨_, skips _ _ (.close ((keepsNewline carries.keeps t).trans inLine)
        ((keepsOp carries.keeps t _).trans brace)), rfl, rfl, after⟩
    | _ => cases same
  | @leave room t ts inLine brace =>
    obtain ⟨scope', us', same, after, skips⟩ := spacedFirst target spaced
    cases scope' with
    | bare =>
      exact ⟨_, skips _ _ (.leave ((keepsNewline carries.keeps t).trans inLine)
        ((keepsOp carries.keeps t _).trans brace)), rfl, rfl, .token after⟩
    | _ => cases same
  | @step room scope t ts s ds middle value es rest inLine brace first others firstIh othersIh =>
    obtain ⟨scope', us', same, after, skips⟩ := spacedFirst target spaced
    obtain ⟨⟨p, ds', middle'⟩, readFirst, sameFirst, sameDs, left⟩ :=
      firstIh ⟨inLine, brace, within⟩ (.statement after)
    obtain ⟨s', rfl, sameS⟩ := unplacedStatement sameFirst
    obtain ⟨⟨p, es', rest'⟩, readOthers, sameOthers, sameEs, last⟩ :=
      othersIh (((readingSuffix first).trans (List.suffix_cons t ts)).trans within) (.statements same left)
    obtain ⟨value', rfl, sameValue⟩ := unplacedStatements sameOthers
    refine ⟨_, skips _ _ (.step ((keepsNewline carries.keeps t).trans inLine)
      ((keepsOp carries.keeps t _).trans brace) readFirst readOthers), ?_, ?_, last⟩
    · simp only [Product.unplaced, moveList, sameS, sameValue]
    · simp only [List.map_append, sameDs, sameEs]
  | @block room t ts body ds rest brace inner ih =>
    cases spaced with
    | statement after =>
      rw [Token.openOutside brace] at after
      obtain ⟨⟨p, ds', rest'⟩, read, same, sameDs, left⟩ :=
        ih ((List.suffix_cons t ts).trans within.2.2) (.braced after)
      obtain ⟨body', rfl, sameBody⟩ := unplacedBlock same
      refine ⟨_, .block ((keepsOp carries.keeps t _).trans brace) read, ?_, sameDs, left⟩
      simp only [Product.unplaced, Stmt.move, sameBody]
  | @branching room t ts summary brace word inner ih =>
    cases spaced with
    | statement after =>
      rw [Token.wordInside word] at after
      obtain ⟨summary', read, alike⟩ := ih ((List.suffix_cons t ts).trans within.2.2) (.branch after)
      exact ⟨summary', .branching ((keepsOp carries.keeps t _).trans brace)
        ((keepsWord carries.keeps t _).trans word) read, alike⟩
  | @line room t ts brace word =>
    cases spaced with
    | @statement _ _ us after =>
      have inside : t.insideStatement = true := by
        simp [Token.insideStatement, within.1, within.2.1, brace]
      rw [inside] at after
      obtain ⟨same, left⟩ := spacedLine carries.keeps after
      have read : Reading target room (.statement (f t)) us _ :=
        .line us ((keepsOp carries.keeps t _).trans brace) ((keepsWord carries.keeps t _).trans word)
      rw [same] at read
      have run : t :: ts.takeWhile Token.insideStatement <:+: whole :=
        ((List.prefix_cons_inj t).mpr (List.takeWhile_prefix _)).isInfix.trans within.2.2.isInfix
      refine ⟨_, read, ?_, rfl, left⟩
      simp only [Product.unplaced]
      rw [statementCarried carries run]
      intro u member
      rcases List.mem_cons.mp member with rfl | later
      · exact inside
      · exact List.all_eq_true.mp List.all_takeWhile u later
  | @skipUnclosed line ts none =>
    cases spaced with
    | @braced _ line' _ us spaced =>
      have front := spacedClosing carries.keeps spaced 0
      rw [none] at front
      exact ⟨_, .skipUnclosed (frontNil front), rfl, rfl, .nil false⟩
  | @skipBraced line ts t rest found =>
    cases spaced with
    | @braced _ line' _ us spaced =>
      have front := spacedClosing carries.keeps spaced 0
      rw [found] at front
      obtain ⟨rest', found', left⟩ := frontCons front
      rw [Token.braceOutside (fromClosingBraceHead found)] at left
      exact ⟨_, .skipBraced found', rfl, rfl, left⟩
  | @enterBraced room line ts value ds rest inner ih =>
    cases spaced with
    | @braced _ line' _ us spaced =>
      have statements : Task.Spaced f (.statements (.braced line)) ts (.statements (.braced line')) us :=
        .statements rfl spaced
      obtain ⟨⟨p, ds', rest'⟩, read, same, sameDs, left⟩ := ih within statements
      obtain ⟨value', rfl, sameValue⟩ := unplacedStatements same
      refine ⟨_, .enterBraced read, ?_, sameDs, left⟩
      simp only [Product.unplaced, moveBlock, sameValue]
      rfl
  | skipBare line ts =>
    cases spaced with
    | @bare _ line' _ us spaced =>
      exact ⟨_, .skipBare line' us, rfl, rfl, (spacedClosing carries.keeps spaced 0).spaced false⟩
  | @enterBare room line ts value ds rest inner ih =>
    cases spaced with
    | @bare _ line' _ us spaced =>
      obtain ⟨⟨p, ds', rest'⟩, read, same, sameDs, left⟩ := ih within (.statements rfl spaced)
      obtain ⟨value', rfl, sameValue⟩ := unplacedStatements same
      refine ⟨_, .enterBare read, ?_, sameDs, left⟩
      simp only [Product.unplaced, moveBlock, sameValue]
      rfl
  | @bracedBody room head line ts brace behind block ds rest found inner ih =>
    cases spaced with
    | @body _ _ line' _ us spaced =>
      obtain ⟨behind', found', after⟩ := frontOpenBrace carries.keeps (spacedNewlines carries.keeps spaced) found
      obtain ⟨⟨p, ds', rest'⟩, read, same, sameDs, left⟩ := ih ((behindOpenBrace found).trans within) (.braced after)
      obtain ⟨block', rfl, sameBlock⟩ := unplacedBlock same
      refine ⟨_, .bracedBody found' read, ?_, sameDs, left⟩
      simp only [Product.unplaced, sameBlock]
  | @bareBody room head line ts block ds rest missing inner ih =>
    cases spaced with
    | @body _ _ line' _ us spaced =>
      have front := spacedNewlines carries.keeps spaced
      obtain ⟨⟨p, ds', rest'⟩, read, same, sameDs, left⟩ :=
        ih ((List.dropWhile_suffix _).trans within) (.bare (front.spaced false))
      obtain ⟨block', rfl, sameBlock⟩ := unplacedBlock same
      refine ⟨_, .bareBody (frontNoOpenBrace carries.keeps front missing) read, ?_, ?_, left⟩
      · simp only [Product.unplaced, sameBlock]
      · simp only [List.map_cons, sameDs, Diagnostic.unplaced]
  | @alone room line ts first ds rest inner ends ih =>
    cases spaced with
    | @branch _ line' _ us spaced =>
      obtain ⟨same, behind⟩ := spacedLine carries.keeps spaced
      obtain ⟨⟨p, ds', rest'⟩, read, sameBody, sameDs, left⟩ :=
        ih ((List.dropWhile_suffix _).trans within) (.body behind)
      obtain ⟨first', rfl, sameBlock, sameBraced⟩ := unplacedBody sameBody
      have ends' : first'.braced = false ∨ takeWord? "else" (dropNewlines rest') = none :=
        ends.imp sameBraced.trans
          (frontNoWord carries.keeps (spacedNewlines carries.keeps left))
      refine ⟨_, .alone read ends', ?_, sameDs, left⟩
      rw [same]
      simp only [Product.unplaced, Stmt.move, sameBlock,
        conditionCarried carries (lineFront within) (lineInside ts) line line']
      rfl
  | @link room line ts first ds middle elseToken behind ifToken after s es rest inner braced isElse isIf next
      firstIh nextIh =>
    cases spaced with
    | @branch _ line' _ us spaced =>
      obtain ⟨same, body⟩ := spacedLine carries.keeps spaced
      have part := (List.dropWhile_suffix Token.insideStatement).trans within
      have chain := (behindElse inner isElse).trans within
      obtain ⟨⟨p, ds', middle'⟩, read, sameBody, sameDs, left⟩ := firstIh part (.body body)
      obtain ⟨first', rfl, sameBlock, sameBraced⟩ := unplacedBody sameBody
      obtain ⟨behind', isElse', afterElse⟩ :=
        frontWord carries.keeps (spacedNewlines carries.keeps left) isElse
      obtain ⟨after', isIf', afterIf⟩ := spacedWord carries.keeps afterElse isIf
      obtain ⟨⟨p, es', rest'⟩, readNext, sameNext, sameEs, last⟩ :=
        nextIh ((takeWordSuffix isIf).trans chain) (.branch afterIf)
      obtain ⟨s', rfl, sameS⟩ := unplacedStatement sameNext
      refine ⟨_, .link read (sameBraced.trans braced) isElse' isIf' readNext, ?_, ?_, last⟩
      · rw [same]
        simp only [Product.unplaced, Stmt.move, moveOtherwise, moveBlock, moveList, sameBlock, sameS,
          conditionCarried carries (lineFront within) (lineInside ts) line line']
        rfl
      · simp only [List.map_append, sameDs, sameEs]
  | @otherwise room line ts first ds middle elseToken behind other es rest inner braced isElse noIf next
      firstIh nextIh =>
    cases spaced with
    | @branch _ line' _ us spaced =>
      obtain ⟨same, body⟩ := spacedLine carries.keeps spaced
      have part := (List.dropWhile_suffix Token.insideStatement).trans within
      have chain := (behindElse inner isElse).trans within
      obtain ⟨⟨p, ds', middle'⟩, read, sameBody, sameDs, left⟩ := firstIh part (.body body)
      obtain ⟨first', rfl, sameBlock, sameBraced⟩ := unplacedBody sameBody
      obtain ⟨behind', isElse', afterElse⟩ :=
        frontWord carries.keeps (spacedNewlines carries.keeps left) isElse
      obtain ⟨⟨p, es', rest'⟩, readNext, sameNext, sameEs, last⟩ :=
        nextIh chain (.body (spacedLoose afterElse))
      obtain ⟨other', rfl, sameOther, -⟩ := unplacedBody sameNext
      refine ⟨_, .otherwise read (sameBraced.trans braced) isElse'
        (spacedNoWord carries.keeps afterElse noIf) readNext, ?_, ?_, last⟩
      · rw [same]
        simp only [Product.unplaced, Stmt.move, moveOtherwise, sameBlock, sameOther,
          conditionCarried carries (lineFront within) (lineInside ts) line line']
        rfl
      · simp only [List.map_append, sameDs, sameEs]

theorem parseSpaced {source target : List Char} (carries : Carries source target f (tokens source))
    (spaced : LineScript.Spaced f false (tokens source) (tokens target)) (room : Nat) :
    (parseWithin room target).unplaced = (parseWithin room source).unplaced := by
  have task : Task.Spaced f (.statements .top) (tokens source) (.statements .top) (tokens target) :=
    .statements rfl spaced
  obtain ⟨summary, read, product, diagnostics, -⟩ :=
    readingSpaced carries (readProgram source room) (List.suffix_refl _) task
  have same := (readingSound (readProgram target room)).symm.trans (readingSound read)
  subst same
  simp only [Product.unplaced, Product.statements.injEq] at product
  simp only [Program.unplaced, product, diagnostics]

end Parser
end LineScript
