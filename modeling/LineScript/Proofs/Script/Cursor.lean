import LineScript.Proofs.Script.Iterations
import LineScript.Proofs.Script.Slices

/-! Parsing as a machine with a cursor. It looks ahead from an index into the tokens, counts the blocks
it is in, and has three ways to fail: a loop or a call that goes on for ever, an index beyond the end,
and the first token of a run that is empty. From every place that the parser can be in it fails in none
of them, and what it reads is the tree of the source. -/
namespace LineScript.Parser

inductive Fault where
  | exhausted
  | beyond
  | emptyRun
  deriving DecidableEq, Repr

structure Cursor where
  index : Nat
  depth : Nat
  diagnostics : List Diagnostic
  deriving DecidableEq, Repr

abbrev Drive (α : Type) := StateT Cursor (Except Fault) α

namespace Drive

section Machine
variable (source : List Char)

def peek (offset : Nat) : Drive (Option Token) := fun c => .ok ((tokens source)[c.index + offset]?, c)

def advance : Drive (Option Token) := fun c =>
  match (tokens source)[c.index]? with
  | some t => .ok (some t, { c with index := c.index + 1 })
  | none => if c.index = (tokens source).length then .ok (none, c) else .error .beyond

def lineOf (taken : Option Token) : Nat := (taken.map Token.line).getD (scan source).finish.line

def report (ds : List Diagnostic) : Drive Unit := modify fun c => { c with diagnostics := c.diagnostics ++ ds }

def deeper {α : Type} (inside : Drive α) : Drive α := do
  modify fun c => { c with depth := c.depth + 1 }
  let value ← inside
  modify fun c => { c with depth := c.depth - 1 }
  return value

def passWhile (p : Token → Bool) : Nat → Drive (List Token)
  | 0 => throw .exhausted
  | fuel + 1 => do
    if (← peek source 0).any p then
      let taken ← advance source
      let others ← passWhile p fuel
      return taken.toList ++ others
    else return []

def skipNested (close : Bool) : Nat → Nat → Drive Bool
  | 0, _ => throw .exhausted
  | fuel + 1, depth => do
    match ← peek source 0 with
    | none => return false
    | some t =>
      if t.isOp .openBrace then
        let _ ← advance source
        skipNested close fuel (depth + 1)
      else if t.isOp .closeBrace then
        if depth = 0 then
          let _ ← if close then advance source else pure none
          return true
        else
          let _ ← advance source
          skipNested close fuel (depth - 1)
      else
        let _ ← advance source
        skipNested close fuel depth

def elseFollows : Nat → Nat → Drive Bool
  | 0, _ => throw .exhausted
  | fuel + 1, offset => do
    let t ← peek source offset
    if t.any Token.isNewline then elseFollows fuel (offset + 1) else return t.any (·.isWord "else")

def elseAllowed (fuel : Nat) (braced : Bool) : Drive Bool := if braced then elseFollows source fuel 0 else pure false

def line (fuel : Nat) : Drive Stmt := do
  match ← passWhile source Token.insideStatement fuel with
  | [] => throw .emptyRun
  | first :: others => return Line.statement source first others

mutual

def statements : Nat → Scope → Drive (List Stmt)
  | 0, _ => throw .exhausted
  | fuel + 1, scope => do
    match ← peek source 0 with
    | none =>
      report scope.atEnd
      return []
    | some t =>
      if t.isNewline then
        let _ ← advance source
        statements fuel scope
      else if t.isOp .closeBrace then
        match scope with
        | .top =>
          let _ ← advance source
          statements fuel .top
        | .braced _ =>
          let _ ← advance source
          return []
        | .bare => return []
      else
        let first ← statement fuel
        let others ← statements fuel scope
        return first :: others

def statement : Nat → Drive Stmt
  | 0 => throw .exhausted
  | fuel + 1 => do
    let t ← peek source 0
    if t.any (·.isOp .openBrace) then
      let inner ← bracedBlock fuel
      return .block inner
    else if t.any (·.isWord "if") then branch fuel
    else line source fuel

def bracedBlock : Nat → Drive (Block Stmt)
  | 0 => throw .exhausted
  | fuel + 1 => do
    let opened := lineOf source (← advance source)
    if maxNesting ≤ (← get).depth then
      report [.tooDeep opened]
      let closed ← skipNested source true fuel 0
      report (if closed then [] else [.unclosedBlock opened])
      return ⟨opened, []⟩
    else
      let inner ← deeper (statements fuel (.braced opened))
      return ⟨opened, inner⟩

def bareBlock : Nat → Nat → Drive (Block Stmt)
  | 0, _ => throw .exhausted
  | fuel + 1, line => do
    if maxNesting ≤ (← get).depth then
      report [.tooDeep line]
      let _ ← skipNested source false fuel 0
      return ⟨line, []⟩
    else
      let inner ← deeper (statements fuel .bare)
      return ⟨line, inner⟩

def body : Nat → BranchHead → Nat → Drive Body
  | 0, _, _ => throw .exhausted
  | fuel + 1, head, line => do
    let _ ← passWhile source Token.isNewline fuel
    if (← peek source 0).any (·.isOp .openBrace) then
      let block ← bracedBlock fuel
      return ⟨block, true⟩
    else
      report [.missingBrace head line]
      let block ← bareBlock fuel line
      return ⟨block, false⟩

def branch : Nat → Drive Stmt
  | 0 => throw .exhausted
  | fuel + 1 => do
    let line := lineOf source (← advance source)
    let condition := Line.condition source line (← passWhile source Token.insideStatement fuel)
    let first ← body fuel .condition line
    let follows ← elseAllowed source fuel first.braced
    if follows then
      let _ ← passWhile source Token.isNewline fuel
      let elseLine := lineOf source (← advance source)
      if (← peek source 0).any (·.isWord "if") then
        let link ← branch fuel
        return .branch line condition first.block (some ⟨elseLine, [link]⟩)
      else
        let other ← body fuel .otherwise elseLine
        return .branch line condition first.block (some other.block)
    else return .branch line condition first.block none

end

end Machine

section Steps
variable {source : List Char} {given rest ts : List Token} {t : Token} {depth : Nat} {ds : List Diagnostic}
  {α β : Type}

theorem afterOk {m : Drive α} {f : α → Drive β} {c d : Cursor} {value : α} (done : m c = .ok (value, d)) :
    (m >>= f) c = f value d := by
  show (m c >>= fun p => f p.1 p.2) = f value d
  rw [done]
  rfl

def before (source : List Char) (rest : List Token) (depth : Nat) (ds : List Diagnostic) : Cursor :=
  ⟨(tokens source).length - rest.length, depth, ds⟩

theorem ahead (within : rest <:+ tokens source) (offset : Nat) :
    (tokens source)[(tokens source).length - rest.length + offset]? = rest[offset]? := by
  obtain ⟨front, whole⟩ := within
  have length : (tokens source).length - rest.length = front.length := by
    rw [← whole, List.length_append, Nat.add_sub_cancel_right]
  rw [length, ← whole, List.getElem?_append_right (Nat.le_add_right _ _), Nat.add_sub_cancel_left]

theorem peekAt (within : rest <:+ tokens source) (offset : Nat) :
    peek source offset (before source rest depth ds) = .ok (rest[offset]?, before source rest depth ds) := by
  rw [peek, before, ahead within]

theorem advanceAt (within : t :: ts <:+ tokens source) :
    advance source (before source (t :: ts) depth ds) = .ok (some t, before source ts depth ds) := by
  have here := ahead within 0
  have length := within.length_le
  rw [List.length_cons] at length
  have next : (tokens source).length - (t :: ts).length + 1 = (tokens source).length - ts.length := by
    rw [List.length_cons]
    omega
  simp only [Nat.add_zero, List.getElem?_cons_zero] at here
  simp only [advance, before, here, next]

theorem reportAt (es : List Diagnostic) :
    report es (before source rest depth ds) = .ok ((), before source rest depth (ds ++ es)) := rfl

theorem getAt (c : Cursor) : (get : Drive Cursor) c = .ok (c, c) := rfl

theorem depthBefore : (before source rest depth ds).depth = depth := rfl

theorem lineTaken : lineOf source (some t) = t.line := rfl

theorem deeperAt {inside : Drive α} {value : α} {es : List Diagnostic}
    (done : inside (before source given (depth + 1) ds) = .ok (value, before source rest (depth + 1) es)) :
    deeper inside (before source given depth ds) = .ok (value, before source rest depth es) := by
  have entered : (modify fun c => { c with depth := c.depth + 1 } : Drive PUnit) (before source given depth ds) =
    .ok ((), before source given (depth + 1) ds) := rfl
  rw [deeper, afterOk entered, afterOk done]
  rfl

theorem passAt {p : Token → Bool} {fuel : Nat} (within : rest <:+ tokens source) (enough : rest.length < fuel) :
    passWhile source p fuel (before source rest depth ds) =
      .ok (rest.takeWhile p, before source (rest.dropWhile p) depth ds) := by
  induction fuel generalizing rest with
  | zero => exact absurd enough (Nat.not_lt_zero _)
  | succ fuel ih =>
    rw [passWhile, afterOk (peekAt within 0)]
    cases rest with
    | nil => rfl
    | cons t ts =>
      rw [List.getElem?_cons_zero, Option.any_some]
      cases holds : p t with
      | false =>
        rw [if_neg Bool.false_ne_true, List.takeWhile_cons_of_neg (by simp [holds]),
          List.dropWhile_cons_of_neg (by simp [holds])]
        rfl
      | true =>
        have later := ih ((List.suffix_cons t ts).trans within) (Nat.lt_of_succ_lt_succ enough)
        rw [if_pos rfl, afterOk (advanceAt within), afterOk later, List.takeWhile_cons_of_pos holds,
          List.dropWhile_cons_of_pos holds]
        rfl

theorem skipAt {close : Bool} {fuel : Nat} (within : rest <:+ tokens source) (enough : rest.length < fuel)
    (inner : Nat) : skipNested source close fuel inner (before source rest depth ds) =
      match fromClosingBrace inner rest with
      | [] => .ok (false, before source [] depth ds)
      | t :: ts => .ok (true, before source (if close then ts else t :: ts) depth ds) := by
  induction fuel generalizing rest inner with
  | zero => exact absurd enough (Nat.not_lt_zero _)
  | succ fuel ih =>
    rw [skipNested, afterOk (peekAt within 0)]
    cases rest with
    | nil => rfl
    | cons t ts =>
      have later := ih ((List.suffix_cons t ts).trans within) (Nat.lt_of_succ_lt_succ enough)
      rw [List.getElem?_cons_zero, fromClosingBrace.eq_def]
      simp only
      split
      · rw [afterOk (advanceAt within), later]
      · split
        · cases inner with
          | zero =>
            cases close with
            | false => rfl
            | true =>
              rw [if_pos rfl, if_pos rfl, afterOk (advanceAt within)]
              rfl
          | succ inner => rw [if_neg (Nat.succ_ne_zero inner), afterOk (advanceAt within), later, Nat.add_sub_cancel]
        · rw [afterOk (advanceAt within), later]

theorem wordNext (text : String) (ts : List Token) : (takeWord? text ts).isSome = ts.head?.any (·.isWord text) := by
  cases ts with
  | nil => rfl
  | cons t ts =>
    rw [takeWord?, List.head?_cons, Option.any_some]
    split <;> simp_all

theorem elseAt {fuel : Nat} {skipped : List Token} (within : skipped ++ rest <:+ tokens source)
    (enough : rest.length < fuel) :
    elseFollows source fuel skipped.length (before source (skipped ++ rest) depth ds) =
      .ok ((takeWord? "else" (dropNewlines rest)).isSome, before source (skipped ++ rest) depth ds) := by
  induction fuel generalizing rest skipped with
  | zero => exact absurd enough (Nat.not_lt_zero _)
  | succ fuel ih =>
    rw [elseFollows, afterOk (peekAt within _), List.getElem?_append_right (Nat.le_refl _), Nat.sub_self, wordNext]
    cases rest with
    | nil => rfl
    | cons t ts =>
      rw [List.getElem?_cons_zero, Option.any_some, dropNewlines]
      cases newline : t.isNewline with
      | false =>
        rw [if_neg Bool.false_ne_true, List.dropWhile_cons_of_neg (by simp [newline])]
        rfl
      | true =>
        have onward : skipped ++ [t] ++ ts = skipped ++ t :: ts := by simp
        have later := ih (onward.symm ▸ within) (Nat.lt_of_succ_lt_succ enough)
        rw [onward, List.length_append, List.length_singleton, wordNext] at later
        rw [if_pos rfl, later, List.dropWhile_cons_of_pos newline]
        rfl

end Steps

section Calls
variable {source : List Char} {given rest ts : List Token} {t : Token} {depth fuel : Nat} {ds : List Diagnostic}

theorem statementsEnd (scope : Scope) : statements source (fuel + 1) scope (before source [] depth ds) =
    .ok ([], before source [] depth (ds ++ scope.atEnd)) := by
  rw [statements.eq_def]
  simp only
  rw [afterOk (peekAt List.nil_suffix 0)]
  rfl

theorem statementsCons (within : t :: ts <:+ tokens source) (scope : Scope) :
    statements source (fuel + 1) scope (before source (t :: ts) depth ds) =
      if t.isNewline then statements source fuel scope (before source ts depth ds)
      else if t.isOp .closeBrace then
        match scope with
        | .top => statements source fuel .top (before source ts depth ds)
        | .braced _ => .ok ([], before source ts depth ds)
        | .bare => .ok ([], before source (t :: ts) depth ds)
      else (do
        let first ← statement source fuel
        let others ← statements source fuel scope
        return first :: others : Drive _) (before source (t :: ts) depth ds) := by
  rw [statements.eq_def]
  simp only
  rw [afterOk (peekAt within 0)]
  simp only [List.getElem?_cons_zero]
  split
  · rw [afterOk (advanceAt within)]
  · split
    · cases scope with
      | top => simp only [afterOk (advanceAt within)]
      | braced opened =>
        simp only [afterOk (advanceAt within)]
        rfl
      | bare => rfl
    · rfl

theorem statementAt (within : t :: ts <:+ tokens source) :
    statement source (fuel + 1) (before source (t :: ts) depth ds) =
      if t.isOp .openBrace then
        (do
          let inner ← bracedBlock source fuel
          return .block inner : Drive _) (before source (t :: ts) depth ds)
      else if t.isWord "if" then branch source fuel (before source (t :: ts) depth ds)
      else line source fuel (before source (t :: ts) depth ds) := by
  rw [statement, afterOk (peekAt within 0), List.getElem?_cons_zero, Option.any_some, Option.any_some]
  split
  · rfl
  · split <;> rfl

theorem lineAt (within : t :: ts <:+ tokens source) (inside : t.insideStatement = true)
    (enough : (t :: ts).length < fuel) : line source fuel (before source (t :: ts) depth ds) =
      .ok (Line.statement source t (ts.takeWhile Token.insideStatement),
        before source (ts.dropWhile Token.insideStatement) depth ds) := by
  rw [line, afterOk (passAt within enough), List.takeWhile_cons_of_pos inside, List.dropWhile_cons_of_pos inside]
  rfl

theorem bracedFull (within : t :: ts <:+ tokens source) (full : maxNesting ≤ depth) (enough : ts.length < fuel) :
    bracedBlock source (fuel + 1) (before source (t :: ts) depth ds) =
      match fromClosingBrace 0 ts with
      | [] => .ok (⟨t.line, []⟩, before source [] depth (ds ++ [.tooDeep t.line, .unclosedBlock t.line]))
      | _ :: rest => .ok (⟨t.line, []⟩, before source rest depth (ds ++ [.tooDeep t.line])) := by
  have skipped := @skipAt source ts depth (ds ++ [.tooDeep t.line]) true fuel
    ((List.suffix_cons t ts).trans within) enough 0
  rw [bracedBlock, afterOk (advanceAt within), afterOk (getAt _), lineTaken, depthBefore, if_pos full,
    afterOk (reportAt _)]
  cases found : fromClosingBrace 0 ts with
  | nil =>
    simp only [found] at skipped
    rw [afterOk skipped, afterOk (reportAt _), List.append_assoc]
    rfl
  | cons brace rest =>
    simp only [found, if_pos] at skipped
    rw [afterOk skipped, afterOk (reportAt _), List.append_assoc]
    rfl

theorem bracedRoom (within : t :: ts <:+ tokens source) (room : depth < maxNesting) {value : List Stmt}
    {es : List Diagnostic} (inner : statements source fuel (.braced t.line) (before source ts (depth + 1) ds) =
      .ok (value, before source rest (depth + 1) es)) :
    bracedBlock source (fuel + 1) (before source (t :: ts) depth ds) =
      .ok (⟨t.line, value⟩, before source rest depth es) := by
  rw [bracedBlock, afterOk (advanceAt within), afterOk (getAt _), lineTaken, depthBefore,
    if_neg (Nat.not_le.mpr room), afterOk (deeperAt inner)]
  rfl

theorem bareFull (within : ts <:+ tokens source) (full : maxNesting ≤ depth) (enough : ts.length < fuel) (line : Nat) :
    bareBlock source (fuel + 1) line (before source ts depth ds) =
      .ok (⟨line, []⟩, before source (fromClosingBrace 0 ts) depth (ds ++ [.tooDeep line])) := by
  have skipped := @skipAt source ts depth (ds ++ [.tooDeep line]) false fuel within enough 0
  rw [bareBlock, afterOk (getAt _), depthBefore, if_pos full, afterOk (reportAt _)]
  cases found : fromClosingBrace 0 ts with
  | nil =>
    simp only [found] at skipped
    rw [afterOk skipped]
    rfl
  | cons brace rest =>
    simp only [found] at skipped
    rw [afterOk skipped]
    rfl

theorem bareRoom (room : depth < maxNesting) {line : Nat} {value : List Stmt} {es : List Diagnostic}
    (inner : statements source fuel .bare (before source ts (depth + 1) ds) =
      .ok (value, before source rest (depth + 1) es)) :
    bareBlock source (fuel + 1) line (before source ts depth ds) = .ok (⟨line, value⟩, before source rest depth es) := by
  rw [bareBlock, afterOk (getAt _), depthBefore, if_neg (Nat.not_le.mpr room), afterOk (deeperAt inner)]
  rfl

theorem bodyAt (within : ts <:+ tokens source) (enough : ts.length < fuel) (head : BranchHead) (line : Nat) :
    body source (fuel + 1) head line (before source ts depth ds) =
      if (takeOpenBrace? (dropNewlines ts)).isSome then
        (do
          let block ← bracedBlock source fuel
          return ⟨block, true⟩ : Drive _) (before source (dropNewlines ts) depth ds)
      else
        (do
          let block ← bareBlock source fuel line
          return ⟨block, false⟩ : Drive _)
          (before source (dropNewlines ts) depth (ds ++ [.missingBrace head line])) := by
  have inside : dropNewlines ts <:+ tokens source := (List.dropWhile_suffix _).trans within
  rw [body, afterOk (passAt within enough), ← dropNewlines, afterOk (peekAt inside 0)]
  have brace : (dropNewlines ts)[0]?.any (·.isOp .openBrace) = (takeOpenBrace? (dropNewlines ts)).isSome := by
    cases dropNewlines ts with
    | nil => rfl
    | cons t ts =>
      rw [takeOpenBrace?, List.getElem?_cons_zero, Option.any_some]
      split <;> simp_all
  rw [brace]
  split
  · rfl
  · rw [afterOk (reportAt _)]

theorem allowedAt (within : rest <:+ tokens source) (enough : rest.length < fuel) (braced : Bool) :
    elseAllowed source fuel braced (before source rest depth ds) =
      .ok (braced && (takeWord? "else" (dropNewlines rest)).isSome, before source rest depth ds) := by
  cases braced with
  | false => rfl
  | true => exact @elseAt source rest depth ds fuel [] within enough

theorem branchAlone {first : Body} {es : List Diagnostic} (within : t :: ts <:+ tokens source)
    (suffix : rest <:+ ts) (enough : ts.length < fuel)
    (done : body source fuel .condition t.line (before source (ts.dropWhile Token.insideStatement) depth ds) =
      .ok (first, before source rest depth es))
    (ends : first.braced = false ∨ takeWord? "else" (dropNewlines rest) = none) :
    branch source (fuel + 1) (before source (t :: ts) depth ds) =
      .ok (.branch t.line (Line.condition source t.line (ts.takeWhile Token.insideStatement)) first.block none,
        before source rest depth es) := by
  have behind := (List.suffix_cons t ts).trans within
  have follows := @allowedAt source rest depth fuel es (suffix.trans behind)
    (Nat.lt_of_le_of_lt suffix.length_le enough) first.braced
  have alone : (first.braced && (takeWord? "else" (dropNewlines rest)).isSome) = false := by
    rcases ends with bare | none
    · rw [bare, Bool.false_and]
    · rw [none, Option.isSome_none, Bool.and_false]
  rw [alone] at follows
  rw [branch, afterOk (advanceAt within), afterOk (passAt behind enough), lineTaken, afterOk done, afterOk follows]
  rfl

theorem branchElse {first : Body} {es : List Diagnostic} {elseToken : Token} (within : t :: ts <:+ tokens source)
    (suffix : rest <:+ ts) (enough : ts.length < fuel)
    (done : body source fuel .condition t.line (before source (ts.dropWhile Token.insideStatement) depth ds) =
      .ok (first, before source rest depth es))
    (braced : first.braced = true)
    (isElse : takeWord? "else" (dropNewlines rest) = some (elseToken, given)) :
    branch source (fuel + 1) (before source (t :: ts) depth ds) =
      if (takeWord? "if" given).isSome then
        (do
          let link ← branch source fuel
          return .branch t.line (Line.condition source t.line (ts.takeWhile Token.insideStatement)) first.block
            (some ⟨elseToken.line, [link]⟩) : Drive _) (before source given depth es)
      else
        (do
          let other ← body source fuel .otherwise elseToken.line
          return .branch t.line (Line.condition source t.line (ts.takeWhile Token.insideStatement)) first.block
            (some other.block) : Drive _) (before source given depth es) := by
  have behind := (List.suffix_cons t ts).trans within
  have shorter := Nat.lt_of_le_of_lt suffix.length_le enough
  have follows := @allowedAt source rest depth fuel es (suffix.trans behind) shorter first.braced
  have skipped := @passAt source rest depth es Token.isNewline fuel (suffix.trans behind) shorter
  have next : dropNewlines rest = elseToken :: given := (takeWordCons isElse).1
  have inside : elseToken :: given <:+ tokens source := next ▸ (List.dropWhile_suffix _).trans (suffix.trans behind)
  rw [braced, isElse, Option.isSome_some, Bool.and_true] at follows
  rw [← dropNewlines, next] at skipped
  rw [branch, afterOk (advanceAt within), afterOk (passAt behind enough), lineTaken, afterOk done, braced,
    afterOk follows, if_pos rfl, afterOk skipped, afterOk (advanceAt inside),
    afterOk (peekAt ((List.suffix_cons _ _).trans inside) 0), lineTaken, ← List.head?_eq_getElem?, ← wordNext]
  split <;> rfl

end Calls

section Readings
variable {source : List Char}

def Starts (given ts : List Token) : Task → Prop
  | .statement first => given = first :: ts ∧ first.isNewline = false ∧ first.isOp .closeBrace = false
  | .braced line => ∃ t, t.line = line ∧ given = t :: ts
  | .branch line => ∃ t, t.line = line ∧ given = t :: ts
  | _ => given = ts

def Does (source : List Char) (fuel : Nat) (c d : Cursor) : Task → Product → Prop
  | .statements scope, .statements value => statements source fuel scope c = .ok (value, d)
  | .statement _, .statement value => statement source fuel c = .ok (value, d)
  | .braced _, .block value => bracedBlock source fuel c = .ok (value, d)
  | .bare line, .block value => bareBlock source fuel line c = .ok (value, d)
  | .body head line, .body value => body source fuel head line c = .ok (value, d)
  | .branch _, .statement value => branch source fuel c = .ok (value, d)
  | _, _ => False

theorem Does.onward {fuel more : Nat} {scope : Scope} {c d e : Cursor} {product : Product}
    (same : statements source more scope c = statements source fuel scope d)
    (later : Does source fuel d e (.statements scope) product) :
    Does source more c e (.statements scope) product := by
  cases product with
  | statements value => exact same.trans later
  | statement value | block value | body value => exact later

theorem Does.branching {fuel more line : Nat} {t : Token} {c e : Cursor} {product : Product}
    (same : statement source more c = branch source fuel c)
    (inner : Does source fuel c e (.branch line) product) : Does source more c e (.statement t) product := by
  cases product with
  | statement value => exact same.trans inner
  | statements value | block value | body value => exact inner

theorem readingDriven {room : Nat} {task : Task} {ts : List Token} {summary : Summary}
    (reading : Reading source room task ts summary) {given : List Token} {depth fuel : Nat}
    {ds : List Diagnostic} (starts : Starts given ts task) (within : given <:+ tokens source)
    (level : depth + room = maxNesting) (enough : 7 * ts.length + task.weight < fuel) :
    Does source fuel (before source given depth ds) (before source summary.rest depth (ds ++ summary.diagnostics))
      task summary.product := by
  -- Each rule of the reading is one call; the fuel covers the measure by which the parser ends.
  induction reading generalizing given depth fuel ds with
  | finish room scope =>
    obtain ⟨fuel, rfl⟩ := Nat.exists_eq_add_one_of_ne_zero (Nat.ne_zero_of_lt enough)
    cases starts
    exact statementsEnd scope
  | @newline room scope t ts summary isNewline next ih =>
    obtain ⟨fuel, rfl⟩ := Nat.exists_eq_add_one_of_ne_zero (Nat.ne_zero_of_lt enough)
    cases starts
    simp only [List.length_cons, Task.weight] at enough ih
    have same := @statementsCons source ts t depth fuel ds within scope
    rw [if_pos isNewline] at same
    exact .onward same (ih rfl ((List.suffix_cons t ts).trans within) level (by omega))
  | @stray room t ts summary inLine brace next ih =>
    obtain ⟨fuel, rfl⟩ := Nat.exists_eq_add_one_of_ne_zero (Nat.ne_zero_of_lt enough)
    cases starts
    simp only [List.length_cons, Task.weight] at enough ih
    have same := @statementsCons source ts t depth fuel ds within .top
    rw [if_neg (by simp [inLine]), if_pos brace] at same
    exact .onward same (ih rfl ((List.suffix_cons t ts).trans within) level (by omega))
  | @close room opened t ts inLine brace =>
    obtain ⟨fuel, rfl⟩ := Nat.exists_eq_add_one_of_ne_zero (Nat.ne_zero_of_lt enough)
    cases starts
    have same := @statementsCons source ts t depth fuel ds within (.braced opened)
    rw [if_neg (by simp [inLine]), if_pos brace] at same
    rw [List.append_nil]
    exact same
  | leave inLine brace =>
    obtain ⟨fuel, rfl⟩ := Nat.exists_eq_add_one_of_ne_zero (Nat.ne_zero_of_lt enough)
    cases starts
    have same := @statementsCons source _ _ depth fuel ds within .bare
    rw [if_neg (by simp [inLine]), if_pos brace] at same
    rw [List.append_nil]
    exact same
  | @step room scope t ts s es middle value fs rest inLine brace first others firstIh othersIh =>
    obtain ⟨fuel, rfl⟩ := Nat.exists_eq_add_one_of_ne_zero (Nat.ne_zero_of_lt enough)
    cases starts
    have suffix : middle <:+ ts := readingSuffix first
    have shorter := suffix.length_le
    simp only [List.length_cons, Task.weight] at enough firstIh othersIh
    have one : statement source fuel (before source (t :: ts) depth ds) = _ :=
      firstIh ⟨rfl, inLine, brace⟩ within level (by omega)
    have more : statements source fuel scope (before source middle depth (ds ++ es)) = _ :=
      othersIh rfl ((suffix.trans (List.suffix_cons t ts)).trans within) level (by omega)
    have same := @statementsCons source ts t depth fuel ds within scope
    rw [if_neg (by simp [inLine]), if_neg (by simp [brace]), afterOk one, afterOk more, List.append_assoc] at same
    exact same
  | @block room t ts body es rest brace inner ih =>
    obtain ⟨fuel, rfl⟩ := Nat.exists_eq_add_one_of_ne_zero (Nat.ne_zero_of_lt enough)
    obtain ⟨rfl, -, -⟩ := starts
    simp only [Task.weight] at enough ih
    have done : bracedBlock source fuel (before source (t :: ts) depth ds) = _ :=
      ih ⟨t, rfl, rfl⟩ within level (by omega)
    have same := @statementAt source ts t depth fuel ds within
    rw [if_pos brace, afterOk done] at same
    exact same
  | @branching room t ts summary brace word inner ih =>
    obtain ⟨fuel, rfl⟩ := Nat.exists_eq_add_one_of_ne_zero (Nat.ne_zero_of_lt enough)
    obtain ⟨rfl, -, -⟩ := starts
    simp only [Task.weight] at enough ih
    have same := @statementAt source ts t depth fuel ds within
    rw [if_neg (by simp [brace]), if_pos word] at same
    exact .branching same (ih ⟨t, rfl, rfl⟩ within level (by omega))
  | @line room t ts brace word =>
    obtain ⟨fuel, rfl⟩ := Nat.exists_eq_add_one_of_ne_zero (Nat.ne_zero_of_lt enough)
    obtain ⟨rfl, inLine, notClosing⟩ := starts
    have inside : t.insideStatement = true := by simp [Token.insideStatement, inLine, brace, notClosing]
    have enough' : (t :: ts).length < fuel := by
      simp only [List.length_cons, Task.weight] at enough ⊢
      omega
    have same := @statementAt source ts t depth fuel ds within
    rw [if_neg (by simp [brace]), if_neg (by simp [word]), lineAt within inside enough'] at same
    rw [List.append_nil]
    exact same
  | @skipUnclosed line ts none =>
    obtain ⟨fuel, rfl⟩ := Nat.exists_eq_add_one_of_ne_zero (Nat.ne_zero_of_lt enough)
    obtain ⟨t, rfl, rfl⟩ := starts
    simp only [Task.weight] at enough
    have same := @bracedFull source ts t depth fuel ds within (by omega) (by omega)
    rw [none] at same
    exact same
  | @skipBraced line ts t rest found =>
    obtain ⟨fuel, rfl⟩ := Nat.exists_eq_add_one_of_ne_zero (Nat.ne_zero_of_lt enough)
    obtain ⟨t, rfl, rfl⟩ := starts
    simp only [Task.weight] at enough
    have same := @bracedFull source ts t depth fuel ds within (by omega) (by omega)
    rw [found] at same
    exact same
  | @enterBraced room line ts value es rest inner ih =>
    obtain ⟨fuel, rfl⟩ := Nat.exists_eq_add_one_of_ne_zero (Nat.ne_zero_of_lt enough)
    obtain ⟨t, rfl, rfl⟩ := starts
    simp only [Task.weight] at enough ih
    exact bracedRoom within (by omega) (ih rfl ((List.suffix_cons t ts).trans within) (by omega) (by omega))
  | skipBare line ts =>
    obtain ⟨fuel, rfl⟩ := Nat.exists_eq_add_one_of_ne_zero (Nat.ne_zero_of_lt enough)
    cases starts
    simp only [Task.weight] at enough
    exact bareFull within (by omega) (by omega) line
  | enterBare inner ih =>
    obtain ⟨fuel, rfl⟩ := Nat.exists_eq_add_one_of_ne_zero (Nat.ne_zero_of_lt enough)
    cases starts
    simp only [Task.weight] at enough ih
    exact bareRoom (by omega) (ih rfl within (by omega) (by omega))
  | @bracedBody room head line ts brace behind block es rest found inner ih =>
    obtain ⟨fuel, rfl⟩ := Nat.exists_eq_add_one_of_ne_zero (Nat.ne_zero_of_lt enough)
    cases starts
    have front := (takeOpenBraceCons found).1
    have shorter := (behindOpenBrace found).length_le
    simp only [Task.weight] at enough ih
    have done : bracedBlock source fuel (before source (dropNewlines ts) depth ds) = _ :=
      ih ⟨brace, rfl, front⟩ ((List.dropWhile_suffix _).trans within) level (by omega)
    have same := @bodyAt source ts depth fuel ds within (by omega) head line
    rw [found, Option.isSome_some, if_pos rfl, afterOk done] at same
    exact same
  | @bareBody room head line ts block es rest missing inner ih =>
    obtain ⟨fuel, rfl⟩ := Nat.exists_eq_add_one_of_ne_zero (Nat.ne_zero_of_lt enough)
    cases starts
    have shorter := length_dropNewlines_le ts
    simp only [Task.weight] at enough ih
    have done : bareBlock source fuel line (before source (dropNewlines ts) depth (ds ++ [.missingBrace head line])) = _ :=
      ih rfl ((List.dropWhile_suffix _).trans within) level (by omega)
    have same := @bodyAt source ts depth fuel ds within (by omega) head line
    rw [missing, Option.isSome_none, if_neg Bool.false_ne_true, afterOk done, List.append_assoc,
      List.singleton_append] at same
    exact same
  | @alone room line ts first es rest inner ends ih =>
    obtain ⟨fuel, rfl⟩ := Nat.exists_eq_add_one_of_ne_zero (Nat.ne_zero_of_lt enough)
    obtain ⟨t, rfl, rfl⟩ := starts
    have suffix := (List.suffix_cons t ts).trans within
    have shorter := length_dropWhile_le Token.insideStatement ts
    simp only [Task.weight] at enough ih
    have done : body source fuel .condition t.line (before source (ts.dropWhile Token.insideStatement) depth ds) = _ :=
      ih rfl ((List.dropWhile_suffix _).trans suffix) level (by omega)
    exact branchAlone within ((readingSuffix inner).trans (List.dropWhile_suffix _)) (by omega) done ends
  | @link room line ts first es middle elseToken behind ifToken after s fs rest inner braced isElse isIf next
      firstIh nextIh =>
    obtain ⟨fuel, rfl⟩ := Nat.exists_eq_add_one_of_ne_zero (Nat.ne_zero_of_lt enough)
    obtain ⟨t, rfl, rfl⟩ := starts
    have suffix := (List.suffix_cons t ts).trans within
    have left : behind <:+ ts := behindElse inner isElse
    obtain ⟨rfl, -⟩ := takeWordCons isIf
    have shorter := length_dropWhile_le Token.insideStatement ts
    have shortest := left.length_le
    simp only [List.length_cons, Task.weight] at enough shortest firstIh nextIh
    have done : body source fuel .condition t.line (before source (ts.dropWhile Token.insideStatement) depth ds) = _ :=
      firstIh rfl ((List.dropWhile_suffix _).trans suffix) level (by omega)
    have link : branch source fuel (before source (ifToken :: after) depth (ds ++ es)) = _ :=
      nextIh ⟨ifToken, rfl, rfl⟩ (left.trans suffix) level (by omega)
    have same := branchElse within ((readingSuffix inner).trans (List.dropWhile_suffix _)) (by omega) done braced isElse
    rw [isIf, Option.isSome_some, if_pos rfl, afterOk link, List.append_assoc] at same
    exact same
  | @otherwise room line ts first es middle elseToken behind other fs rest inner braced isElse noIf next
      firstIh nextIh =>
    obtain ⟨fuel, rfl⟩ := Nat.exists_eq_add_one_of_ne_zero (Nat.ne_zero_of_lt enough)
    obtain ⟨t, rfl, rfl⟩ := starts
    have suffix := (List.suffix_cons t ts).trans within
    have left : behind <:+ ts := behindElse inner isElse
    have shorter := length_dropWhile_le Token.insideStatement ts
    have shortest := left.length_le
    simp only [Task.weight] at enough firstIh nextIh
    have done : body source fuel .condition t.line (before source (ts.dropWhile Token.insideStatement) depth ds) = _ :=
      firstIh rfl ((List.dropWhile_suffix _).trans suffix) level (by omega)
    have last : body source fuel .otherwise elseToken.line (before source behind depth (ds ++ es)) = _ :=
      nextIh rfl (left.trans suffix) level (by omega)
    have same := branchElse within ((readingSuffix inner).trans (List.dropWhile_suffix _)) (by omega) done braced isElse
    rw [noIf, Option.isSome_none, if_neg Bool.false_ne_true, afterOk last, List.append_assoc] at same
    exact same

end Readings

section Everywhere
variable {source : List Char} {c : Cursor} {fuel : Nat}

theorem beforeRest (inside : c.index ≤ (tokens source).length) :
    before source ((tokens source).drop c.index) c.depth c.diagnostics = c := by
  rw [before, List.length_drop, Nat.sub_sub_self inside]

theorem statementsEnds (scope : Scope) (inside : c.index ≤ (tokens source).length) (level : c.depth ≤ maxNesting)
    (enough : 7 * ((tokens source).length - c.index) + 3 < fuel) :
    ∃ value d, statements source fuel scope c = .ok (value, d) ∧ c.index ≤ d.index ∧
      d.index ≤ (tokens source).length ∧ d.depth = c.depth := by
  obtain ⟨room, full⟩ := Nat.exists_eq_add_of_le level
  have read := reading source room (.statements scope) ((tokens source).drop c.index)
  have shorter := (readingSuffix read).length_le
  have driven := @readingDriven source room _ _ _ read _ c.depth fuel c.diagnostics rfl (List.drop_suffix _ _)
    full.symm (by rwa [List.length_drop])
  rw [beforeRest inside] at driven
  rw [List.length_drop] at shorter
  refine ⟨_, _, driven, ?_, Nat.sub_le _ _, rfl⟩
  simp only [before]
  omega

theorem statementAdvances {t : Token} (here : (tokens source)[c.index]? = some t) (inLine : t.isNewline = false)
    (brace : t.isOp .closeBrace = false) (level : c.depth ≤ maxNesting)
    (enough : 7 * ((tokens source).length - c.index) < fuel) :
    ∃ s d, statement source fuel c = .ok (s, d) ∧ c.index < d.index ∧ d.index ≤ (tokens source).length ∧
      d.depth = c.depth := by
  obtain ⟨inside, same⟩ := List.getElem?_eq_some_iff.mp here
  obtain ⟨room, full⟩ := Nat.exists_eq_add_of_le level
  have rest : (tokens source).drop c.index = t :: (tokens source).drop (c.index + 1) := by
    rw [← same, List.getElem_cons_drop]
  have read := reading source room (.statement t) ((tokens source).drop (c.index + 1))
  have shorter := (readingSuffix read).length_le
  have driven := @readingDriven source room _ _ _ read _ c.depth fuel c.diagnostics ⟨rest, inLine, brace⟩
    (List.drop_suffix _ _) full.symm (by
      simp only [List.length_drop, Task.weight]
      omega)
  rw [beforeRest (Nat.le_of_lt inside)] at driven
  rw [List.length_drop] at shorter
  refine ⟨_, _, driven, ?_, Nat.sub_le _ _, rfl⟩
  simp only [before]
  omega

theorem programDriven (enough : 7 * (tokens source).length + 3 < fuel) :
    statements source fuel .top ⟨0, 0, []⟩ =
      .ok ((parse source).statements, ⟨(tokens source).length, 0, (parse source).diagnostics⟩) := by
  have driven := @readingDriven source _ _ _ _ (readProgram source maxNesting) _ 0 fuel [] rfl (List.suffix_refl _)
    (Nat.zero_add _) enough
  simp only [before, Nat.sub_self] at driven
  exact driven

end Everywhere

end Drive

end Parser

theorem preorderBounded (source : List Char) : (parse source).preorder.length ≤ 2 * (tokens source).length + 1 := by
  have listed := (programListed source).lines.length_le
  have pairs : ((tokens source).flatMap fun t => [t.line, t.line]).length = 2 * (tokens source).length := by
    induction tokens source with
    | nil => rfl
    | cons t ts ih =>
      simp only [List.flatMap_cons, List.length_append, ih, List.length_cons, List.length_nil]
      omega
  rw [List.length_map, List.length_append, pairs, List.length_singleton] at listed
  omega

/- Reading a source ends, and nothing goes wrong on the way. -/
structure FrontEndEnds (source : List Char) : Prop where
  turns : ∀ r : Lexer.Reader, r.index < source.length →
    r.index < (r.turn source).2.index ∧ (r.turn source).2.index ≤ source.length
  tokenized : ∀ turns, source.length ≤ turns → ∃ last, Lexer.Reader.start.loop source turns =
    some (tokens source, last) ∧ last.index = source.length ∧ last.position = (scan source).finish
  statement : ∀ (c : Parser.Cursor) t fuel, (tokens source)[c.index]? = some t → t.isNewline = false →
    t.isOp .closeBrace = false → c.depth ≤ maxNesting → 7 * ((tokens source).length - c.index) < fuel →
    ∃ s d, Parser.Drive.statement source fuel c = .ok (s, d) ∧ c.index < d.index ∧
      d.index ≤ (tokens source).length ∧ d.depth = c.depth
  statements : ∀ (c : Parser.Cursor) scope fuel, c.index ≤ (tokens source).length → c.depth ≤ maxNesting →
    7 * ((tokens source).length - c.index) + 3 < fuel →
    ∃ value d, Parser.Drive.statements source fuel scope c = .ok (value, d) ∧ c.index ≤ d.index ∧
      d.index ≤ (tokens source).length ∧ d.depth = c.depth
  parsed : ∀ fuel, 7 * (tokens source).length + 3 < fuel → Parser.Drive.statements source fuel .top ⟨0, 0, []⟩ =
    .ok ((parse source).statements, ⟨(tokens source).length, 0, (parse source).diagnostics⟩)
  finite : (parse source).preorder.length ≤ 2 * (tokens source).length + 1

theorem frontEndEnds (source : List Char) : FrontEndEnds source where
  turns _ := Lexer.turnAdvances
  tokenized _ := Lexer.loopRead source
  statement _ _ _ := Parser.Drive.statementAdvances
  statements _ scope _ := Parser.Drive.statementsEnds scope
  parsed _ := Parser.Drive.programDriven
  finite := preorderBounded source

theorem strayAndUnclosed : (tokens "if a\n\x7d else \x7b".toList).length = 6 ∧
    Parser.Drive.statements "if a\n\x7d else \x7b".toList 46 .top ⟨0, 0, []⟩ =
      .ok ((parse "if a\n\x7d else \x7b".toList).statements,
        ⟨6, 0, [.missingBrace .condition 1, .unclosedBlock 2]⟩) := by
  have length : (tokens "if a\n\x7d else \x7b".toList).length = 6 := by decide +kernel
  have reported : (parse "if a\n\x7d else \x7b".toList).diagnostics =
      [.missingBrace .condition 1, .unclosedBlock 2] := by decide +kernel
  have ends := (frontEndEnds "if a\n\x7d else \x7b".toList).parsed 46 (by rw [length]; decide)
  rw [length, reported] at ends
  exact ⟨length, ends⟩

end LineScript
