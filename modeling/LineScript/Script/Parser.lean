import LineScript.Script.Lexer
import LineScript.Script.Line

/-! Reading tokens as statements. Every source has a tree: a line that is no statement is kept as
such, and a brace that is missing or never closed is reported while the block goes on to the end
of the block around it. -/
namespace LineScript.Parser

/-- How a list of statements ends: with the source, where stray closing braces are passed over;
with its own closing brace; or before the closing brace of the block around it. -/
inductive Scope where
  | top
  | braced (opened : Nat)
  | bare
  deriving DecidableEq, Repr

def Scope.atEnd : Scope → List Diagnostic
  | .braced opened => [.unclosedBlock opened]
  | _ => []

structure Parsed (α : Type) (size : Nat) where
  value : α
  diagnostics : List Diagnostic
  rest : List Token
  rest_le : rest.length ≤ size

def Parsed.widen {α : Type} {n m : Nat} (p : Parsed α n) (h : n ≤ m) : Parsed α m :=
  ⟨p.value, p.diagnostics, p.rest, Nat.le_trans p.rest_le h⟩

def Parsed.map {α β : Type} {n : Nat} (f : α → β) (p : Parsed α n) : Parsed β n :=
  ⟨f p.value, p.diagnostics, p.rest, p.rest_le⟩

def dropNewlines (ts : List Token) : List Token := ts.dropWhile Token.isNewline

def takeWord? (text : String) : List Token → Option (Token × List Token)
  | t :: ts => if t.isWord text then some (t, ts) else none
  | [] => none

def takeOpenBrace? : List Token → Option (Token × List Token)
  | t :: ts => if t.isOp .openBrace then some (t, ts) else none
  | [] => none

/-- The tokens from the first brace on that closes more blocks than the `depth` open ones and
those opened on the way. -/
def fromClosingBrace : Nat → List Token → List Token
  | _, [] => []
  | depth, t :: ts =>
    if t.isOp .openBrace then fromClosingBrace (depth + 1) ts
    else if t.isOp .closeBrace then
      match depth with
      | 0 => t :: ts
      | depth + 1 => fromClosingBrace depth ts
    else fromClosingBrace depth ts

theorem length_dropWhile_le {α : Type} (p : α → Bool) (xs : List α) :
    (xs.dropWhile p).length ≤ xs.length :=
  (List.dropWhile_suffix p).length_le

theorem length_dropNewlines_le (ts : List Token) : (dropNewlines ts).length ≤ ts.length :=
  length_dropWhile_le _ ts

theorem length_takeWord_lt {text : String} {ts rest : List Token} {t : Token}
    (h : takeWord? text ts = some (t, rest)) : rest.length < ts.length := by
  unfold takeWord? at h
  split at h
  · split at h
    · cases h
      simp only [List.length_cons]
      omega
    · cases h
  · cases h

theorem length_takeOpenBrace_lt {ts rest : List Token} {t : Token}
    (h : takeOpenBrace? ts = some (t, rest)) : rest.length < ts.length := by
  unfold takeOpenBrace? at h
  split at h
  · split at h
    · cases h
      simp only [List.length_cons]
      omega
    · cases h
  · cases h

theorem length_fromClosingBrace_le (depth : Nat) (ts : List Token) :
    (fromClosingBrace depth ts).length ≤ ts.length := by
  fun_induction fromClosingBrace depth ts with
  | case1 => exact Nat.le_refl _
  | case2 depth t ts _ ih => exact Nat.le_succ_of_le ih
  | case3 => exact Nat.le_refl _
  | case4 t ts _ _ depth ih => exact Nat.le_succ_of_le ih
  | case5 depth t ts _ _ ih => exact Nat.le_succ_of_le ih

def skipBraced (line : Nat) (ts : List Token) : Parsed (Block Stmt) ts.length :=
  match h : fromClosingBrace 0 ts with
  | [] => ⟨⟨line, []⟩, [.tooDeep line, .unclosedBlock line], [], Nat.zero_le _⟩
  | _ :: rest =>
    ⟨⟨line, []⟩, [.tooDeep line], rest, by
      have := length_fromClosingBrace_le 0 ts
      rw [h, List.length_cons] at this
      omega⟩

def skipBare (line : Nat) (ts : List Token) : Parsed (Block Stmt) ts.length :=
  ⟨⟨line, []⟩, [.tooDeep line], fromClosingBrace 0 ts, length_fromClosingBrace_le 0 ts⟩

structure Body where
  block : Block Stmt
  braced : Bool

mutual

def statements (source : List Char) (room : Nat) (scope : Scope) (ts : List Token) :
    Parsed (List Stmt) ts.length :=
  match ts with
  | [] => ⟨[], scope.atEnd, [], Nat.le_refl _⟩
  | t :: ts =>
    if t.isNewline then (statements source room scope ts).widen (Nat.le_succ _)
    else if t.isOp .closeBrace then
      match scope with
      | .top => (statements source room .top ts).widen (Nat.le_succ _)
      | .braced _ => ⟨[], [], ts, Nat.le_succ _⟩
      | .bare => ⟨[], [], t :: ts, Nat.le_refl _⟩
    else
      let first := statement source room t ts
      have _shorter : first.rest.length < (t :: ts).length := Nat.lt_succ_of_le first.rest_le
      let others := statements source room scope first.rest
      ⟨first.value :: others.value, first.diagnostics ++ others.diagnostics, others.rest,
        Nat.le_trans others.rest_le (Nat.le_of_lt _shorter)⟩
termination_by 7 * ts.length + 3
decreasing_by
  · simp only [List.length_cons]
    omega
  · simp only [List.length_cons]
    omega
  · simp only [List.length_cons]
    omega
  · exact Nat.add_lt_add_right (Nat.mul_lt_mul_of_pos_left _shorter (by decide)) 3

def statement (source : List Char) (room : Nat) (t : Token) (ts : List Token) :
    Parsed Stmt ts.length :=
  if t.isOp .openBrace then (bracedBlock source room t.line ts).map .block
  else if t.isWord "if" then branch source room t.line ts
  else
    ⟨Line.statement source t (ts.takeWhile Token.insideStatement), [],
      ts.dropWhile Token.insideStatement, length_dropWhile_le _ ts⟩
termination_by 7 * (ts.length + 1)
decreasing_by
  all_goals omega

def bracedBlock (source : List Char) (room line : Nat) (ts : List Token) :
    Parsed (Block Stmt) ts.length :=
  match room with
  | 0 => skipBraced line ts
  | room + 1 => (statements source room (.braced line) ts).map (⟨line, ·⟩)
termination_by 7 * ts.length + 4
decreasing_by omega

def bareBlock (source : List Char) (room line : Nat) (ts : List Token) :
    Parsed (Block Stmt) ts.length :=
  match room with
  | 0 => skipBare line ts
  | room + 1 => (statements source room .bare ts).map (⟨line, ·⟩)
termination_by 7 * ts.length + 4
decreasing_by omega

def body (source : List Char) (room : Nat) (head : BranchHead) (line : Nat) (ts : List Token) :
    Parsed Body ts.length :=
  have _fewer := length_dropNewlines_le ts
  match _open : takeOpenBrace? (dropNewlines ts) with
  | some (brace, rest) =>
    have _shorter := length_takeOpenBrace_lt _open
    ((bracedBlock source room brace.line rest).map (⟨·, true⟩)).widen (by omega)
  | none =>
    let block := bareBlock source room line (dropNewlines ts)
    ⟨⟨block.value, false⟩, .missingBrace head line :: block.diagnostics, block.rest,
      Nat.le_trans block.rest_le _fewer⟩
termination_by 7 * ts.length + 5
decreasing_by
  all_goals omega

def branch (source : List Char) (room line : Nat) (ts : List Token) : Parsed Stmt ts.length :=
  have _fewer := length_dropWhile_le Token.insideStatement ts
  let condition := Line.condition source line (ts.takeWhile Token.insideStatement)
  let first := body source room .condition line (ts.dropWhile Token.insideStatement)
  have _left := Nat.le_trans first.rest_le _fewer
  have _kept := length_dropNewlines_le first.rest
  let alone : Parsed Stmt ts.length :=
    ⟨.branch line condition first.value.block none, first.diagnostics, first.rest, _left⟩
  if first.value.braced then
    match _else : takeWord? "else" (dropNewlines first.rest) with
    | none => alone
    | some (elseToken, rest) =>
      have _shorter := length_takeWord_lt _else
      match _if : takeWord? "if" rest with
      | some (ifToken, rest) =>
        have _shortest := length_takeWord_lt _if
        let link := branch source room ifToken.line rest
        ⟨.branch line condition first.value.block (some ⟨elseToken.line, [link.value]⟩),
          first.diagnostics ++ link.diagnostics, link.rest,
          Nat.le_trans link.rest_le (by omega)⟩
      | none =>
        let other := body source room .otherwise elseToken.line rest
        ⟨.branch line condition first.value.block (some other.value.block),
          first.diagnostics ++ other.diagnostics, other.rest,
          Nat.le_trans other.rest_le (by omega)⟩
  else alone
termination_by 7 * ts.length + 6
decreasing_by
  all_goals omega

end

def parseWithin (limit : Nat) (source : List Char) : Program :=
  let parsed := statements source limit .top (tokens source)
  ⟨parsed.value, parsed.diagnostics⟩

end Parser

def parse (source : List Char) : Program := Parser.parseWithin maxNesting source

end LineScript
