import LineScript.Proofs.Script.Motion
import LineScript.Proofs.Script.Reading

/-! Reading does not depend on where a text stands. If the same tokens stand in another source,
all moved by the same distance, and span the same texts there, then they are read as the same
statements, moved by that distance, with the same diagnostics at the moved lines. -/
namespace LineScript

theorem sourceTextBehind (before source : List Char) (lines : Nat) (ts : List Token) :
    sourceText (before ++ source) (ts.map (Token.shift before.length lines)) = sourceText source ts := by
  unfold sourceText
  rw [List.head?_map, List.getLast?_map]
  cases ts.head? with
  | none => rfl
  | some first =>
    cases ts.getLast? with
    | none => rfl
    | some last =>
      simp only [Option.map_some, Token.shiftOffset, Token.shiftStop]
      rw [Nat.add_comm first.offset, List.drop_length_add_append]
      have width : last.stop + before.length - (before.length + first.offset) =
          last.stop - first.offset := by omega
      rw [width]

theorem agreesBehind (before source : List Char) (lines : Nat) (ts : List Token) :
    Agrees source (before ++ source) (.shift before.length lines) ts :=
  fun us _ => sourceTextBehind before source lines us

theorem Token.shiftZero (t : Token) : t.shift 0 0 = t := rfl

theorem Token.mapShiftZero (ts : List Token) : ts.map (Token.shift 0 0) = ts := by
  have same : Token.shift 0 0 = id := rfl
  rw [same, List.map_id]

theorem sourceTextBefore {source : List Char} (behind : List Char) {ts : List Token}
    (within : ∀ t ∈ ts, t.stop ≤ source.length) : sourceText (source ++ behind) ts = sourceText source ts := by
  unfold sourceText
  split
  · rename_i first last atHead atLast
    have start := within first (List.mem_of_mem_head? atHead)
    have stop := within last (List.mem_of_getLast? atLast)
    have low : first.offset ≤ source.length := Nat.le_trans (Nat.le_add_right _ _) start
    rw [List.drop_append_of_le_length low, List.take_append_of_le_length]
    rw [List.length_drop]
    omega
  · rfl

theorem agreesBefore {source : List Char} (behind : List Char) {ts : List Token}
    (within : ∀ t ∈ ts, t.stop ≤ source.length) : Agrees source (source ++ behind) (.shift 0 0) ts := by
  intro us inside
  show sourceText _ (us.map (Token.shift 0 0)) = _
  rw [Token.mapShiftZero]
  exact sourceTextBefore behind (fun t member => within t (inside member))

namespace Line
variable {source target : List Char} {offset lines : Nat}

theorem statementShift {first : Token} {others : List Token}
    (agrees : Agrees source target (.shift offset lines) (first :: others)) :
    statement target (first.shift offset lines) (others.map (Token.shift offset lines)) =
      (statement source first others).shift offset lines :=
  (statementMoved agrees).trans ((moveShift offset lines).1 _)

theorem conditionShift {ts : List Token} (agrees : Agrees source target (.shift offset lines) ts)
    (line : Nat) :
    condition target (line + lines) (ts.map (Token.shift offset lines)) =
      (condition source line ts).shift offset lines :=
  conditionMoved agrees line

end Line

def Diagnostic.shift (lines : Nat) : Diagnostic → Diagnostic
  | .unclosedBlock opened => .unclosedBlock (opened + lines)
  | .tooDeep line => .tooDeep (line + lines)
  | .missingBrace head line => .missingBrace head (line + lines)

namespace Parser

def Scope.shift (lines : Nat) : Scope → Scope
  | .top => .top
  | .braced opened => .braced (opened + lines)
  | .bare => .bare

def Task.shift (offset lines : Nat) : Task → Task
  | .statements scope => .statements (scope.shift lines)
  | .statement first => .statement (first.shift offset lines)
  | .braced line => .braced (line + lines)
  | .bare line => .bare (line + lines)
  | .body head line => .body head (line + lines)
  | .branch line => .branch (line + lines)

def Product.shift (offset lines : Nat) : Product → Product
  | .statements value => .statements (shiftList offset lines value)
  | .statement value => .statement (value.shift offset lines)
  | .block value => .block (shiftBlock offset lines value)
  | .body value => .body ⟨shiftBlock offset lines value.block, value.braced⟩

def Summary.shift (offset lines : Nat) (s : Summary) : Summary :=
  ⟨s.product.shift offset lines, s.diagnostics.map (Diagnostic.shift lines),
    s.rest.map (Token.shift offset lines)⟩

section Tokens
variable (offset lines : Nat)

theorem fromClosingBraceMap (depth : Nat) (ts : List Token) :
    fromClosingBrace depth (ts.map (Token.shift offset lines)) =
      (fromClosingBrace depth ts).map (Token.shift offset lines) := by
  fun_induction fromClosingBrace depth ts with
  | case1 => rfl
  | case2 depth t ts brace ih => simpa [fromClosingBrace, brace] using ih
  | case3 t ts other brace => simp [fromClosingBrace, other, brace]
  | case4 t ts other brace depth ih => simpa [fromClosingBrace, other, brace] using ih
  | case5 depth t ts other brace ih => simpa [fromClosingBrace, other, brace] using ih

theorem dropNewlinesMap (ts : List Token) :
    dropNewlines (ts.map (Token.shift offset lines)) =
      (dropNewlines ts).map (Token.shift offset lines) :=
  List.dropWhile_map

theorem takeWordMap (text : String) (ts : List Token) :
    takeWord? text (ts.map (Token.shift offset lines)) =
      (takeWord? text ts).map (Prod.map (Token.shift offset lines) (List.map (Token.shift offset lines))) := by
  cases ts with
  | nil => rfl
  | cons t ts =>
    by_cases word : t.isWord text = true <;> simp [takeWord?, word]

theorem takeOpenBraceMap (ts : List Token) :
    takeOpenBrace? (ts.map (Token.shift offset lines)) =
      (takeOpenBrace? ts).map (Prod.map (Token.shift offset lines) (List.map (Token.shift offset lines))) := by
  cases ts with
  | nil => rfl
  | cons t ts =>
    by_cases brace : t.isOp .openBrace = true <;> simp [takeOpenBrace?, brace]

end Tokens

theorem fromClosingBraceSuffix (depth : Nat) (ts : List Token) : fromClosingBrace depth ts <:+ ts := by
  fun_induction fromClosingBrace depth ts with
  | case1 => exact List.suffix_refl _
  | case2 depth t ts _ ih => exact List.IsSuffix.trans ih (List.suffix_cons t ts)
  | case3 => exact List.suffix_refl _
  | case4 t ts _ _ depth ih => exact List.IsSuffix.trans ih (List.suffix_cons t ts)
  | case5 depth t ts _ _ ih => exact List.IsSuffix.trans ih (List.suffix_cons t ts)

theorem takeWordCons {text : String} {ts rest : List Token} {t : Token}
    (found : takeWord? text ts = some (t, rest)) : ts = t :: rest ∧ t.isWord text = true := by
  unfold takeWord? at found
  split at found
  · split at found
    · cases found
      exact ⟨rfl, ‹_›⟩
    · contradiction
  · contradiction

theorem takeOpenBraceCons {ts rest : List Token} {t : Token}
    (found : takeOpenBrace? ts = some (t, rest)) : ts = t :: rest ∧ t.isOp .openBrace = true := by
  unfold takeOpenBrace? at found
  split at found
  · split at found
    · cases found
      exact ⟨rfl, ‹_›⟩
    · contradiction
  · contradiction

theorem behindWord {text : String} {ts rest : List Token} {t : Token}
    (found : takeWord? text (dropNewlines ts) = some (t, rest)) : rest <:+ ts := by
  have front := (takeWordCons found).1
  exact List.IsSuffix.trans (List.suffix_cons t rest) (front ▸ List.dropWhile_suffix _)

theorem behindOpenBrace {ts rest : List Token} {t : Token}
    (found : takeOpenBrace? (dropNewlines ts) = some (t, rest)) : rest <:+ ts := by
  have front := (takeOpenBraceCons found).1
  exact List.IsSuffix.trans (List.suffix_cons t rest) (front ▸ List.dropWhile_suffix _)

theorem readingSuffix {source : List Char} {room : Nat} {task : Task} {ts : List Token}
    {summary : Summary} (reading : Reading source room task ts summary) : summary.rest <:+ ts := by
  induction reading with
  | finish room scope => exact List.suffix_refl _
  | newline isNewline next ih => exact ih.trans (List.suffix_cons _ _)
  | stray inLine brace next ih => exact ih.trans (List.suffix_cons _ _)
  | close inLine brace => exact List.suffix_cons _ _
  | leave inLine brace => exact List.suffix_refl _
  | step inLine brace first others firstIh othersIh =>
    exact (othersIh.trans firstIh).trans (List.suffix_cons _ _)
  | block brace inner ih => exact ih
  | branching brace word inner ih => exact ih
  | line ts brace word => exact List.dropWhile_suffix _
  | skipUnclosed none => exact List.nil_suffix
  | skipBraced found =>
    exact (List.suffix_cons _ _).trans (found ▸ fromClosingBraceSuffix 0 _)
  | enterBraced inner ih => exact ih
  | skipBare line ts => exact fromClosingBraceSuffix 0 ts
  | enterBare inner ih => exact ih
  | bracedBody found inner ih => exact ih.trans (behindOpenBrace found)
  | bareBody missing inner ih => exact ih.trans (List.dropWhile_suffix _)
  | alone inner ends ih => exact ih.trans (List.dropWhile_suffix _)
  | link inner braced isElse isIf next firstIh nextIh =>
    have front := (takeWordCons isIf).1
    have behind := (nextIh.trans (List.suffix_cons _ _)).trans (front ▸ behindWord isElse)
    exact (behind.trans firstIh).trans (List.dropWhile_suffix _)
  | otherwise inner braced isElse noIf next firstIh nextIh =>
    exact ((nextIh.trans (behindWord isElse)).trans firstIh).trans (List.dropWhile_suffix _)

theorem behindElse {source : List Char} {room line : Nat} {ts middle behind : List Token} {product : Product}
    {ds : List Diagnostic} {elseToken : Token}
    (inner : Reading source room (.body .condition line) (ts.dropWhile Token.insideStatement) ⟨product, ds, middle⟩)
    (isElse : takeWord? "else" (dropNewlines middle) = some (elseToken, behind)) : behind <:+ ts :=
  ((behindWord isElse).trans (readingSuffix inner)).trans (List.dropWhile_suffix _)

theorem takeWordSuffix {text : String} {ts rest : List Token} {t : Token}
    (found : takeWord? text ts = some (t, rest)) : rest <:+ ts := by
  obtain ⟨rfl, -⟩ := takeWordCons found
  exact List.suffix_cons t rest

def Task.Within (whole ts : List Token) : Task → Prop
  | .statement first =>
    first.isNewline = false ∧ first.isOp .closeBrace = false ∧ first :: ts <:+ whole
  | _ => ts <:+ whole

theorem insideInLine {t : Token} (inside : t.insideStatement = true) : t.lexeme ≠ .newline := by
  intro newline
  simp [Token.insideStatement, Token.isNewline, newline] at inside

section Shift
variable {source target : List Char} {offset lines : Nat}

theorem insideMap (ts : List Token) :
    (ts.map (Token.shift offset lines)).takeWhile Token.insideStatement =
        (ts.takeWhile Token.insideStatement).map (Token.shift offset lines) ∧
      (ts.map (Token.shift offset lines)).dropWhile Token.insideStatement =
        (ts.dropWhile Token.insideStatement).map (Token.shift offset lines) :=
  ⟨List.takeWhile_map, List.dropWhile_map⟩

theorem readingShift {room : Nat} {task : Task} {ts : List Token} {summary : Summary}
    (reading : Reading source room task ts summary)
    (agrees : match task with
      | .statement first => Agrees source target (.shift offset lines) (first :: ts)
      | _ => Agrees source target (.shift offset lines) ts) :
    Reading target room (task.shift offset lines) (ts.map (Token.shift offset lines))
      (summary.shift offset lines) := by
  induction reading with
  | finish room scope => cases scope <;> exact .finish room _
  | newline isNewline next ih =>
    exact .newline isNewline (ih (agrees.sub (List.subset_cons_self _ _)))
  | stray inLine brace next ih =>
    exact .stray inLine brace (ih (agrees.sub (List.subset_cons_self _ _)))
  | close inLine brace => exact .close inLine brace
  | leave inLine brace => exact .leave inLine brace
  | @step room scope t ts s ds middle value es rest inLine brace first others firstIh othersIh =>
    have left := (readingSuffix first).subset
    have next := othersIh (agrees.sub (List.subset_cons_of_subset _ left))
    have whole := Reading.step (t := t.shift offset lines) inLine brace (firstIh agrees) next
    simpa [Task.shift, Summary.shift, Product.shift, shiftList] using whole
  | block brace inner ih => exact .block brace (ih (agrees.sub (List.subset_cons_self _ _)))
  | branching brace word inner ih =>
    exact .branching brace word (ih (agrees.sub (List.subset_cons_self _ _)))
  | @line room t ts brace word =>
    have statement := Line.statementShift (agrees.sub
      (List.cons_subset_cons t (List.takeWhile_subset Token.insideStatement)))
    have whole : Reading target room (.statement (t.shift offset lines))
        (ts.map (Token.shift offset lines)) _ := .line _ brace word
    rw [(insideMap ts).1, (insideMap ts).2, statement] at whole
    exact whole
  | skipUnclosed none => exact .skipUnclosed (by simp [fromClosingBraceMap, none])
  | skipBraced found => exact .skipBraced (by rw [fromClosingBraceMap, found]; rfl)
  | enterBraced inner ih => exact .enterBraced (ih agrees)
  | skipBare line ts =>
    have whole : Reading target 0 (.bare (line + lines)) (ts.map (Token.shift offset lines)) _ :=
      .skipBare _ _
    rw [fromClosingBraceMap] at whole
    exact whole
  | enterBare inner ih => exact .enterBare (ih agrees)
  | @bracedBody room head line ts brace behind block ds rest found inner ih =>
    have moved : takeOpenBrace? (dropNewlines (ts.map (Token.shift offset lines))) =
        some (brace.shift offset lines, behind.map (Token.shift offset lines)) := by
      rw [dropNewlinesMap, takeOpenBraceMap, found]
      rfl
    exact .bracedBody moved (ih (agrees.sub (behindOpenBrace found).subset))
  | bareBody missing inner ih =>
    have next := ih (agrees.sub (List.dropWhile_subset _))
    rw [← dropNewlinesMap] at next
    refine .bareBody ?_ next
    rw [dropNewlinesMap, takeOpenBraceMap, missing]
    rfl
  | @alone room line ts first ds rest inner ends ih =>
    have next := ih (agrees.sub (List.dropWhile_subset _))
    have condition := Line.conditionShift (agrees.sub (List.takeWhile_subset Token.insideStatement)) line
    rw [← (insideMap ts).2] at next
    rw [← (insideMap ts).1] at condition
    have ends' : first.braced = false ∨
        takeWord? "else" (dropNewlines (rest.map (Token.shift offset lines))) = none := by
      rcases ends with bare | none
      · exact .inl bare
      · exact .inr (by rw [dropNewlinesMap, takeWordMap, none]; rfl)
    have whole := Reading.alone next ends'
    rw [condition] at whole
    exact whole
  | @link room line ts first ds middle elseToken behind ifToken after s es rest inner braced isElse isIf next
      firstIh nextIh =>
    have opening := firstIh (agrees.sub (List.dropWhile_subset _))
    have condition := Line.conditionShift (agrees.sub (List.takeWhile_subset Token.insideStatement)) line
    rw [← (insideMap ts).2] at opening
    rw [← (insideMap ts).1] at condition
    have movedElse : takeWord? "else" (dropNewlines (middle.map (Token.shift offset lines))) =
        some (elseToken.shift offset lines, behind.map (Token.shift offset lines)) := by
      rw [dropNewlinesMap, takeWordMap, isElse]
      rfl
    have movedIf : takeWord? "if" (behind.map (Token.shift offset lines)) =
        some (ifToken.shift offset lines, after.map (Token.shift offset lines)) := by
      rw [takeWordMap, isIf]
      rfl
    have chain := nextIh (agrees.sub ((takeWordSuffix isIf).trans (behindElse inner isElse)).subset)
    have whole := Reading.link opening braced movedElse movedIf chain
    rw [condition] at whole
    simpa [Task.shift, Summary.shift, Product.shift, Stmt.shift, shiftOtherwise, shiftBlock, shiftList]
      using whole
  | @otherwise room line ts first ds middle elseToken behind other es rest inner braced isElse noIf next
      firstIh nextIh =>
    have opening := firstIh (agrees.sub (List.dropWhile_subset _))
    have condition := Line.conditionShift (agrees.sub (List.takeWhile_subset Token.insideStatement)) line
    rw [← (insideMap ts).2] at opening
    rw [← (insideMap ts).1] at condition
    have movedElse : takeWord? "else" (dropNewlines (middle.map (Token.shift offset lines))) =
        some (elseToken.shift offset lines, behind.map (Token.shift offset lines)) := by
      rw [dropNewlinesMap, takeWordMap, isElse]
      rfl
    have movedIf : takeWord? "if" (behind.map (Token.shift offset lines)) = none := by
      rw [takeWordMap, noIf]
      rfl
    have chain := nextIh (agrees.sub (behindElse inner isElse).subset)
    have whole := Reading.otherwise opening braced movedElse movedIf chain
    rw [condition] at whole
    simpa [Task.shift, Summary.shift, Product.shift, Stmt.shift, shiftOtherwise] using whole

end Shift
end Parser
end LineScript
