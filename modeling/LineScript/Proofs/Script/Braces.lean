import LineScript.Proofs.Script.Nesting

/-! Braces that are never closed. A scan from the left that keeps the open ones and passes over a
closing brace where none is open ends with the very braces that a parser reports, the innermost
first. Bodies without braces close nothing, so they do not count. -/
namespace LineScript

def openBraces : List Nat → List Token → List Nat
  | opened, [] => opened
  | opened, t :: ts =>
    if t.isOp .openBrace then openBraces (t.line :: opened) ts
    else if t.isOp .closeBrace then openBraces opened.tail ts
    else openBraces opened ts

def strayBraces : Nat → List Token → Nat
  | _, [] => 0
  | depth, t :: ts =>
    if t.isOp .openBrace then strayBraces (depth + 1) ts
    else if t.isOp .closeBrace then
      match depth with
      | 0 => strayBraces 0 ts + 1
      | depth + 1 => strayBraces depth ts
    else strayBraces depth ts

def Diagnostic.unclosed? : Diagnostic → Option Nat
  | .unclosedBlock opened => some opened
  | _ => none

def unclosedLines (ds : List Diagnostic) : List Nat := ds.filterMap Diagnostic.unclosed?

theorem unclosedAppend (ds es : List Diagnostic) : unclosedLines (ds ++ es) = unclosedLines ds ++ unclosedLines es :=
  List.filterMap_append

theorem memUnclosed {line : Nat} {ds : List Diagnostic} :
    line ∈ unclosedLines ds ↔ Diagnostic.unclosedBlock line ∈ ds := by
  constructor
  · intro member
    obtain ⟨d, reported, same⟩ := List.mem_filterMap.mp member
    cases d <;> cases same
    exact reported
  · intro reported
    exact List.mem_filterMap.mpr ⟨_, reported, rfl⟩

section Scan
variable {t : Token}

theorem openBracesOpen (opens : t.isOp .openBrace = true) (opened : List Nat) (ts : List Token) :
    openBraces opened (t :: ts) = openBraces (t.line :: opened) ts := by
  rw [openBraces, if_pos opens]

theorem openBracesClose (closes : t.isOp .closeBrace = true) (opened : List Nat) (ts : List Token) :
    openBraces opened (t :: ts) = openBraces opened.tail ts := by
  rw [openBraces, if_neg (by simp [Token.notOpening closes]), if_pos closes]

theorem openBracesOther (opens : t.isOp .openBrace = false) (closes : t.isOp .closeBrace = false)
    (opened : List Nat) (ts : List Token) : openBraces opened (t :: ts) = openBraces opened ts := by
  rw [openBraces, if_neg (by simp [opens]), if_neg (by simp [closes])]

theorem openBracesCount (opened : List Nat) (ts : List Token) :
    ((openBraces opened ts).length : Int) = opened.length + braceBalance ts + strayBraces opened.length ts := by
  fun_induction openBraces opened ts with
  | case1 opened => simp [braceBalance, strayBraces]
  | case2 opened t ts opens ih =>
    simp only [braceBalance, strayBraces, opens, if_true, List.length_cons] at ih ⊢
    omega
  | case3 opened t ts opens closes ih =>
    simp only [braceBalance, strayBraces, opens, closes, if_true]
    cases opened with
    | nil =>
      simp at ih ⊢
      omega
    | cons line opened =>
      simp at ih ⊢
      omega
  | case4 opened t ts opens closes ih =>
    simp only [braceBalance, strayBraces, opens, closes] at ih ⊢
    simpa using ih

theorem openBracesInside (opened : List Nat) (ts : List Token) :
    openBraces opened (ts.dropWhile Token.insideStatement) = openBraces opened ts :=
  OnlyBraces.inside (fun _ opens closes => openBracesOther opens closes opened) ts

theorem openBracesNewlines (opened : List Nat) (ts : List Token) :
    openBraces opened (Parser.dropNewlines ts) = openBraces opened ts :=
  OnlyBraces.newlines (fun _ opens closes => openBracesOther opens closes opened) ts

theorem openBracesWord {text : String} {ts rest : List Token} (opened : List Nat)
    (found : Parser.takeWord? text ts = some (t, rest)) : openBraces opened rest = openBraces opened ts := by
  obtain ⟨rfl, word⟩ := Parser.takeWordCons found
  rw [openBracesOther (Token.wordNotOp word _) (Token.wordNotOp word _)]

theorem openBracesElse {ts rest : List Token} (opened : List Nat)
    (found : Parser.takeWord? "else" (Parser.dropNewlines ts) = some (t, rest)) :
    openBraces opened rest = openBraces opened ts :=
  (openBracesWord opened found).trans (openBracesNewlines opened ts)

end Scan

namespace Parser

def Summary.leavesOpen (s : Summary) (opened : List Nat) : List Nat :=
  unclosedLines s.diagnostics ++ openBraces opened s.rest

/- A scan over what a task has to read, with the braces of the blocks around it open. At the top no
block is around, so a closing brace that is passed over is passed over by the scan. -/
def Task.LeavesOpen (ts : List Token) (s : Summary) : Task → Prop
  | .statements .top => s.leavesOpen [] = openBraces [] ts
  | .statements (.braced line) => ∀ opened, s.leavesOpen opened = openBraces (line :: opened) ts
  | .statements .bare => ∀ opened, s.leavesOpen opened = openBraces opened ts
  | .statement first => first.isOp .closeBrace = false →
      ∀ opened, s.leavesOpen opened = openBraces opened (first :: ts)
  | .braced line => ∀ opened, s.leavesOpen opened = openBraces (line :: opened) ts
  | .bare _ => ∀ opened, s.leavesOpen opened = openBraces opened ts
  | .body _ _ => ∀ opened, s.leavesOpen opened = openBraces opened ts
  | .branch _ => ∀ opened, s.leavesOpen opened = openBraces opened ts

theorem leavesOpenAppend {p q r : Product} {ds es : List Diagnostic} {middle rest : List Token}
    {opened below scanned : List Nat} (first : (Summary.mk p ds middle).leavesOpen opened = scanned)
    (others : (Summary.mk q es rest).leavesOpen below = openBraces opened middle) :
    (Summary.mk r (ds ++ es) rest).leavesOpen below = scanned := by
  simp only [Summary.leavesOpen, unclosedAppend, List.append_assoc] at first others ⊢
  rw [others, first]

theorem readingLeavesOpen {source : List Char} {room : Nat} {task : Task} {ts : List Token} {summary : Summary}
    (reading : Reading source room task ts summary)
    (shallow : ∀ line, Diagnostic.tooDeep line ∉ summary.diagnostics) : task.LeavesOpen ts summary := by
  induction reading with
  | finish room scope =>
    cases scope with
    | top => rfl
    | braced line => exact fun opened => rfl
    | bare => exact fun opened => rfl
  | @newline room scope t ts summary isNewline next ih =>
    have passed := openBracesOther (Token.notOp isNewline .openBrace) (Token.notOp isNewline .closeBrace)
    cases scope with
    | top => exact (ih shallow).trans (passed [] ts).symm
    | braced line => exact fun opened => (ih shallow opened).trans (passed (line :: opened) ts).symm
    | bare => exact fun opened => (ih shallow opened).trans (passed opened ts).symm
  | stray inLine brace next ih => exact (ih shallow).trans (openBracesClose brace [] _).symm
  | close inLine brace => exact fun opened => (openBracesClose brace (_ :: opened) _).symm
  | leave inLine brace => exact fun opened => rfl
  | @step room scope t ts s ds middle value es rest inLine brace first others firstIh othersIh =>
    simp only [List.mem_append, not_or] at shallow
    have here := firstIh (fun l => (shallow l).1) brace
    have later := othersIh (fun l => (shallow l).2)
    cases scope with
    | top => exact leavesOpenAppend (here []) later
    | braced line => exact fun opened => leavesOpenAppend (here (line :: opened)) (later opened)
    | bare => exact fun opened => leavesOpenAppend (here opened) (later opened)
  | block brace inner ih => exact fun _ opened => (ih shallow opened).trans (openBracesOpen brace opened _).symm
  | branching brace word inner ih =>
    exact fun closes opened => (ih shallow opened).trans (openBracesOther brace closes opened _).symm
  | line ts brace word =>
    intro closes opened
    rw [openBracesOther brace closes, ← openBracesInside]
    rfl
  | skipUnclosed none => simp at shallow
  | skipBraced found => simp at shallow
  | enterBraced inner ih => exact ih shallow
  | skipBare line ts => simp at shallow
  | enterBare inner ih => exact ih shallow
  | bracedBody found inner ih =>
    intro opened
    obtain ⟨front, brace⟩ := takeOpenBraceCons found
    rw [← openBracesNewlines, front, openBracesOpen brace]
    exact ih shallow opened
  | bareBody missing inner ih =>
    simp only [List.mem_cons, not_or] at shallow
    intro opened
    rw [← openBracesNewlines]
    exact ih (fun l => (shallow l).2) opened
  | alone inner ends ih =>
    intro opened
    rw [← openBracesInside]
    exact ih shallow opened
  | link inner braced isElse isIf next firstIh nextIh =>
    simp only [List.mem_append, not_or] at shallow
    intro opened
    have here := firstIh (fun l => (shallow l).1) opened
    have later := nextIh (fun l => (shallow l).2) opened
    rw [openBracesInside] at here
    rw [openBracesWord opened isIf, openBracesElse opened isElse] at later
    exact leavesOpenAppend here later
  | otherwise inner braced isElse noIf next firstIh nextIh =>
    simp only [List.mem_append, not_or] at shallow
    intro opened
    have here := firstIh (fun l => (shallow l).1) opened
    have later := nextIh (fun l => (shallow l).2) opened
    rw [openBracesInside] at here
    rw [openBracesElse opened isElse] at later
    exact leavesOpenAppend here later

theorem programLeavesOpen {source : List Char} {limit : Nat}
    (shallow : ∀ line, Diagnostic.tooDeep line ∉ (parseWithin limit source).diagnostics) :
    unclosedLines (parseWithin limit source).diagnostics = openBraces [] (tokens source) := by
  have whole := readingLeavesOpen (readProgram source limit) shallow
  exact (List.append_nil _).symm.trans whole

theorem curtailedUnclosed {room : Nat} {full cut : Summary} (curtailed : Curtailed room full cut) :
    (unclosedLines cut.diagnostics).Sublist (unclosedLines full.diagnostics) := by
  induction curtailed with
  | nothing room ds rest => exact List.Sublist.refl _
  | step first others firstIh othersIh => simpa only [unclosedAppend] using firstIh.append othersIh
  | line room s rest => exact List.Sublist.refl _
  | block inner ih => exact ih
  | @tooDeep line value ds rest own known =>
    have noticed : unclosedLines (.tooDeep line :: own) = unclosedLines own := rfl
    simp only [noticed, unclosedAppend]
    exact List.sublist_append_right _ _
  | enter inner ih => exact ih
  | body missing braced inner ih => simpa only [unclosedAppend] using ih.append_left _
  | alone line condition inner ih => exact ih
  | link line condition elseLine inner next firstIh nextIh =>
    simpa only [unclosedAppend] using firstIh.append nextIh
  | otherwise line condition inner next firstIh nextIh =>
    simpa only [unclosedAppend] using firstIh.append nextIh

theorem programUnclosed (source : List Char) (limit : Nat) :
    (unclosedLines (parseWithin limit source).diagnostics).Sublist (openBraces [] (tokens source)) := by
  have enough : (tokens source).length ≤ limit + (tokens source).length := by omega
  have shallow := readingShallow (readProgram source (limit + (tokens source).length)) enough
  rw [← programLeavesOpen shallow]
  exact curtailedUnclosed (programCurtailed source limit (tokens source).length)

end Parser

theorem openBracesBalance (source : List Char) :
    ((openBraces [] (tokens source)).length : Int) = braceDepth source + strayBraces 0 (tokens source) := by
  have count := openBracesCount [] (tokens source)
  simpa [braceDepth] using count

/- The braces that a parser reports as unclosed are those that a scan leaves open, in the order in
which they would have to be closed. -/
theorem unclosedAreOpen {source : List Char}
    (shallow : ∀ line, Diagnostic.tooDeep line ∉ (parse source).diagnostics) :
    unclosedLines (parse source).diagnostics = openBraces [] (tokens source) ∧
      (0 < braceDepth source → ∃ line, Diagnostic.unclosedBlock line ∈ (parse source).diagnostics) := by
  have same : unclosedLines (parse source).diagnostics = openBraces [] (tokens source) :=
    Parser.programLeavesOpen shallow
  refine ⟨same, fun positive => ?_⟩
  have count := openBracesBalance source
  obtain ⟨line, member⟩ := List.exists_mem_of_length_pos (l := openBraces [] (tokens source)) (by omega)
  exact ⟨line, memUnclosed.mp (same ▸ member)⟩

def halfOpen : List Char := "\x7d if a \x7b\nif b\nlet c = 1 \x7b\n\x7b \x7d".toList

theorem unclosedHalfOpen : (∀ line, Diagnostic.tooDeep line ∉ (parse halfOpen).diagnostics) ∧
    unclosedLines (parse halfOpen).diagnostics = [3, 1] ∧ 0 < braceDepth halfOpen ∧
      ∃ line, Diagnostic.unclosedBlock line ∈ (parse halfOpen).diagnostics := by
  have shallow := @Parser.shallowOfShort halfOpen (by cbv)
  have scanned : openBraces [] (tokens halfOpen) = [3, 1] := by decide +kernel
  have positive : 0 < braceDepth halfOpen := by cbv
  obtain ⟨same, reported⟩ := unclosedAreOpen shallow
  exact ⟨shallow, same.trans scanned, positive, reported positive⟩

end LineScript
