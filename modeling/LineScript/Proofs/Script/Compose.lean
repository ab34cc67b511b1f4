import LineScript.Proofs.Script.Place

/-! Parsing line after line. A text that is read without diagnostics has closed all its blocks, so
what follows it on further lines is read as if it stood alone, unless it starts with an `else`
that the last branch of the text would take for its own. -/
namespace LineScript

theorem takeWhileUntil {α : Type} {p : α → Bool} {x : α} (stops : p x = false) (xs ys : List α) :
    (xs ++ x :: ys).takeWhile p = xs.takeWhile p := by
  induction xs with
  | nil => simp [stops]
  | cons y xs ih => simp [List.takeWhile_cons, ih]

theorem dropWhileUntil {α : Type} {p : α → Bool} {x : α} (stops : p x = false) (xs ys : List α) :
    (xs ++ x :: ys).dropWhile p = xs.dropWhile p ++ x :: ys := by
  induction xs with
  | nil => simp [stops]
  | cons y xs ih =>
    by_cases more : p y = true <;> simp [more, ih]

namespace Parser

theorem dropWhileFront {α : Type} {p : α → Bool} {xs rest : List α} {x : α}
    (found : xs.dropWhile p = x :: rest) (ys : List α) :
    (xs ++ ys).dropWhile p = x :: (rest ++ ys) := by
  rw [List.dropWhile_append, found]
  rfl

theorem takeWordFront {text : String} {ts rest : List Token} {t : Token}
    (found : takeWord? text ts = some (t, rest)) (more : List Token) :
    takeWord? text (ts ++ more) = some (t, rest ++ more) := by
  obtain ⟨rfl, word⟩ := takeWordCons found
  simp [takeWord?, word]

theorem elseFront {ts rest : List Token} {t : Token}
    (found : takeWord? "else" (dropNewlines ts) = some (t, rest)) (more : List Token) :
    takeWord? "else" (dropNewlines (ts ++ more)) = some (t, rest ++ more) := by
  obtain ⟨front, word⟩ := takeWordCons found
  have kept : dropNewlines (ts ++ more) = t :: (rest ++ more) := dropWhileFront front more
  rw [kept]
  simp [takeWord?, word]

structure Follows (newline : Token) (ts : List Token) : Prop where
  isNewline : newline.isNewline = true
  noElse : takeWord? "else" (dropNewlines ts) = none

section Follows
variable {newline : Token} {more : List Token} (follows : Follows newline more)
include follows

theorem Follows.outside : newline.insideStatement = false := by
  simp [Token.insideStatement, follows.isNewline]

theorem Follows.notWord (text : String) : newline.isWord text = false := by
  have kind := follows.isNewline
  simp only [Token.isNewline, beq_iff_eq] at kind
  simp [Token.isWord, kind]

theorem Follows.noWordBehind {text : String} {ts : List Token} (missing : takeWord? text ts = none) :
    takeWord? text (ts ++ newline :: more) = none := by
  cases ts with
  | nil => simp [takeWord?, follows.notWord]
  | cons t ts => simpa [takeWord?] using missing

theorem Follows.noElseBehind {ts : List Token}
    (missing : takeWord? "else" (dropNewlines ts) = none) :
    takeWord? "else" (dropNewlines (ts ++ newline :: more)) = none := by
  cases front : dropNewlines ts with
  | nil =>
    have skipped : dropNewlines (ts ++ newline :: more) = dropNewlines more := by
      unfold dropNewlines at front ⊢
      rw [List.dropWhile_append, front]
      simp [follows.isNewline]
    rw [skipped]
    exact follows.noElse
  | cons t rest =>
    have kept : dropNewlines (ts ++ newline :: more) = t :: rest ++ newline :: more :=
      dropWhileFront front _
    rw [kept, ← front]
    exact follows.noWordBehind missing

end Follows

/- A reading without diagnostics goes the same way with more tokens behind. At the top it goes on
into them; a body without braces has a diagnostic, so of those nothing is said. -/
def Extended (source : List Char) (newline : Token) (more : List Token) (room : Nat) (ts : List Token)
    (summary : Summary) : Task → Prop
  | .statements .top => ∀ own value ds, summary.product = .statements own →
      Reading source room (.statements .top) more ⟨.statements value, ds, []⟩ →
      Reading source room (.statements .top) (ts ++ newline :: more) ⟨.statements (own ++ value), ds, []⟩
  | .statements .bare => True
  | .bare _ => True
  | task => Reading source room task (ts ++ newline :: more)
      ⟨summary.product, [], summary.rest ++ newline :: more⟩

theorem readingExtended {source : List Char} {newline : Token} {more : List Token}
    (follows : Follows newline more) {room : Nat} {task : Task} {ts : List Token} {summary : Summary}
    (reading : Reading source room task ts summary) (clean : summary.diagnostics = []) :
    Extended source newline more room ts summary task := by
  induction reading with
  | finish room scope =>
    cases scope with
    | top =>
      intro own value ds same next
      cases same
      exact .newline follows.isNewline next
    | braced opened => simp [Scope.atEnd] at clean
    | bare => trivial
  | @newline room scope t ts summary isNewline next ih =>
    cases scope with
    | top => exact fun own value ds same next => .newline isNewline (ih clean own value ds same next)
    | braced opened => exact .newline isNewline (ih clean)
    | bare => trivial
  | stray inLine brace next ih =>
    exact fun own value ds same next => .stray inLine brace (ih clean own value ds same next)
  | close inLine brace => exact .close inLine brace
  | leave inLine brace => trivial
  | @step room scope t ts s ds middle value es rest inLine brace first others firstIh othersIh =>
    obtain ⟨firstClean, othersClean⟩ := List.append_eq_nil_iff.mp clean
    have start := firstIh firstClean
    cases scope with
    | top =>
      intro own after ds same next
      cases same
      exact .step inLine brace start (othersIh othersClean value after ds rfl next)
    | braced opened => exact .step inLine brace start (othersIh othersClean)
    | bare => trivial
  | block brace inner ih => exact .block brace (ih clean)
  | branching brace word inner ih => exact .branching brace word (ih clean)
  | @line room t ts brace word =>
    -- the line ends at the line break, so what follows is not looked at
    have whole : Reading source room (.statement t) (ts ++ newline :: more) _ := .line _ brace word
    rw [takeWhileUntil follows.outside, dropWhileUntil follows.outside] at whole
    exact whole
  | skipUnclosed none => simp at clean
  | skipBraced found => simp at clean
  | enterBraced inner ih => exact .enterBraced (ih clean)
  | skipBare line ts => trivial
  | enterBare inner ih => trivial
  | bracedBody found inner ih =>
    obtain ⟨front, brace⟩ := takeOpenBraceCons found
    refine .bracedBody ?_ (ih clean)
    unfold dropNewlines at front ⊢
    rw [dropWhileFront front]
    simp [takeOpenBrace?, brace]
  | bareBody missing inner ih => simp at clean
  | @alone room line ts first ds rest inner ends ih =>
    -- the branch looks for an `else` past the end of the text and must find none
    have start : Reading source room (.body .condition line)
        (ts.dropWhile Token.insideStatement ++ newline :: more)
        ⟨.body first, [], rest ++ newline :: more⟩ := ih clean
    rw [← dropWhileUntil follows.outside] at start
    have whole := Reading.alone start (ends.imp id follows.noElseBehind)
    rw [takeWhileUntil follows.outside] at whole
    exact whole
  | @link room line ts first ds middle elseToken behind ifToken after s es rest inner braced isElse isIf next
      firstIh nextIh =>
    obtain ⟨firstClean, nextClean⟩ := List.append_eq_nil_iff.mp clean
    have start : Reading source room (.body .condition line)
        (ts.dropWhile Token.insideStatement ++ newline :: more)
        ⟨.body first, [], middle ++ newline :: more⟩ := firstIh firstClean
    rw [← dropWhileUntil follows.outside] at start
    have whole := Reading.link start braced (elseFront isElse _) (takeWordFront isIf _)
      (nextIh nextClean)
    rw [takeWhileUntil follows.outside] at whole
    exact whole
  | @otherwise room line ts first ds middle elseToken behind other es rest inner braced isElse noIf next
      firstIh nextIh =>
    obtain ⟨firstClean, nextClean⟩ := List.append_eq_nil_iff.mp clean
    have start : Reading source room (.body .condition line)
        (ts.dropWhile Token.insideStatement ++ newline :: more)
        ⟨.body first, [], middle ++ newline :: more⟩ := firstIh firstClean
    rw [← dropWhileUntil follows.outside] at start
    have whole := Reading.otherwise start braced (elseFront isElse _) (follows.noWordBehind noIf)
      (nextIh nextClean)
    rw [takeWhileUntil follows.outside] at whole
    exact whole

theorem shiftZero : (∀ s : Stmt, s.shift 0 0 = s) ∧ ∀ statements, shiftList 0 0 statements = statements := by
  have expr (e : Expr) : e.shift 0 0 = e := by
    simp only [Expr.shift, Token.mapShiftZero, Nat.add_zero]
  apply Stmt.induction
  case block =>
    intro line statements inner
    simp only [Stmt.shift, shiftBlock, inner, Nat.add_zero]
  case assign => simp [Stmt.shift, expr]
  case print => simp [Stmt.shift, expr]
  case branch =>
    intro line condition thenBody otherwise first second
    obtain ⟨opened, statements⟩ := thenBody
    simp only [Stmt.shift, shiftBlock, first, expr, Nat.add_zero]
    cases otherwise with
    | none => rfl
    | some body =>
      obtain ⟨inner, -⟩ := second body rfl
      obtain ⟨opened, statements⟩ := body
      simp only [shiftOtherwise, shiftBlock, inner, Nat.add_zero]
  case call =>
    intro line path arguments
    have same : Expr.shift 0 0 = id := funext expr
    simp [Stmt.shift, same]
  case unknown => simp [Stmt.shift]
  case nil => rfl
  case cons =>
    intro s rest first others
    simp only [shiftList, first, others]

theorem readingTop {source : List Char} {room : Nat} {task : Task} {ts : List Token}
    {summary : Summary} (reading : Reading source room task ts summary)
    (top : task = .statements .top) : summary.rest = [] := by
  induction reading with
  | finish room scope => rfl
  | newline isNewline next ih => exact ih top
  | stray inLine brace next ih => exact ih rfl
  | step inLine brace first others firstIh othersIh => exact othersIh top
  | _ => cases top

theorem readProgram (source : List Char) (room : Nat) :
    Reading source room (.statements .top) (tokens source)
      ⟨.statements (parseWithin room source).statements, (parseWithin room source).diagnostics, []⟩ := by
  have whole := reading source room (.statements .top) (tokens source)
  have ended : (statements source room .top (tokens source)).rest = [] := readingTop whole rfl
  simpa only [read, Parsed.summary, ended, parseWithin] using whole

def startsWithElse (source : List Char) : Bool :=
  (takeWord? "else" (dropNewlines (tokens source))).isSome

theorem followsBelow (a : List Char) {b : List Char} (noElse : startsWithElse b = false) :
    Follows ⟨.newline, (scan a).finish⟩ ((tokens b).map (Token.shift (a.length + 1) (lineCount a))) := by
  refine ⟨rfl, ?_⟩
  rw [dropNewlinesMap, takeWordMap]
  simpa [startsWithElse] using noElse

theorem parseWithinAppend {room : Nat} {a b : List Char} (clean : (parseWithin room a).diagnostics = [])
    (noElse : startsWithElse b = false) :
    parseWithin room (a ++ '\n' :: b) =
      ⟨(parseWithin room a).statements ++
          shiftList (a.length + 1) (lineCount a) (parseWithin room b).statements,
        (parseWithin room b).diagnostics.map (Diagnostic.shift (lineCount a))⟩ := by
  have first : Reading (a ++ '\n' :: b) room (.statements .top) (tokens a)
      ⟨.statements (parseWithin room a).statements, [], []⟩ := by
    have moved := readingShift (readProgram a room) (agreesBefore ('\n' :: b) (tokensWithin a))
    simpa [Task.shift, Scope.shift, Summary.shift, Product.shift, Token.mapShiftZero, shiftZero.2,
      clean] using moved
  have second : Reading (a ++ '\n' :: b) room (.statements .top)
      ((tokens b).map (Token.shift (a.length + 1) (lineCount a)))
      ⟨.statements (shiftList (a.length + 1) (lineCount a) (parseWithin room b).statements),
        (parseWithin room b).diagnostics.map (Diagnostic.shift (lineCount a)), []⟩ := by
    have moved := readingShift (readProgram b room)
      (agreesBehind (a ++ ['\n']) b (lineCount a) (tokens b))
    simpa [Task.shift, Scope.shift, Summary.shift, Product.shift] using moved
  have whole := readingExtended (followsBelow a noElse) first rfl _ _ _ rfl second
  rw [← tokensAppend] at whole
  have same := (readingExact _ _ _ _ _).mpr whole
  simp only [read, Parsed.summary, Summary.mk.injEq, Product.statements.injEq] at same
  simp only [parseWithin] at same ⊢
  rw [same.1, same.2.1]

theorem startsWithElseAppend {a b : List Char} (first : startsWithElse a = false)
    (second : startsWithElse b = false) : startsWithElse (a ++ '\n' :: b) = false := by
  have missing : takeWord? "else" (dropNewlines (tokens a)) = none := by
    simpa [startsWithElse] using first
  simp only [startsWithElse, tokensAppend, (followsBelow a second).noElseBehind missing, Option.isSome_none]

def opensNothing (t : Token) : Bool := !t.isOp .openBrace && !t.isWord "if"

theorem readingFlat {source : List Char} {room : Nat} {task : Task} {ts : List Token} {summary : Summary}
    (reading : Reading source room task ts summary) (flat : ∀ t ∈ ts, opensNothing t = true)
    (simple : task = .statements .top ∨ ∃ t, task = .statement t ∧ opensNothing t = true) :
    summary.diagnostics = [] := by
  induction reading with
  | finish room scope =>
    rcases simple with top | ⟨t, same, _⟩
    · cases top
      rfl
    · cases same
  | newline isNewline next ih => exact ih (fun t member => flat t (by simp [member])) simple
  | stray inLine brace next ih => exact ih (fun t member => flat t (by simp [member])) simple
  | @step room scope t ts s ds middle value es rest inLine brace first others firstIh othersIh =>
    have here : ds = [] :=
      firstIh (fun u member => flat u (by simp [member])) (.inr ⟨t, rfl, flat t (by simp)⟩)
    have left := (readingSuffix first).subset
    have later : es = [] := by
      refine othersIh (fun u member => flat u (by simp [left member])) ?_
      rcases simple with top | ⟨t, same, _⟩
      · exact .inl top
      · cases same
    simp only [here, later, List.append_nil]
  | block brace inner ih =>
    rcases simple with top | ⟨t, same, opens⟩
    · cases top
    · cases same
      simp [opensNothing, brace] at opens
  | branching brace word inner ih =>
    rcases simple with top | ⟨t, same, opens⟩
    · cases top
    · cases same
      simp [opensNothing, word] at opens
  | line ts brace word => rfl
  | _ =>
    rcases simple with top | ⟨t, same, _⟩
    · cases top
    · cases same

theorem flatClean {source : List Char} (flat : (tokens source).all opensNothing = true) :
    (parse source).diagnostics = [] :=
  readingFlat (readProgram source maxNesting) (List.all_eq_true.mp flat) (.inl rfl)

end Parser

theorem shiftListTwice (offset lines offset' lines' : Nat) (statements : List Stmt) :
    shiftList offset' lines' (shiftList offset lines statements) =
      shiftList (offset + offset') (lines + lines') statements := by
  rw [← (moveShift offset lines).2, ← (moveShift offset' lines').2, (moveMove _ _).2,
    Motion.shiftAndThen, (moveShift _ _).2]

structure Standalone (chunk : List Char) : Prop where
  clean : (parse chunk).diagnostics = []
  noElse : Parser.startsWithElse chunk = false

def statementsBelow (offset lines : Nat) : List (List Char) → List Stmt
  | [] => []
  | chunk :: rest => shiftList offset lines (parse chunk).statements ++
      statementsBelow (chunk.length + 1 + offset) (lineCount chunk + lines) rest

theorem shiftStatementsBelow (offset lines offset' lines' : Nat) (chunks : List (List Char)) :
    shiftList offset' lines' (statementsBelow offset lines chunks) =
      statementsBelow (offset + offset') (lines + lines') chunks := by
  induction chunks generalizing offset lines with
  | nil => rfl
  | cons chunk rest ih =>
    simp only [statementsBelow, shiftListAppend, ih, shiftListTwice, Nat.add_assoc]

theorem parseJoined (first : List Char) (others : List (List Char))
    (standalone : ∀ chunk ∈ first :: others, Standalone chunk) :
    parse (['\n'].intercalate (first :: others)) = ⟨statementsBelow 0 0 (first :: others), []⟩ ∧
      Parser.startsWithElse (['\n'].intercalate (first :: others)) = false := by
  induction others generalizing first with
  | nil =>
    have alone := standalone first (by simp)
    have whole : ['\n'].intercalate [first] = first := by simp
    rw [whole]
    refine ⟨?_, alone.noElse⟩
    simp only [statementsBelow, List.append_nil, Parser.shiftZero.2, ← alone.clean]
  | cons second others ih =>
    have alone := standalone first (by simp)
    obtain ⟨below, noElse⟩ := ih second (fun chunk member => standalone chunk (by simp [member]))
    have whole : ['\n'].intercalate (first :: second :: others) =
        first ++ '\n' :: ['\n'].intercalate (second :: others) := by simp [List.intercalate]
    rw [whole]
    refine ⟨?_, Parser.startsWithElseAppend alone.noElse noElse⟩
    have joined := @Parser.parseWithinAppend maxNesting first _ alone.clean noElse
    unfold parse at below ⊢
    rw [joined, below, shiftStatementsBelow, Nat.zero_add, Nat.zero_add]
    simp only [statementsBelow, Parser.shiftZero.2, List.map_nil, Nat.add_zero, parse]

theorem lineCountNewlines (source : List Char) : lineCount source = 1 + source.count '\n' := by
  unfold lineCount
  induction source with
  | nil => rfl
  | cons c cs ih =>
    rw [Lexer.splitLines]
    by_cases newline : c = '\n'
    · subst newline
      rw [if_pos rfl, List.length_cons, ih, List.count_cons_self]
      omega
    · rw [if_neg newline, List.count_cons_of_ne newline, ← ih]
      cases found : Lexer.splitLines cs with
      | nil => exact absurd found (Lexer.splitLinesNonempty cs)
      | cons first others => rfl

def Diagnostic.shown (d : Diagnostic) : String × Nat := (d.message, d.line)

def Diagnostic.shownBelow (lines : Nat) : Diagnostic → String × Nat
  | .unclosedBlock opened =>
    ("unclosed block opened on line " ++ toString (opened + lines), opened + lines)
  | d => (d.message, d.line + lines)

theorem Diagnostic.shownShift (lines : Nat) (d : Diagnostic) : (d.shift lines).shown = d.shownBelow lines := by
  cases d <;> rfl

/- Text below a text that is in order is read as if it stood alone, so many lines further up. -/
theorem parseBelow {a b : List Char} (clean : (parse a).diagnostics = [])
    (noElse : Parser.startsWithElse b = false) :
    let lines := 1 + a.count '\n'
    let whole := parse (a ++ '\n' :: b)
    whole.statements = (parse a).statements ++ shiftList (a.length + 1) lines (parse b).statements ∧
      whole.diagnostics = (parse b).diagnostics.map (Diagnostic.shift lines) ∧
      whole.diagnostics.map Diagnostic.shown = (parse b).diagnostics.map (Diagnostic.shownBelow lines) := by
  have joined := @Parser.parseWithinAppend maxNesting a b clean noElse
  rw [lineCountNewlines] at joined
  refine ⟨congrArg Program.statements joined, congrArg Program.diagnostics joined, ?_⟩
  show (Parser.parseWithin maxNesting (a ++ '\n' :: b)).diagnostics.map Diagnostic.shown = _
  rw [joined, List.map_map]
  exact List.map_congr_left fun d _ => d.shownShift _

def closedBranch : List Char := "if x \x7b\n\x7d".toList

def openBlock : List Char := "\x7d\n\x7b".toList

theorem blockBelowBranch :
    (parse closedBranch).diagnostics = [] ∧ Parser.startsWithElse openBlock = false ∧
      (parse (closedBranch ++ '\n' :: openBlock)).diagnostics.map Diagnostic.shown =
        [("unclosed block opened on line 4", 4)] := by
  have above : tokens closedBranch = [⟨.word "if", ⟨0, 1, 1⟩⟩, ⟨.word "x", ⟨3, 1, 4⟩⟩, ⟨.op .openBrace, ⟨5, 1, 6⟩⟩,
      ⟨.newline, ⟨6, 1, 7⟩⟩, ⟨.op .closeBrace, ⟨7, 2, 1⟩⟩] := by decide +kernel
  have below : tokens openBlock =
      [⟨.op .closeBrace, ⟨0, 1, 1⟩⟩, ⟨.newline, ⟨1, 1, 2⟩⟩, ⟨.op .openBrace, ⟨2, 2, 1⟩⟩] := by decide +kernel
  have first : parse closedBranch = ⟨[.branch 1
      (Line.condition closedBranch 1 [⟨.word "x", ⟨3, 1, 4⟩⟩]) ⟨1, []⟩ none], []⟩ := by
    have block (room : Nat) : Parser.Reading closedBranch (room + 1) (.braced 1)
        [⟨.newline, ⟨6, 1, 7⟩⟩, ⟨.op .closeBrace, ⟨7, 2, 1⟩⟩] ⟨.block ⟨1, []⟩, [], []⟩ :=
      .enterBraced (.newline rfl (.close rfl rfl))
    have body : Parser.Reading closedBranch maxNesting (.body .condition 1)
        [⟨.op .openBrace, ⟨5, 1, 6⟩⟩, ⟨.newline, ⟨6, 1, 7⟩⟩, ⟨.op .closeBrace, ⟨7, 2, 1⟩⟩]
        ⟨.body ⟨⟨1, []⟩, true⟩, [], []⟩ := .bracedBody rfl (block 99)
    have branch : Parser.Reading closedBranch maxNesting (.statement ⟨.word "if", ⟨0, 1, 1⟩⟩)
        [⟨.word "x", ⟨3, 1, 4⟩⟩, ⟨.op .openBrace, ⟨5, 1, 6⟩⟩, ⟨.newline, ⟨6, 1, 7⟩⟩,
          ⟨.op .closeBrace, ⟨7, 2, 1⟩⟩] _ := .branching rfl rfl (.alone body (.inr rfl))
    apply Parser.parseOfReading
    rw [above]
    exact .step rfl rfl branch (.finish _ _)
  have noElse : Parser.startsWithElse openBlock = false := by
    rw [Parser.startsWithElse, below]
    rfl
  have second : parse openBlock = ⟨[.block ⟨2, []⟩], [.unclosedBlock 2]⟩ := by
    have block (room : Nat) : Parser.Reading openBlock (room + 1) (.braced 2) []
        ⟨.block ⟨2, []⟩, [.unclosedBlock 2], []⟩ := .enterBraced (.finish _ _)
    have inner : Parser.Reading openBlock maxNesting (.statement ⟨.op .openBrace, ⟨2, 2, 1⟩⟩) []
        ⟨.statement (.block ⟨2, []⟩), [.unclosedBlock 2], []⟩ := .block rfl (block 99)
    apply Parser.parseOfReading
    rw [below]
    exact .stray rfl rfl (.newline rfl (.step rfl rfl inner (.finish _ _)))
  have clean := congrArg Program.diagnostics first
  have placed := (parseBelow clean noElse).2.2
  rw [second] at placed
  exact ⟨clean, noElse, placed⟩

end LineScript
