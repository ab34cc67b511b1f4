import LineScript.Proofs.Engine.Points

/-! Statements that fail in their evaluation. None of them has done anything by then, so what is left of
one is a report at the line it failed at, and the run goes on behind it. -/
namespace LineScript

/- The evaluation of a statement fails, at a line: its own, or that of the link whose condition fails. -/
inductive Stmt.Fails (scope : Scope) : Stmt → Failure → Nat → Prop where
  | assign {line name value f} (raises : value.eval scope = .error f) : Fails scope (.assign line name value) f line
  | print {line value f} (raises : value.eval scope >>= Value.render = .error f) : Fails scope (.print line value) f line
  | call {line path arguments f} (raises : arguments.mapM (Expr.eval scope) = .error f) :
      Fails scope (.call line path arguments) f line
  | chain {s links final front link f} (chain : Chain s links final)
      (decides : Decides scope final links (front ++ [link]) (.error f)) : Fails scope s f link.line

structure OnlyReports (m n : Machine) (line : Nat) (message : String) : Prop where
  effects : n.activeJournal.effects =
    m.activeJournal.effects ++ [⟨["diagnostic"], "line " ++ toString line ++ ": " ++ message⟩]
  history : n.history = m.history ++ [.said (.report (some line) message)]
  frames : SameFrames m.frames n.frames
  outside : m.onMain = false → n.journal = m.journal
  globals : n.globals = m.globals
  main : n.main = m.main
  contexts : n.contexts = m.contexts
  symbols : n.symbols = m.symbols
  records : n.records = m.records

theorem Machine.sayAtLine (m : Machine) (line : Nat) (lines : List String) (notice : Notice) :
    ∃ written, ((m.setLine line).traced lines).say notice =
      { m.setActiveJournal ⟨m.activeJournal.effects ++ [notice.effect], some line⟩ with
        trace := written, history := m.history ++ [.said notice] } := by
  obtain ⟨written, same⟩ := (m.setLine line).tracedKeeps lines
  refine ⟨written, ?_⟩
  have active : ((m.setLine line).traced lines).activeJournal = ⟨m.activeJournal.effects, some line⟩ := by
    rw [tracedActive, setLineActive]
  rw [say, append, active, same, setActiveTrace, setLine, setActiveTwice, log]
  simp only [setActiveHistory]

namespace Engine
variable {around : Surroundings} {ref : ContextRef}

theorem afterEvaluate (e : Expr) (m : Machine) : after (evaluate ref e) m = (e.eval (m.scope ref), m) := by
  simp only [evaluate, afterBind, afterGet, afterLift]

theorem afterEvaluateAll (arguments : List Expr) (m : Machine) :
    after (evaluateAll ref arguments) m = (arguments.mapM (Expr.eval (m.scope ref)), m) := by
  induction arguments with
  | nil => rfl
  | cons e rest ih =>
    simp only [evaluateAll, afterBind, afterEvaluate, List.mapM_cons]
    cases e.eval (m.scope ref) with
    | error f => rfl
    | ok v =>
      simp only [ih]
      cases rest.mapM (Expr.eval (m.scope ref)) <;> rfl

theorem failsInside {s : Stmt} {f : Failure} {line : Nat} {m : Machine} (fails : s.Fails (m.scope ref) f line) :
    ∃ lines, after (runStmt around ref s) (m.setLine s.line) = (.error f, (m.setLine line).traced lines) := by
  cases fails with
  | @assign line name value f raises =>
    refine ⟨[], ?_⟩
    simp only [Stmt.line, runStmt, afterBind, afterEvaluate, Machine.setLineScope, raises, Machine.tracedNil]
  | @print line value f raises =>
    refine ⟨[], ?_⟩
    simp only [Stmt.line, runStmt, afterBind, afterEvaluate, Machine.setLineScope, Machine.tracedNil]
    cases evaluated : value.eval (m.scope ref) with
    | error g =>
      rw [evaluated] at raises
      cases raises
      rfl
    | ok v =>
      rw [evaluated] at raises
      have refused : v.render = .error f := raises
      simp only [afterLift, refused]
  | @call line path arguments f raises =>
    refine ⟨[], ?_⟩
    simp only [Stmt.line, runStmt, runCall, afterBind, afterEvaluateAll, Machine.setLineScope, raises, Machine.tracedNil]
  | @chain s links final front link f chain decides =>
    rw [← m.setLineScope s.line ref] at decides
    refine ⟨(front ++ [link]).flatMap (Link.lines ((m.setLine s.line).scope ref)), ?_⟩
    rw [chainRuns chain decides, carriedOut, Machine.testedConcat, Machine.setLineTwice]

theorem reportsOnly {f : Failure} {line : Nat} {lines : List String} {m : Machine} (own : Nat) (reliable : m.Reliable) :
    ∃ n, after (rescue own f) ((m.setLine line).traced lines) = (.ok .nil, n) ∧ OnlyReports m n line (failureText f) := by
  let notice : Notice := .report (some line) (failureText f)
  let journal : Journal := ⟨m.activeJournal.effects ++ [notice.effect], some line⟩
  have still := Machine.tracedReliable lines (Machine.setLineReliable line reliable)
  obtain ⟨stream, -, announced⟩ := announceReliable still notice
  have told : after (report (failureText f) (some line)) ((m.setLine line).traced lines) = (.ok (), _) := announced
  obtain ⟨written, said⟩ := m.sayAtLine line lines notice
  obtain ⟨main, frames, same⟩ := m.setActiveKeeps journal
  refine ⟨{ ((m.setLine line).traced lines).say notice with stream := stream }, ?_, ?_⟩
  · simp only [rescue, afterBind, afterGet, Machine.tracedActive, Machine.setLineActive, Option.getD_some, told]
    rfl
  · rw [said]
    exact {
      effects := congrArg Journal.effects (m.setActiveActive journal)
      history := rfl
      frames := m.setActiveFrames journal
      outside := m.setActiveJournalOwn journal
      globals := (congrArg Machine.globals same :)
      main := (congrArg Machine.main same :)
      contexts := (congrArg Machine.contexts same :)
      symbols := (congrArg Machine.symbols same :)
      records := (congrArg Machine.records same :) }

theorem failsOutside {s : Stmt} {f : Failure} {line : Nat} {m : Machine} (fails : s.Fails (m.scope ref) f line)
    (reliable : m.Reliable) :
    ∃ n, after (guarded s.line (runStmt around ref s)) m = (.ok .nil, n) ∧ OnlyReports m n line (failureText f) := by
  obtain ⟨lines, failed⟩ := @failsInside around ref s f line m fails
  rw [afterGuarded, afterTryCatch, failed]
  exact reportsOnly s.line reliable

theorem failsClosed (nested : around.Reliable) {s : Stmt} {f : Failure} {line : Nat} {m : Machine}
    (fails : s.Fails (m.scope ref) f line) (reliable : m.Reliable) (inner : List Stmt) (k : Machine) :
    ¬Enters ref s (m.setLine s.line) inner k := by
  intro enters
  obtain ⟨lines, failed⟩ := @failsInside around ref s f line m fails
  obtain ⟨value, ended⟩ := runListReliable (reliableSteps ref nested) inner .nil
    (entersReliable enters (Machine.setLineReliable s.line reliable))
  rw [← entersRuns enters, failed] at ended
  cases ended

end Engine

open Engine

/- Every run goes from point to point to its end. Where it meets a statement that fails, that statement
sets no variable, calls nothing and enters no block; it reports at its line, and the run goes on from
there with what is left of the blocks around it. -/
theorem failureContained {around : Surroundings} (nested : around.Reliable) (place : Place) (source : List Char)
    {start : Machine} (reliable : start.Reliable) :
    let ref := (opened start place).2
    let first := Point.start place (parse source) start
    (∃ last n, Reaches around ref first ⟨last, n, []⟩ ∧ ranIn around place (parse source) start = (.ok last, n)) ∧
      ∀ value m s rest outer f line, Reaches around ref first ⟨value, m, (s :: rest) :: outer⟩ →
        s.Fails (m.scope ref) f line → ∃ n,
          after (guarded s.line (runStmt around ref s)) m = (.ok .nil, n) ∧ OnlyReports m n line (failureText f) ∧
          (∀ inner k, ¬Enters ref s (m.setLine s.line) inner k) ∧
          Reaches around ref first ⟨.nil, n, rest :: outer⟩ ∧
          ranIn around place (parse source) start = Point.finish around ref ⟨.nil, n, rest :: outer⟩ := by
  intro ref first
  have ran : ranIn around place (parse source) start = first.finish around ref := ranFrom around place _ reliable
  have ready : first.machine.Reliable := startReliable place _ reliable
  constructor
  · obtain ⟨last, n, reaches⟩ := (runFinishes nested).2 (parse source).statements .nil first.machine [] ready
    exact ⟨last, n, reaches, ran.trans (reachesFinish nested reaches ready).2⟩
  · intro value m s rest outer f line reaches fails
    have still := (reachesFinish nested reaches ready).1
    have closed := failsClosed nested fails still
    obtain ⟨n, ended, reports⟩ := @failsOutside around ref s f line m fails still
    have onwards : Reaches around ref first ⟨.nil, n, rest :: outer⟩ := reaches.tail (.whole closed ended)
    exact ⟨n, ended, reports, closed, onwards, ran.trans (reachesFinish nested onwards ready).2⟩

theorem unboundInBlock :
    let host : Host := .behaving fun _ _ _ => .pure .nil
    let around : Surroundings := ⟨host, fun _ _ => throw (.raised host.overflow)⟩
    let source := "\x7blet a = b\nprint(a)\x7d".toList
    let start := { Machine.idle SymbolTable.empty with strict := true }
    ∃ m n printing, OnlyReports m n 1 "unresolved name: b" ∧
      ranIn around .session (parse source) start =
        Point.finish around .main ⟨.nil, n, [.print 2 printing] :: [] :: []⟩ := by
  intro host around source start
  let word (text : String) (offset line column : Nat) : Token := ⟨.word text, ⟨offset, line, column⟩⟩
  let op (operator : Operator) (offset line column : Nat) : Token := ⟨.op operator, ⟨offset, line, column⟩⟩
  let named : Expr := ⟨[word "b" 9 1 10], "b", 1⟩
  let printing : Expr := ⟨[word "a" 17 2 7], "a", 2⟩
  let behind : List Token := [op .openParen 16 2 6, word "a" 17 2 7, op .closeParen 18 2 8, op .closeBrace 19 2 9]
  let middle : List Token := [word "a" 5 1 6, op .assign 7 1 8, word "b" 9 1 10, ⟨.newline, ⟨10, 1, 11⟩⟩,
    word "print" 11 2 1] ++ behind
  have found : tokens source = op .openBrace 0 1 1 :: word "let" 1 1 2 :: middle := by decide +kernel
  have parsed : parse source = ⟨[.block ⟨1, [.assign 1 "a" named, .print 2 printing]⟩], []⟩ := by
    apply Parser.parseOfReading
    rw [found]
    have second : Parser.Reading source 99 (.statements (.braced 1)) (word "print" 11 2 1 :: behind)
        ⟨.statements [.print 2 printing], [], []⟩ := .step rfl rfl (.line _ rfl rfl) (.close rfl rfl)
    have first : Parser.Reading source 99 (.statements (.braced 1)) (word "let" 1 1 2 :: middle)
        ⟨.statements [.assign 1 "a" named, .print 2 printing], [], []⟩ :=
      .step rfl rfl (.line _ rfl rfl) (.newline rfl second)
    exact .step rfl rfl (.block (t := op .openBrace 0 1 1) rfl (.enterBraced first)) (.finish _ _)
  have nested : around.Reliable := fun m _ _ reliable => reliable
  have reliable : start.Reliable := Machine.idleReliable SymbolTable.empty
  have contained := (failureContained nested .session source reliable).2
  have begins : Point.start .session (parse source) start =
      ⟨.nil, (opened start .session).1, [[.block ⟨1, [.assign 1 "a" named, .print 2 printing]⟩]]⟩ := by
    rw [parsed]
    rfl
  have entered : Reaches around .main (Point.start .session (parse source) start)
      ⟨.nil, (opened start .session).1.setLine 1, [[.assign 1 "a" named, .print 2 printing], []]⟩ := by
    rw [begins]
    exact .single (.enter (.block _ _))
  have noNumber : Number.ofText? "b" = none := by decide +kernel
  have refused : named.eval (((opened start .session).1.setLine 1).scope .main) = .error (.unresolvedName "b") := by
    have unbound : (((opened start .session).1.setLine 1).scope .main).lookup "b" = none := rfl
    have strict : (((opened start .session).1.setLine 1).scope .main).strict = true := rfl
    have notSum : named.isSum = false := rfl
    simp [Expr.eval, notSum, Expr.evalOperand, Expr.literal?, unbound, noNumber, strict, named, word]
  obtain ⟨n, -, reports, -, -, ran⟩ := contained _ _ _ _ _ (.unresolvedName "b") 1 entered (.assign refused)
  exact ⟨_, n, printing, reports, ran⟩

end LineScript
