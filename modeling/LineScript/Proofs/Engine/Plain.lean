import LineScript.Proofs.Engine.Chain
import LineScript.Proofs.Engine.Lockstep

/-! Conditionals without a special case for chains: a condition that does not hold runs the `else` as
the block that it is, and a branch in it is guarded as any other statement. While the stream takes
everything, that does the same to a machine as going along the links of the chain. -/
namespace LineScript
namespace Engine

section Plain
variable (around : Surroundings) (ref : ContextRef)

mutual

def plainStmt : Stmt → EngineM Value
  | .block body => plainBlock body
  | .branch line condition thenBody otherwise => do
    modify (·.setLine line)
    let holds ← evaluateCondition ref condition
    trace ("if " ++ condition.text ++ " -> " ++ Value.truthText holds)
    if holds then plainBlock thenBody else plainOtherwise otherwise
  | s => runStmt around ref s

def plainBlock : Block Stmt → EngineM Value
  | ⟨_, statements⟩ => plainList .nil statements

def plainOtherwise : Option (Block Stmt) → EngineM Value
  | none => return .nil
  | some body => plainBlock body

def plainList (value : Value) : List Stmt → EngineM Value
  | [] => return value
  | s :: rest => do
    let value ← guarded s.line (plainStmt s)
    plainList value rest

end

def plainProgram (p : Program) : EngineM Value := do
  announceAll (p.diagnostics.map syntaxNotice)
  plainList around ref .nil p.statements

end Plain

def plainExecute (around : Surroundings) (place : Place) (p : Program) (m : Machine) : RunResult × Machine :=
  let (outcome, n) := after (plainProgram around (opened m place).2 p) (opened m place).1
  let (result, n) := resultOf outcome n
  (result, { n with frames := n.frames.drop 1 }.log (.ended result))

def plainNested (host : Host) : Nat → Place → Program → Machine → RunResult × Machine
  | 0 => plainExecute ⟨host, fun _ _ => throw (.raised host.overflow)⟩
  | depth + 1 =>
    plainExecute ⟨host, fun place source => fun m =>
      let (result, m) := plainNested host depth place (parse source.toList) m
      (.ok result, m)⟩

def Twin (a b : Machine) : Prop := a = b ∧ a.Reliable

structure Matches (left right : Surroundings) : Prop where
  host : left.host = right.host
  reenter : ∀ place source, Together Twin Eq (left.reenter place source) (right.reenter place source)

section Twins
variable {α β : Type}

theorem alikeSame (e : Except Failure α) : Alike Eq e e := by
  cases e with
  | ok value => exact .ok rfl
  | error f => exact .failed f

theorem twinSame {act act' : EngineM α} (same : act = act')
    (moves : Moves (fun m n => m.Reliable → n.Reliable) act') : Together Twin Eq act act' := by
  rintro m _ ⟨rfl, reliable⟩
  subst same
  exact ⟨alikeSame _, rfl, moves m reliable⟩

theorem Together.sameAfter {x y : EngineM α} (together : Together Twin Eq x y) {m : Machine} (reliable : m.Reliable) :
    after x m = after y m := by
  obtain ⟨alike, same, -⟩ := together m m ⟨rfl, reliable⟩
  refine Prod.ext ?_ same
  generalize (after x m).1 = outcome at alike ⊢
  generalize (after y m).1 = outcome' at alike ⊢
  cases alike with
  | ok same => rw [same]
  | failed f => rfl

end Twins

section Calls
variable {left right : Surroundings} (same : Matches left right)
include same

theorem Matches.reliable : right.Reliable := by
  intro m place source reliable
  obtain ⟨-, equal, still⟩ := same.reenter place source m m ⟨rfl, reliable⟩
  rwa [equal] at still

theorem performTwin (program : HostProgram) : Together Twin Eq (perform left program) (perform right program) := by
  have steps := reliableSteps .main same.reliable
  induction program with
  | finish outcome => exact togetherPure rfl
  | emit effect next ih =>
    have told := attemptMoves steps.toQuiets (announceMoves steps.toQuiets (.plain effect))
    refine (twinSame rfl told).bind fun failure _ equal => ?_
    subst equal
    exact ih failure
  | setVariable name value next ih =>
    exact (twinSame rfl (movesModify fun m => steps.seeded m name value)).bind fun _ _ _ => ih
  | register name target next ih =>
    refine (twinSame rfl (attemptMoves steps.toQuiets (registerMoves steps.toQuiets name target))).bind fun failure _ equal => ?_
    subst equal
    exact ih failure
  | run source place next ih =>
    refine (same.reenter place source).bind fun result _ equal => ?_
    subst equal
    exact (twinSame rfl (movesModify fun m => steps.recorded m _)).bind fun _ _ _ => ih result

theorem invokeTwin (routine : Routine Value) (arguments : List Value) :
    Together Twin Eq (invoke left routine arguments) (invoke right routine arguments) := by
  have steps := reliableSteps .main same.reliable
  unfold invoke
  split
  · exact togetherThrow _
  · split
    · refine twinSame ?_ (steps.bind (callStandardMoves steps.toQuiets _ _) fun _ => steps.pure _)
      simp only [callStandard, same.host]
    · refine (twinSame rfl (movesModify fun m => steps.recorded m _)).bind fun _ _ _ => ?_
      refine togetherGet.bind fun m _ twin => ?_
      obtain ⟨rfl, -⟩ := twin
      rw [same.host]
      exact performTwin same _

theorem dispatchToTwin (b : Builtin Value) (values : List Value) :
    Together Twin Eq (dispatchTo left b values) (dispatchTo right b values) := by
  have steps := reliableSteps .main same.reliable
  unfold dispatchTo
  split
  · split
    · exact togetherPure rfl
    · exact togetherThrow _
  · refine (twinSame rfl (traceMoves steps.toQuiets _)).bind fun _ _ _ => ?_
    refine (twinSame rfl (movesModify fun m => steps.called m _ _)).bind fun _ _ _ => ?_
    refine ((invokeTwin same _ _).tryCatch fun f => togetherPure rfl).bind fun ended _ equal => ?_
    subst equal
    exact togetherLift _

theorem runCallTwin (ref : ContextRef) (line : Nat) (path : String) (arguments : List Expr) :
    Together Twin Eq (runCall left ref line path arguments) (runCall right ref line path arguments) := by
  have steps := reliableSteps ref same.reliable
  refine (twinSame rfl (evaluateAllMoves steps.toQuiets arguments)).bind fun values _ equal => ?_
  subst equal
  refine togetherGet.bind fun m _ twin => ?_
  obtain ⟨rfl, -⟩ := twin
  have dispatched : Together Twin Eq (dispatch left path values (m.lookup ref)) (dispatch right path values (m.lookup ref)) := by
    refine togetherGet.bind fun n _ twin => ?_
    obtain ⟨rfl, -⟩ := twin
    split
    · exact dispatchToTwin same _ _
    · split
      · exact togetherPure rfl
      · exact togetherThrow _
  refine dispatched.bind fun outcome _ equal => ?_
  subst equal
  exact (twinSame rfl (announceAllMoves steps.toQuiets _)).bind fun _ _ _ => togetherPure rfl

end Calls

theorem afterTryBind {α : Type} (act : EngineM α) (next : α → EngineM Value) (line : Nat) (m : Machine) :
    after (tryCatch (act >>= next) (rescue line)) m = match after act m with
      | (.ok value, n) => after (tryCatch (next value) (rescue line)) n
      | (.error f, n) => after (rescue line f) n := by
  rw [afterTryCatch, afterBind]
  rcases after act m with ⟨outcome, n⟩
  cases outcome with
  | ok value => simp only [afterTryCatch]
  | error f => rfl

theorem runChosenEnds {around : Surroundings} {ref : ContextRef}
    (steps : Steps around ref (fun m n => m.Reliable → n.Reliable)) (chosen : Option (Block Stmt)) {m : Machine}
    (reliable : m.Reliable) :
    ∃ value, after (runChosen around ref chosen) m = (.ok value, (after (runChosen around ref chosen) m).2) := by
  cases chosen with
  | none => exact ⟨.nil, rfl⟩
  | some body =>
    obtain ⟨value, ended⟩ := runListReliable steps body.statements .nil reliable
    exact ⟨value, Prod.ext ended rfl⟩

section Statements
variable {left right : Surroundings} (same : Matches left right)
include same

theorem rescueTwin (line : Nat) (f : Failure) : Together Twin Eq (rescue line f) (rescue line f) := by
  have steps := reliableSteps .main same.reliable
  exact twinSame rfl (steps.bind steps.get fun m => steps.bind (announceMoves steps.toQuiets _) fun _ => steps.pure _)

theorem tryBindTwin {α : Type} {act act' : EngineM α} {next next' : α → EngineM Value} {line : Nat}
    (first : Together Twin Eq act act')
    (rest : ∀ value, Together Twin Eq (tryCatch (next value) (rescue line)) (tryCatch (next' value) (rescue line))) :
    Together Twin Eq (tryCatch (act >>= next) (rescue line)) (tryCatch (act' >>= next') (rescue line)) := by
  intro a b twin
  obtain ⟨alike, still⟩ := first a b twin
  rw [afterTryBind, afterTryBind]
  generalize after act a = ran at alike still ⊢
  generalize after act' b = ran' at alike still ⊢
  obtain ⟨outcome, a'⟩ := ran
  obtain ⟨outcome', b'⟩ := ran'
  cases alike with
  | ok equal =>
    subst equal
    exact rest _ a' b' still
  | failed f => exact rescueTwin same line f a' b' still

theorem guardedTwin {act act' : EngineM Value} (line : Nat)
    (inner : Together Twin Eq (tryCatch act (rescue line)) (tryCatch act' (rescue line))) :
    Together Twin Eq (guarded line act) (guarded line act') := by
  have steps := reliableSteps .main same.reliable
  exact (twinSame rfl (movesModify fun m => steps.atLine m line)).bind fun _ _ _ => inner

variable (ref : ContextRef)

/- A branch that fails is at a line, so a guard around it reports what its own guard would. -/
theorem branchAbsorbed {s : Stmt} (branch : isBranch s = true) (line : Nat) {m : Machine} (reliable : m.Reliable) :
    after (tryCatch (runStmt right ref s) (rescue line)) m = after (guarded s.line (runStmt right ref s)) m := by
  have atLine : after (runStmt right ref s) (m.setLine s.line) = after (runStmt right ref s) m := by
    cases s with
    | branch line condition thenBody otherwise =>
      simp only [runStmt, afterBind, afterModify, Stmt.line, Machine.setLineTwice]
    | _ => contradiction
  rw [afterGuarded, afterTryCatch, afterTryCatch, atLine]
  obtain ⟨links, final, chain⟩ := chainOfBranch s branch
  obtain ⟨tested, outcome, decides⟩ := decidesSome (m.scope ref) final links
  rw [chainRuns chain decides]
  unfold carriedOut
  cases outcome with
  | ok chosen =>
    obtain ⟨value, ended⟩ := runChosenEnds (reliableSteps ref same.reliable) chosen
      (Machine.testedReliable (m.scope ref) tested reliable)
    dsimp only
    rw [ended]
  | error f =>
    obtain ⟨reached, stands⟩ := testedLine (m := m) (m.scope ref) (decidesTested decides chain.nonempty)
    simp only [rescue, afterBind, afterGet, stands]
    rfl

theorem guardedTwice (line inner : Nat) (s : Stmt) {m : Machine} (reliable : m.Reliable) :
    after (tryCatch (guarded inner (runStmt right ref s)) (rescue line)) m =
      after (guarded inner (runStmt right ref s)) m := by
  have steps := reliableSteps ref same.reliable
  obtain ⟨⟨value, ended⟩, -⟩ := guardedReliable steps ((runMoves steps).1 s) reliable inner
  rw [afterTryCatch]
  rcases ran : after (guarded inner (runStmt right ref s)) m with ⟨outcome, n⟩
  rw [ran] at ended
  dsimp only at ended
  subst ended
  rfl

theorem linkTwin {s : Stmt} (branch : isBranch s = true) (line : Nat)
    (inner : Together Twin Eq (guarded s.line (plainStmt left ref s)) (guarded s.line (runStmt right ref s))) :
    Together Twin Eq (tryCatch (guarded s.line (plainStmt left ref s)) (rescue line))
      (tryCatch (runStmt right ref s) (rescue line)) := by
  have guards := inner.tryCatch fun f => rescueTwin same line f
  rintro m _ ⟨rfl, reliable⟩
  obtain ⟨alike, equal, still⟩ := guards m m ⟨rfl, reliable⟩
  rw [guardedTwice same ref line s.line s reliable, ← branchAbsorbed same ref branch line reliable] at alike equal
  exact ⟨alike, equal, still⟩

theorem plainTwin :
    (∀ s, Together Twin Eq (guarded s.line (plainStmt left ref s)) (guarded s.line (runStmt right ref s))) ∧
      ∀ statements value, Together Twin Eq (plainList left ref value statements) (runList right ref value statements) := by
  have steps := reliableSteps ref same.reliable
  have rescued {act act' : EngineM Value} (line : Nat) (inner : Together Twin Eq act act') :
      Together Twin Eq (tryCatch act (rescue line)) (tryCatch act' (rescue line)) :=
    inner.tryCatch fun f => rescueTwin same line f
  have plain (s : Stmt) (equal : plainStmt left ref s = runStmt right ref s) :
      Together Twin Eq (guarded s.line (plainStmt left ref s)) (guarded s.line (runStmt right ref s)) :=
    guardedTwin same _ (rescued _ (twinSame equal ((runMoves steps).1 s)))
  apply Stmt.induction
  case block =>
    intro line statements inner
    refine guardedTwin same _ (rescued _ ?_)
    simpa only [plainStmt, plainBlock, runStmt, runBlock] using inner .nil
  case assign =>
    intro line name value
    exact plain _ (by simp only [plainStmt, runStmt])
  case print =>
    intro line value
    exact plain _ (by simp only [plainStmt, runStmt])
  case branch =>
    intro line condition thenBody otherwise thenTwin otherwiseTwin
    refine guardedTwin same _ ?_
    rw [plainStmt, runStmt]
    refine tryBindTwin same (twinSame rfl (movesModify fun m => steps.atLine m line)) fun _ => ?_
    refine tryBindTwin same (twinSame rfl (evaluateConditionMoves steps.toQuiets condition)) fun holds => ?_
    refine tryBindTwin same (twinSame rfl (traceMoves steps.toQuiets _)) fun _ => ?_
    split
    · obtain ⟨opened, statements⟩ := thenBody
      rw [plainBlock, runBlock]
      exact rescued _ (thenTwin .nil)
    · cases otherwise with
      | none =>
        rw [plainOtherwise, runOtherwise]
        exact rescued _ (togetherPure rfl)
      | some body =>
        obtain ⟨list, each⟩ := otherwiseTwin body rfl
        rw [plainOtherwise, runOtherwise]
        by_cases links : body.Links
        · obtain ⟨opened, statements⟩ := body
          obtain ⟨line', condition', thenBody', otherwise', rfl⟩ := links
          have inner := each _ List.mem_cons_self
          rw [runElseLink rfl, plainBlock]
          simp only [plainList, bind_pure]
          exact linkTwin same ref rfl _ inner
        · rw [runElseOwn links]
          obtain ⟨opened, statements⟩ := body
          rw [plainBlock]
          exact rescued _ (list .nil)
  case call =>
    intro line path arguments
    refine guardedTwin same _ (rescued _ ?_)
    simpa only [plainStmt, runStmt] using runCallTwin same ref line path arguments
  case unknown =>
    intro line text why
    exact plain _ (by simp only [plainStmt, runStmt])
  case nil =>
    intro value
    rw [plainList, runList]
    exact togetherPure rfl
  case cons =>
    intro s rest first others value
    rw [plainList, runList]
    refine first.bind fun value _ equal => ?_
    subst equal
    exact others value

end Statements

section Runs
variable {left right : Surroundings}

theorem plainExecuteSame (same : Matches left right) (place : Place) (p : Program) {m : Machine}
    (reliable : m.Reliable) : plainExecute left place p m = execute right place p m := by
  have entry := openedReliable place reliable
  have steps := reliableSteps (opened m place).2 same.reliable
  have program : Together Twin Eq (plainProgram left (opened m place).2 p) (runProgram right (opened m place).2 p) :=
    (twinSame rfl (announceAllMoves steps.toQuiets _)).bind fun _ _ _ => (plainTwin same _).2 p.statements .nil
  rw [executeOpened, ranIn, ← program.sameAfter entry]
  rfl

theorem plainNestedSame (host : Host) (depth : Nat) (place : Place) (p : Program) {m : Machine}
    (reliable : m.Reliable) : plainNested host depth place p m = executeNested host depth place p m := by
  induction depth generalizing place p m with
  | zero =>
    exact plainExecuteSame ⟨rfl, fun _ _ => togetherThrow _⟩ place p reliable
  | succ depth ih =>
    rw [plainNested, executeNested]
    refine plainExecuteSame ?_ place p reliable
    refine ⟨rfl, fun place source => ?_⟩
    rintro m _ ⟨rfl, reliable⟩
    have equal := ih place (parse source.toList) reliable
    have still := (nestedReliable host depth place (parse source.toList) reliable).2
    simp only [after, equal]
    exact ⟨.ok rfl, rfl, still⟩

theorem matchesItself {around : Surroundings} (reliable : around.Reliable) : Matches around around :=
  ⟨rfl, fun place source => twinSame rfl fun m => reliable m place source⟩

end Runs
end Engine

open Engine

/- Going along the links of a chain does what nested conditionals do, each with a guard of its own: in
whole runs, with those inside them, and in every statement. And a chain comes to what the first of
its conditions that does not give false decides. -/
theorem elseIfPlain (host : Host) (depth : Nat) {m : Machine} (reliable : m.Reliable) :
    (∀ place p, executeNested host depth place p m = plainNested host depth place p m) ∧
      ∀ (around : Surroundings), around.Reliable → ∀ ref,
        (∀ s, after (guarded s.line (runStmt around ref s)) m = after (guarded s.line (plainStmt around ref s)) m) ∧
        (∀ statements value, after (runList around ref value statements) m = after (plainList around ref value statements) m) ∧
        ∀ s, isBranch s = true → ∃ links final tested outcome, Chain s links final ∧
          Decides (m.scope ref) final links tested outcome ∧
          after (runStmt around ref s) m = carriedOut around ref tested outcome m := by
  refine ⟨fun place p => (plainNestedSame host depth place p reliable).symm, fun around nested ref => ?_⟩
  obtain ⟨statements, lists⟩ := plainTwin (matchesItself nested) ref
  refine ⟨fun s => ((statements s).sameAfter reliable).symm, fun xs value => ((lists xs value).sameAfter reliable).symm, ?_⟩
  intro s branch
  obtain ⟨links, final, chain⟩ := chainOfBranch s branch
  obtain ⟨tested, outcome, decides⟩ := decidesSome (m.scope ref) final links
  exact ⟨links, final, tested, outcome, chain, decides, chainRuns chain decides⟩

theorem secondLinkFails :
    let host : Host := .behaving fun _ _ _ => .pure .nil
    let m := { Machine.idle SymbolTable.empty with strict := true }
    let ghost : Expr := ⟨[⟨.word "ghost", ⟨16, 2, 9⟩⟩], "ghost", 2⟩
    let chain : Stmt := .branch 1 ⟨[], "", 1⟩ ⟨1, []⟩ (some ⟨1, [.branch 2 ghost ⟨2, []⟩ none]⟩)
    (plainNested host 0 .session ⟨[chain], []⟩ m).1.diagnostics = ["line 2: unresolved name: ghost"] := by
  intro host m ghost chain
  have reliable : m.Reliable := Machine.idleReliable SymbolTable.empty
  have same := (elseIfPlain host 0 reliable).1 .session ⟨[chain], []⟩
  rw [← same]
  decide +kernel

end LineScript
