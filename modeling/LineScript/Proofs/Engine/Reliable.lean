import LineScript.Proofs.Engine.Moves

/-! Streams that take everything. While nothing is refused, a failure gets no further than the
statement it happens in, so every run ends with success, whatever the program and the host do. -/
namespace LineScript

def Stream.Unlimited (stream : Option Stream) : Prop := ∀ s, stream = some s → s.limit = none

/- Nothing is copied, or to a stream that never fills up. -/
def Machine.Reliable (m : Machine) : Prop := Stream.Unlimited m.stream

def Machine.idle (symbols : SymbolTable) : Machine where
  symbols := symbols
  globals := []
  main := .empty
  contexts := []
  journal := .empty
  frames := []
  stream := none
  strict := false
  tracing := false
  trace := []
  records := []
  history := []

def Host.behaving (behaviour : List HostRecord → Nat → List Value → HostProgram) : Host where
  clock _ := .ofNat 0
  behaviour := behaviour
  room := 8
  overflow := ⟨"RecursionError", "maximum recursion depth exceeded", false⟩

theorem Machine.idleReliable (symbols : SymbolTable) : (Machine.idle symbols).Reliable := by
  simp [Reliable, Stream.Unlimited, idle]

theorem Machine.setLineReliable {m : Machine} (line : Nat) (reliable : m.Reliable) : (m.setLine line).Reliable := by
  obtain ⟨_, _, same⟩ := m.setActiveKeeps { m.activeJournal with line := some line }
  rw [setLine, same]
  exact reliable

theorem Stream.writeUnlimited {s : Stream} (unlimited : s.limit = none) (line : String) :
    ∃ next, s.writeLine? line = some next ∧ next.limit = none := by
  refine ⟨{ s with written := s.written ++ (line ++ "\n") }.flush, ?_, unlimited⟩
  simp [writeLine?, write?, isFull, unlimited]

def Surroundings.Reliable (around : Surroundings) : Prop :=
  ∀ m place source, m.Reliable → (Engine.after (around.reenter place source) m).2.Reliable

namespace Engine

theorem announceReliable {m : Machine} (reliable : m.Reliable) (notice : Notice) :
    ∃ stream, Stream.Unlimited stream ∧
      after (announce notice) m = (.ok (), { m.say notice with stream := stream }) := by
  rw [afterAnnounce]
  cases copied : m.stream with
  | none =>
    refine ⟨none, by simp [Stream.Unlimited], ?_⟩
    have same := (m.sayStream notice).trans copied
    simp only [← same]
  | some stream =>
    obtain ⟨next, wrote, unlimited⟩ := Stream.writeUnlimited (reliable stream copied) notice.effect.message
    refine ⟨some next, ?_, by simp only [wrote]⟩
    intro s same
    cases Option.some.inj same
    exact unlimited

theorem announceAllReliable {m : Machine} (reliable : m.Reliable) (notices : List Notice) :
    (after (announceAll notices) m).1 = .ok () ∧ (after (announceAll notices) m).2.Reliable := by
  induction notices generalizing m with
  | nil => exact ⟨rfl, reliable⟩
  | cons notice rest ih =>
    obtain ⟨stream, unlimited, announced⟩ := announceReliable reliable notice
    simp only [announceAll, afterBind, announced]
    exact ih (m := { m.say notice with stream := stream }) unlimited

theorem reliableSteps {around : Surroundings} (ref : ContextRef) (nested : around.Reliable) :
    Steps around ref (fun m n => m.Reliable → n.Reliable) where
  stay m reliable := reliable
  join left right reliable := right (left reliable)
  atLine m line reliable := Machine.setLineReliable line reliable
  said m notice reliable := by
    simpa only [Machine.Reliable, Machine.sayStream] using reliable
  streamed m stream text next copied wrote reliable := by
    obtain ⟨other, wrote', unlimited⟩ := Stream.writeUnlimited (reliable stream copied) text
    intro s same
    cases Option.some.inj (wrote.symm.trans wrote')
    cases Option.some.inj same
    exact unlimited
  assigned m name value reliable := by
    unfold Machine.assign Machine.setContext
    split
    · split <;> exact reliable
    · exact reliable
  traced m lines reliable := reliable
  called m name arguments reliable := reliable
  recorded m r reliable := reliable
  seeded m name value reliable := reliable
  registered m name target symbols _ reliable := reliable
  reentered := nested

section Runs
variable {around : Surroundings} {ref : ContextRef}

theorem guardedReliable {m : Machine} {act : EngineM Value}
    (steps : Steps around ref (fun m n => m.Reliable → n.Reliable))
    (moves : Moves (fun m n => m.Reliable → n.Reliable) act) (reliable : m.Reliable) (line : Nat) :
    (∃ value, (after (guarded line act) m).1 = .ok value) ∧ (after (guarded line act) m).2.Reliable := by
  refine ⟨?_, guardedMoves steps line moves m reliable⟩
  have inside := moves (m.setLine line) (steps.atLine m line reliable)
  simp only [guarded, afterBind, afterModify, afterTryCatch]
  rcases ran : after act (m.setLine line) with ⟨outcome, n⟩
  rw [ran] at inside
  cases outcome with
  | ok value => exact ⟨value, rfl⟩
  | error f =>
    obtain ⟨stream, _, announced⟩ :=
      announceReliable inside (.report (some (n.activeJournal.line.getD line)) (failureText f))
    simp only [afterGet, report, announced]
    exact ⟨.nil, rfl⟩

theorem runListReliable (steps : Steps around ref (fun m n => m.Reliable → n.Reliable))
    (statements : List Stmt) {m : Machine} (value : Value) (reliable : m.Reliable) :
    ∃ last, (after (runList around ref value statements) m).1 = .ok last := by
  induction statements generalizing m value with
  | nil => exact ⟨value, by simp only [runList]; rfl⟩
  | cons s rest ih =>
    obtain ⟨⟨next, ended⟩, still⟩ := guardedReliable steps ((runMoves steps).1 s) reliable s.line
    simp only [runList, afterBind]
    rcases ran : after (guarded s.line (runStmt around ref s)) m with ⟨outcome, n⟩
    rw [ran] at ended still
    simp only at ended
    subst ended
    exact ih next still

theorem runProgramReliable (steps : Steps around ref (fun m n => m.Reliable → n.Reliable))
    (p : Program) {m : Machine} (reliable : m.Reliable) :
    ∃ value, (after (runProgram around ref p) m).1 = .ok value := by
  obtain ⟨ended, still⟩ := announceAllReliable reliable (p.diagnostics.map syntaxNotice)
  simp only [runProgram, afterBind]
  rcases ran : after (announceAll (p.diagnostics.map syntaxNotice)) m with ⟨outcome, n⟩
  rw [ran] at ended still
  simp only at ended
  subst ended
  exact runListReliable steps p.statements .nil still

end Runs

theorem openedStream (m : Machine) (place : Place) : (opened m place).1.stream = m.stream := by
  cases place <;> rfl

theorem openedReliable {m : Machine} (place : Place) (reliable : m.Reliable) : (opened m place).1.Reliable := by
  simpa only [Machine.Reliable, openedStream] using reliable

theorem executeReliable {around : Surroundings} (place : Place) (p : Program) {m : Machine}
    (nested : around.Reliable) (reliable : m.Reliable) :
    (execute around place p m).1.status = .success ∧ (execute around place p m).2.Reliable := by
  have entry := openedReliable place reliable
  have steps := reliableSteps (opened m place).2 nested
  have still : (ranIn around place p m).2.Reliable := runProgramMoves steps p (opened m place).1 entry
  obtain ⟨value, ended⟩ : ∃ value, (ranIn around place p m).1 = .ok value :=
    runProgramReliable steps p entry
  rw [executeOpened, ended]
  exact ⟨rfl, still⟩

theorem nestedReliable (host : Host) (depth : Nat) (place : Place) (p : Program) {m : Machine}
    (reliable : m.Reliable) :
    (executeNested host depth place p m).1.status = .success ∧
      (executeNested host depth place p m).2.Reliable := by
  induction depth generalizing place p m with
  | zero => exact executeReliable place p (fun m _ _ reliable => reliable) reliable
  | succ depth ih =>
    refine executeReliable place p (fun m place source reliable => ?_) reliable
    exact (ih place (parse source.toList) reliable).2

theorem runAround (host : Host) : ∃ around : Surroundings, around.host = host ∧ around.Reliable ∧
    ∀ m place source, Machine.run m host place source = execute around place (parse source) m := by
  cases room : host.room with
  | zero =>
    refine ⟨⟨host, fun _ _ => throw (.raised host.overflow)⟩, rfl, fun m _ _ reliable => reliable, ?_⟩
    intro m place source
    rw [Machine.run, run, room]
    rfl
  | succ depth =>
    let inside (place : Place) (source : String) (m : Machine) :=
      executeNested host depth place (parse source.toList) m
    refine ⟨⟨host, fun place source m => (.ok (inside place source m).1, (inside place source m).2)⟩, rfl,
      fun m place source reliable => ?_, ?_⟩
    · exact (nestedReliable host depth place (parse source.toList) reliable).2
    · intro m place source
      rw [Machine.run, run, room]
      rfl

end Engine
end LineScript
