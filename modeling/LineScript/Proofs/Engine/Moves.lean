import LineScript.Proofs.Engine.Act
import LineScript.Proofs.Script.Statement

/-! What a run can do to a machine. A relation between machines that every primitive step keeps to
is kept to by every act, whatever the program, the host and the outcome. -/
namespace LineScript.Engine

def Moves {α : Type} (P : Machine → Machine → Prop) (act : EngineM α) : Prop :=
  ∀ m, P m (after act m).2

structure Path (P : Machine → Machine → Prop) : Prop where
  stay : ∀ m, P m m
  join : ∀ {a b c}, P a b → P b c → P a c

structure Quiets (P : Machine → Machine → Prop) : Prop extends Path P where
  atLine : ∀ m line, P m (m.setLine line)
  said : ∀ m notice, P m (m.say notice)
  streamed : ∀ m stream text next, m.stream = some stream → stream.writeLine? text = some next →
    P m { m with stream := some next }
  traced : ∀ m lines, P m { m with trace := lines }
  recorded : ∀ m r, P m (m.record r)
  registered : ∀ m name target symbols, m.symbols.register name target = .ok symbols →
    P m { m with symbols := symbols }

/- The primitive steps that a host takes when it is called. A run inside a run counts as one step. -/
structure Hosted (around : Surroundings) (P : Machine → Machine → Prop) : Prop extends Quiets P where
  seeded : ∀ m name value, P m { m with globals := m.globals.set name value }
  reentered : ∀ m place source, P m (after (around.reenter place source) m).2

structure Steps (around : Surroundings) (ref : ContextRef) (P : Machine → Machine → Prop) : Prop
    extends Hosted around P where
  called : ∀ m name arguments, P m (m.log (.called name arguments))
  assigned : ∀ m name value, P m (m.assign ref name value)

section Closure
variable {α β : Type} {P : Machine → Machine → Prop}

theorem Path.pure (path : Path P) (value : α) : Moves P (Pure.pure value : EngineM α) :=
  fun m => path.stay m

theorem Path.throw (path : Path P) (f : Failure) : Moves P (throw f : EngineM α) :=
  fun m => path.stay m

theorem Path.get (path : Path P) : Moves P (MonadState.get : EngineM Machine) :=
  fun m => path.stay m

theorem Path.lift (path : Path P) (e : Except Failure α) : Moves P (liftM e : EngineM α) := by
  intro m
  rw [afterLift]
  exact path.stay m

theorem Path.bind (path : Path P) {act : EngineM α} {next : α → EngineM β} (first : Moves P act)
    (rest : ∀ value, Moves P (next value)) : Moves P (act >>= next) := by
  intro m
  have moved := first m
  rw [afterBind]
  rcases h : after act m with ⟨outcome, n⟩
  rw [h] at moved
  cases outcome with
  | ok value => exact path.join moved (rest value n)
  | error f => exact moved

theorem Path.tryCatch (path : Path P) {act : EngineM α} {handler : Failure → EngineM α}
    (first : Moves P act) (rest : ∀ f, Moves P (handler f)) :
    Moves P (MonadExcept.tryCatch act handler) := by
  intro m
  have moved := first m
  rw [afterTryCatch]
  rcases h : after act m with ⟨outcome, n⟩
  rw [h] at moved
  cases outcome with
  | ok value => exact moved
  | error f => exact path.join moved (rest f n)

theorem movesModify {f : Machine → Machine} (step : ∀ m, P m (f m)) : Moves P (modify f : EngineM PUnit) :=
  fun m => step m

end Closure

section Engine
variable {around : Surroundings} {ref : ContextRef} {P : Machine → Machine → Prop}

theorem announceMoves (quiets : Quiets P) (notice : Notice) : Moves P (announce notice) := by
  intro m
  have said := quiets.said m notice
  rw [afterAnnounce]
  split
  · exact said
  · rename_i stream copied
    split
    · rename_i next wrote
      exact quiets.join said (quiets.streamed _ stream _ next (by simpa using copied) wrote)
    · exact said

theorem traceMoves (quiets : Quiets P) (message : String) : Moves P (trace message) := by
  apply movesModify
  intro m
  split
  · exact quiets.traced m _
  · exact quiets.stay m

theorem registerMoves (quiets : Quiets P) (name : String) (target : Value) :
    Moves P (register name target) := by
  intro m
  simp only [register, afterBind, afterGet]
  cases done : m.symbols.register name target with
  | ok symbols => exact quiets.registered m name target symbols done
  | error f => exact quiets.stay m

theorem attemptMoves (quiets : Quiets P) {act : EngineM Unit} (moves : Moves P act) :
    Moves P (attempt act) :=
  quiets.tryCatch (quiets.bind moves (fun _ => quiets.pure none)) (fun f => quiets.pure (some f))

theorem performMoves (hosted : Hosted around P) (program : HostProgram) :
    Moves P (perform around program) := by
  induction program with
  | finish outcome => exact hosted.pure outcome
  | emit effect next ih =>
    exact hosted.bind (attemptMoves hosted.toQuiets (announceMoves hosted.toQuiets _)) (fun failure => ih failure)
  | setVariable name value next ih =>
    exact hosted.bind (movesModify (fun m => hosted.seeded m name value)) (fun _ => ih)
  | register name target next ih =>
    exact hosted.bind (attemptMoves hosted.toQuiets (registerMoves hosted.toQuiets name target)) (fun failure => ih failure)
  | run source place next ih =>
    refine hosted.bind (fun m => hosted.reentered m place source) (fun result => ?_)
    exact hosted.bind (movesModify (fun m => hosted.recorded m _)) (fun _ => ih result)

theorem callStandardMoves (quiets : Quiets P) (function : Standard) (arguments : List Value) :
    Moves P (callStandard around function arguments) := by
  unfold callStandard
  split
  · refine quiets.bind (quiets.lift _) (fun message => quiets.bind (quiets.lift _) (fun topic => ?_))
    exact quiets.bind (announceMoves quiets _) (fun _ => quiets.pure _)
  · exact quiets.pure _
  · exact quiets.bind quiets.get (fun _ => quiets.pure _)
  · exact quiets.pure _

theorem invokeMoves (hosted : Hosted around P) (routine : Routine Value) (arguments : List Value) :
    Moves P (invoke around routine arguments) := by
  unfold invoke
  split
  · exact hosted.throw _
  · split
    · exact hosted.bind (callStandardMoves hosted.toQuiets _ _) (fun value => hosted.pure _)
    · refine hosted.bind (movesModify (fun m => hosted.recorded m _)) (fun _ => ?_)
      exact hosted.bind hosted.get (fun m => performMoves hosted _)

theorem dispatchToMoves (steps : Steps around ref P) (b : Builtin Value) (values : List Value) :
    Moves P (dispatchTo around b values) := by
  unfold dispatchTo
  split
  · split
    · exact steps.pure _
    · exact steps.throw _
  · refine steps.bind (traceMoves steps.toQuiets _) (fun _ => ?_)
    refine steps.bind (movesModify (fun m => steps.called m _ _)) (fun _ => ?_)
    refine steps.bind ?_ (fun ended => steps.lift _)
    exact steps.tryCatch (invokeMoves steps.toHosted _ _) (fun f => steps.pure _)

theorem dispatchMoves (steps : Steps around ref P) (path : String) (values : List Value)
    (shown : String → Option Value) : Moves P (dispatch around path values shown) := by
  refine steps.bind steps.get (fun m => ?_)
  split
  · exact dispatchToMoves steps _ _
  · split
    · exact steps.pure _
    · exact steps.throw _

theorem evaluateMoves (quiets : Quiets P) (e : Expr) : Moves P (evaluate ref e) :=
  quiets.bind quiets.get (fun _ => quiets.lift _)

theorem evaluateAllMoves (quiets : Quiets P) (arguments : List Expr) :
    Moves P (evaluateAll ref arguments) := by
  induction arguments with
  | nil => exact quiets.pure []
  | cons e rest ih =>
    exact quiets.bind (evaluateMoves quiets e) (fun _ => quiets.bind ih (fun _ => quiets.pure _))

theorem evaluateConditionMoves (quiets : Quiets P) (e : Expr) :
    Moves P (evaluateCondition ref e) := by
  refine quiets.bind quiets.get (fun m => quiets.bind (quiets.lift _) (fun verdict => ?_))
  split
  · refine quiets.bind (quiets.lift _) (fun _ => quiets.bind (quiets.lift _) (fun _ => ?_))
    exact quiets.bind (traceMoves quiets _) (fun _ => quiets.pure _)
  · exact quiets.bind (quiets.pure ()) (fun _ => quiets.pure _)

theorem announceAllMoves (quiets : Quiets P) (notices : List Notice) :
    Moves P (announceAll notices) := by
  induction notices with
  | nil => exact quiets.pure ()
  | cons notice rest ih => exact quiets.bind (announceMoves quiets notice) (fun _ => ih)

theorem runCallMoves (steps : Steps around ref P) (line : Nat) (path : String) (arguments : List Expr) :
    Moves P (runCall around ref line path arguments) := by
  refine steps.bind (evaluateAllMoves steps.toQuiets arguments) (fun values => steps.bind steps.get (fun m => ?_))
  refine steps.bind (dispatchMoves steps path values _) (fun outcome => ?_)
  exact steps.bind (announceAllMoves steps.toQuiets _) (fun _ => steps.pure _)

theorem guardedMoves (steps : Steps around ref P) (line : Nat) {act : EngineM Value}
    (moves : Moves P act) : Moves P (guarded line act) := by
  refine steps.bind (movesModify (fun m => steps.atLine m line)) (fun _ => ?_)
  refine steps.tryCatch moves (fun f => steps.bind steps.get (fun m => ?_))
  exact steps.bind (announceMoves steps.toQuiets _) (fun _ => steps.pure _)

theorem runElseMoves (body : Block Stmt) (list : Moves P (runList around ref .nil body.statements))
    (each : ∀ s ∈ body.statements, Moves P (runStmt around ref s)) :
    Moves P (runElse around ref body) := by
  rcases runElseCases around ref body with ⟨s, alone, same⟩ | same
  · rw [same]
    exact each s (by simp [alone])
  · rw [same]
    exact list

theorem runMoves (steps : Steps around ref P) :
    (∀ s, Moves P (runStmt around ref s)) ∧
      ∀ statements value, Moves P (runList around ref value statements) := by
  apply Stmt.induction
  case block =>
    intro line statements inner
    simpa only [runStmt, runBlockStatements] using inner .nil
  case assign =>
    intro line name value
    unfold runStmt
    refine steps.bind (evaluateMoves steps.toQuiets value) (fun v => ?_)
    refine steps.bind (movesModify (fun m => steps.assigned m name v)) (fun _ => steps.bind (steps.lift _) (fun _ => ?_))
    exact steps.bind (traceMoves steps.toQuiets _) (fun _ => steps.pure v)
  case print =>
    intro line value
    unfold runStmt
    refine steps.bind (evaluateMoves steps.toQuiets value) (fun v => steps.bind (steps.lift _) (fun text => ?_))
    exact steps.bind (announceMoves steps.toQuiets _) (fun _ => steps.pure _)
  case branch =>
    intro line condition thenBody otherwise thenMoves otherwiseMoves
    unfold runStmt
    refine steps.bind (movesModify (fun m => steps.atLine m line)) (fun _ => ?_)
    refine steps.bind (evaluateConditionMoves steps.toQuiets condition) (fun holds => ?_)
    refine steps.bind (traceMoves steps.toQuiets _) (fun _ => ?_)
    split
    · simpa only [runBlockStatements] using thenMoves .nil
    · cases otherwise with
      | none => simpa only [runOtherwise] using steps.pure _
      | some body =>
        obtain ⟨list, each⟩ := otherwiseMoves body rfl
        simpa only [runOtherwise] using runElseMoves body (list .nil) each
  case call =>
    intro line path arguments
    simpa only [runStmt] using runCallMoves steps line path arguments
  case unknown =>
    intro line text why
    unfold runStmt
    exact steps.bind (announceMoves steps.toQuiets _) (fun _ => steps.pure _)
  case nil => exact fun value => by simpa only [runList] using steps.pure value
  case cons =>
    intro s rest first others value
    unfold runList
    exact steps.bind (guardedMoves steps s.line first) (fun value => others value)

theorem runProgramMoves (steps : Steps around ref P) (p : Program) :
    Moves P (runProgram around ref p) :=
  steps.bind (announceAllMoves steps.toQuiets _) (fun _ => (runMoves steps).2 p.statements .nil)

end Engine
end LineScript.Engine
