import LineScript.Proofs.Engine.Moves
import LineScript.Proofs.Engine.Operations
import LineScript.Proofs.Engine.Store

/-! The deeds of runs. A log goes along with the engine and notes what is done to variables where it
is done: a `let` as a write in the context of its own run, a global set by the host, the start of a
run inside a run. Whatever happens, the variables are those of the history so far. -/
namespace LineScript

def Machine.writing (m : Machine) (ref : ContextRef) (name : String) (value : Value) : List Deed :=
  if (m.context? ref).isSome then [.write ref name value] else []

theorem Machine.Explained.assign {m : Machine} {h : List Deed} (explained : m.Explained h)
    (ref : ContextRef) (name : String) (value : Value) :
    (m.assign ref name value).Explained ((m.writing ref name value).reverse ++ h) := by
  unfold writing
  cases found : m.context? ref with
  | none => simpa [Machine.assign, found] using explained
  | some c => exact explained.write found name value

namespace Engine

/- From each machine, the deeds in the order in which they are done. -/
abbrev Log := Machine → List Deed

def quiet : Log := fun _ => []

def logBind {α : Type} (act : EngineM α) (first : Log) (next : α → Log) : Log := fun m =>
  first m ++ match after act m with
    | (.ok value, n) => next value n
    | (.error _, _) => []

section Runs
variable (around : Surroundings) (inner : Place → String → Log)

def performLog : HostProgram → Log
  | .finish _ => quiet
  | .emit effect next =>
    logBind (attempt (emit effect)) quiet fun failure => performLog (next failure)
  | .setVariable name value next =>
    logBind (setVariable name value) (fun _ => [.seed name value]) fun _ => performLog next
  | .register name target next =>
    logBind (attempt (register name target)) quiet fun failure => performLog (next failure)
  | .run source place next =>
    logBind (around.reenter place source) (inner place source) fun result m =>
      performLog (next result) (m.record (.nested result))

def invokeLog (routine : Routine Value) (arguments : List Value) : Log :=
  match routine.signature.bind arguments with
  | .error _ => quiet
  | .ok bound =>
    match routine with
    | .standard _ => quiet
    | .host function => fun m =>
      let m := m.record (.call function.signature.label bound)
      performLog around inner (around.host.behaviour m.records function.id bound) m

def dispatchToLog (b : Builtin Value) (values : List Value) : Log :=
  match b.marshal values with
  | .error _ => quiet
  | .ok ⟨arguments, warning⟩ =>
    logBind (trace ("dispatch " ++ b.name ++ " argc " ++ toString arguments.length ++ " warning " ++
      warning.getD "None")) quiet fun _ m =>
        invokeLog around inner b.routine arguments (m.log (.called b.name arguments))

def dispatchLog (path : String) (values : List Value) (shown : String → Option Value) : Log := fun m =>
  match m.symbols.resolve path shown with
  | .error _ => []
  | .ok function => dispatchToLog around inner function values m

def callLog (ref : ContextRef) (path : String) (arguments : List Expr) : Log :=
  logBind (evaluateAll ref arguments) quiet fun values m =>
    dispatchLog around inner path values (m.lookup ref) m

mutual

def stmtLog (ref : ContextRef) : Stmt → Log
  | .block body => blockLog ref body
  | .assign _ name value => logBind (evaluate ref value) quiet fun v m => m.writing ref name v
  | .print _ _ => quiet
  | .branch line condition thenBody otherwise => fun m =>
    logBind (evaluateCondition ref condition) quiet (fun holds =>
      logBind (trace ("if " ++ condition.text ++ " -> " ++ Value.truthText holds)) quiet fun _ =>
        if holds then blockLog ref thenBody else otherwiseLog ref otherwise) (m.setLine line)
  | .call _ path arguments => callLog around inner ref path arguments
  | .unknown _ _ _ => quiet

def blockLog (ref : ContextRef) : Block Stmt → Log
  | ⟨_, statements⟩ => listLog ref statements

def otherwiseLog (ref : ContextRef) : Option (Block Stmt) → Log
  | none => quiet
  | some body => elseLog ref body

def elseLog (ref : ContextRef) : Block Stmt → Log
  | ⟨_, [s]⟩ => if isBranch s then stmtLog ref s else fun m => stmtLog ref s (m.setLine s.line)
  | ⟨_, statements⟩ => listLog ref statements

def listLog (ref : ContextRef) : List Stmt → Log
  | [] => quiet
  | s :: rest =>
    logBind (guarded s.line (runStmt around ref s)) (fun m => stmtLog ref s (m.setLine s.line)) fun _ =>
      listLog ref rest

end

def programLog (ref : ContextRef) (p : Program) : Log :=
  logBind (announceAll (p.diagnostics.map syntaxNotice)) quiet fun _ =>
    listLog around inner ref p.statements

def startLog (place : Place) : Log := fun m =>
  match place with
  | .session => [.resume]
  | .fresh => [.layer, .run (.layered m.contexts.length)]
  | .within ref => [.run ref]

def executeLog (place : Place) (p : Program) : Log := fun m =>
  startLog place m ++ programLog around inner (opened m place).2 p (opened m place).1

end Runs

def nesting (host : Host) : Nat → Surroundings
  | 0 => ⟨host, fun _ _ => throw (.raised host.overflow)⟩
  | depth + 1 => ⟨host, fun place source => fun m =>
      let (result, m) := executeNested host depth place (parse source.toList) m
      (.ok result, m)⟩

def nestingLog (host : Host) : Nat → Place → String → Log
  | 0, _, _ => quiet
  | depth + 1, place, source =>
    executeLog (nesting host depth) (nestingLog host depth) place (parse source.toList)

theorem executeNesting (host : Host) (depth : Nat) : executeNested host depth = execute (nesting host depth) := by
  cases depth <;> rfl

end Engine

def Operation.deeds (m : Machine) : Operation → List Deed
  | .setVariable name value => [.seed name value]
  | .write context name value => m.writing context name value
  | .newContext => [.layer]
  | .fork context => if (m.context? context).isSome then [.fork context] else []
  | .run host place program =>
    Engine.executeLog (Engine.nesting host host.room) (Engine.nestingLog host host.room) place program m
  | _ => []

namespace Engine

def Accounts {α : Type} (act : EngineM α) (log : Log) : Prop :=
  ∀ m h, m.Explained h → (after act m).2.Explained ((log m).reverse ++ h)

def SameStored (m n : Machine) : Prop := n.stored = m.stored

theorem storedQuiets : Quiets SameStored where
  stay m := rfl
  join left right := right.trans left
  atLine m line := by
    obtain ⟨_, _, same⟩ := m.setActiveKeeps { m.activeJournal with line := some line }
    rw [Machine.setLine, same]
    rfl
  said m notice := by
    obtain ⟨_, _, same⟩ := m.sayKeeps notice
    rw [same]
    rfl
  streamed m stream text next _ _ := rfl
  traced m lines := rfl
  recorded m r := rfl
  registered m name target symbols _ := rfl

section Closure
variable {α β : Type}

theorem accountsQuiet {act : EngineM α} (moves : Moves SameStored act) : Accounts act quiet :=
  fun m _ explained => explained.ofStored (moves m)

theorem accountsBind {act : EngineM α} {first : Log} {next : α → EngineM β} {rest : α → Log}
    (one : Accounts act first) (two : ∀ value, Accounts (next value) (rest value)) :
    Accounts (act >>= next) (logBind act first rest) := by
  intro m h explained
  have middle := one m h explained
  simp only [afterBind, logBind]
  rcases ran : after act m with ⟨outcome, n⟩
  rw [ran] at middle
  cases outcome with
  | ok value => simpa using two value n _ middle
  | error f => simpa using middle

theorem accountsCatch {act : EngineM α} {log : Log} {handler : Failure → EngineM α}
    (one : Accounts act log) (two : ∀ f, Moves SameStored (handler f)) :
    Accounts (tryCatch act handler) log := by
  intro m h explained
  have middle := one m h explained
  rw [afterTryCatch]
  rcases ran : after act m with ⟨outcome, n⟩
  rw [ran] at middle
  cases outcome with
  | ok value => exact middle
  | error f => exact middle.ofStored (two f n)

theorem accountsThen {act : EngineM α} {log : Log} {next : α → EngineM β} (one : Accounts act log)
    (two : ∀ value, Moves SameStored (next value)) : Accounts (act >>= next) log := by
  intro m h explained
  have middle := one m h explained
  rw [afterBind]
  rcases ran : after act m with ⟨outcome, n⟩
  rw [ran] at middle
  cases outcome with
  | ok value => exact middle.ofStored (two value n)
  | error f => exact middle

theorem guardedAccounts {act : EngineM Value} {log : Log} (one : Accounts act log) (line : Nat) :
    Accounts (guarded line act) (fun m => log (m.setLine line)) := by
  intro m h explained
  have reports (f : Failure) : Moves SameStored (do
      report (failureText f) (some ((← get).activeJournal.line.getD line))
      return Value.nil) :=
    storedQuiets.bind storedQuiets.get fun n =>
      storedQuiets.bind (announceMoves storedQuiets _) (fun _ => storedQuiets.pure _)
  exact accountsCatch one reports (m.setLine line) h (explained.ofStored (storedQuiets.atLine m line))

end Closure

section Engine
variable {around : Surroundings} {inner : Place → String → Log}
  (nested : ∀ place source, Accounts (around.reenter place source) (inner place source))
include nested

theorem performAccounts (program : HostProgram) :
    Accounts (perform around program) (performLog around inner program) := by
  have quiets := storedQuiets
  induction program with
  | finish outcome => exact accountsQuiet (quiets.pure outcome)
  | emit effect next ih =>
    exact accountsBind (accountsQuiet (attemptMoves quiets (announceMoves quiets _))) ih
  | setVariable name value next ih =>
    exact accountsBind (fun m h explained => explained.seed name value) (fun _ => ih)
  | register name target next ih =>
    exact accountsBind (accountsQuiet (attemptMoves quiets (registerMoves quiets name target))) ih
  | run source place next ih =>
    refine accountsBind (nested place source) (fun result m h explained => ?_)
    exact ih result _ h (explained.ofStored rfl)

theorem invokeAccounts (routine : Routine Value) (arguments : List Value) :
    Accounts (invoke around routine arguments) (invokeLog around inner routine arguments) := by
  unfold invoke invokeLog
  cases routine.signature.bind arguments with
  | error fault => exact accountsQuiet (storedQuiets.throw _)
  | ok bound =>
    cases routine with
    | standard function =>
      exact accountsQuiet (storedQuiets.bind (callStandardMoves storedQuiets function bound) (fun _ => storedQuiets.pure _))
    | host function =>
      intro m h explained
      exact performAccounts nested _ (m.record _) h (explained.ofStored rfl)

theorem dispatchToAccounts (b : Builtin Value) (values : List Value) :
    Accounts (dispatchTo around b values) (dispatchToLog around inner b values) := by
  unfold dispatchTo dispatchToLog
  cases b.marshal values with
  | error f => cases f <;> exact accountsQuiet (fun m => rfl)
  | ok made =>
    refine accountsBind (accountsQuiet (traceMoves storedQuiets _)) (fun _ m h explained => ?_)
    have caught : Accounts (tryCatch (invoke around b.routine made.arguments) fun f => return .error ⟨f, none⟩) _ :=
      accountsCatch (invokeAccounts nested b.routine made.arguments) (fun f => storedQuiets.pure _)
    exact accountsThen caught (fun ended => storedQuiets.lift _) _ h
      (explained.ofStored (n := m.log (.called b.name made.arguments)) rfl)

theorem dispatchAccounts (path : String) (values : List Value) (shown : String → Option Value) :
    Accounts (dispatch around path values shown) (dispatchLog around inner path values shown) := by
  intro m h explained
  simp only [dispatch, dispatchLog, afterBind, afterGet]
  cases m.symbols.resolve path shown with
  | error f =>
    simp only
    split <;> exact explained
  | ok function => exact dispatchToAccounts nested function values m h explained

theorem runCallAccounts (ref : ContextRef) (line : Nat) (path : String) (arguments : List Expr) :
    Accounts (runCall around ref line path arguments) (callLog around inner ref path arguments) := by
  refine accountsBind (accountsQuiet (evaluateAllMoves storedQuiets arguments)) (fun values m => ?_)
  refine accountsThen (dispatchAccounts nested path values (m.lookup ref)) (fun outcome => ?_) m
  exact storedQuiets.bind (announceAllMoves storedQuiets _) (fun _ => storedQuiets.pure _)

omit nested in
theorem elseAccounts (ref : ContextRef) (body : Block Stmt)
    (list : Accounts (runList around ref .nil body.statements) (listLog around inner ref body.statements))
    (each : ∀ s ∈ body.statements, Accounts (runStmt around ref s) (stmtLog around inner ref s)) :
    Accounts (runElse around ref body) (elseLog around inner ref body) := by
  obtain ⟨opened, statements⟩ := body
  match statements with
  | [] => simpa only [runElse, elseLog] using list
  | [s] =>
    have one := each s List.mem_cons_self
    rw [runElse, elseLog]
    by_cases link : isBranch s = true
    · rw [if_pos link, if_pos link]
      exact one
    · rw [if_neg link, if_neg link]
      exact guardedAccounts one s.line
  | s :: t :: rest => simpa only [runElse, elseLog] using list

theorem runAccounts (ref : ContextRef) :
    (∀ s, Accounts (runStmt around ref s) (stmtLog around inner ref s)) ∧
      ∀ statements value, Accounts (runList around ref value statements)
        (listLog around inner ref statements) := by
  have quiets := storedQuiets
  have atLine {α : Type} {act : EngineM α} {log : Log} (one : Accounts act log) (line : Nat) :
      Accounts (modify (·.setLine line) >>= fun _ => act) (fun m => log (m.setLine line)) :=
    fun m h explained => one (m.setLine line) h (explained.ofStored (quiets.atLine m line))
  apply Stmt.induction
  case block =>
    intro line statements list
    simpa only [runStmt, runBlock, stmtLog, blockLog] using list .nil
  case assign =>
    intro line name value
    unfold runStmt stmtLog
    refine accountsBind (accountsQuiet (evaluateMoves quiets value)) (fun v => ?_)
    refine accountsThen (fun m h explained => explained.assign ref name v) (fun _ => quiets.bind (quiets.lift _) (fun _ => ?_))
    exact quiets.bind (traceMoves quiets _) (fun _ => quiets.pure v)
  case print =>
    intro line value
    unfold runStmt stmtLog
    apply accountsQuiet
    refine quiets.bind (evaluateMoves quiets value) (fun v => quiets.bind (quiets.lift _) (fun text => ?_))
    exact quiets.bind (announceMoves quiets _) (fun _ => quiets.pure _)
  case branch =>
    intro line condition thenBody otherwise thenList otherwiseLists
    unfold runStmt stmtLog
    refine atLine (accountsBind (accountsQuiet (evaluateConditionMoves quiets condition)) fun holds => ?_) line
    refine accountsBind (accountsQuiet (traceMoves quiets _)) (fun _ => ?_)
    by_cases chosen : holds = true
    · obtain ⟨opened, statements⟩ := thenBody
      rw [if_pos chosen, if_pos chosen, runBlock, blockLog]
      exact thenList .nil
    · rw [if_neg chosen, if_neg chosen]
      cases otherwise with
      | none =>
        rw [runOtherwise, otherwiseLog]
        exact accountsQuiet (quiets.pure _)
      | some body =>
        obtain ⟨list, each⟩ := otherwiseLists body rfl
        rw [runOtherwise, otherwiseLog]
        exact elseAccounts ref body (list .nil) each
  case call =>
    intro line path arguments
    simpa only [runStmt, stmtLog] using runCallAccounts nested ref line path arguments
  case unknown =>
    intro line text why
    unfold runStmt stmtLog
    exact accountsQuiet (quiets.bind (announceMoves quiets _) (fun _ => quiets.pure _))
  case nil => exact fun value => by simpa only [runList, listLog] using accountsQuiet (quiets.pure value)
  case cons =>
    intro s rest first others value
    unfold runList listLog
    exact accountsBind (guardedAccounts first s.line) (fun value => others value)

theorem runProgramAccounts (ref : ContextRef) (p : Program) :
    Accounts (runProgram around ref p) (programLog around inner ref p) :=
  accountsBind (accountsQuiet (announceAllMoves storedQuiets _))
    (fun _ => (runAccounts nested ref).2 p.statements .nil)

omit nested in
theorem openedExplained {m : Machine} {h : List Deed} (explained : m.Explained h) (place : Place) :
    (opened m place).1.Explained ((startLog place m).reverse ++ h) := by
  cases place with
  | session => exact explained.resume.ofStored rfl
  | fresh => exact (explained.layer.run _).ofStored rfl
  | within ref => exact (explained.run ref).ofStored rfl

theorem executeExplained {m : Machine} {h : List Deed} (explained : m.Explained h) (place : Place)
    (p : Program) :
    (execute around place p m).2.Explained ((executeLog around inner place p m).reverse ++ h) := by
  have ran := runProgramAccounts nested (opened m place).2 p (opened m place).1 _
    (openedExplained explained place)
  obtain ⟨_, _, kept⟩ := resultKeeps (ranIn around place p m).1 (ranIn around place p m).2
  simp only [executeLog, List.reverse_append, List.append_assoc]
  apply ran.ofStored
  show (resultOf (ranIn around place p m).1 (ranIn around place p m).2).2.stored = _
  rw [kept]
  rfl

end Engine

theorem nestingAccounts (host : Host) (depth : Nat) (place : Place) (source : String) :
    Accounts ((nesting host depth).reenter place source) (nestingLog host depth place source) := by
  induction depth generalizing place source with
  | zero => exact accountsQuiet (storedQuiets.throw _)
  | succ depth ih =>
    intro m h explained
    have ran := executeExplained ih explained place (parse source.toList)
    rw [← executeNesting] at ran
    exact ran

end Engine

end LineScript
