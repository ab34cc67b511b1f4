import LineScript.Engine.Dispatch
import LineScript.Script.Parser

/-! Execution of programs. Statements run one after the other; one that fails is reported and the
next one runs. -/
namespace LineScript
namespace Engine

def failureText (f : Failure) : String :=
  if f.isEngine then f.message else "InternalError: " ++ f.className ++ ": " ++ f.message

/-- Runs a statement that stands at `line`. If it fails, that is reported for the line that was
reached, and its value is nil. -/
def guarded (line : Nat) (act : EngineM Value) : EngineM Value := do
  modify (·.setLine line)
  tryCatch act fun f => do
    report (failureText f) (some ((← get).activeJournal.line.getD line))
    return .nil

def evaluate (ref : ContextRef) (e : Expr) : EngineM Value := do
  let m ← get
  e.eval (m.scope ref)

def evaluateAll (ref : ContextRef) : List Expr → EngineM (List Value)
  | [] => return []
  | e :: rest => do
    let first ← evaluate ref e
    let others ← evaluateAll ref rest
    return first :: others

def evaluateCondition (ref : ContextRef) (e : Expr) : EngineM Bool := do
  let m ← get
  let verdict ← e.evalCondition (m.scope ref)
  match verdict.compared with
  | some (left, c, right) =>
    let shown ← left.inspect
    let shown' ← right.inspect
    trace ("compare " ++ shown ++ " " ++ c.operator.text ++ " " ++ shown' ++ " -> " ++
      Value.truthText verdict.holds)
  | none => pure ()
  return verdict.holds

def runCall (around : Surroundings) (ref : ContextRef) (line : Nat) (path : String)
    (arguments : List Expr) : EngineM Value := do
  let values ← evaluateAll ref arguments
  let m ← get
  let outcome ← dispatch around path values (m.lookup ref)
  announceAll (outcome.notices line path)
  return outcome.value

def isBranch : Stmt → Bool
  | .branch _ _ _ _ => true
  | _ => false

mutual

def runStmt (around : Surroundings) (ref : ContextRef) : Stmt → EngineM Value
  | .block body => runBlock around ref body
  | .assign _ name value => do
    let v ← evaluate ref value
    modify (·.assign ref name v)
    let shown ← v.inspect
    trace ("let " ++ name ++ " = " ++ shown)
    return v
  | .print _ value => do
    let v ← evaluate ref value
    let text ← v.render
    emit (.printed text)
    return .nil
  | .branch line condition thenBody otherwise => do
    modify (·.setLine line)
    let holds ← evaluateCondition ref condition
    trace ("if " ++ condition.text ++ " -> " ++ Value.truthText holds)
    if holds then runBlock around ref thenBody else runOtherwise around ref otherwise
  | .call line path arguments => runCall around ref line path arguments
  | .unknown line text why => do
    report (why.text ++ ": " ++ text) (some line)
    return .nil

def runBlock (around : Surroundings) (ref : ContextRef) : Block Stmt → EngineM Value
  | ⟨_, statements⟩ => runList around ref .nil statements

def runOtherwise (around : Surroundings) (ref : ContextRef) : Option (Block Stmt) → EngineM Value
  | none => return .nil
  | some body => runElse around ref body

def runElse (around : Surroundings) (ref : ContextRef) : Block Stmt → EngineM Value
  | ⟨_, [s]⟩ =>
    if isBranch s then runStmt around ref s
    else guarded s.line (runStmt around ref s)
  | ⟨_, statements⟩ => runList around ref .nil statements

def runList (around : Surroundings) (ref : ContextRef) (value : Value) : List Stmt → EngineM Value
  | [] => return value
  | s :: rest => do
    let value ← guarded s.line (runStmt around ref s)
    runList around ref value rest

end

def syntaxNotice (d : Diagnostic) : Notice := .report (some d.line) ("syntax: " ++ d.message)

def runProgram (around : Surroundings) (ref : ContextRef) (p : Program) : EngineM Value := do
  announceAll (p.diagnostics.map syntaxNotice)
  runList around ref .nil p.statements

/-- Starts a run: the frame it gets, and the context it is in. The main context is laid anew over
the globals when its session goes on. -/
def enter (m : Machine) : Place → Machine × ContextRef
  | .session =>
    ({ m with
        main := { m.main with parent := m.globals }
        journal := { m.journal with effects := [] }
        frames := .session :: m.frames }, .main)
  | .fresh =>
    ({ m.addContext (.above m.layer) with frames := .own .empty :: m.frames },
      .layered m.contexts.length)
  | .within ref => ({ m with frames := .own .empty :: m.frames }, ref)

def resultOf (outcome : Except Failure Value) (m : Machine) : RunResult × Machine :=
  match outcome with
  | .ok value => (⟨.success, value, none, m.activeJournal.effects⟩, m)
  | .error f =>
    let message := "InternalError: " ++ f.message
    let m := m.append (.fatal message)
    (⟨.error, .nil, some message, m.activeJournal.effects⟩, m)

def execute (around : Surroundings) (place : Place) (p : Program) (m : Machine) :
    RunResult × Machine :=
  let (m, ref) := enter ({ m with symbols := m.symbols.freeze }.log (.started place)) place
  let (outcome, m) := (runProgram around ref p).run m
  let (result, m) := resultOf outcome m
  (result, { m with frames := m.frames.drop 1 }.log (.ended result))

def executeNested (host : Host) : Nat → Place → Program → Machine → RunResult × Machine
  | 0 => execute ⟨host, fun _ _ => throw (.raised host.overflow)⟩
  | depth + 1 =>
    execute ⟨host, fun place source => fun m =>
      let (result, m) := executeNested host depth place (parse source.toList) m
      (.ok result, m)⟩

def run (host : Host) (place : Place) (p : Program) (m : Machine) : RunResult × Machine :=
  executeNested host host.room place p m

def surroundings (host : Host) : Surroundings :=
  ⟨host, fun place source => fun m =>
    let (result, m) := run host place (parse source.toList) m
    (.ok result, m)⟩

end Engine
end LineScript
