import LineScript.Engine.Machine

/-! Calls from scripts to native functions. -/
namespace LineScript

inductive CallStatus where
  | ok
  | arityWarning
  | typeError
  | notFound
  | error
  deriving DecidableEq, Repr

def CallStatus.text : CallStatus → String
  | .ok => "ok"
  | .arityWarning => "arity-warning"
  | .typeError => "type-error"
  | .notFound => "not-found"
  | .error => "error"

structure CallOutcome where
  status : CallStatus
  value : Value
  message : Option String
  warning : Option String

namespace CallOutcome

def succeeded (o : CallOutcome) : Bool := o.status = .ok || o.status = .arityWarning

def notices (o : CallOutcome) (line : Nat) (path : String) : List Notice :=
  (o.warning.map fun warning => .report (some line) ("warning: " ++ warning)).toList ++
    if o.status = .notFound then
      [.report (some line) ("unknown command: " ++ path ++ " (" ++ o.message.getD "None" ++ ")")]
    else if o.succeeded then []
    else [.report (some line) (o.message.getD "None")]

end CallOutcome

structure Surroundings where
  host : Host
  reenter : Place → String → EngineM RunResult

namespace Engine

def attempt (act : EngineM Unit) : EngineM (Option Failure) :=
  tryCatch (do act; return none) fun f => return some f

def setVariable (name : String) (value : Value) : EngineM Unit :=
  modify fun m => { m with globals := m.globals.set name value }

def register (name : String) (target : Value) : EngineM Unit := do
  match (← get).symbols.register name target with
  | .ok symbols => modify ({ · with symbols := symbols })
  | .error f => throw f

def perform (around : Surroundings) : HostProgram → EngineM (Except Thrown Value)
  | .finish outcome => pure outcome
  | .emit effect next => do
    let failure ← attempt (emit effect)
    perform around (next failure)
  | .setVariable name value next => do
    setVariable name value
    perform around next
  | .register name target next => do
    let failure ← attempt (register name target)
    perform around (next failure)
  | .run source place next => do
    let result ← around.reenter place source
    modify (·.record (.nested result))
    perform around (next result)

def renderWords (values : List Value) : Except Failure String := do
  let words ← values.mapM Value.render
  return " ".intercalate words

def callStandard (around : Surroundings) (function : Standard) (arguments : List Value) :
    EngineM Value := do
  match function, arguments with
  | .emit, topic :: parts =>
    let message ← renderWords parts
    let topic ← topic.render
    emit ⟨[topic], message⟩
    return .nil
  | .length, .text s :: _ => return .number (.ofNat s.length)
  | .clock, _ => return .number (around.host.clock (← get).records)
  | _, _ => return .nil

def invoke (around : Surroundings) (routine : Routine Value) (arguments : List Value) :
    EngineM (Except Thrown Value) := do
  match routine.signature.bind arguments with
  | .error fault => throw (.arity fault)
  | .ok bound =>
    match routine with
    | .standard function =>
      let value ← callStandard around function bound
      return .ok value
    | .host function =>
      modify (·.record (.call function.signature.label bound))
      perform around (around.host.behaviour (← get).records function.id bound)

def failedCall (name : String) (warning : Option String) (f : Failure) : CallOutcome :=
  if f.isTypeMismatch then
    ⟨.typeError, .nil, some ("runtime error in " ++ name ++ ": " ++ f.message), warning⟩
  else
    ⟨.error, .nil, some ("runtime error in " ++ name ++ ": " ++ f.className ++ ": " ++ f.message),
      warning⟩

/-- Outcome of a call of a function. The text of a failure is asked for where nothing catches. -/
def conclude (name : String) (warning : Option String) :
    Except Thrown Value → Except Failure CallOutcome
  | .ok value => .ok ⟨if warning.isSome then .arityWarning else .ok, value, none, warning⟩
  | .error ⟨f, none⟩ => .ok (failedCall name warning f)
  | .error ⟨_, some fault⟩ => .error (.raised fault)

def dispatchTo (around : Surroundings) (b : Builtin Value) (values : List Value) :
    EngineM CallOutcome := do
  match b.marshal values with
  | .error f =>
    match f with
    | .argument _ _ _ =>
      return ⟨.typeError, .nil, some ("invalid argument for " ++ b.name ++ ": " ++ f.message), none⟩
    | f => throw f
  | .ok ⟨arguments, warning⟩ =>
    trace ("dispatch " ++ b.name ++ " argc " ++ toString arguments.length ++ " warning " ++
      warning.getD "None")
    modify (·.log (.called b.name arguments))
    let ended ← tryCatch (invoke around b.routine arguments) fun f => return .error ⟨f, none⟩
    liftM (conclude b.name warning ended)

def dispatch (around : Surroundings) (path : String) (values : List Value)
    (shown : String → Option Value) : EngineM CallOutcome := do
  match (← get).symbols.resolve path shown with
  | .ok function => dispatchTo around function values
  | .error f =>
    match f with
    | .path fault => return ⟨.notFound, .nil, some fault.message, none⟩
    | f => throw f

end Engine
end LineScript
