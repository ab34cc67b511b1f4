import LineScript.Context
import LineScript.Engine.Evaluate
import LineScript.Engine.Host
import LineScript.Symbol.Resolve

/-! State of an engine, and the primitive steps on it. A step that fails keeps what it has done. -/
namespace LineScript

structure Journal where
  effects : List Effect
  line : Option Nat

def Journal.empty : Journal := ⟨[], none⟩

/-- A run that is going on. Runs of the main session share one journal; any other has its own. -/
inductive Frame where
  | session
  | own (journal : Journal)

/-- A stream that effects are copied to. After `limit` flushes every write fails with `refusal`. -/
structure Stream where
  written : String
  flushes : Nat
  limit : Option Nat
  refusal : HostFault

namespace Stream

def isFull (s : Stream) : Bool :=
  match s.limit with
  | none => false
  | some limit => limit ≤ s.flushes

def write? (s : Stream) (text : String) : Option Stream :=
  if s.isFull then none else some { s with written := s.written ++ text }

def flush (s : Stream) : Stream := { s with flushes := s.flushes + 1 }

def writeLine? (s : Stream) (line : String) : Option Stream :=
  (s.write? (line ++ "\n")).map flush

end Stream

inductive Event where
  | started (place : Place)
  | said (notice : Notice)
  | called (name : String) (arguments : List Value)
  | ended (result : RunResult)

structure Machine where
  symbols : SymbolTable
  globals : Bindings Value
  main : Context
  contexts : List Context
  journal : Journal
  frames : List Frame
  stream : Option Stream
  strict : Bool
  tracing : Bool
  trace : List String
  records : List HostRecord
  history : List Event

abbrev EngineM := ExceptT Failure (StateM Machine)

namespace Machine

def context? (m : Machine) : ContextRef → Option Context
  | .main => some m.main
  | .layered index => m.contexts[index]?

def setContext (m : Machine) (ref : ContextRef) (c : Context) : Machine :=
  match ref with
  | .main => { m with main := c }
  | .layered index => { m with contexts := m.contexts.set index c }

def addContext (m : Machine) (c : Context) : Machine := { m with contexts := m.contexts ++ [c] }

def lookup (m : Machine) (ref : ContextRef) (name : String) : Option Value :=
  (m.context? ref).bind (·.get? name)

def assign (m : Machine) (ref : ContextRef) (name : String) (value : Value) : Machine :=
  match m.context? ref with
  | some c => m.setContext ref (c.set name value)
  | none => m

def layer (m : Machine) : Bindings Value := m.globals.merge m.main.bindings

def activeJournal (m : Machine) : Journal :=
  match m.frames with
  | .own journal :: _ => journal
  | _ => m.journal

def setActiveJournal (m : Machine) (journal : Journal) : Machine :=
  match m.frames with
  | .own _ :: rest => { m with frames := .own journal :: rest }
  | _ => { m with journal := journal }

def append (m : Machine) (effect : Effect) : Machine :=
  let journal := m.activeJournal
  m.setActiveJournal { journal with effects := journal.effects ++ [effect] }

def log (m : Machine) (event : Event) : Machine := { m with history := m.history ++ [event] }

def say (m : Machine) (notice : Notice) : Machine := (m.append notice.effect).log (.said notice)

def setLine (m : Machine) (line : Nat) : Machine :=
  m.setActiveJournal { m.activeJournal with line := some line }

def record (m : Machine) (r : HostRecord) : Machine := { m with records := m.records ++ [r] }

def scope (m : Machine) (ref : ContextRef) : Scope := ⟨m.lookup ref, m.strict⟩

end Machine

namespace Engine

/-- The effect enters the journal first, so it stays there if the stream refuses it. -/
def announce (notice : Notice) : EngineM Unit := do
  modify (·.say notice)
  match (← get).stream with
  | none => pure ()
  | some stream =>
    match stream.writeLine? notice.effect.message with
    | some stream => modify ({ · with stream := some stream })
    | none => throw (.raised stream.refusal)

def emit (effect : Effect) : EngineM Unit := announce (.plain effect)

def report (message : String) (line : Option Nat) : EngineM Unit := announce (.report line message)

def announceAll : List Notice → EngineM Unit
  | [] => return ()
  | notice :: rest => do
    announce notice
    announceAll rest

def trace (message : String) : EngineM Unit :=
  modify fun m => if m.tracing then { m with trace := m.trace ++ ["[DBG] " ++ message] } else m

end Engine
end LineScript
