import LineScript.Value.Basic

/-! Effects of a run, and its result. -/
namespace LineScript

structure Effect where
  topics : List String
  message : String
  deriving DecidableEq, Repr

namespace Effect

def printed (message : String) : Effect := ⟨["stdout"], message⟩

def diagnostic (message : String) : Effect := ⟨["diagnostic"], message⟩

def fatal (message : String) : Effect := ⟨["stderr"], message⟩

end Effect

inductive Notice where
  | plain (effect : Effect)
  | report (line : Option Nat) (message : String)
  deriving DecidableEq, Repr

def Notice.effect : Notice → Effect
  | .plain effect => effect
  | .report (some line) message => .diagnostic ("line " ++ toString line ++ ": " ++ message)
  | .report none message => .diagnostic message

inductive Status where
  | success
  | error
  deriving DecidableEq, Repr

def Status.text : Status → String
  | .success => "success"
  | .error => "error"

structure RunResult where
  status : Status
  value : Value
  errorMessage : Option String
  effects : List Effect

namespace RunResult

def messages (r : RunResult) (topic : String) : List String :=
  (r.effects.filter (·.topics = [topic])).map (·.message)

def output (r : RunResult) : List String := r.messages "stdout"

def diagnostics (r : RunResult) : List String := r.messages "diagnostic"

def formatError (r : RunResult) : String :=
  match r.status, r.errorMessage with
  | .success, _ => ""
  | .error, none => "Unknown error"
  | .error, some message => if message = "" then "Unknown error" else message

end RunResult
end LineScript
