import LineScript.Engine.Session
import LineScript.Text.Space

/-! The interactive session: lines are read until all their blocks are closed, and run. -/
namespace LineScript.Cli

structure Console where
  machine : Machine
  errors : String

namespace Console

def write (c : Console) (text : String) : Except HostFault Console :=
  match c.machine.stream with
  | none => .ok c
  | some stream =>
    match stream.write? text with
    | some stream => .ok { c with machine := { c.machine with stream := some stream } }
    | none => .error stream.refusal

def flush (c : Console) : Console :=
  { c with machine := { c.machine with stream := c.machine.stream.map Stream.flush } }

def complain (c : Console) (line : String) : Console := { c with errors := c.errors ++ line ++ "\n" }

def showTrace (c : Console) : Console :=
  let shown := c.machine.trace.foldl (fun text line => text ++ line ++ "\n") ""
  { machine := { c.machine with trace := [] }, errors := c.errors ++ shown }

def run (c : Console) (host : Host) (source : List Char) : Console × Status :=
  let (result, machine) := c.machine.run host .session source
  let c := { c with machine := machine }.showTrace
  match result.status with
  | .success => (c, .success)
  | .error => (c.complain result.formatError, .error)

end Console

inductive Input where
  | line (text : List Char)
  | endOfInput
  | interrupt

inductive Phase where
  | reading (pending : List (List Char))
  | finished
  | crashed (fault : HostFault)

structure Repl where
  console : Console
  phase : Phase

namespace Repl

def isOver (r : Repl) : Bool :=
  match r.phase with
  | .reading _ => false
  | _ => true

def after (console : Console) (written : Except HostFault Console) (next : Console → Repl) : Repl :=
  match written with
  | .ok c => next c
  | .error fault => ⟨console, .crashed fault⟩

def prompt (console : Console) (pending : List (List Char)) : Repl :=
  let text := if pending.isEmpty then ">> " else ".. "
  after console (console.write text) fun c => ⟨c.flush, .reading pending⟩

def joinLines : List (List Char) → List Char
  | [] => []
  | [line] => line
  | line :: rest => line ++ '\n' :: joinLines rest

def banner : String := "Osun REPL v0.1\nType 'exit' or press Ctrl+D to quit.\n"

def start (console : Console) : Repl :=
  after console (console.write banner) fun c => prompt c []

/-- Reads on while a block is open; runs what is complete, unless it is blank. -/
def submit (host : Host) (console : Console) (lines : List (List Char)) : Repl :=
  let source := joinLines lines
  if 0 < braceDepth source then prompt console lines
  else if (Text.trim source).isEmpty then prompt console []
  else prompt (console.run host source).1 []

def leave (console : Console) : Repl :=
  after console (console.write "\nExiting.\n") fun c => ⟨c, .finished⟩

def feed (host : Host) (r : Repl) (input : Input) : Repl :=
  match r.phase, input with
  | .reading [], .line text =>
    if Text.trim text = "exit".toList then ⟨r.console, .finished⟩ else submit host r.console [text]
  | .reading pending, .line text => submit host r.console (pending ++ [text])
  | .reading _, _ => leave r.console
  | _, _ => r

def drain (r : Repl) : String × String × Repl :=
  let stream := r.console.machine.stream
  let machine := { r.console.machine with stream := stream.map ({ · with written := "" }) }
  ((stream.map (·.written)).getD "", r.console.errors, { r with console := ⟨machine, ""⟩ })

def feedAll (host : Host) (r : Repl) (last : Input) : List (List Char) → Repl
  | [] => feed host r last
  | line :: rest => feedAll host (feed host r (.line line)) last rest

end Repl
end LineScript.Cli
