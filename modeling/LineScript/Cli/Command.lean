import LineScript.Cli.Arguments
import LineScript.Cli.Repl
import LineScript.Seed.Load

/-! The command: it runs a script file, or a session if there is none, after seeding variables. -/
namespace LineScript.Cli

inductive Ending where
  | exit (status : Nat)
  | failure (className message : String)
  deriving DecidableEq, Repr

structure Report where
  ending : Ending
  output : String
  errors : String
  deriving DecidableEq, Repr

inductive Progress where
  | done (report : Report)
  | session (repl : Repl)

/-- What a command finds around it. `limit` is how many flushes standard output takes, and `refusal`
what the next write fails with. `arguments` does not include the command's own name. -/
structure Settings where
  host : Host
  files : FileSystem
  readers : Readers
  tracing : Bool
  limit : Option Nat
  refusal : HostFault
  arguments : List String

def Console.report (c : Console) (ending : Ending) : Report :=
  ⟨ending, (c.machine.stream.map (·.written)).getD "", c.errors⟩

def Repl.report (r : Repl) : Report :=
  match r.phase with
  | .crashed fault => r.console.report (.failure fault.className fault.text)
  | _ => r.console.report (.exit 0)

/-- A script that cannot be opened is reported; one that is no text is not. -/
def runScript (settings : Settings) (console : Console) (path : String) : Report :=
  match settings.files.readText path with
  | .error (.file .missing _) =>
    (console.complain ("Error: file not found: " ++ path)).report (.exit 1)
  | .error (.file fault opened) =>
    (console.complain ("Error: cannot read " ++ path ++ ": " ++ fault.message opened)).report
      (.exit 1)
  | .error fault => console.report (.failure fault.className fault.message)
  | .ok source =>
    match console.run settings.host source with
    | (c, .success) => c.report (.exit 0)
    | (c, .error) => c.report (.exit 1)

def runOrOpen (settings : Settings) (console : Console) (script : Option String) : Progress :=
  match script with
  | some path =>
    if path = "" then .session (Repl.start console)
    else .done (runScript settings console path)
  | none => .session (Repl.start console)

def seedAndRun (settings : Settings) (console : Console) (seed script : Option String) : Progress :=
  let path := seed.getD ""
  if path = "" then runOrOpen settings console script
  else
    match loadVariables settings.files settings.readers path with
    | .ok seeded =>
      let machine := seeded.foldl (fun m entry => m.setVariable entry.1 entry.2) console.machine
      runOrOpen settings { console with machine := machine } script
    | .error fault =>
      if fault.isReported then
        .done ((console.complain
          ("Error: cannot load seed file " ++ path ++ ": " ++ fault.message)).report (.exit 1))
      else .done (console.report (.failure fault.className fault.message))

def start (settings : Settings) : Progress :=
  let stream : Stream := ⟨"", 0, settings.limit, settings.refusal⟩
  match parseArguments settings.arguments with
  | .error fault =>
    .done ⟨.exit 2, "", usage ++ "osun: error: " ++ fault.message ++ "\n"⟩
  | .ok .help => .done ⟨.exit 0, ((stream.write? help).map (·.written)).getD "", ""⟩
  | .ok (.run seed script) =>
    match Machine.start { tracing := settings.tracing, stream := some stream } with
    | .error f => .done ⟨.failure f.className f.message, "", ""⟩
    | .ok machine => seedAndRun settings ⟨machine, ""⟩ seed script

def inputLines (text : List Char) : List (List Char) :=
  match (Lexer.splitLines text).reverse with
  | [] :: rest => rest.reverse
  | lines => lines.reverse

def run (settings : Settings) (input : List Char) (interrupted : Bool) : Report :=
  match start settings with
  | .done report => report
  | .session repl =>
    let last := if interrupted then Input.interrupt else .endOfInput
    (repl.feedAll settings.host last (inputLines input)).report

end LineScript.Cli
