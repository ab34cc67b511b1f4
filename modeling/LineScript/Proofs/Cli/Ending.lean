import LineScript.Cli.Command
import LineScript.Proofs.Engine.Reliable

/-! How a command ends. While standard output takes everything, a session never fails and a script
that can be read ends well, so all else is settled before a statement has run. Which faults of the
files are reported does not depend on what YAML is read with. -/
namespace LineScript

/- Of a seed file, what nothing catches: an integer that no number is near to, JSON that is nested too
deep, and what a reader of YAML fails with that is neither a fault of a value nor of a file. -/
inductive SeedFault.Escapes : SeedFault → Prop where
  | integer : Escapes .integerTooLarge
  | depth (container) : Escapes (.json (.tooDeep container))
  | reader (className message path) : Escapes (.yaml (.other className message false) path)

theorem SeedFault.escapesUnreported {fault : SeedFault} : fault.Escapes ↔ fault.isReported = false := by
  constructor
  · rintro (_ | _ | _) <;> rfl
  · intro unreported
    unfold SeedFault.isReported at unreported
    split at unreported
    · exact .integer
    · exact .depth _
    · subst unreported
      exact .reader _ _ _
    · cases unreported

namespace Cli

namespace Console

theorem writeReliable {c : Console} (reliable : c.machine.Reliable) (text : String) :
    ∃ d, c.write text = .ok d ∧ d.machine.Reliable := by
  unfold write
  cases copied : c.machine.stream with
  | none => exact ⟨c, rfl, reliable⟩
  | some stream =>
    have unlimited : stream.limit = none := reliable stream copied
    refine ⟨{ c with machine := { c.machine with stream := some { stream with written := stream.written ++ text } } },
      by simp [Stream.write?, Stream.isFull, unlimited], ?_⟩
    rintro _ ⟨⟩
    exact unlimited

theorem flushReliable {c : Console} (reliable : c.machine.Reliable) : c.flush.machine.Reliable := by
  intro stream flushed
  obtain ⟨before, copied, rfl⟩ := Option.map_eq_some_iff.mp flushed
  exact reliable before copied

theorem runReliable {c : Console} (reliable : c.machine.Reliable) (host : Host) (source : List Char) :
    ∃ d, c.run host source = (d, .success) ∧ d.machine.Reliable := by
  obtain ⟨success, still⟩ := Engine.nestedReliable host host.room .session (parse source) reliable
  have ended : (c.machine.run host .session source).1.status = .success := success
  refine ⟨({ c with machine := (c.machine.run host .session source).2 } : Console).showTrace, ?_, still⟩
  simp only [run, ended]

end Console

namespace Repl

structure Steady (r : Repl) : Prop where
  reliable : r.console.machine.Reliable
  running : ∀ fault, r.phase ≠ .crashed fault

theorem afterSteady {c : Console} (reliable : c.machine.Reliable) (text : String) {next : Console → Repl}
    (goesOn : ∀ d : Console, d.machine.Reliable → (next d).Steady) :
    (after c (c.write text) next).Steady := by
  obtain ⟨d, wrote, still⟩ := c.writeReliable reliable text
  rw [wrote]
  exact goesOn d still

theorem promptSteady {c : Console} (reliable : c.machine.Reliable) (pending : List (List Char)) :
    (prompt c pending).Steady :=
  afterSteady reliable _ (fun _ still => ⟨Console.flushReliable still, by simp⟩)

theorem startSteady {c : Console} (reliable : c.machine.Reliable) : (start c).Steady :=
  afterSteady reliable _ (fun _ still => promptSteady still [])

theorem submitSteady {c : Console} (reliable : c.machine.Reliable) (host : Host) (lines : List (List Char)) :
    (submit host c lines).Steady := by
  unfold submit
  dsimp only
  split
  · exact promptSteady reliable lines
  · split
    · exact promptSteady reliable []
    · obtain ⟨d, ran, still⟩ := c.runReliable reliable host (joinLines lines)
      rw [ran]
      exact promptSteady still []

theorem feedSteady {r : Repl} (steady : r.Steady) (host : Host) (input : Input) : (feed host r input).Steady := by
  unfold feed
  split
  · split
    · exact ⟨steady.reliable, by simp⟩
    · exact submitSteady steady.reliable host _
  · exact submitSteady steady.reliable host _
  · exact afterSteady steady.reliable _ (fun _ still => ⟨still, by simp⟩)
  · exact steady

theorem feedAllSteady {r : Repl} (steady : r.Steady) (host : Host) (last : Input) (lines : List (List Char)) :
    (feedAll host r last lines).Steady := by
  induction lines generalizing r with
  | nil => exact feedSteady steady host last
  | cons line rest ih => exact ih (feedSteady steady host (.line line))

theorem reportSteady {r : Repl} (steady : r.Steady) : r.report.ending = .exit 0 := by
  unfold report
  split
  · rename_i fault crashed
    exact absurd crashed (steady.running fault)
  · rfl

end Repl

def seedFault? (settings : Settings) (seed : Option String) : Option SeedFault :=
  if seed.getD "" = "" then none
  else
    match loadVariables settings.files settings.readers (seed.getD "") with
    | .ok _ => none
    | .error fault => some fault

def scriptFault? (settings : Settings) (script : Option String) : Option SeedFault :=
  if script.getD "" = "" then none
  else
    match settings.files.readText (script.getD "") with
    | .ok _ => none
    | .error fault => some fault

/- The fault that ends a command with a failure: one of the seed file that nothing catches, or one of the
script that is not about opening it. -/
def Uncaught (settings : Settings) (seed script : Option String) (fault : SeedFault) : Prop :=
  seedFault? settings seed = some fault ∧ fault.Escapes ∨
    seedFault? settings seed = none ∧ scriptFault? settings script = some fault ∧ ∀ reason opened, fault ≠ .file reason opened

def scriptComplaint (path : String) (fault : FileFault) (opened : String) : String :=
  match fault with
  | .missing => "Error: file not found: " ++ path
  | fault => "Error: cannot read " ++ path ++ ": " ++ fault.message opened

structure Console.Fresh (c : Console) : Prop where
  stream : ∃ refusal, c.machine.stream = some ⟨"", 0, none, refusal⟩
  errors : c.errors = ""

theorem Console.Fresh.reliable {c : Console} (fresh : c.Fresh) : c.machine.Reliable := by
  intro stream copied
  obtain ⟨refusal, empty⟩ := fresh.stream
  cases empty.symm.trans copied
  rfl

theorem Console.Fresh.complains {c : Console} (fresh : c.Fresh) (line : String) (ending : Ending) :
    (c.complain line).report ending = ⟨ending, "", line ++ "\n"⟩ := by
  obtain ⟨refusal, empty⟩ := fresh.stream
  simp [Console.complain, Console.report, empty, fresh.errors]

theorem Console.Fresh.reports {c : Console} (fresh : c.Fresh) (ending : Ending) :
    c.report ending = ⟨ending, "", ""⟩ := by
  obtain ⟨refusal, empty⟩ := fresh.stream
  simp [Console.report, empty, fresh.errors]

theorem seededStream (seeded : Bindings Value) (m : Machine) :
    (seeded.foldl (fun m entry => m.setVariable entry.1 entry.2) m).stream = m.stream := by
  induction seeded generalizing m with
  | nil => rfl
  | cons entry rest ih => exact ih _

def Progress.finish (host : Host) (last : Input) (lines : List (List Char)) : Progress → Report
  | .done report => report
  | .session repl => (repl.feedAll host last lines).report

section Stages
variable (settings : Settings) {console : Console} (last : Input) (lines : List (List Char))

theorem sessionEnds (reliable : console.machine.Reliable) :
    ((Progress.session (Repl.start console)).finish settings.host last lines).ending = .exit 0 :=
  Repl.reportSteady (Repl.feedAllSteady (Repl.startSteady reliable) settings.host last lines)

theorem scriptCases (script : Option String) :
    script.getD "" = "" ∧ runOrOpen settings console script = .session (Repl.start console) ∨
      script.getD "" ≠ "" ∧
        runOrOpen settings console script = .done (runScript settings console (script.getD "")) := by
  cases script with
  | none => exact .inl ⟨rfl, rfl⟩
  | some path =>
    by_cases empty : path = ""
    · exact .inl ⟨empty, by simp only [runOrOpen, if_pos empty]⟩
    · exact .inr ⟨empty, by simp only [runOrOpen, if_neg empty, Option.getD_some]⟩

theorem scriptRefused (fresh : console.Fresh) {script : Option String} {fault : SeedFault}
    (refused : scriptFault? settings script = some fault) :
    (runOrOpen settings console script).finish settings.host last lines =
      match fault with
      | .file reason opened => ⟨.exit 1, "", scriptComplaint (script.getD "") reason opened ++ "\n"⟩
      | fault => ⟨.failure fault.className fault.message, "", ""⟩ := by
  unfold scriptFault? at refused
  rcases scriptCases settings script with ⟨empty, _⟩ | ⟨named, done⟩
  · simp [empty] at refused
  · rw [if_neg named] at refused
    rw [done]
    simp only [Progress.finish, runScript]
    cases read : settings.files.readText (script.getD "") with
    | ok source => simp [read] at refused
    | error other =>
      simp only [read, Option.some.injEq] at refused
      subst refused
      cases other with
      | file reason opened => cases reason <;> exact fresh.complains _ _
      | _ => exact fresh.reports _

theorem scriptEnds (reliable : console.machine.Reliable) {script : Option String}
    (readable : scriptFault? settings script = none) :
    ((runOrOpen settings console script).finish settings.host last lines).ending = .exit 0 := by
  unfold scriptFault? at readable
  rcases scriptCases settings script with ⟨_, session⟩ | ⟨named, done⟩
  · rw [session]
    exact sessionEnds settings last lines reliable
  · rw [if_neg named] at readable
    rw [done]
    simp only [Progress.finish, runScript]
    cases read : settings.files.readText (script.getD "") with
    | ok source =>
      obtain ⟨_, ran, _⟩ := console.runReliable reliable settings.host source
      simp only [ran]
      rfl
    | error fault => simp [read] at readable

theorem seedRefused (fresh : console.Fresh) {seed : Option String} {fault : SeedFault} (script : Option String)
    (refused : seedFault? settings seed = some fault) :
    (seedAndRun settings console seed script).finish settings.host last lines =
      if fault.isReported then
        ⟨.exit 1, "", "Error: cannot load seed file " ++ seed.getD "" ++ ": " ++ fault.message ++ "\n"⟩
      else ⟨.failure fault.className fault.message, "", ""⟩ := by
  unfold seedFault? at refused
  by_cases empty : seed.getD "" = ""
  · simp [empty] at refused
  · rw [if_neg empty] at refused
    simp only [seedAndRun, if_neg empty]
    cases loaded : loadVariables settings.files settings.readers (seed.getD "") with
    | ok seeded => simp [loaded] at refused
    | error other =>
      simp only [loaded, Option.some.injEq] at refused
      subst refused
      dsimp only
      split
      · exact fresh.complains _ _
      · exact fresh.reports _

theorem seedAccepted (fresh : console.Fresh) {seed : Option String} (script : Option String)
    (accepted : seedFault? settings seed = none) :
    ∃ seeded : Console, seeded.Fresh ∧
      seedAndRun settings console seed script = runOrOpen settings seeded script := by
  unfold seedFault? at accepted
  by_cases empty : seed.getD "" = ""
  · exact ⟨console, fresh, by simp only [seedAndRun, if_pos empty]⟩
  · rw [if_neg empty] at accepted
    cases loaded : loadVariables settings.files settings.readers (seed.getD "") with
    | ok seeded =>
      let machine := seeded.foldl (fun m entry => m.setVariable entry.1 entry.2) console.machine
      have stream : machine.stream = console.machine.stream := seededStream seeded console.machine
      refine ⟨{ console with machine := machine }, ⟨fresh.stream.imp fun _ => stream.trans, fresh.errors⟩, ?_⟩
      simp only [seedAndRun, if_neg empty, loaded, machine]
    | error fault => simp [loaded] at accepted

end Stages

theorem runStages (settings : Settings) (unlimited : settings.limit = none) {seed script : Option String}
    (accepted : parseArguments settings.arguments = .ok (.run seed script)) (input : List Char)
    (interrupted : Bool) :
    ∃ console : Console, console.Fresh ∧ run settings input interrupted =
      (seedAndRun settings console seed script).finish settings.host
        (if interrupted then .interrupt else .endOfInput) (inputLines input) := by
  obtain ⟨machine, started, stream⟩ : ∃ machine,
      Machine.start { tracing := settings.tracing, stream := some ⟨"", 0, settings.limit, settings.refusal⟩ } = .ok machine ∧
        machine.stream = some ⟨"", 0, settings.limit, settings.refusal⟩ := ⟨_, rfl, rfl⟩
  refine ⟨⟨machine, ""⟩, ⟨⟨settings.refusal, by rw [stream, unlimited]⟩, rfl⟩, ?_⟩
  simp only [run, start, accepted, started]
  cases seedAndRun settings ⟨machine, ""⟩ seed script <;> rfl

def oneFile (name : String) (arguments : List String) : Settings where
  host := .behaving fun _ _ _ => .pure .nil
  files path := if path.text = name then .ok [0xff] else .error .missing
  readers := ⟨fun _ => .ok .nil, 900⟩
  tracing := false
  limit := none
  refusal := ⟨"OSError", "disk full", false⟩
  arguments := arguments

theorem loadUnread {files : FileSystem} {readers : Readers} {path : String} {format : SeedFormat} {fault : SeedFault}
    (known : SeedFormat.ofPath? path = some format) (unread : files.readText path = .error fault) :
    loadVariables files readers path = .error fault := by
  unfold loadVariables
  simp only [known, unread]
  rfl

theorem oneFileNoText {name : String} {arguments : List String} (placed : (Path.ofText name).text = name)
    (noZero : name.toList.contains '\x00' = false) :
    (oneFile name arguments).files.readText name = .error (.encoding ⟨0, 1, 0xff, .invalidStart⟩) := by
  simp only [FileSystem.readText, oneFile, placed, noZero, Bool.false_eq_true, if_false, if_true]
  rfl

/- How a command that is understood ends. A fault of the seed file or, where it has none, of the script
keeps everything from running; it is reported, unless nothing catches it. -/
theorem commandEnds (settings : Settings) (unlimited : settings.limit = none) {seed script : Option String}
    (accepted : parseArguments settings.arguments = .ok (.run seed script)) (input : List Char)
    (interrupted : Bool) :
    let report := run settings input interrupted
    (∀ fault, seedFault? settings seed = some fault → ¬fault.Escapes → report =
      ⟨.exit 1, "", "Error: cannot load seed file " ++ seed.getD "" ++ ": " ++ fault.message ++ "\n"⟩) ∧
    (seedFault? settings seed = none → ∀ reason opened,
      scriptFault? settings script = some (.file reason opened) → report =
        ⟨.exit 1, "", scriptComplaint (script.getD "") reason opened ++ "\n"⟩) ∧
    (seedFault? settings seed = none → scriptFault? settings script = none →
      report.ending = .exit 0) ∧
    (∀ fault, Uncaught settings seed script fault → report = ⟨.failure fault.className fault.message, "", ""⟩) ∧
    ((∃ className message, report.ending = .failure className message) ↔ ∃ fault, Uncaught settings seed script fault) := by
  obtain ⟨console, fresh, ran⟩ := runStages settings unlimited accepted input interrupted
  intro report
  change report = _ at ran
  rw [ran]
  generalize (if interrupted then Input.interrupt else .endOfInput) = last
  generalize inputLines input = lines
  unfold Uncaught
  cases seedFault : seedFault? settings seed with
  | some fault =>
    rw [seedRefused settings last lines fresh script seedFault]
    cases reported : fault.isReported <;> simp [SeedFault.escapesUnreported, reported]
  | none =>
    obtain ⟨seeded, still, same⟩ := seedAccepted settings fresh script seedFault
    rw [same]
    cases scriptFault : scriptFault? settings script with
    | none => simp [scriptEnds settings last lines still.reliable scriptFault]
    | some fault =>
      rw [scriptRefused settings last lines still scriptFault]
      cases fault <;> simp

theorem seedNoText :
    (run (oneFile "s.json" ["--seed", "s.json", "main.os"]) [] false).ending = .exit 1 := by
  have looks : classifyAll ["--seed", "s.json", "main.os"] =
      .ok [.option .seed false none, .operand "s.json", .operand "main.os"] := rfl
  have accepted : parseArguments ["--seed", "s.json", "main.os"] = .ok (.run (some "s.json") (some "main.os")) := by
    simp only [parseArguments, looks, bind, Except.bind, walk, dropSeparator]
    rfl
  have format : SeedFormat.ofPath? "s.json" = some .json := by decide +kernel
  have placed : (Path.ofText "s.json").text = "s.json" := by decide +kernel
  have read := @oneFileNoText "s.json" ["--seed", "s.json", "main.os"] placed (by decide +kernel)
  have refused : seedFault? (oneFile "s.json" ["--seed", "s.json", "main.os"]) (some "s.json") =
      some (.encoding ⟨0, 1, 0xff, .invalidStart⟩) := by
    have loaded := @loadUnread _ (oneFile "s.json" ["--seed", "s.json", "main.os"]).readers _ _ _ format read
    simp only [seedFault?, Option.getD_some, loaded]
    rfl
  have caught : ¬SeedFault.Escapes (.encoding ⟨0, 1, 0xff, .invalidStart⟩) := fun escapes => by cases escapes
  have ended := commandEnds (oneFile "s.json" ["--seed", "s.json", "main.os"]) rfl accepted [] false
  rw [ended.1 _ refused caught]

theorem scriptNoText : ¬ ∀ (settings : Settings) (seed script : Option String) (input : List Char)
    (interrupted : Bool), settings.limit = none →
      parseArguments settings.arguments = .ok (.run seed script) →
      ∃ status ≤ 1, (run settings input interrupted).ending = .exit status := by
  intro caught
  let settings := oneFile "main.os" ["main.os"]
  have looks : classifyAll ["main.os"] = .ok [.operand "main.os"] := rfl
  have accepted : parseArguments ["main.os"] = .ok (.run none (some "main.os")) := by
    simp only [parseArguments, looks, bind, Except.bind, walk, dropSeparator]
    rfl
  have placed : (Path.ofText "main.os").text = "main.os" := by decide +kernel
  have read := @oneFileNoText "main.os" ["main.os"] placed (by decide +kernel)
  have refused : scriptFault? settings (some "main.os") = some (.encoding ⟨0, 1, 0xff, .invalidStart⟩) := by
    simp only [scriptFault?, Option.getD_some, settings, read]
    rfl
  obtain ⟨console, fresh, ran⟩ := runStages settings rfl accepted [] false
  obtain ⟨status, -, ended⟩ := caught settings none (some "main.os") [] false rfl accepted
  have ending := congrArg Report.ending (scriptRefused settings .endOfInput (inputLines []) fresh refused)
  rw [ran] at ended
  simp only [seedAndRun, Option.getD_none, if_true] at ended
  cases ending.symm.trans ended

end Cli
end LineScript
