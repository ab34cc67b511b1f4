import LineScript.Cli.Command
import LineScript.Seed.Yaml.Document
import Std.Time.DateTime.Timestamp

/-! The program: real files, clock and terminal around the command. -/
namespace LineScript.Cli

def faultOfCode (code : UInt32) : FileFault :=
  if code = 20 then .notDirectory
  else if code = 21 then .directory
  else if code = 36 then .nameTooLong
  else .other "OSError" ("[Errno " ++ toString code ++ "]")

def faultOf : IO.Error → FileFault
  | .noFileOrDirectory .. => .missing
  | .inappropriateType _ code _ => faultOfCode code
  | .invalidArgument _ code _ => faultOfCode code
  | .permissionDenied .. => .denied
  | e => .other "OSError" (toString e)

def readFile (path : Path) : IO (Path × Except FileFault (List UInt8)) := do
  try
    return (path, .ok (← IO.FS.readBinFile path.text).toList)
  catch e => return (path, .error (faultOf e))

def readFiles (arguments : List String) : IO FileSystem := do
  let paths := match parseArguments arguments with
    | .ok request => request.paths
    | .error _ => []
  let files ← paths.mapM fun path => readFile (.ofText path)
  return fun path => (files.lookup path).getD (.error .missing)

def presentHost : IO Host := do
  let now ← Std.Time.Timestamp.now
  let nanoseconds := now.toNanosecondsSinceUnixEpoch.val.toNat
  return {
    clock := fun _ => .ofRatio false nanoseconds 1000000000
    behaviour := fun _ _ _ => .pure .nil
    room := 80
    overflow := ⟨"RecursionError", "maximum recursion depth exceeded", false⟩ }

def display (output errors : String) : IO Unit := do
  (← IO.getStdout).putStr output
  (← IO.getStdout).flush
  (← IO.getStderr).putStr errors

partial def converse (repl : Repl) : IO UInt32 := do
  let (output, errors, repl) := repl.drain
  display output errors
  if repl.isOver then return 0
  let line ← (← IO.getStdin).getLine
  let input := if line.isEmpty then Input.endOfInput
    else .line (if line.endsWith "\n" then line.toList.dropLast else line.toList)
  converse (repl.feed (← presentHost) input)

def finish (report : Report) : IO UInt32 := do
  display report.output report.errors
  match report.ending with
  | .exit status => return status.toUInt32
  | .failure className message =>
    IO.eprintln (className ++ ": " ++ message)
    return 1

end LineScript.Cli

def main (arguments : List String) : IO UInt32 := do
  let tracing := ((← IO.getEnv "OSUN_DEBUG").getD "") ≠ ""
  let settings : LineScript.Cli.Settings := {
    host := ← LineScript.Cli.presentHost
    files := ← LineScript.Cli.readFiles arguments
    readers := ⟨LineScript.Yaml.read, 990⟩
    tracing := tracing
    limit := none
    refusal := default
    arguments := arguments }
  match LineScript.Cli.start settings with
  | .done report => LineScript.Cli.finish report
  | .session repl => LineScript.Cli.converse repl
