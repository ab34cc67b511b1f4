import LineScript.Seed.Json

/-! Variables from seed files. -/
namespace LineScript

def FileSystem.readText (files : FileSystem) (path : String) : Except SeedFault (List Char) :=
  let opened := Path.ofText path
  if path.toList.contains '\x00' then .error .zeroInPath
  else
    match files opened with
    | .error fault => .error (.file fault opened.text)
    | .ok bytes =>
      match Text.decodeUtf8 bytes with
      | .error fault => .error (.encoding fault)
      | .ok chars => .ok (Text.unifyNewlines chars)

structure Readers where
  yaml : List Char → Except YamlFault Datum
  room : Nat

def Readers.read (readers : Readers) (format : SeedFormat) (path : String) (text : List Char) :
    Except SeedFault Datum :=
  match format with
  | .json => (Json.read readers.room text).mapError .json
  | .yaml => (readers.yaml text).mapError (.yaml · path)

def loadVariables (files : FileSystem) (readers : Readers) (path : String) :
    Except SeedFault (Bindings Value) :=
  match SeedFormat.ofPath? path with
  | none => .error (.unsupportedFormat path)
  | some format => do
    let text ← files.readText path
    (← readers.read format path text).toVariables

end LineScript
