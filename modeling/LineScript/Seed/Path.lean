import LineScript.Text.Split

/-! Paths of files, and the formats that their names stand for. -/
namespace LineScript

structure Path where
  root : String
  parts : List String
  deriving DecidableEq, Repr

namespace Path

def ofText (text : String) : Path :=
  let slashes := (text.toList.takeWhile (· = '/')).length
  let root := if slashes = 0 then "" else if slashes = 2 then "//" else "/"
  let parts := (splitWhere (· = '/') text.toList).filter fun part => part ≠ [] && part ≠ ['.']
  ⟨root, parts.map String.ofList⟩

def text (p : Path) : String :=
  if p.root = "" && p.parts.isEmpty then "." else p.root ++ "/".intercalate p.parts

def name (p : Path) : String := p.parts.getLast?.getD ""

def suffix (p : Path) : String :=
  let reversed := p.name.toList.reverse
  let extension := reversed.takeWhile (· ≠ '.')
  let stem := (reversed.dropWhile (· ≠ '.')).drop 1
  if extension.isEmpty || stem.isEmpty then "" else "." ++ String.ofList extension.reverse

end Path

inductive SeedFormat where
  | json
  | yaml
  deriving DecidableEq, Repr

def SeedFormat.text : SeedFormat → String
  | .json => "json"
  | .yaml => "yaml"

def SeedFormat.ofPath? (path : String) : Option SeedFormat :=
  let suffix := String.ofList ((Path.ofText path).suffix.toList.map Char.toLower)
  if suffix = ".json" then some .json
  else if suffix = ".yaml" || suffix = ".yml" then some .yaml
  else none

end LineScript
