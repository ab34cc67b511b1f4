import LineScript.Seed.Yaml.Node
import LineScript.Seed.Yaml.Scalar

/-! Data of a YAML document. -/
namespace LineScript.Yaml

def scalarDatum (isPlain : Bool) (text : String) : Except ScalarFault Datum :=
  if isPlain then plain text else .ok (.text text)

def keyDatum : Node → Except ScalarFault Datum
  | .scalar isPlain text => if text = "=" then .ok (.text text) else scalarDatum isPlain text
  | _ => .error .noMeaning

mutual

def Node.faults (depth : Nat) : Node → List (Nat × ScalarFault)
  | .scalar isPlain text =>
    match scalarDatum isPlain text with
    | .ok _ => []
    | .error fault => [(depth, fault)]
  | .sequence items => Node.itemFaults (depth + 1) items
  | .mapping entries => Node.entryFaults (depth + 1) entries

def Node.itemFaults (depth : Nat) : List Node → List (Nat × ScalarFault)
  | [] => []
  | item :: rest => Node.faults depth item ++ Node.itemFaults depth rest

def Node.entryFaults (depth : Nat) : List (Node × Node) → List (Nat × ScalarFault)
  | [] => []
  | (key, value) :: rest =>
    (match keyDatum key with
      | .ok _ => []
      | .error fault => [(depth, fault)]) ++
      Node.faults depth value ++ Node.entryFaults depth rest

end

/-- The fault that is met first where trees are worked off level by level. -/
def firstFault? (faults : List (Nat × ScalarFault)) : Option ScalarFault :=
  let least := (faults.map (·.1)).min?
  (faults.find? fun f => some f.1 == least).map (·.2)

mutual

def Node.datum : Node → Datum
  | .scalar isPlain text =>
    match scalarDatum isPlain text with
    | .ok datum => datum
    | .error _ => .nil
  | .sequence items => .list (Node.itemData items)
  | .mapping entries => .mapping (Node.entryData [] entries)

def Node.itemData : List Node → List Datum
  | [] => []
  | item :: rest => Node.datum item :: Node.itemData rest

def Node.entryData (before : List (Datum × Datum)) : List (Node × Node) → List (Datum × Datum)
  | [] => before
  | (key, value) :: rest =>
    let name := match keyDatum key with
      | .ok datum => datum
      | .error _ => .nil
    Node.entryData (Datum.insert before name (Node.datum value)) rest

end

def malformed {α : Type} : Except YamlFault α := .error (.malformed "the text cannot be read")

def invalid {α : Type} (message : String) : Except YamlFault α := .error (.other "ValueError" message true)

/-- Reads a text of the part of the language that is known here. No document is nil. -/
def read (text : List Char) : Except YamlFault Datum :=
  match tokenize? text with
  | none => malformed
  | some tokens =>
    if tokens.contains .noCharacter then invalid "chr() arg not in range(0x110000)"
    else
      match Node.document? tokens with
      | none => malformed
      | some none => .ok .nil
      | some (some node) =>
        match firstFault? (node.faults 0) with
        | none => .ok node.datum
        | some .noMeaning => malformed
        | some (.date fault) => invalid fault.message
        | some (.digits base) =>
          invalid ("invalid literal for int() with base " ++ toString base ++ ": ''")

end LineScript.Yaml
