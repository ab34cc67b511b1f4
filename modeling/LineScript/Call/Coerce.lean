import LineScript.Number.Literal
import LineScript.Value.Render

/-! Conversion of arguments to the kinds that parameters declare. -/
namespace LineScript.Value

def toInteger? : Value → Except Failure (Option Int)
  | .integer n => ofNearest (fun _ => some n) (Number.ofInt? n)
  | .number x => .ok x.toInt?
  | .text s => .ok ((Number.ofText? s).bind Number.toInt?)
  | _ => .ok none

def toFloat? : Value → Except Failure (Option Number)
  | .integer n => ofNearest some (Number.ofInt? n)
  | .number x => .ok (some x)
  | .text s => .ok (Number.ofText? s)
  | _ => .ok none

def toText? : Value → Except Failure (Option String)
  | .text s => .ok (some s)
  | .boolean b => some <$> (Value.boolean b).render
  | .integer n => some <$> (Value.integer n).render
  | .number x => some <$> (Value.number x).render
  | _ => .ok none

def toBoolean? : Value → Option Bool
  | .boolean b => some b
  | .text "true" => some true
  | .text "false" => some false
  | _ => none

def convert? (kind : Kind) (v : Value) : Except Failure (Option Value) :=
  match kind with
  | .any => .ok (some v)
  | .float => return (← v.toFloat?).map .number
  | .int => return (← v.toInteger?).map .integer
  | .str => return (← v.toText?).map .text
  | .bool => .ok (v.toBoolean?.map .boolean)

def coerce (v : Value) (spec : ParamSpec) : Except Failure Value :=
  match v with
  | .nil =>
    if spec.kind = .any || spec.nullable then .ok .nil
    else .error (.argument spec.name spec.kind .nil)
  | v => do
    match ← v.convert? spec.kind with
    | some converted => .ok converted
    | none => .error (.argument spec.name spec.kind (.value v.typeName (← v.render)))

end LineScript.Value
