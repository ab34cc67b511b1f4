import LineScript.Number.Text
import LineScript.Text.Quoted
import LineScript.Value.Basic

/-! Texts of values: the rendering that scripts print and concatenate, and the inspection that
traces show. -/
namespace LineScript

/-- Integral numbers below `2 ^ 63` in size are written without a point. -/
def Number.render (x : Number) : String :=
  match x with
  | .nan => "NaN"
  | .infinite negative => if negative then "-Inf" else "+Inf"
  | .finite _ _ =>
    match x.toInt? with
    | some n => if n.natAbs < Nat.pow 2 63 then toString n else x.text
    | none => x.text

namespace Value

def ofNearest {α : Type} (make : Number → α) : Option Number → Except Failure α
  | some x => .ok (make x)
  | none => .error .integerTooLarge

/-- An integer is rendered as the number nearest to it, so one without such a number fails. -/
def render : Value → Except Failure String
  | .nil => .ok "nil"
  | .boolean b => .ok (if b then "true" else "false")
  | .number x => .ok x.render
  | .integer n => ofNearest Number.render (Number.ofInt? n)
  | .text s => .ok s
  | .function f => f.appearance.text.mapError .raised
  | .builtin b => .ok ("<builtin " ++ b.name ++ ">")
  | .group name _ => .ok ("<namespace " ++ (if name = "" then "anonymous" else name) ++ ">")
  | .mapping _ => .ok "<namespace anonymous>"
  | .object o => .ok ("<host " ++ o.className ++ ">")
  | .foreign appearance => appearance.text.mapError .raised

def truthText (b : Bool) : String := if b then "True" else "False"

mutual

def inspect : Value → Except Failure String
  | .nil => .ok "None"
  | .boolean b => .ok (truthText b)
  | .number x => .ok x.text
  | .integer n => if n.natAbs < Nat.pow 10 maxDigits then .ok (toString n) else .error .integerTooLong
  | .text s => .ok (Text.quoted s)
  | .function f => f.appearance.inspection.mapError .raised
  | .builtin b => .ok ("<builtin " ++ b.name ++ ">")
  | .group name _ => .ok ("<namespace " ++ name ++ ">")
  | .mapping members => do
    let shown ← inspectMembers members
    return "\x7b" ++ ", ".intercalate shown ++ "\x7d"
  | .object o => o.inspection.mapError .raised
  | .foreign appearance => appearance.inspection.mapError .raised

def inspectMembers : List (String × Value) → Except Failure (List String)
  | [] => .ok []
  | (key, value) :: rest => do
    let first ← inspect value
    let others ← inspectMembers rest
    return (Text.quoted key ++ ": " ++ first) :: others

end

end Value
end LineScript
