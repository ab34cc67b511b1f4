/-! Kinds of values that a parameter may ask for. -/
namespace LineScript

inductive Kind where
  | any
  | float
  | int
  | str
  | bool
  deriving DecidableEq, Repr

namespace Kind

def name : Kind → String
  | .any => "any"
  | .float => "float"
  | .int => "int"
  | .str => "str"
  | .bool => "bool"

def ofName? (name : String) : Option Kind :=
  [Kind.float, .int, .str, .bool].find? (·.name == name)

end Kind

end LineScript
