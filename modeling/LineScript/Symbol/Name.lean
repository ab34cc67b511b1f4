import LineScript.Text.Split
import LineScript.Text.Uppercase

/-! Names of symbols, and the script-side names of host methods. -/
namespace LineScript.Name

def isFirst (c : Char) : Bool := c.isAlpha || c = '_'

def isLater (c : Char) : Bool := c.isAlphanum || c = '_'

def isSymbol (name : String) : Bool :=
  match name.toList with
  | [] => false
  | c :: cs => isFirst c && cs.all isLater

def capitalize : List Char → List Char
  | [] => []
  | c :: cs => Text.upper c ++ cs

def camelCase (name : String) : String :=
  match splitWhere (· = '_') name.toList with
  | [] => ""
  | head :: rest => String.ofList (head ++ rest.flatMap capitalize)

end LineScript.Name
