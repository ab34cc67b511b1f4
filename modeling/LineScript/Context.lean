import LineScript.Value.Render

/-! Variable stores. A context has bindings of its own over a layer that it never changes. -/
namespace LineScript

structure Context where
  bindings : Bindings Value
  parent : Bindings Value

namespace Context

def empty : Context := ⟨[], []⟩

def above (parent : Bindings Value) : Context := ⟨[], parent⟩

def get? (c : Context) (name : String) : Option Value :=
  (c.bindings.get? name).or (c.parent.get? name)

def contains (c : Context) (name : String) : Bool := (c.get? name).isSome

def set (c : Context) (name : String) (value : Value) : Context :=
  { c with bindings := c.bindings.set name value }

def snapshot (c : Context) : Bindings Value := c.parent.merge c.bindings

def fork (c : Context) : Context := .above c.snapshot

def inspect (c : Context) : Except Failure String := do
  let shown ← (Value.mapping c.bindings).inspect
  return "Context(" ++ shown ++ ", parent=" ++ toString c.parent.length ++ " names)"

end Context
end LineScript
