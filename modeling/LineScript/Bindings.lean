/-! Names bound to things, in the order in which the names first came. Binding a name again keeps
its place. -/
namespace LineScript

abbrev Bindings (α : Type) := List (String × α)

namespace Bindings

variable {α β : Type}

def get? (b : Bindings α) (name : String) : Option α :=
  match b with
  | [] => none
  | entry :: rest => if entry.1 = name then some entry.2 else get? rest name

def contains (b : Bindings α) (name : String) : Bool := (b.get? name).isSome

def set (b : Bindings α) (name : String) (value : α) : Bindings α :=
  match b with
  | [] => [(name, value)]
  | entry :: rest =>
    if entry.1 = name then (name, value) :: rest else entry :: set rest name value

def erase (b : Bindings α) (name : String) : Bindings α := b.filter (·.1 ≠ name)

def merge (b upper : Bindings α) : Bindings α :=
  upper.foldl (fun merged entry => merged.set entry.1 entry.2) b

def ofList (entries : List (String × α)) : Bindings α := merge [] entries

def sorted (b : Bindings α) : List (String × α) := b.mergeSort fun x y => decide (x.1 ≤ y.1)

theorem get?_set (b : Bindings α) (name other : String) (value : α) :
    (b.set name value).get? other = if other = name then some value else b.get? other := by
  induction b with
  | nil => by_cases h : name = other <;> simp [set, get?, h, eq_comm]
  | cons entry rest ih =>
    by_cases same : entry.1 = name <;> by_cases h : other = name <;> by_cases k : entry.1 = other <;>
      simp_all [set, get?, eq_comm]

end Bindings
end LineScript
