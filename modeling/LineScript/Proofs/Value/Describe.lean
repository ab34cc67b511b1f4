import LineScript.Value.Basic

/-! What a function of the host tells of its parameters. One that hides them passes for a function of
any number of any values; one with a declaration that cannot be looked up tells nothing at all. -/
namespace LineScript.HostFunction
variable (name : String) (f : HostFunction Value)

def Describes : Prop := f.hidden = true ∨ f.signature.unhashable? = none

instance : Decidable f.Describes := inferInstanceAs (Decidable (_ ∨ _))

def told : Descriptor := if f.hidden then .unknown else f.signature.describe Value.isNil

def under : Builtin Value := ⟨name, .host f, f.told⟩

variable {name} {f}

theorem describesOk (describes : f.Describes) : f.describe = .ok f.told := by
  unfold describe told
  rcases describes with isHidden | hashable
  · rw [if_pos isHidden, if_pos isHidden]
  · rw [hashable]
    split <;> rfl

theorem builtinOk (describes : f.Describes) : f.builtin name = .ok (f.under name) := by
  rw [builtin, describesOk describes]
  rfl

theorem builtinRefused (silent : ¬f.Describes) : ∃ typeName, f.signature.unhashable? = some typeName ∧
    f.builtin name = .error (.unhashable typeName) := by
  obtain ⟨shown, unhashable⟩ := not_or.mp silent
  obtain ⟨typeName, first⟩ := Option.ne_none_iff_exists'.mp unhashable
  refine ⟨typeName, first, ?_⟩
  rw [builtin, describe, if_neg shown, first]
  rfl

theorem builtinCases (f : HostFunction Value) (name : String) : (f.Describes ∧ f.builtin name = .ok (f.under name)) ∨
    (¬f.Describes ∧ ∃ typeName, f.signature.unhashable? = some typeName ∧
      f.builtin name = .error (.unhashable typeName)) := by
  by_cases describes : f.Describes
  · exact .inl ⟨describes, builtinOk describes⟩
  · exact .inr ⟨describes, builtinRefused describes⟩

end LineScript.HostFunction
