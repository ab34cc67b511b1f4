import LineScript.Engine.Evaluate

/-! Names that are bound to nothing. A strict scope refuses exactly the operands that a lenient one
takes for their own text; but for that the two find the same values. -/
namespace LineScript

structure Expr.Unresolved (lookup : String → Option Value) (e : Expr) : Prop where
  nonempty : e.tokens ≠ []
  notLiteral : e.literal? = none
  unbound : lookup e.text = none
  notNumber : Number.ofText? e.text = none

def InRange (lookup : String → Option Value) : Prop :=
  ∀ name n, lookup name = some (.integer n) → (Number.ofInt? n).isSome = true

def Internal {α : Type} (e : Except Failure α) : Prop := ∀ f, e = .error f → f.isEngine = false

theorem internalOk {α : Type} (value : α) : Internal (.ok value) := fun _ failed => by cases failed

theorem internalError {α : Type} {f : Failure} (notEngine : f.isEngine = false) :
    Internal (.error f : Except Failure α) := fun _ failed => Except.error.inj failed ▸ notEngine

theorem Internal.bind {α β : Type} {e : Except Failure α} {next : α → Except Failure β}
    (first : Internal e) (rest : ∀ value, Internal (next value)) : Internal (e >>= next) := by
  cases e with
  | ok value => exact rest value
  | error f => exact internalError (first f rfl)

theorem Value.nearestRefuses {α : Type} {make : Number → α} {near : Option Number} {f : Failure}
    (refused : ofNearest make near = .error f) : f = .integerTooLarge ∧ near = none := by
  cases near with
  | some x => cases refused
  | none => exact ⟨(Except.error.inj refused).symm, rfl⟩

/- A value without a text is an integer that is too large, or one whose text the host fails to make. -/
theorem Value.renderRefuses {value : Value} {f : Failure} (refused : value.render = .error f) :
    (f = .integerTooLarge ∧ ∃ n, value = .integer n ∧ Number.ofInt? n = none) ∨ ∃ fault, f = .raised fault := by
  have own {text : Except HostFault String} (refused : text.mapError .raised = .error f) :
      ∃ fault, f = .raised fault := by
    cases text with
    | ok text => cases refused
    | error fault => exact ⟨fault, (Except.error.inj refused).symm⟩
  cases value with
  | integer n =>
    simp only [render] at refused
    obtain ⟨same, tooLarge⟩ := nearestRefuses refused
    exact .inl ⟨same, n, rfl, tooLarge⟩
  | function f => exact .inr (own refused)
  | foreign appearance => exact .inr (own refused)
  | _ => simp only [render, reduceCtorEq] at refused

theorem ownInternal (text : Except HostFault String) : Internal (text.mapError Failure.raised) := by
  cases text with
  | ok text => exact internalOk text
  | error fault => exact internalError rfl

mutual

theorem Value.inspectInternal (value : Value) : Internal value.inspect := by
  cases value with
  | integer n =>
    rw [inspect]
    split
    · exact internalOk _
    · exact internalError rfl
  | function f => simpa only [inspect] using ownInternal _
  | object o => simpa only [inspect] using ownInternal _
  | foreign appearance => simpa only [inspect] using ownInternal _
  | mapping members =>
    rw [inspect]
    exact (inspectMembersInternal members).bind (fun _ => internalOk _)
  | _ =>
    rw [inspect]
    exact internalOk _

theorem Value.inspectMembersInternal (members : List (String × Value)) : Internal (inspectMembers members) := by
  match members with
  | [] =>
    rw [inspectMembers]
    exact internalOk _
  | (key, value) :: rest =>
    rw [inspectMembers]
    refine (inspectInternal value).bind (fun _ => ?_)
    exact (inspectMembersInternal rest).bind (fun _ => internalOk _)

end

theorem Value.nearestInternal {α : Type} (make : Number → α) (near : Option Number) :
    Internal (ofNearest make near) := by
  intro f refused
  rw [(nearestRefuses refused).1]
  rfl

theorem Value.renderInternal (value : Value) : Internal value.render := by
  intro f refused
  rcases renderRefuses refused with ⟨rfl, -⟩ | ⟨fault, rfl⟩ <;> rfl

theorem Value.toNumberInternal (value : Value) : Internal value.toNumber? := by
  cases value with
  | integer n => simpa only [toNumber?] using nearestInternal some _
  | _ =>
    simp only [toNumber?]
    exact internalOk _

theorem Value.compareInternal (a b : Value) (c : Comparison) : Internal (a.compare b (some c)) := by
  unfold compare
  refine (toNumberInternal a).bind (fun x => (toNumberInternal b).bind (fun y => ?_))
  have rendered (use : String → String → Bool) : Internal (do return use (← a.render) (← b.render)) :=
    (renderInternal a).bind (fun _ => (renderInternal b).bind (fun _ => internalOk _))
  dsimp only
  split
  · exact internalOk _
  · split
    · exact rendered (· == ·)
    · exact rendered (· != ·)
    · exact internalOk _

namespace Expr

def summands (e : Expr) : List Expr := if e.isSum then e.operands else [e]

/- A name whose value has no text, because the host fails to make it. -/
def Mute (lookup : String → Option Value) (fault : HostFault) (e : Expr) : Prop :=
  ∃ value, lookup e.text = some value ∧ value.render = .error (.raised fault)

section Strict
variable (lookup : String → Option Value)

theorem operandStrict (e : Expr) :
    e.Unresolved lookup ∧ e.evalOperand ⟨lookup, true⟩ = .error (.unresolvedName e.text) ∨
      ¬ e.Unresolved lookup ∧ e.evalOperand ⟨lookup, true⟩ = e.evalOperand ⟨lookup, false⟩ := by
  unfold evalOperand
  by_cases empty : e.tokens = []
  · exact .inr ⟨fun unresolved => unresolved.nonempty empty, by simp [empty]⟩
  · have some : e.tokens.isEmpty = false := by simpa using empty
    simp only [some, Bool.false_eq_true, if_false]
    cases literal : e.literal? with
    | some content => exact .inr ⟨fun unresolved => by simp [unresolved.notLiteral] at literal, rfl⟩
    | none =>
      cases bound : lookup e.text with
      | some value => exact .inr ⟨fun unresolved => by simp [unresolved.unbound] at bound, by simp only⟩
      | none =>
        cases number : Number.ofText? e.text with
        | some x => exact .inr ⟨fun unresolved => by simp [unresolved.notNumber] at number, by simp only⟩
        | none => exact .inl ⟨⟨empty, literal, bound, number⟩, by simp⟩

theorem renderAllStrict (es : List Expr) :
    renderAll ⟨lookup, true⟩ es = renderAll ⟨lookup, false⟩ es ∨
      ∃ text, renderAll ⟨lookup, true⟩ es = .error (.unresolvedName text) := by
  induction es with
  | nil => exact .inl rfl
  | cons e rest ih =>
    simp only [renderAll]
    rcases operandStrict lookup e with ⟨_, failed⟩ | ⟨_, same⟩
    · exact .inr ⟨e.text, by rw [failed]; rfl⟩
    · rw [same]
      cases e.evalOperand ⟨lookup, false⟩ with
      | error f => exact .inl rfl
      | ok value =>
        cases rendered : value.render with
        | error f => exact .inl (by simp [rendered, bind, Except.bind])
        | ok first =>
          rcases ih with same | ⟨text, failed⟩
          · exact .inl (by rw [same])
          · exact .inr ⟨text, by simp [rendered, failed, bind, Except.bind]⟩

theorem evalStrict (e : Expr) :
    e.eval ⟨lookup, true⟩ = e.eval ⟨lookup, false⟩ ∨
      ∃ text, e.eval ⟨lookup, true⟩ = .error (.unresolvedName text) := by
  unfold eval
  split
  · cases bound : lookup e.text with
    | some value => exact .inl (by simp only [bound])
    | none =>
      simp only [bound]
      rcases renderAllStrict lookup e.operands with same | ⟨text, failed⟩
      · exact .inl (by rw [same])
      · exact .inr ⟨text, by rw [failed]; rfl⟩
  · rcases operandStrict lookup e with ⟨_, failed⟩ | ⟨_, same⟩
    · exact .inr ⟨e.text, failed⟩
    · exact .inl same

theorem evalConditionStrict (e : Expr) :
    e.evalCondition ⟨lookup, true⟩ = e.evalCondition ⟨lookup, false⟩ ∨
      ∃ text, e.evalCondition ⟨lookup, true⟩ = .error (.unresolvedName text) := by
  unfold evalCondition
  split
  · rcases evalStrict lookup e with same | ⟨text, failed⟩
    · exact .inl (by rw [same])
    · exact .inr ⟨text, by rw [failed]; rfl⟩
  · rename_i c _
    simp only
    generalize e.part (e.tokens.takeWhile fun t => !t.isOp c.operator) = left
    generalize e.part ((e.tokens.dropWhile fun t => !t.isOp c.operator).drop 1) = right
    rcases evalStrict lookup left with same | ⟨text, failed⟩
    · rw [same]
      cases left.eval ⟨lookup, false⟩ with
      | error f => exact .inl rfl
      | ok value =>
        rcases evalStrict lookup right with same | ⟨text, failed⟩
        · exact .inl (by rw [same])
        · exact .inr ⟨text, by rw [failed]; rfl⟩
    · exact .inr ⟨text, by rw [failed]; rfl⟩

theorem operandInternal (e : Expr) : Internal (e.evalOperand ⟨lookup, false⟩) := by
  unfold evalOperand
  split
  · exact internalOk _
  · split
    · exact internalOk _
    · split
      · exact internalOk _
      · split
        · exact internalOk _
        · exact internalOk _

theorem renderAllInternal (es : List Expr) : Internal (renderAll ⟨lookup, false⟩ es) := by
  induction es with
  | nil => exact internalOk _
  | cons e rest ih =>
    refine (operandInternal lookup e).bind (fun value => (Value.renderInternal value).bind (fun first => ?_))
    exact ih.bind (fun others => internalOk _)

theorem evalInternal (e : Expr) : Internal (e.eval ⟨lookup, false⟩) := by
  unfold eval
  split
  · split
    · exact internalOk _
    · exact (renderAllInternal lookup e.operands).bind (fun _ => internalOk _)
  · exact operandInternal lookup e

theorem evalConditionInternal (e : Expr) : Internal (e.evalCondition ⟨lookup, false⟩) := by
  unfold evalCondition
  split
  · exact (evalInternal lookup e).bind (fun _ => internalOk _)
  · refine (evalInternal lookup _).bind (fun left => (evalInternal lookup _).bind (fun right => ?_))
    exact (Value.compareInternal left right _).bind (fun _ => internalOk _)

end Strict

section Lenient
variable {lookup : String → Option Value}

section InRange
variable (inRange : InRange lookup)
include inRange

theorem shownRenders {name : String} {value : Value} (bound : lookup name = some value) :
    (∃ text, value.render = .ok text) ∨ ∃ fault, value.render = .error (.raised fault) := by
  cases rendered : value.render with
  | ok text => exact .inl ⟨text, rfl⟩
  | error f =>
    rcases Value.renderRefuses rendered with ⟨-, n, rfl, tooLarge⟩ | ⟨fault, rfl⟩
    · have near := inRange name n bound
      rw [tooLarge] at near
      exact absurd near (by decide)
    · exact .inr ⟨fault, rfl⟩

theorem operandLenient (e : Expr) : ∃ value, e.evalOperand ⟨lookup, false⟩ = .ok value ∧
    ((∃ text, value.render = .ok text) ∨
      ∃ fault, value.render = .error (.raised fault) ∧ e.Mute lookup fault) := by
  unfold evalOperand
  split
  · exact ⟨.nil, rfl, .inl ⟨_, rfl⟩⟩
  · split
    · rename_i content _
      exact ⟨.text content, rfl, .inl ⟨_, rfl⟩⟩
    · split
      · rename_i value bound
        exact ⟨value, rfl, (shownRenders inRange bound).imp_right fun ⟨fault, failed⟩ =>
          ⟨fault, failed, value, bound, failed⟩⟩
      · split
        · rename_i x _
          exact ⟨.number x, rfl, .inl ⟨_, rfl⟩⟩
        · exact ⟨.text e.text, rfl, .inl ⟨_, rfl⟩⟩

theorem renderAllLenient (es : List Expr) : (∃ text, renderAll ⟨lookup, false⟩ es = .ok text) ∨
    ∃ fault, renderAll ⟨lookup, false⟩ es = .error (.raised fault) ∧ ∃ e ∈ es, e.Mute lookup fault := by
  induction es with
  | nil => exact .inl ⟨"", rfl⟩
  | cons e rest ih =>
    obtain ⟨value, evaluated, ⟨first, rendered⟩ | ⟨fault, failed, mute⟩⟩ := operandLenient inRange e
    · rcases ih with ⟨others, rest⟩ | ⟨fault, failed, operand, member, mute⟩
      · exact .inl ⟨first ++ others, by simp [renderAll, evaluated, rendered, rest, bind, Except.bind, pure, Except.pure]⟩
      · exact .inr ⟨fault, by simp [renderAll, evaluated, rendered, failed, bind, Except.bind], operand,
          List.mem_cons_of_mem e member, mute⟩
    · exact .inr ⟨fault, by simp [renderAll, evaluated, failed, bind, Except.bind], e, List.mem_cons_self, mute⟩

theorem evalLenient (e : Expr) : (∃ value, e.eval ⟨lookup, false⟩ = .ok value) ∨
    ∃ fault, e.eval ⟨lookup, false⟩ = .error (.raised fault) ∧ ∃ operand ∈ e.summands, operand.Mute lookup fault := by
  by_cases sum : e.isSum = true
  · simp only [eval, summands, sum, if_true]
    cases bound : lookup e.text with
    | some value => exact .inl ⟨value, rfl⟩
    | none =>
      rcases renderAllLenient inRange e.operands with ⟨text, rendered⟩ | ⟨fault, failed, mute⟩
      · exact .inl ⟨.text text, by simp only [rendered]; rfl⟩
      · exact .inr ⟨fault, by simp only [failed]; rfl, mute⟩
  · obtain ⟨value, evaluated, _⟩ := operandLenient inRange e
    exact .inl ⟨value, by simpa only [eval, sum, Bool.false_eq_true, if_false] using evaluated⟩

end InRange

theorem renderAllCons {scope : Scope} {e : Expr} {rest : List Expr} {text : String}
    (rendered : renderAll scope (e :: rest) = .ok text) :
    ∃ value first others, e.evalOperand scope = .ok value ∧ value.render = .ok first ∧
      renderAll scope rest = .ok others := by
  simp only [renderAll] at rendered
  cases evaluated : e.evalOperand scope with
  | error f =>
    rw [evaluated] at rendered
    cases rendered
  | ok value =>
    cases shown : value.render with
    | error f =>
      simp only [evaluated, shown, bind, Except.bind] at rendered
      cases rendered
    | ok first =>
      cases behind : renderAll scope rest with
      | error f =>
        simp only [evaluated, shown, behind, bind, Except.bind] at rendered
        cases rendered
      | ok others => exact ⟨value, first, others, rfl, shown, rfl⟩

theorem renderAllFails {es : List Expr} {text : String} (leniently : renderAll ⟨lookup, false⟩ es = .ok text) :
    (∃ text, renderAll ⟨lookup, true⟩ es = .error (.unresolvedName text)) ↔ ∃ e ∈ es, e.Unresolved lookup := by
  induction es generalizing text with
  | nil => simp [renderAll]
  | cons e rest ih =>
    obtain ⟨value, first, others, evaluated, rendered, behind⟩ := renderAllCons leniently
    simp only [List.mem_cons, exists_eq_or_imp, ← ih behind]
    rcases operandStrict lookup e with ⟨unresolved, failed⟩ | ⟨resolved, same⟩
    · have fails : renderAll ⟨lookup, true⟩ (e :: rest) = .error (.unresolvedName e.text) := by
        simp only [renderAll, failed]
        rfl
      exact ⟨fun _ => .inl unresolved, fun _ => ⟨e.text, fails⟩⟩
    · have onwards : renderAll ⟨lookup, true⟩ (e :: rest) =
          (renderAll ⟨lookup, true⟩ rest).map (first ++ ·) := by
        simp only [renderAll, same, evaluated]
        simp only [bind, Except.bind, rendered]
        cases renderAll ⟨lookup, true⟩ rest <;> rfl
      simp only [onwards, resolved, false_or]
      cases renderAll ⟨lookup, true⟩ rest <;> simp [Except.map]

theorem evalFails {e : Expr} {value : Value} (leniently : e.eval ⟨lookup, false⟩ = .ok value) :
    (∃ text, e.eval ⟨lookup, true⟩ = .error (.unresolvedName text)) ↔
      lookup e.text = none ∧ ∃ operand ∈ e.summands, operand.Unresolved lookup := by
  by_cases sum : e.isSum = true
  · simp only [eval, summands, sum, if_true] at leniently ⊢
    cases bound : lookup e.text with
    | some value => simp
    | none =>
      rw [bound] at leniently
      cases rendered : renderAll ⟨lookup, false⟩ e.operands with
      | error f =>
        rw [rendered] at leniently
        cases leniently
      | ok text =>
        rw [← renderAllFails rendered]
        simp only [true_and]
        cases renderAll ⟨lookup, true⟩ e.operands <;> simp [bind, Except.bind, pure, Except.pure]
  · simp only [eval, summands, sum, Bool.false_eq_true, if_false, List.mem_singleton, exists_eq_left] at leniently ⊢
    rcases operandStrict lookup e with ⟨unresolved, failed⟩ | ⟨resolved, same⟩
    · exact ⟨fun _ => ⟨unresolved.unbound, unresolved⟩, fun _ => ⟨e.text, failed⟩⟩
    · simp [same, leniently, resolved]

end Lenient
end Expr
end LineScript
