import LineScript.Call.Marshal
import LineScript.Proofs.Call.Coerce
import LineScript.Proofs.Value.Describe

/-! Arguments of a call, value by value. Each value that is kept has a parameter to be converted for,
and how many are kept agrees with how many the function's own parameters take. -/
namespace LineScript

section Traversal
variable {α β ε : Type} (g : α → Except ε β)

theorem mapMConsOk {x : α} {y : β} (first : g x = .ok y) (xs : List α) :
    (x :: xs).mapM g = (xs.mapM g).map (y :: ·) := by
  rw [List.mapM_cons, first]
  cases xs.mapM g <;> rfl

theorem mapMConsError {x : α} {e : ε} (first : g x = .error e) (xs : List α) : (x :: xs).mapM g = .error e := by
  rw [List.mapM_cons, first]
  rfl

theorem mapMOk (xs : List α) (ys : List β) :
    xs.mapM g = .ok ys ↔
      ys.length = xs.length ∧ ∀ (i : Nat) x, xs[i]? = some x → ∃ y, ys[i]? = some y ∧ g x = .ok y := by
  induction xs generalizing ys with
  | nil => cases ys <;> simp [pure, Except.pure]
  | cons x xs ih =>
    constructor
    · intro succeeds
      cases first : g x with
      | error e =>
        rw [mapMConsError g first] at succeeds
        cases succeeds
      | ok y =>
        rw [mapMConsOk g first] at succeeds
        cases rest : xs.mapM g with
        | error e =>
          rw [rest] at succeeds
          cases succeeds
        | ok others =>
          rw [rest] at succeeds
          cases succeeds
          obtain ⟨same, each⟩ := (ih others).mp rest
          refine ⟨congrArg (· + 1) same, fun i z at_ => ?_⟩
          cases i with
          | zero =>
            cases at_
            exact ⟨y, rfl, first⟩
          | succ i => exact each i z at_
    · rintro ⟨same, each⟩
      cases ys with
      | nil => cases same
      | cons y others =>
        obtain ⟨_, here, first⟩ := each 0 x rfl
        cases here
        have rest := (ih others).mpr ⟨Nat.succ.inj same, fun i z at_ => each (i + 1) z at_⟩
        rw [mapMConsOk g first, rest]
        rfl

theorem mapMError (xs : List α) (e : ε) :
    xs.mapM g = .error e ↔ ∃ (i : Nat) (x : α), xs[i]? = some x ∧ g x = .error e ∧
      ∀ j < i, ∀ z, xs[j]? = some z → ∃ y, g z = .ok y := by
  induction xs with
  | nil => simp [pure, Except.pure]
  | cons head tail ih =>
    cases first : g head with
    | error f =>
      rw [mapMConsError g first]
      constructor
      · intro same
        cases same
        exact ⟨0, head, rfl, first, fun j below => absurd below (Nat.not_lt_zero j)⟩
      · rintro ⟨i, x, here, fails, before⟩
        cases i with
        | zero =>
          cases here
          exact congrArg Except.error (Except.error.inj (first.symm.trans fails))
        | succ i =>
          obtain ⟨y, ok⟩ := before 0 (Nat.succ_pos i) head rfl
          rw [first] at ok
          cases ok
    | ok y =>
      have onwards : (head :: tail).mapM g = .error e ↔ tail.mapM g = .error e := by
        rw [mapMConsOk g first]
        cases tail.mapM g <;> simp [Except.map]
      rw [onwards, ih]
      constructor
      · rintro ⟨i, x, here, fails, before⟩
        refine ⟨i + 1, x, here, fails, fun j below z at_ => ?_⟩
        cases j with
        | zero =>
          cases at_
          exact ⟨y, first⟩
        | succ j => exact before j (Nat.lt_of_succ_lt_succ below) z at_
      · rintro ⟨i, x, here, fails, before⟩
        cases i with
        | zero =>
          cases here
          rw [first] at fails
          cases fails
        | succ i => exact ⟨i, x, here, fails, fun j below z at_ => before (j + 1) (Nat.succ_lt_succ below) z at_⟩

end Traversal

namespace Builtin

def paired (variadic : Option ParamSpec) : List ParamSpec → List Value → List (Value × ParamSpec)
  | _, [] => []
  | spec :: specs, v :: values => (v, spec) :: paired variadic specs values
  | [], v :: values =>
    match variadic with
    | none => []
    | some spec => (v, spec) :: paired variadic [] values

section Pairs
variable (variadic : Option ParamSpec)

theorem coerceAllPaired (specs : List ParamSpec) (values : List Value) :
    coerceAll variadic specs values = (paired variadic specs values).mapM fun pair => pair.1.coerce pair.2 := by
  induction values generalizing specs with
  | nil => cases specs <;> rfl
  | cons v values ih =>
    cases specs with
    | cons spec specs =>
      rw [paired, List.mapM_cons, ← ih specs]
      rfl
    | nil =>
      cases variadic with
      | none => rfl
      | some spec =>
        rw [paired, List.mapM_cons, ← ih []]
        rfl

theorem pairedLength (specs : List ParamSpec) (values : List Value) :
    (paired variadic specs values).length =
      if variadic.isSome then values.length else min values.length specs.length := by
  induction values generalizing specs with
  | nil => cases specs <;> simp [paired]
  | cons v values ih =>
    cases specs with
    | cons spec specs =>
      rw [paired, List.length_cons, ih specs]
      split <;> simp
    | nil =>
      cases variadic with
      | none => simp [paired]
      | some spec => simp [paired, ih []]

theorem pairedAt (specs : List ParamSpec) (values : List Value) (i : Nat) (v : Value) (spec : ParamSpec) :
    (paired variadic specs values)[i]? = some (v, spec) ↔
      values[i]? = some v ∧ specs[i]?.or variadic = some spec := by
  induction values generalizing specs i with
  | nil => cases specs <;> simp [paired]
  | cons w values ih =>
    cases specs with
    | cons first specs =>
      cases i with
      | zero => simp [paired]
      | succ i => simpa [paired] using ih specs i
    | nil =>
      cases variadic with
      | none => simp [paired]
      | some other =>
        cases i with
        | zero => simp [paired]
        | succ i => simpa [paired] using ih [] i

end Pairs

section Marshal
variable (b : Builtin Value)

def kept (count : Nat) : Nat :=
  match b.maxArity with
  | none => count
  | some most => min count most

def OutOfRange (count : Nat) : Prop := count < b.minArity ∨ ∃ most, b.maxArity = some most ∧ most < count

def specAt? (place : Nat) : Option ParamSpec := b.descriptor.parameters[place]?.or b.descriptor.variadic

structure Takes (values : List Value) (place : Nat) (v : Value) (spec : ParamSpec) : Prop where
  given : values[place]? = some v
  meant : b.specAt? place = some spec

structure Converts (values arguments : List Value) : Prop where
  length : arguments.length = b.kept values.length
  each : ∀ i v spec, b.Takes values i v spec → ∃ a, arguments[i]? = some a ∧ v.coerce spec = .ok a

def Refuses (values : List Value) (f : Failure) : Prop :=
  ∃ i v spec, b.Takes values i v spec ∧ v.coerce spec = .error f ∧
    ∀ j < i, ∀ w other, b.Takes values j w other → ∃ a, w.coerce other = .ok a

/- A kept value is asked for as a kind, fails to be told, and is the first that is refused. -/
def Unsaid (values : List Value) (f : Failure) : Prop :=
  ∃ i v spec, b.Takes values i v spec ∧ v.render = .error f ∧ spec.kind ≠ .any ∧
    ∀ j < i, ∀ w other, b.Takes values j w other → ∃ a, w.coerce other = .ok a

def Unfit (values : List Value) : Prop :=
  ∃ i < b.kept values.length, ∃ v spec, b.Takes values i v spec ∧ ∀ a, v.coerce spec ≠ .ok a

def pairs (values : List Value) : List (Value × ParamSpec) :=
  paired b.descriptor.variadic b.descriptor.parameters values

variable {b} {values arguments : List Value}

theorem pairsAt (i : Nat) (pair : Value × ParamSpec) :
    (b.pairs values)[i]? = some pair ↔ b.Takes values i pair.1 pair.2 := by
  rw [pairs, pairedAt b.descriptor.variadic b.descriptor.parameters values i pair.1 pair.2]
  exact ⟨fun ⟨given, meant⟩ => ⟨given, meant⟩, fun ⟨given, meant⟩ => ⟨given, meant⟩⟩

theorem pairsLength : (b.pairs values).length = b.kept values.length := by
  rw [pairs, pairedLength, kept, maxArity, Descriptor.maxArity]
  cases b.descriptor.variadic <;> rfl

theorem coerceAllConverts :
    coerceAll b.descriptor.variadic b.descriptor.parameters values = .ok arguments ↔ b.Converts values arguments := by
  rw [coerceAllPaired, mapMOk]
  show arguments.length = (b.pairs values).length ∧ _ ↔ _
  rw [pairsLength]
  constructor
  · rintro ⟨length, each⟩
    exact ⟨length, fun i v spec takes => each i (v, spec) ((pairsAt i (v, spec)).mpr takes)⟩
  · rintro ⟨length, each⟩
    exact ⟨length, fun i pair here => each i pair.1 pair.2 ((pairsAt i pair).mp here)⟩

theorem coerceAllRefuses {f : Failure} :
    coerceAll b.descriptor.variadic b.descriptor.parameters values = .error f ↔ b.Refuses values f := by
  rw [coerceAllPaired, mapMError]
  constructor
  · rintro ⟨i, pair, here, fails, before⟩
    refine ⟨i, pair.1, pair.2, (pairsAt i pair).mp here, fails, fun j below w other takes => ?_⟩
    exact before j below (w, other) ((pairsAt j (w, other)).mpr takes)
  · rintro ⟨i, v, spec, takes, fails, before⟩
    refine ⟨i, (v, spec), (pairsAt i (v, spec)).mpr takes, fails, fun j below pair here => ?_⟩
    exact before j below pair.1 pair.2 ((pairsAt j pair).mp here)

theorem marshalConverts {warning : Option String} :
    b.marshal values = .ok ⟨arguments, warning⟩ ↔
      b.Converts values arguments ∧ warning = b.arityWarning values.length := by
  rw [← coerceAllConverts, marshal]
  cases coerceAll b.descriptor.variadic b.descriptor.parameters values with
  | error f => simp [bind, Except.bind]
  | ok made => simp [bind, Except.bind, pure, Except.pure, eq_comm]

theorem marshalRefuses {f : Failure} : b.marshal values = .error f ↔ b.Refuses values f := by
  rw [← coerceAllRefuses, marshal]
  cases coerceAll b.descriptor.variadic b.descriptor.parameters values with
  | error g => simp [bind, Except.bind]
  | ok made => simp [bind, Except.bind, pure, Except.pure]

theorem takesKept {i : Nat} {v : Value} {spec : ParamSpec} (takes : b.Takes values i v spec) :
    i < b.kept values.length := by
  have here := (pairsAt i (v, spec)).mpr takes
  exact pairsLength ▸ (List.getElem?_eq_some_iff.mp here).1

theorem Converts.unique {others : List Value} (one : b.Converts values arguments) (other : b.Converts values others) :
    arguments = others := by
  have same := (marshalConverts.mpr ⟨one, rfl⟩).symm.trans (marshalConverts.mpr ⟨other, rfl⟩)
  exact congrArg Marshalled.arguments (Except.ok.inj same)

theorem Converts.fit (converts : b.Converts values arguments) : ¬b.Unfit values := by
  rintro ⟨i, _, v, spec, takes, fails⟩
  obtain ⟨a, _, coerced⟩ := converts.each i v spec takes
  exact fails a coerced

theorem Refuses.unfit {f : Failure} (refuses : b.Refuses values f) : b.Unfit values := by
  obtain ⟨i, v, spec, takes, fails, _⟩ := refuses
  refine ⟨i, takesKept takes, v, spec, takes, fun a coerced => ?_⟩
  rw [fails] at coerced
  cases coerced

theorem Refuses.unique {f g : Failure} (one : b.Refuses values f) (other : b.Refuses values g) : f = g :=
  Except.error.inj ((marshalRefuses.mpr one).symm.trans (marshalRefuses.mpr other))

theorem Refuses.cases {f : Failure} (refuses : b.Refuses values f) :
    (∃ name kind found, f = .argument name kind found) ∨ b.Unsaid values f := by
  obtain ⟨i, v, spec, takes, fails, before⟩ := refuses
  obtain ⟨found, same⟩ | ⟨unsaid, typed⟩ := Value.coerceRefuses fails
  · exact .inl ⟨spec.name, spec.kind, found, same⟩
  · exact .inr ⟨i, v, spec, takes, unsaid, typed, before⟩

theorem Unsaid.refuses {f : Failure} (unsaid : b.Unsaid values f) : b.Refuses values f := by
  obtain ⟨i, v, spec, takes, unsaid, typed, before⟩ := unsaid
  exact ⟨i, v, spec, takes, Value.coerceUnsaid unsaid typed, before⟩

theorem Unsaid.internal {f : Failure} (unsaid : b.Unsaid values f) :
    f = .integerTooLarge ∨ ∃ fault, f = .raised fault := by
  obtain ⟨i, v, spec, takes, unsaid, -⟩ := unsaid
  exact (Value.renderRefuses unsaid).imp And.left id

theorem arityWarned (count : Nat) : (b.arityWarning count).isSome = true ↔ b.OutOfRange count := by
  have warned : (b.arityWarning count).isSome = !b.fitsArity count := by
    unfold arityWarning
    cases b.fitsArity count <;> rfl
  rw [warned, fitsArity, OutOfRange]
  cases b.maxArity with
  | none => simp
  | some most =>
    simp only [Bool.not_eq_true', Bool.and_eq_false_iff, decide_eq_false_iff_not, Option.some.injEq, exists_eq_left',
      Nat.not_le]

end Marshal
end Builtin

namespace Signature
variable {V : Type} (s : Signature V)

def required : Nat := (s.parameters.filter (·.fallback.isNone)).length

/- No parameter without a default behind one that has a default. -/
def RequiredFirst : Prop :=
  ∃ required optional, s.parameters = required ++ optional ∧
    (∀ p ∈ required, p.fallback.isNone = true) ∧ ∀ p ∈ optional, p.fallback.isNone = false

def KeywordsOptional : Prop := ∀ p ∈ s.keywordOnly, p.fallback.isNone = false

variable {s}

theorem missingRequired (first : s.RequiredFirst) (count : Nat) :
    (s.parameters.drop count).filter (·.fallback.isNone) =
      (s.parameters.filter (·.fallback.isNone)).drop count := by
  obtain ⟨required, optional, same, without, withDefault⟩ := first
  have all : required.filter (·.fallback.isNone) = required := List.filter_eq_self.mpr without
  have none (l : List (Parameter V)) (sub : l ⊆ optional) : l.filter (·.fallback.isNone) = [] :=
    List.filter_eq_nil_iff.mpr fun p member => by simp [withDefault p (sub member)]
  have front : (required.drop count).filter (·.fallback.isNone) = required.drop count :=
    List.filter_eq_self.mpr fun p member => without p (List.drop_subset _ _ member)
  rw [same, List.drop_append, List.filter_append, List.filter_append, all, front, none _ (List.drop_subset _ _),
    none _ (List.Subset.refl _), List.append_nil, List.append_nil]

theorem requiredFew : s.required ≤ s.parameters.length := List.length_filter_le _ _

theorem bindMissing (first : s.RequiredFirst) {arguments : List V} (short : arguments.length < s.required) :
    ∃ names, names ≠ [] ∧ s.bind arguments = .error (.missing s.label names) := by
  let missing := (s.parameters.filter (·.fallback.isNone)).drop arguments.length
  have some : missing ≠ [] := by
    rw [← List.length_pos_iff, List.length_drop]
    exact Nat.sub_pos_of_lt short
  have notMore : ¬s.parameters.length < arguments.length := Nat.not_lt.mpr (short.le.trans s.requiredFew)
  refine ⟨missing.map (·.name), by simpa using some, ?_⟩
  simp only [bind, missingRequired first]
  simp [notMore, missing, some]

theorem bindOk (first : s.RequiredFirst) (keywords : s.KeywordsOptional) {arguments : List V}
    (enough : s.required ≤ arguments.length) (few : s.variadic = none → arguments.length ≤ s.parameters.length) :
    ∃ bound, s.bind arguments = .ok bound := by
  have unnamed : s.keywordOnly.filter (·.fallback.isNone) = [] :=
    List.filter_eq_nil_iff.mpr fun p member => by simp [keywords p member]
  have reached : (s.parameters.filter (·.fallback.isNone)).drop arguments.length = [] := List.drop_eq_nil_of_le enough
  have notMore : (decide (s.parameters.length < arguments.length) && s.variadic.isNone) = false := by
    cases variadic : s.variadic with
    | none => simpa using few variadic
    | some p => simp
  simp only [bind, missingRequired first, reached, unnamed, notMore]
  exact ⟨_, rfl⟩

theorem bindRefused (first : s.RequiredFirst) (keywords : s.KeywordsOptional) {arguments : List V}
    (few : s.variadic = none → arguments.length ≤ s.parameters.length) {fault : ArityFault}
    (refused : s.bind arguments = .error fault) :
    arguments.length < s.required ∧ ∃ names, fault = .missing s.label names := by
  by_cases short : arguments.length < s.required
  · obtain ⟨names, _, missing⟩ := bindMissing first short
    exact ⟨short, names, Except.error.inj (refused.symm.trans missing)⟩
  · obtain ⟨bound, ok⟩ := bindOk first keywords (Nat.not_lt.mp short) few
    cases refused.symm.trans ok

end Signature

namespace Builtin
variable {b : Builtin Value} (told : b.descriptor = b.routine.signature.describe Value.isNil) (count : Nat)
include told

end Builtin

namespace HostFunction
variable {f : HostFunction Value} {name : String} {b : Builtin Value}

end HostFunction

end LineScript
