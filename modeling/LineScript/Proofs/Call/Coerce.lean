import LineScript.Call.Coerce
import LineScript.Proofs.Engine.Unresolved
import LineScript.Proofs.Number.Exact

/-! What a value becomes as an argument of each kind, and which values are refused. Conversion is a
projection: what it hands out is of the kind, and is handed out again unchanged. -/
namespace LineScript

inductive Kind.Has : Kind → Value → Prop where
  | any (v) : Has .any v
  | float (x) : Has .float (.number x)
  | int (n) : Has .int (.integer n)
  | str (s) : Has .str (.text s)
  | bool (b) : Has .bool (.boolean b)

def ParamSpec.TakesNil (spec : ParamSpec) : Prop := spec.kind = .any ∨ spec.nullable = true

namespace Value

def TooLarge (v : Value) : Prop := ∃ n, v = .integer n ∧ Number.ofInt? n = none

inductive As : Kind → Value → Value → Prop where
  | any (v) : As .any v v
  | float (x) : As .float (.number x) (.number x)
  | floatOfInteger {n x} (near : Number.ofInt? n = some x) : As .float (.integer n) (.number x)
  | floatOfText {s x} (reads : Number.ofText? s = some x) : As .float (.text s) (.number x)
  | int {n x} (near : Number.ofInt? n = some x) : As .int (.integer n) (.integer n)
  | intOfNumber {x n} (whole : x.toInt? = some n) : As .int (.number x) (.integer n)
  | intOfText {s x n} (reads : Number.ofText? s = some x) (whole : x.toInt? = some n) : As .int (.text s) (.integer n)
  | str (s) : As .str (.text s) (.text s)
  | strOfBoolean (b : Bool) : As .str (.boolean b) (.text (if b then "true" else "false"))
  | strOfNumber (x : Number) : As .str (.number x) (.text x.render)
  | strOfInteger {n x} (near : Number.ofInt? n = some x) : As .str (.integer n) (.text x.render)
  | bool (b) : As .bool (.boolean b) (.boolean b)
  | boolOfText (b : Bool) : As .bool (.text (if b then "true" else "false")) (.boolean b)

section Conversion
variable {kind : Kind} {v r : Value}

theorem nearestOk {α : Type} {make : Number → α} {near : Option Number} {a : α} :
    ofNearest make near = .ok a ↔ ∃ x, near = some x ∧ make x = a := by
  cases near <;> simp [ofNearest]

theorem asConverts (as : As kind v r) : v.convert? kind = .ok (some r) := by
  cases as with
  | floatOfInteger near => simp only [convert?, toFloat?, near]; rfl
  | floatOfText reads => simp only [convert?, toFloat?, reads]; rfl
  | int near => simp only [convert?, toInteger?, near]; rfl
  | intOfNumber whole => simp only [convert?, toInteger?, whole]; rfl
  | intOfText reads whole => simp only [convert?, toInteger?, reads, Option.bind_some, whole]; rfl
  | strOfInteger near => simp only [convert?, toText?, render, near]; rfl
  | boolOfText b => cases b <;> rfl
  | _ => rfl

theorem madeOk {α : Type} {found : Except Failure (Option α)} {make : α → Value}
    (made : (do return (← found).map make : Except Failure (Option Value)) = .ok (some r)) :
    ∃ a, found = .ok (some a) ∧ make a = r := by
  cases found with
  | error f => cases made
  | ok a =>
    obtain ⟨a, rfl, same⟩ := Option.map_eq_some_iff.mp (Except.ok.inj made)
    exact ⟨a, rfl, same⟩

theorem toFloatAs {x : Number} (found : v.toFloat? = .ok (some x)) : As .float v (.number x) := by
  cases v with
  | number y =>
    cases found
    exact .float x
  | integer n =>
    obtain ⟨y, near, same⟩ := nearestOk.mp found
    cases same
    exact .floatOfInteger near
  | text s => exact .floatOfText (Except.ok.inj found)
  | _ => cases found

theorem toIntegerAs {n : Int} (found : v.toInteger? = .ok (some n)) : As .int v (.integer n) := by
  cases v with
  | number x => exact .intOfNumber (Except.ok.inj found)
  | integer m =>
    obtain ⟨x, near, same⟩ := nearestOk.mp found
    cases same
    exact .int near
  | text s =>
    obtain ⟨x, reads, whole⟩ := Option.bind_eq_some_iff.mp (Except.ok.inj found)
    exact .intOfText reads whole
  | _ => cases found

theorem toTextAs {s : String} (found : v.toText? = .ok (some s)) : As .str v (.text s) := by
  cases v with
  | text t =>
    cases found
    exact .str s
  | boolean b =>
    cases found
    exact .strOfBoolean b
  | number x =>
    cases found
    exact .strOfNumber x
  | integer n =>
    simp only [toText?, render] at found
    cases near : Number.ofInt? n with
    | none =>
      rw [near] at found
      cases found
    | some x =>
      rw [near] at found
      cases found
      exact .strOfInteger near
  | _ => cases found

theorem toBooleanAs {b : Bool} (found : v.toBoolean? = some b) : As .bool v (.boolean b) := by
  unfold toBoolean? at found
  split at found
  · cases found
    exact .bool b
  · cases found
    exact .boolOfText true
  · cases found
    exact .boolOfText false
  · cases found

theorem convertsAs (converts : v.convert? kind = .ok (some r)) : As kind v r := by
  cases kind with
  | any =>
    cases converts
    exact .any v
  | float =>
    obtain ⟨x, found, rfl⟩ := madeOk converts
    exact toFloatAs found
  | int =>
    obtain ⟨n, found, rfl⟩ := madeOk converts
    exact toIntegerAs found
  | str =>
    obtain ⟨s, found, rfl⟩ := madeOk converts
    exact toTextAs found
  | bool =>
    obtain ⟨b, found, rfl⟩ := Option.map_eq_some_iff.mp (Except.ok.inj converts)
    exact toBooleanAs found

theorem As.has (as : As kind v r) : kind.Has r := by
  cases as <;> constructor

theorem As.again (as : As kind v r) : As kind r r := by
  cases as with
  | any => exact .any _
  | float x | floatOfInteger _ | floatOfText _ => exact .float _
  | int near => exact .int near
  | intOfNumber whole | intOfText _ whole =>
    obtain ⟨x, near, -⟩ := Number.ofIntExact whole
    exact .int near
  | str | strOfBoolean | strOfNumber | strOfInteger => exact .str _
  | bool | boolOfText => exact .bool _

theorem As.some (as : As kind v r) (given : v ≠ .nil) : r ≠ .nil := by
  cases as with
  | any => exact given
  | _ => exact Value.noConfusion

theorem hasAs (has : kind.Has v) (inRange : ¬v.TooLarge) : As kind v v := by
  cases has with
  | any => exact .any v
  | float x => exact .float x
  | int n =>
    cases near : Number.ofInt? n with
    | some x => exact .int near
    | none => exact absurd ⟨n, rfl, near⟩ inRange
  | str s => exact .str s
  | bool b => exact .bool b

theorem asOfText {s : String} {x : Number} (reads : Number.ofText? s = some x)
    (asked : kind = .float ∨ kind = .int) :
    As kind (.text s) r ↔ As kind (.number x) r := by
  constructor
  · intro as
    rcases asked with rfl | rfl
    · cases as with
      | floatOfText found =>
        cases reads.symm.trans found
        exact .float x
    · cases as with
      | intOfText found whole =>
        cases reads.symm.trans found
        exact .intOfNumber whole
  · intro as
    rcases asked with rfl | rfl
    · cases as
      exact .floatOfText reads
    · cases as with
      | intOfNumber whole => exact .intOfText reads whole

end Conversion

section Coercion
variable {v r : Value} {spec : ParamSpec}

theorem coerceNil : Value.nil.coerce spec = if spec.kind = .any || spec.nullable then .ok .nil
    else .error (.argument spec.name spec.kind .nil) := rfl

theorem coerceSome (some : v ≠ .nil) : v.coerce spec = (do
    match ← v.convert? spec.kind with
    | .some converted => return converted
    | none => throw (.argument spec.name spec.kind (.value v.typeName (← v.render)))) := by
  cases v with
  | nil => contradiction
  | _ => rfl

theorem coerceAs (some : v ≠ .nil) : v.coerce spec = .ok r ↔ As spec.kind v r := by
  rw [coerceSome some]
  constructor
  · intro coerced
    cases converted : v.convert? spec.kind with
    | error f =>
      rw [converted] at coerced
      cases coerced
    | ok outcome =>
      rw [converted] at coerced
      cases outcome with
      | some a =>
        cases coerced
        exact convertsAs converted
      | none => cases rendered : v.render <;> simp [rendered, bind, Except.bind, throw] at coerced
  · intro as
    rw [asConverts as]
    rfl

theorem nilCoerced : Value.nil.coerce spec = .ok r ↔ spec.TakesNil ∧ r = .nil := by
  rw [coerceNil, ParamSpec.TakesNil]
  by_cases any : spec.kind = .any <;> cases spec.nullable <;> simp [any, eq_comm]

end Coercion

section Refusal
variable {v : Value} {spec : ParamSpec} {kind : Kind} {f : Failure}

theorem unsaidLarge {n : Int} (unsaid : (Value.integer n).render = .error f) :
    f = .integerTooLarge ∧ Number.ofInt? n = none := nearestRefuses unsaid

theorem tooLargeUnsaid : v.TooLarge ↔ v.render = .error .integerTooLarge := by
  constructor
  · rintro ⟨n, rfl, tooLarge⟩
    rw [render, tooLarge]
    rfl
  · intro unsaid
    obtain ⟨-, n, same, tooLarge⟩ | ⟨fault, other⟩ := renderRefuses unsaid
    · exact ⟨n, same, tooLarge⟩
    · cases other

theorem coerceUnsaid (unsaid : v.render = .error f) (converts : spec.kind ≠ .any) : v.coerce spec = .error f := by
  cases v with
  | integer n =>
    obtain ⟨rfl, tooLarge⟩ := unsaidLarge unsaid
    rw [coerceSome Value.noConfusion]
    cases kind : spec.kind with
    | any => exact absurd kind converts
    | float =>
      simp only [convert?, toFloat?, tooLarge]
      rfl
    | int =>
      simp only [convert?, toInteger?, tooLarge]
      rfl
    | str =>
      simp only [convert?, toText?, unsaid]
      rfl
    | bool =>
      simp only [convert?, toBoolean?, unsaid]
      rfl
  | function g | foreign appearance =>
    rw [coerceSome Value.noConfusion]
    cases kind : spec.kind with
    | any => exact absurd kind converts
    | _ =>
      simp only [convert?, toFloat?, toInteger?, toText?, toBoolean?, unsaid]
      rfl
  | _ => cases unsaid

theorem toFloatRefuses (refused : v.toFloat? = .error f) : v.render = .error f := by
  cases v with
  | integer n =>
    obtain ⟨rfl, tooLarge⟩ := nearestRefuses refused
    exact tooLargeUnsaid.mp ⟨n, rfl, tooLarge⟩
  | _ => cases refused

theorem toIntegerRefuses (refused : v.toInteger? = .error f) : v.render = .error f := by
  cases v with
  | integer n =>
    obtain ⟨rfl, tooLarge⟩ := nearestRefuses refused
    exact tooLargeUnsaid.mp ⟨n, rfl, tooLarge⟩
  | _ => cases refused

theorem toTextRefuses (refused : v.toText? = .error f) : v.render = .error f := by
  cases v with
  | integer n =>
    simp only [toText?] at refused
    cases rendered : (Value.integer n).render with
    | error g =>
      rw [rendered] at refused
      cases refused
      rfl
    | ok text =>
      rw [rendered] at refused
      cases refused
  | _ => cases refused

theorem madeRefuses {α : Type} {found : Except Failure (Option α)} {make : α → Value}
    (made : (do return (← found).map make : Except Failure (Option Value)) = .error f) : found = .error f := by
  cases found with
  | error g =>
    cases made
    rfl
  | ok a => cases made

theorem convertRefuses (refused : v.convert? kind = .error f) : v.render = .error f ∧ kind ≠ .any := by
  cases kind with
  | any => cases refused
  | float => exact ⟨toFloatRefuses (madeRefuses refused), nofun⟩
  | int => exact ⟨toIntegerRefuses (madeRefuses refused), nofun⟩
  | str => exact ⟨toTextRefuses (madeRefuses refused), nofun⟩
  | bool => cases refused

theorem coerceRefuses (refused : v.coerce spec = .error f) :
    (∃ found, f = .argument spec.name spec.kind found) ∨ v.render = .error f ∧ spec.kind ≠ .any := by
  by_cases given : v = .nil
  · subst given
    rw [coerceNil] at refused
    split at refused
    · cases refused
    · exact .inl ⟨.nil, (Except.error.inj refused).symm⟩
  · rw [coerceSome given] at refused
    cases converted : v.convert? spec.kind with
    | error g =>
      rw [converted] at refused
      cases refused
      exact .inr (convertRefuses converted)
    | ok outcome =>
      rw [converted] at refused
      cases outcome with
      | some a => cases refused
      | none =>
        cases rendered : v.render with
        | error g =>
          rw [rendered] at refused
          cases refused
          refine .inr ⟨rfl, fun any => ?_⟩
          rw [any] at converted
          cases converted
        | ok text =>
          rw [rendered] at refused
          cases refused
          exact .inl ⟨_, rfl⟩

end Refusal
end Value

open Value

/- Conversion is a projection onto the kind that is asked for. Nil comes out of nil alone, integers come
out of integers as they are and of numbers that are equal to them, and a numeric text is its number. -/
theorem coercionProjects (v : Value) (spec : ParamSpec) :
    (∀ r, v.coerce spec = .ok r →
      (v = .nil ∧ r = .nil ∧ spec.TakesNil ∨ v ≠ .nil ∧ r ≠ .nil ∧ spec.kind.Has r ∧ (spec.kind = .any → r = v)) ∧
      r.coerce spec = .ok r ∧
      (spec.kind = .int → ∀ n, v = .integer n → r = .integer n) ∧
      (spec.kind = .int → ∀ x, v = .number x → ∃ n : Int, r = .integer n ∧ x.value? = some (n : ℚ))) ∧
    (∀ s x, v = .text s → Number.ofText? s = some x → spec.kind = .float ∨ spec.kind = .int →
      ∀ r, v.coerce spec = .ok r ↔ (Value.number x).coerce spec = .ok r) ∧
    (v ≠ .nil → spec.kind.Has v → ¬v.TooLarge → v.coerce spec = .ok v) := by
  refine ⟨fun r coerced => ?_, ?_, fun given has inRange => (coerceAs given).mpr (hasAs has inRange)⟩
  · by_cases given : v = .nil
    · subst given
      obtain ⟨takes, rfl⟩ := nilCoerced.mp coerced
      exact ⟨.inl ⟨rfl, rfl, takes⟩, coerced, fun _ _ same => Value.noConfusion same,
        fun _ _ same => Value.noConfusion same⟩
    · have as : As spec.kind v r := (coerceAs given).mp coerced
      have some : r ≠ .nil := as.some given
      refine ⟨.inr ⟨given, some, as.has, fun any => ?_⟩, (coerceAs some).mpr as.again, ?_, ?_⟩
      · rw [any] at as
        cases as
        rfl
      · rintro int n rfl
        rw [int] at as
        cases as
        rfl
      · rintro int x rfl
        rw [int] at as
        cases as with
        | intOfNumber whole => exact ⟨_, rfl, (Number.toIntValue x _).mp whole⟩
  · rintro s x rfl reads asked r
    rw [coerceAs Value.noConfusion, coerceAs Value.noConfusion]
    exact asOfText reads asked

theorem integersAskedFor :
    let spec : ParamSpec := ⟨"n", .int, true, false⟩
    let odd : Value := .integer 9007199254740993
    odd.coerce spec = .ok odd ∧ (Value.text "1e3").coerce spec = .ok (.integer 1000) := by
  intro spec odd
  have near : ¬odd.TooLarge := by
    rintro ⟨n, same, tooLarge⟩
    have one : 9007199254740993 = n := Value.integer.inj same
    subst one
    exact absurd tooLarge (by decide +kernel)
  have kept : odd.coerce spec = .ok odd := (coercionProjects odd spec).2.2 Value.noConfusion (.int _) near
  have thousand : (Number.ofNat 1000).toInt? = some 1000 := by decide +kernel
  have whole : (Value.number (.ofNat 1000)).coerce spec = .ok (.integer 1000) :=
    (coerceAs Value.noConfusion).mpr (.intOfNumber thousand)
  have reads : Number.ofText? "1e3" = some (.ofNat 1000) := by decide +kernel
  exact ⟨((coercionProjects odd spec).1 odd kept).2.1,
    ((coercionProjects (.text "1e3") spec).2.1 "1e3" _ rfl reads (.inr rfl) _).mpr whole⟩

end LineScript
