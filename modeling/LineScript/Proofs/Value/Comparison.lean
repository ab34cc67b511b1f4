import LineScript.Engine.Evaluate
import LineScript.Proofs.Engine.Unresolved
import LineScript.Proofs.Number.Writing
import LineScript.Seed.Datum

/-! Laws of comparison. Two values are compared as numbers or as texts, pair by pair; since a number is
never rendered as a text that is no literal, the two ways do not mix, and equality of the values that
scripts have is transitive. -/
namespace LineScript

namespace Number

section Order
variable {x y z : Number}

theorem eqPlace : x.eq y = true ↔ ∃ p, x.place? = some p ∧ y.place? = some p := by
  unfold eq
  cases x.place? with
  | none => simp
  | some p =>
    cases y.place? with
    | none => simp
    | some q =>
      simp only [beq_iff_eq, Option.some.injEq, exists_eq_left']
      exact eq_comm

theorem placeNone : x.place? = none ↔ x = .nan := by
  cases x with
  | nan => exact iff_of_true rfl rfl
  | infinite negative | finite negative rank => exact iff_of_false nofun nofun

theorem eqSelf : x.eq x = true ↔ x ≠ .nan := by
  rw [eqPlace, ne_eq, ← placeNone]
  cases x.place? <;> simp

theorem eqSymmetric (x y : Number) : x.eq y = y.eq x := by
  rw [Bool.eq_iff_iff, eqPlace, eqPlace]
  exact exists_congr fun p => and_comm

theorem eqTransitive (first : x.eq y = true) (second : y.eq z = true) : x.eq z = true := by
  obtain ⟨p, left, middle⟩ := eqPlace.mp first
  obtain ⟨q, same, right⟩ := eqPlace.mp second
  obtain rfl := Option.some.inj (middle.symm.trans same)
  exact eqPlace.mpr ⟨p, left, right⟩

end Order
end Number

def Comparison.flipped : Comparison → Comparison
  | .atLeast => .atMost
  | .atMost => .atLeast
  | .greater => .less
  | .less => .greater
  | c => c

theorem Comparison.holdsFlipped (c : Comparison) (x y : Number) : c.flipped.holds y x = c.holds x y := by
  cases c with
  | equal => exact Number.eqSymmetric y x
  | notEqual => exact congrArg not (Number.eqSymmetric y x)
  | _ => rfl

namespace Value

structure Seen where
  number : Option Number
  text : String

def Shows (v : Value) (seen : Seen) : Prop := v.toNumber? = .ok seen.number ∧ v.render = .ok seen.text

def Seen.judge (c : Comparison) (s t : Seen) : Bool :=
  match s.number, t.number with
  | some x, some y => c.holds x y
  | _, _ =>
    match c with
    | .equal => s.text == t.text
    | .notEqual => s.text != t.text
    | _ => false

section Compare
variable {a b : Value} {s t : Seen}

theorem compareJudges (left : a.Shows s) (right : b.Shows t) (c : Comparison) :
    a.compare b (some c) = .ok (s.judge c t) := by
  obtain ⟨leftNumber, leftText⟩ := left
  obtain ⟨rightNumber, rightText⟩ := right
  simp only [compare, Seen.judge, leftNumber, rightNumber, leftText, rightText]
  cases s.number with
  | none => cases c <;> rfl
  | some x =>
    cases t.number with
    | none => cases c <;> rfl
    | some y => rfl

end Compare

section Flipped
variable {v a b : Value} {f : Failure} {view : Option Number}

theorem viewRefused (refused : v.toNumber? = .error f) : f = .integerTooLarge := by
  cases v with
  | integer n => exact (nearestRefuses refused).1
  | _ => cases refused

theorem viewUnsaid (viewed : v.toNumber? = .ok view) (unsaid : v.render = .error f) :
    view = none ∧ ∃ fault, f = .raised fault := by
  obtain ⟨-, n, rfl, tooLarge⟩ | raised := renderRefuses unsaid
  · rw [toNumber?, tooLarge] at viewed
    cases viewed
  · cases v with
    | function f | foreign appearance => exact ⟨(Except.ok.inj viewed).symm, raised⟩
    | integer n =>
      obtain ⟨rfl, -⟩ := nearestRefuses unsaid
      obtain ⟨fault, other⟩ := raised
      cases other
    | _ => cases unsaid

def textual (c : Comparison) (s t : Except Failure String) : Except Failure Bool :=
  match c with
  | .equal => return (← s) == (← t)
  | .notEqual => return (← s) != (← t)
  | _ => return false

theorem textualFlipped (c : Comparison) (s t : Except Failure String) :
    textual c.flipped t s = textual c s t ∨ (c = .equal ∨ c = .notEqual) ∧
      ∃ f g, s = .error f ∧ t = .error g ∧ textual c s t = .error f ∧ textual c.flipped t s = .error g := by
  have same (x y : String) : (y == x) = (x == y) := Bool.beq_comm
  cases c with
  | equal | notEqual =>
    cases s with
    | error f =>
      cases t with
      | error g => exact .inr ⟨by simp, f, g, rfl, rfl, rfl, rfl⟩
      | ok y => exact .inl rfl
    | ok x =>
      cases t with
      | error g => exact .inl rfl
      | ok y => exact .inl (by simp [textual, Comparison.flipped, bind, Except.bind, pure, Except.pure, bne, same x y])
  | _ => exact .inl rfl

theorem compareViewed {x? y? : Option Number} (viewA : a.toNumber? = .ok x?) (viewB : b.toNumber? = .ok y?)
    (c : Comparison) : a.compare b (some c) = match x?, y? with
      | some x, some y => .ok (c.holds x y)
      | _, _ => textual c a.render b.render := by
  simp only [compare, viewA, viewB]
  cases x? with
  | none => cases c <;> rfl
  | some x =>
    cases y? with
    | none => cases c <;> rfl
    | some y => rfl

theorem compareUnviewed (c : Option Comparison) (fails : a.toNumber? = .error .integerTooLarge ∨
    b.toNumber? = .error .integerTooLarge) : a.compare b c = .error .integerTooLarge := by
  cases viewA : a.toNumber? with
  | error f =>
    cases viewRefused viewA
    simp only [compare, viewA]
    rfl
  | ok x? =>
    rw [viewA] at fails
    simp only [compare, viewA, fails.resolve_left nofun]
    rfl

/- From the other side a comparison goes the same way or fails the same way, unless it asks for the texts
of two values that the host makes no text of. -/
theorem compareFlipped (a b : Value) (c : Comparison) : b.compare a (some c.flipped) = a.compare b (some c) ∨
    (c = .equal ∨ c = .notEqual) ∧
      ∃ f g, a.render = .error (.raised f) ∧ b.render = .error (.raised g) ∧
        a.compare b (some c) = .error (.raised f) ∧ b.compare a (some c.flipped) = .error (.raised g) := by
  cases viewA : a.toNumber? with
  | error f =>
    cases viewRefused viewA
    exact .inl (by rw [compareUnviewed _ (.inr viewA), compareUnviewed _ (.inl viewA)])
  | ok x? =>
    cases viewB : b.toNumber? with
    | error f =>
      cases viewRefused viewB
      exact .inl (by rw [compareUnviewed _ (.inl viewB), compareUnviewed _ (.inr viewB)])
    | ok y? =>
      rw [compareViewed viewA viewB, compareViewed viewB viewA]
      rcases textualFlipped c a.render b.render with same | ⟨asked, f, g, unsaidA, unsaidB, forth, back⟩
      · cases x? with
        | none => cases y? <;> exact .inl same
        | some x =>
          cases y? with
          | none => exact .inl same
          | some y => exact .inl (congrArg Except.ok (c.holdsFlipped x y))
      · obtain ⟨rfl, left, rfl⟩ := viewUnsaid viewA unsaidA
        obtain ⟨rfl, right, rfl⟩ := viewUnsaid viewB unsaidB
        exact .inr ⟨asked, left, right, unsaidA, unsaidB, forth, back⟩

theorem orderFlipped (a b : Value) {c : Comparison} (order : c ≠ .equal ∧ c ≠ .notEqual) :
    a.compare b (some c) = b.compare a (some c.flipped) :=
  (compareFlipped a b c).elim Eq.symm fun ⟨asked, _⟩ => (asked.elim order.1 order.2).elim

theorem equalFlipped (a b : Value) : a.compare b (some .equal) = b.compare a (some .equal) ∨
    ∃ f g, a.render = .error (.raised f) ∧ b.render = .error (.raised g) ∧
      a.compare b (some .equal) = .error (.raised f) ∧ b.compare a (some .equal) = .error (.raised g) :=
  (compareFlipped a b .equal).imp Eq.symm And.right

theorem compareNotEqual (a b : Value) : a.compare b (some .notEqual) = (a.compare b (some .equal)).map not := by
  unfold compare
  cases a.toNumber? with
  | error f => rfl
  | ok x? =>
    cases b.toNumber? with
    | error f => rfl
    | ok y? => cases x? <;> cases y? <;> cases a.render <;> cases b.render <;> rfl

end Flipped

/- Values that scripts make and that seed files hold. -/
inductive Scripted : Value → Prop where
  | nil : Scripted .nil
  | boolean (b) : Scripted (.boolean b)
  | number (x) : Scripted (.number x)
  | text (s) : Scripted (.text s)

theorem evalScripted {scope : Scope} (shown : ∀ name v, scope.lookup name = some v → v.Scripted) {e : Expr}
    {v : Value} (value : e.eval scope = .ok v) : v.Scripted := by
  have operand (value : e.evalOperand scope = .ok v) : v.Scripted := by
    unfold Expr.evalOperand at value
    split at value
    · cases value
      exact .nil
    · split at value
      · cases value
        exact .text _
      · split at value
        · rename_i found
          cases value
          exact shown _ _ found
        · split at value
          · cases value
            exact .number _
          · split at value
            · cases value
            · cases value
              exact .text _
  unfold Expr.eval at value
  split at value
  · split at value
    · rename_i found
      cases value
      exact shown _ _ found
    · cases joined : Expr.renderAll scope e.operands with
      | error f =>
        rw [joined] at value
        cases value
      | ok text =>
        rw [joined] at value
        cases value
        exact .text _
  · exact operand value

theorem loadScripted {name : String} {d : Datum} {v : Value} (value : d.toValue name = .ok v) : v.Scripted := by
  revert value
  fun_cases Datum.toValue name d <;> rintro ⟨⟩ <;> constructor

def Seen.Literal (seen : Seen) : Prop := seen.number = none ↔ Number.ofText? seen.text = none

theorem Scripted.shows {v : Value} (scripted : v.Scripted) : ∃ seen, v.Shows seen ∧ seen.Literal := by
  cases scripted with
  | nil => exact ⟨⟨none, "nil"⟩, ⟨rfl, rfl⟩, iff_of_true rfl (by decide)⟩
  | boolean b =>
    refine ⟨⟨none, if b then "true" else "false"⟩, ⟨rfl, rfl⟩, iff_of_true rfl ?_⟩
    revert b
    decide
  | number x =>
    obtain ⟨y, literal⟩ := Number.renderingIsLiteral x
    exact ⟨⟨some x, x.render⟩, ⟨rfl, rfl⟩, by simp [Seen.Literal, literal]⟩
  | text s => exact ⟨⟨Number.ofText? s, s⟩, ⟨rfl, rfl⟩, Iff.rfl⟩

inductive Seen.Same : Seen → Seen → Prop where
  | numbers {x y s t} (equal : x.eq y = true) : Same ⟨some x, s⟩ ⟨some y, t⟩
  | texts (s) : Same ⟨none, s⟩ ⟨none, s⟩

theorem judgeSame {s t : Seen} (left : s.Literal) (right : t.Literal) :
    s.judge .equal t = true ↔ s.Same t := by
  obtain ⟨x?, u⟩ := s
  obtain ⟨y?, v⟩ := t
  constructor
  · intro equal
    cases x? with
    | none =>
      have same : u = v := by cases y? <;> simpa [Seen.judge] using equal
      subst same
      obtain rfl : y? = none := right.mpr (left.mp rfl)
      exact .texts u
    | some x =>
      cases y? with
      | some y => exact .numbers equal
      | none =>
        have same : u = v := by simpa [Seen.judge] using equal
        subst same
        cases left.mpr (right.mp rfl)
  · rintro (equal | _)
    · exact equal
    · simp [Seen.judge]

theorem Seen.Same.trans {s t u : Seen} (first : s.Same t) (second : t.Same u) : s.Same u := by
  cases first with
  | numbers equal =>
    cases second with
    | numbers other => exact .numbers (Number.eqTransitive equal other)
  | texts s => exact second

theorem sameSelf {s : Seen} : s.Same s ↔ s.number ≠ some .nan := by
  obtain ⟨x?, text⟩ := s
  cases x? with
  | none => exact iff_of_true (.texts text) nofun
  | some x =>
    rw [ne_eq, Option.some.injEq, ← ne_eq, ← Number.eqSelf]
    constructor
    · rintro ⟨equal⟩
      assumption
    · exact .numbers

def Equals (a b : Value) : Prop := a.compare b (some .equal) = .ok true

theorem equalsSame {a b : Value} {s t : Seen} (left : a.Shows s) (right : b.Shows t) (literal : s.Literal)
    (other : t.Literal) : a.Equals b ↔ s.Same t := by
  rw [Equals, compareJudges left right, Except.ok.injEq, judgeSame literal other]

section Scripted
variable {a b c : Value} (isA : a.Scripted) (isB : b.Scripted)
include isA isB

theorem scriptedCompare (op : Comparison) : ∃ holds, a.compare b (some op) = .ok holds := by
  obtain ⟨s, left, -⟩ := isA.shows
  obtain ⟨t, right, -⟩ := isB.shows
  exact ⟨_, compareJudges left right op⟩

theorem equalsTransitive (isC : c.Scripted) (first : a.Equals b) (second : b.Equals c) : a.Equals c := by
  obtain ⟨s, left, literal⟩ := isA.shows
  obtain ⟨t, middle, literal'⟩ := isB.shows
  obtain ⟨u, right, literal''⟩ := isC.shows
  rw [equalsSame left middle literal literal'] at first
  rw [equalsSame middle right literal' literal''] at second
  rw [equalsSame left right literal literal'']
  exact first.trans second

theorem equalsApart {x : Number} (numeric : a.toNumber? = .ok (some x)) (other : b.toNumber? = .ok none) :
    ¬a.Equals b := by
  obtain ⟨s, left, literal⟩ := isA.shows
  obtain ⟨t, right, literal'⟩ := isB.shows
  have hasView : s.number = some x := Except.ok.inj (left.1.symm.trans numeric)
  have noView : t.number = none := Except.ok.inj (right.1.symm.trans other)
  rw [equalsSame left right literal literal']
  rintro (_ | _) <;> contradiction

end Scripted

theorem equalsSelf {a : Value} (isA : a.Scripted) : a.Equals a ↔ a.toNumber? ≠ .ok (some .nan) := by
  obtain ⟨s, shows, literal⟩ := isA.shows
  rw [equalsSame shows shows literal literal, sameSelf, shows.1, ne_eq, ne_eq, Except.ok.injEq]

theorem renderingApart (x : Number) {v : Value} (scripted : v.Scripted) (other : v.toNumber? = .ok none) :
    v.render ≠ .ok x.render := by
  obtain ⟨s, shows, literal⟩ := scripted.shows
  obtain ⟨y, reads⟩ := Number.renderingIsLiteral x
  have noView : s.number = none := Except.ok.inj (shows.1.symm.trans other)
  intro same
  have text : s.text = x.render := Except.ok.inj (shows.2.symm.trans same)
  have none := literal.mp noView
  rw [text, reads] at none
  cases none

/- Laws of comparison. From the other side a comparison goes the same way or fails the same way, but that
the texts of two values of the host may fail each in its own way. -/
theorem comparisonLaws :
    (∀ a b : Value,
      a.compare b (some .notEqual) = (a.compare b (some .equal)).map not ∧
      (a.compare b (some .equal) = b.compare a (some .equal) ∨
        ∃ f g, a.render = .error (.raised f) ∧ b.render = .error (.raised g) ∧
          a.compare b (some .equal) = .error (.raised f) ∧ b.compare a (some .equal) = .error (.raised g)) ∧
      a.compare b (some .less) = b.compare a (some .greater) ∧
      a.compare b (some .atMost) = b.compare a (some .atLeast)) ∧
    (∀ a b : Value, a.Scripted → b.Scripted → ∀ op, ∃ holds, a.compare b (some op) = .ok holds) ∧
    (∀ a b c : Value, a.Scripted → b.Scripted → c.Scripted → a.Equals b → b.Equals c → a.Equals c) ∧
    (∀ a : Value, a.Scripted → (a.Equals a ↔ a.toNumber? ≠ .ok (some .nan))) ∧
    (∀ (a b : Value) (x : Number), a.Scripted → b.Scripted → a.toNumber? = .ok (some x) →
      b.toNumber? = .ok none → ¬a.Equals b ∧ ¬b.Equals a) ∧
    ∀ x : Number, (∃ y, Number.ofText? x.render = some y) ∧
      ∀ v : Value, v.Scripted → v.toNumber? = .ok none → v.render ≠ .ok x.render := by
  refine ⟨fun a b => ⟨compareNotEqual a b, equalFlipped a b, orderFlipped a b ⟨nofun, nofun⟩,
    orderFlipped a b ⟨nofun, nofun⟩⟩, fun a b isA isB => scriptedCompare isA isB,
    fun a b c isA isB isC => equalsTransitive isA isB isC, fun a isA => equalsSelf isA, ?_,
    fun x => ⟨Number.renderingIsLiteral x, fun v => renderingApart x⟩⟩
  intro a b x isA isB numeric other
  have apart := equalsApart isA isB numeric other
  refine ⟨apart, fun equal => ?_⟩
  rcases equalFlipped a b with same | ⟨f, g, -, -, -, fails⟩
  · exact apart (same.trans equal)
  · exact absurd (fails.symm.trans equal) nofun

theorem spellingsOfZero :
    Equals (.text "0") (.text "-0.0") ∧ Equals (.text "-0.0") (.text "+0e9") ∧ Equals (.text "0") (.text "+0e9") ∧
      ¬Equals (.text "NaN") (.text "NaN") ∧ ¬Equals (.text "0") .nil ∧ ¬Equals .nil (.text "0") := by
  obtain ⟨-, -, transitive, self, apart, -⟩ := comparisonLaws
  have first : Equals (.text "0") (.text "-0.0") := rfl
  have second : Equals (.text "-0.0") (.text "+0e9") := rfl
  have noNumber : toNumber? (.text "NaN") = .ok (some .nan) := rfl
  refine ⟨first, second, transitive _ _ _ (.text _) (.text _) (.text _) first second, ?_, ?_⟩
  · exact fun equal => (self _ (.text _)).mp equal noNumber
  · exact apart (.text "0") .nil .zero (.text _) .nil rfl rfl

end Value
end LineScript
