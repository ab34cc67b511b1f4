import Mathlib.Data.List.Forall2
import Mathlib.Data.List.TakeWhile
import LineScript.Number.Literal

/-! Numerals as a relation between their parts and texts. Whatever is spelled is read. -/
namespace LineScript.Number

def Digits (cs : List Char) (values : List Nat) : Prop :=
  List.Forall₂ (fun c value => Text.digitValue? c = some value) cs values

inductive Sign : Bool → List Char → Prop where
  | none : Sign false []
  | plus : Sign false ['+']
  | minus : Sign true ['-']

inductive Mantissa : List Nat → List Nat → List Char → Prop where
  | whole {cs d whole} (digits : Digits cs (d :: whole)) : Mantissa (d :: whole) [] cs
  | point {cs ds d whole fraction} (before : Digits cs (d :: whole)) (behind : Digits ds fraction) :
      Mantissa (d :: whole) fraction (cs ++ '.' :: ds)
  | fraction {ds d fraction} (behind : Digits ds (d :: fraction)) : Mantissa [] (d :: fraction) ('.' :: ds)

inductive Exponent : Int → List Char → Prop where
  | none : Exponent 0 []
  | some {mark negative sign cs d values} (isMark : mark = 'e' ∨ mark = 'E') (signed : Sign negative sign)
      (digits : Digits cs (d :: values)) :
      Exponent (if negative then -(Text.ofDigits (d :: values) : Int) else Text.ofDigits (d :: values))
        (mark :: (sign ++ cs))

inductive Spells : Numeral → List Char → Prop where
  | intro {negative whole fraction exponent sign mantissa power} (signed : Sign negative sign)
      (digits : Mantissa whole fraction mantissa) (scaled : Exponent exponent power) :
      Spells ⟨negative, whole, fraction, exponent⟩ (sign ++ (mantissa ++ power))

section Reading

def StopsDigits (rest : List Char) : Prop := ∀ c, rest.head? = some c → Text.digitValue? c = none

theorem stopsNil : StopsDigits [] := by
  intro c head
  cases head

theorem stopsCons {c : Char} (noDigit : Text.digitValue? c = none) (cs : List Char) : StopsDigits (c :: cs) := by
  intro d head
  cases head
  exact noDigit

theorem readDigitsSpelled {cs rest : List Char} {values : List Nat} (digits : Digits cs values)
    (stops : StopsDigits rest) : readDigits (cs ++ rest) = (values, rest) := by
  induction digits with
  | nil =>
    cases rest with
    | nil => rfl
    | cons c rest => rw [List.nil_append, readDigits, stops c rfl]
  | cons first others ih => rw [List.cons_append, readDigits, first, ih]

def isSign (c : Char) : Bool := c = '+' || c = '-'

theorem readSignSpelled {negative : Bool} {sign rest : List Char} (signed : Sign negative sign)
    (unsigned : ∀ c, rest.head? = some c → isSign c = false) : readSign (sign ++ rest) = (negative, rest) := by
  cases signed with
  | plus | minus => rfl
  | none =>
    rw [List.nil_append]
    unfold readSign
    split
    · exact absurd (unsigned _ rfl) (by decide)
    · exact absurd (unsigned _ rfl) (by decide)
    · rfl

theorem signNoDigit {c : Char} (sign : isSign c = true) : Text.digitValue? c = none := by
  simp only [isSign, Bool.or_eq_true, decide_eq_true_eq] at sign
  rcases sign with rfl | rfl <;> decide

theorem digitsUnsigned {cs rest : List Char} {d : Nat} {values : List Nat} (digits : Digits cs (d :: values)) :
    ∀ c, (cs ++ rest).head? = some c → isSign c = false := by
  cases digits with
  | cons first others =>
    intro c head
    cases head
    rw [← Bool.not_eq_true]
    intro sign
    rw [signNoDigit sign] at first
    contradiction

theorem exponentStops {exponent : Int} {power : List Char} (scaled : Exponent exponent power) :
    StopsDigits power ∧ ∀ cs, power ≠ '.' :: cs := by
  cases scaled with
  | none => exact ⟨stopsNil, by simp⟩
  | some isMark signed digits =>
    rcases isMark with rfl | rfl
    · exact ⟨stopsCons (by decide) _, by simp⟩
    · exact ⟨stopsCons (by decide) _, by simp⟩

theorem readExponentSpelled {exponent : Int} {power : List Char} (scaled : Exponent exponent power) :
    readExponent? power = some exponent := by
  cases scaled with
  | none => rfl
  | @some mark negative sign cs d values isMark signed digits =>
    have isExponent : (mark = 'e' || mark = 'E') = true := by simpa using isMark
    have unsigned := @digitsUnsigned cs [] d values digits
    have read := readDigitsSpelled digits stopsNil
    rw [List.append_nil] at unsigned read
    rw [readExponent?, if_pos isExponent, readSignSpelled signed unsigned]
    simp only [read]

theorem readMantissaSpelled {whole fraction : List Nat} {mantissa power : List Char} {exponent : Int}
    (digits : Mantissa whole fraction mantissa) (scaled : Exponent exponent power) :
    readMantissa? (mantissa ++ power) = some (whole, fraction, power) := by
  obtain ⟨stops, noPoint⟩ := exponentStops scaled
  cases digits with
  | whole digits =>
    rw [readMantissa?, readDigitsSpelled digits stops]
    split <;> rename_i same <;> cases same
    · exact absurd rfl (noPoint _)
    · rfl
  | @point cs ds d whole fraction before behind =>
    rw [List.append_assoc, List.cons_append, readMantissa?,
      readDigitsSpelled before (stopsCons (by decide) _)]
    simp only [readDigitsSpelled behind stops]
  | @fraction ds d fraction behind =>
    have none : readDigits ('.' :: (ds ++ power)) = ([], '.' :: (ds ++ power)) :=
      readDigitsSpelled .nil (stopsCons (by decide) _)
    rw [List.cons_append, readMantissa?, none]
    simp only [readDigitsSpelled behind stops]

theorem mantissaUnsigned {whole fraction : List Nat} {mantissa power : List Char}
    (digits : Mantissa whole fraction mantissa) : ∀ c, (mantissa ++ power).head? = some c → isSign c = false := by
  cases digits with
  | whole digits => exact digitsUnsigned digits
  | point before behind =>
    rw [List.append_assoc]
    exact digitsUnsigned before
  | fraction behind =>
    intro c head
    cases head
    rfl

theorem readSpelled {n : Numeral} {cs : List Char} (spells : Spells n cs) : readNumeral? cs = some n := by
  cases spells with
  | intro signed digits scaled =>
    simp [readNumeral?, readSignSpelled signed (mantissaUnsigned digits), readMantissaSpelled digits scaled,
      readExponentSpelled scaled]

theorem ofTextSpelled {n : Numeral} {text : String} (spells : Spells n text.toList) :
    ofText? text = some n.toNumber := by
  rw [ofText?, ofChars?, readSpelled spells]

end Reading

end LineScript.Number
