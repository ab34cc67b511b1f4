import LineScript.Number.Decimal
import LineScript.Proofs.Number.Exact

/-! Decimals and the numbers nearest to them. The nearest number goes by the value of a decimal alone, so
zeros may move from its exponent to its coefficient; and the shortest decimal of a number has that
number for its nearest one. -/
namespace LineScript
namespace Number

theorem roundHalfEvenScaled (numerator denominator : Nat) {factor : Nat} (positive : 0 < factor) :
    roundHalfEven (numerator * factor) (denominator * factor) = roundHalfEven numerator denominator := by
  simp only [roundHalfEven, Nat.mul_div_mul_right _ _ positive, Nat.mul_mod_mul_right, ← Nat.mul_assoc,
    Nat.mul_lt_mul_right positive]

theorem rankOfRatioScaled (numerator denominator : Nat) {factor : Nat} (positive : 0 < factor) :
    rankOfRatio (numerator * factor) (denominator * factor) = rankOfRatio numerator denominator := by
  simp only [rankOfRatio, Nat.mul_right_comm _ factor, Nat.mul_div_mul_right _ _ positive,
    roundHalfEvenScaled _ _ positive]

theorem unitsBelow {rank : Nat} (finite : rank < finiteRanks) : units rank < 2 ^ 2098 := by
  rcases rankCases rank with low | ⟨significand, power, rfl, least, below⟩
  · have same : units rank = rank := if_pos low
    rw [same]
    exact Nat.lt_trans low (by decide +kernel)
  · have few : power ≤ 2045 := by
      by_contra many
      have more : 2046 * binade ≤ power * binade := Nat.mul_le_mul_right _ (by omega)
      have whole : finiteRanks = 2047 * binade := rfl
      omega
    rw [unitsNormal power least below]
    calc significand * 2 ^ power < 2 * binade * 2 ^ power := Nat.mul_lt_mul_of_pos_right below (Nat.two_pow_pos _)
      _ ≤ 2 * binade * 2 ^ 2045 := Nat.mul_le_mul_left _ (Nat.pow_le_pow_right (by decide) few)
      _ = 2 ^ 2098 := by decide +kernel

end Number

namespace Decimal
open Number

def padded (d : Decimal) (zeros : Nat) : Decimal := ⟨d.coefficient * 10 ^ zeros, d.exponent - zeros⟩

theorem digitCountTen {n : Nat} (positive : 0 < n) : digitCount (n * 10) = digitCount n + 1 := by
  have digits := Nat.toDigits_append_toDigits (b := 10) (d := 0) (by decide) positive (by decide)
  have count := congrArg List.length digits
  rw [Nat.add_zero, Nat.mul_comm, List.length_append] at count
  exact count.symm

theorem ratioTen (coefficient : Nat) (exponent : Int) :
    rankOfRatio (ratio ⟨coefficient * 10, exponent - 1⟩).1 (ratio ⟨coefficient * 10, exponent - 1⟩).2 =
      rankOfRatio (ratio ⟨coefficient, exponent⟩).1 (ratio ⟨coefficient, exponent⟩).2 := by
  have ten : 0 < 10 := by decide
  rcases Int.lt_trichotomy exponent 0 with below | rfl | above
  · have next : (exponent - 1).natAbs = exponent.natAbs + 1 := by omega
    have less : exponent - 1 < 0 := by omega
    simp only [ratio, if_pos below, if_pos less, next]
    exact rankOfRatioScaled coefficient (10 ^ exponent.natAbs) ten
  · have same := rankOfRatioScaled coefficient 1 ten
    simpa [ratio] using same
  · have next : exponent.natAbs = (exponent - 1).natAbs + 1 := by omega
    have more : ¬exponent < 0 := by omega
    have still : ¬exponent - 1 < 0 := by omega
    simp only [ratio, if_neg more, if_neg still, next, Nat.pow_eq, Nat.pow_succ]
    rw [Nat.mul_assoc, Nat.mul_comm 10]

theorem rankTen (coefficient : Nat) (exponent : Int) :
    (⟨coefficient * 10, exponent - 1⟩ : Decimal).rank = (⟨coefficient, exponent⟩ : Decimal).rank := by
  by_cases zero : coefficient = 0
  · simp [rank, zero]
  · have positive : 0 < coefficient := Nat.pos_of_ne_zero zero
    have size : (digitCount (coefficient * 10) : Int) + (exponent - 1) = digitCount coefficient + exponent := by
      rw [digitCountTen positive]
      omega
    have more : coefficient * 10 ≠ 0 := by omega
    simp only [rank, if_neg zero, if_neg more, size, ratioTen]

theorem rankPadded (d : Decimal) (zeros : Nat) : (d.padded zeros).rank = d.rank := by
  induction zeros with
  | zero => simp [padded]
  | succ zeros ih =>
    have coefficient : d.coefficient * 10 ^ (zeros + 1) = d.coefficient * 10 ^ zeros * 10 := by
      rw [Nat.pow_succ, Nat.mul_assoc]
    have exponent : d.exponent - ((zeros + 1 : Nat) : Int) = d.exponent - zeros - 1 := by omega
    rw [padded, coefficient, exponent, rankTen]
    exact ih

theorem rankWithin {d : Decimal} (some : d.coefficient ≠ 0) (low : -330 ≤ digitCount d.coefficient + d.exponent)
    (high : digitCount d.coefficient + d.exponent ≤ 310) : d.rank = rankOfRatio d.ratio.1 d.ratio.2 := by
  simp only [rank, if_neg some, if_neg (Int.not_lt.mpr high), if_neg (Int.not_lt.mpr low)]

theorem digitCountBelow {n count : Nat} (some : 0 < count) : digitCount n ≤ count ↔ n < 10 ^ count :=
  Nat.length_toDigits_le_iff (by decide) some

theorem unitsInOnePlaces : unitsInOne = Nat.pow 2 1074 := by
  unfold unitsInOne
  with_reducible rfl

/- All digits of a magnitude, the number of places being a variable so that no power is expanded. -/
theorem rankOfPlaces {rank places : Nat} (finite : rank < finiteRanks) (positive : units rank ≠ 0)
    (one : unitsInOne = Nat.pow 2 places) (exact : places = 1074) (least : 10 ^ 744 ≤ Nat.pow 5 places)
    (most : 2 ^ 2098 * Nat.pow 5 places < 10 ^ 1384) :
    (⟨units rank * Nat.pow 5 places, -places⟩ : Decimal).rank = rank := by
  have fives : 0 < Nat.pow 5 places := Nat.pow_pos (by decide)
  have many : ¬digitCount (units rank * Nat.pow 5 places) ≤ 744 := by
    rw [digitCountBelow (by decide), Nat.not_lt]
    exact Nat.le_trans least (Nat.le_mul_of_pos_left _ (Nat.pos_of_ne_zero positive))
  have few : digitCount (units rank * Nat.pow 5 places) ≤ 1384 := by
    rw [digitCountBelow (by decide)]
    exact Nat.lt_trans (Nat.mul_lt_mul_of_pos_right (unitsBelow finite) fives) most
  rw [rankWithin (Nat.mul_ne_zero positive fives.ne') (by dsimp only; omega) (by dsimp only; omega), ratio,
    if_pos (by dsimp only; omega)]
  dsimp only
  rw [Int.natAbs_neg, Int.natAbs_natCast]
  refine rankOfExact (Nat.pow_pos (by decide)) ?_
  rw [one, Nat.mul_assoc]
  exact congrArg (units rank * ·) (Nat.mul_pow 5 2 places).symm

theorem unitsPositive {rank : Nat} (positive : rank ≠ 0) : units rank ≠ 0 := by
  unfold units
  split
  · exact positive
  · have power : 0 < Nat.pow 2 (rank / binade - 1) := Nat.pow_pos (by decide)
    have base := binadePositive
    exact (Nat.mul_pos (by omega) power).ne'

theorem rankShortest {rank : Nat} (finite : rank < finiteRanks) (positive : rank ≠ 0) :
    (shortest rank).rank = rank := by
  unfold shortest
  cases found : (List.range 17).findSome? fun i => withDigits? rank (i + 1) with
  | none =>
    have least : 10 ^ 744 ≤ Nat.pow 5 1074 := by decide +kernel
    have most : 2 ^ 2098 * Nat.pow 5 1074 < 10 ^ 1384 := by decide +kernel
    have all := rankOfPlaces finite (unitsPositive positive) unitsInOnePlaces rfl least most
    exact all
  | some d =>
    obtain ⟨i, -, inside⟩ := List.exists_of_findSome?_eq_some found
    simpa using List.find?_some inside

theorem shortestPositive {rank : Nat} (finite : rank < finiteRanks) (positive : rank ≠ 0) :
    (shortest rank).coefficient ≠ 0 := by
  intro zero
  have place := rankShortest finite positive
  rw [Decimal.rank, if_pos zero] at place
  exact positive place.symm

theorem rankInteger {n rank : Nat} (short : n < 10 ^ 300) (same : units rank = n * unitsInOne) :
    (⟨n, 0⟩ : Decimal).rank = rank := by
  by_cases zero : n = 0
  · rw [zero, Nat.zero_mul] at same
    have none : rank = 0 := by
      by_contra positive
      exact unitsPositive positive same
    rw [Decimal.rank, if_pos zero, none]
  · have few := (@digitCountBelow n 300 (by decide)).mpr short
    rw [rankWithin zero (by dsimp only; omega) (by dsimp only; omega)]
    exact rankOfExact Nat.one_pos (by simp [ratio, same])

end Decimal
end LineScript
