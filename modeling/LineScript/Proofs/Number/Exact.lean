import LineScript.Number.Basic
import Mathlib.Algebra.Order.Field.Rat
import Mathlib.Tactic.FieldSimp

/-! Numbers as exact rationals. What the format holds is its own rounding, so an integer that a number
is equal to has that number for its nearest one. -/
namespace LineScript.Number

theorem unitsInOnePositive : 0 < unitsInOne := by decide +kernel

theorem binadePositive : 0 < binade := Nat.pow_pos (by decide)

theorem rankCases (rank : Nat) :
    rank < binade ∨ ∃ significand power, rank = significand + power * binade ∧
      binade ≤ significand ∧ significand < 2 * binade := by
  by_cases low : rank < binade
  · exact .inl low
  · have below : rank % binade < binade := Nat.mod_lt _ binadePositive
    have passed : 1 ≤ rank / binade := (Nat.one_le_div_iff binadePositive).mpr (by omega)
    have regrouped : (rank / binade - 1) * binade + binade = rank / binade * binade := by
      rw [← Nat.succ_mul, Nat.succ_eq_add_one, Nat.sub_add_cancel passed]
    have split := Nat.div_add_mod' rank binade
    exact .inr ⟨rank % binade + binade, rank / binade - 1, by omega, by omega, by omega⟩

theorem unitsNormal {significand : Nat} (power : Nat) (least : binade ≤ significand)
    (below : significand < 2 * binade) : units (significand + power * binade) = significand * 2 ^ power := by
  have high : ¬significand + power * binade < binade := by omega
  have place : (significand + power * binade) % binade + binade = significand := by
    rw [Nat.add_mul_mod_self_right, Nat.mod_eq_sub_mod least, Nat.mod_eq_of_lt (by omega)]
    omega
  have passed : (significand + power * binade) / binade - 1 = power := by
    have once : significand / binade = 1 := Nat.div_eq_of_lt_le (by omega) (by omega)
    rw [Nat.add_mul_div_right _ _ binadePositive, once, Nat.add_sub_cancel_left]
  simp only [units, if_neg high, place, passed]
  rfl

theorem log2Shifted {n width : Nat} (power : Nat) (least : 2 ^ width ≤ n) (below : n < 2 ^ (width + 1)) :
    (n * 2 ^ power).log2 = width + power := by
  have positive : 0 < n * 2 ^ power := Nat.mul_pos (Nat.lt_of_lt_of_le (Nat.two_pow_pos _) least) (Nat.two_pow_pos _)
  rw [Nat.log2_eq_iff positive.ne', Nat.add_right_comm, Nat.pow_add, Nat.pow_add]
  exact ⟨Nat.mul_le_mul_right _ least, Nat.mul_lt_mul_of_pos_right below (Nat.two_pow_pos _)⟩

theorem unitsScaled (rank : Nat) :
    ∃ significand, units rank = significand * 2 ^ ((units rank).log2 - 52) ∧
      significand + ((units rank).log2 - 52) * binade = rank := by
  rcases rankCases rank with low | ⟨significand, power, rfl, least, below⟩
  · have same : units rank = rank := if_pos low
    have short : rank.log2 - 52 = 0 := by
      rcases Nat.eq_zero_or_pos rank with rfl | positive
      · rfl
      · have := (Nat.log2_lt positive.ne').mpr (show rank < 2 ^ 52 from low)
        omega
    exact ⟨rank, by simp [same, short], by simp [same, short]⟩
  · have long : (significand * 2 ^ power).log2 = 52 + power := log2Shifted power least below
    rw [unitsNormal power least below, long, Nat.add_sub_cancel_left]
    exact ⟨significand, rfl, rfl⟩

theorem roundHalfEvenExact (quotient : Nat) {denominator : Nat} (positive : 0 < denominator) :
    roundHalfEven (quotient * denominator) denominator = quotient := by
  simp only [roundHalfEven, Nat.mul_div_cancel _ positive, Nat.mul_mod_left, Nat.mul_zero, positive, if_true]

theorem rankOfExact {numerator denominator rank : Nat} (positive : 0 < denominator)
    (exact : numerator * unitsInOne = units rank * denominator) : rankOfRatio numerator denominator = rank := by
  obtain ⟨significand, scaled, place⟩ := unitsScaled rank
  let divisor := denominator * 2 ^ ((units rank).log2 - 52)
  have wide : units rank * denominator = significand * divisor := by
    rw [Nat.mul_left_comm, ← scaled, Nat.mul_comm]
  have divides : 0 < divisor := Nat.mul_pos positive (Nat.two_pow_pos _)
  calc rankOfRatio numerator denominator
      = roundHalfEven (units rank * denominator) divisor + ((units rank).log2 - 52) * binade := by
        simp only [rankOfRatio, exact, Nat.mul_div_cancel _ positive]
        rfl
    _ = rank := by rw [wide, roundHalfEvenExact significand divides, place]

def value? : Number → Option ℚ
  | .finite negative rank =>
    let size : ℚ := (units rank.val : ℚ) / (unitsInOne : ℚ)
    some (if negative then -size else size)
  | _ => none

def IsWhole (negative : Bool) (rank : Nat) (n : Int) : Prop :=
  ∃ size : Nat, units rank = size * unitsInOne ∧ n = if negative then -(size : Int) else size

theorem toIntWhole (negative : Bool) (rank : Fin finiteRanks) (n : Int) :
    toInt? (.finite negative rank) = some n ↔ IsWhole negative rank.val n := by
  simp only [toInt?]
  constructor
  · intro found
    split at found
    · rename_i whole
      cases found
      exact ⟨units rank.val / unitsInOne, (Nat.div_mul_cancel (Nat.dvd_of_mod_eq_zero whole)).symm, rfl⟩
    · contradiction
  · rintro ⟨size, same, rfl⟩
    rw [same, Nat.mul_mod_left, Nat.mul_div_cancel _ unitsInOnePositive, if_pos rfl]

theorem valueWhole (negative : Bool) (rank : Fin finiteRanks) (n : Int) :
    value? (.finite negative rank) = some (n : ℚ) ↔ IsWhole negative rank.val n := by
  have one : (unitsInOne : ℚ) ≠ 0 := by exact_mod_cast unitsInOnePositive.ne'
  have size (k : Nat) : (units rank.val : ℚ) / (unitsInOne : ℚ) = k ↔ units rank.val = k * unitsInOne := by
    rw [div_eq_iff one]
    exact_mod_cast Iff.rfl
  have least : 0 ≤ (units rank.val : ℚ) / (unitsInOne : ℚ) := div_nonneg (Nat.cast_nonneg _) (Nat.cast_nonneg _)
  simp only [value?, Option.some.injEq, IsWhole, ← size]
  constructor
  · generalize (units rank.val : ℚ) / (unitsInOne : ℚ) = ratio at least
    intro equal
    cases negative with
    | true =>
      have sign : n ≤ 0 := by exact_mod_cast equal.symm.trans_le (neg_nonpos.mpr least)
      obtain ⟨k, rfl⟩ := Int.exists_eq_neg_ofNat sign
      exact ⟨k, by simpa using equal, rfl⟩
    | false =>
      have sign : 0 ≤ n := by exact_mod_cast least.trans_eq equal
      obtain ⟨k, rfl⟩ := Int.eq_ofNat_of_zero_le sign
      exact ⟨k, by simpa using equal, rfl⟩
  · rintro ⟨k, same, rfl⟩
    rw [same]
    cases negative <;> simp

theorem toIntValue (x : Number) (n : Int) : x.toInt? = some n ↔ x.value? = some (n : ℚ) := by
  cases x with
  | finite negative rank => rw [toIntWhole, valueWhole]
  | _ => simp [toInt?, value?]

theorem ofIntNearest {n : Int} {rank : Fin finiteRanks} (place : rankOfRatio n.natAbs 1 = rank.val) :
    ofInt? n = some (.finite (n < 0) rank) := by
  rw [ofInt?, ofRatio, place, ofRank, dif_pos rank.isLt]
  rfl

theorem ofIntExact {x : Number} {n : Int} (equal : x.toInt? = some n) :
    ∃ y, ofInt? n = some y ∧ y.toInt? = some n := by
  cases x with
  | finite negative rank =>
    obtain ⟨size, same, signed⟩ := (toIntWhole negative rank n).mp equal
    have magnitude : size = n.natAbs := by cases negative <;> simp [signed]
    have place : rankOfRatio n.natAbs 1 = rank.val :=
      rankOfExact Nat.one_pos (by rw [← magnitude, same, Nat.mul_one])
    refine ⟨.finite (n < 0) rank, ofIntNearest place, (toIntWhole _ _ _).mpr ⟨size, same, ?_⟩⟩
    by_cases below : n < 0
    · simp [below, magnitude, Int.ofNat_natAbs_of_nonpos below.le]
    · simp [below, magnitude, Int.natAbs_of_nonneg (not_lt.mp below)]
  | _ => contradiction

end LineScript.Number
