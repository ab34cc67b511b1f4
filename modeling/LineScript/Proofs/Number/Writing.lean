import LineScript.Value.Render
import LineScript.Proofs.Number.Decimal
import LineScript.Proofs.Number.Spelling

/-! Numbers written and read back. What a number is written as spells a decimal that has the number for its
nearest one, so that reading gives the number again. -/
namespace LineScript.Number

section Digits

def digitValues (cs : List Char) : List Nat := cs.map (·.toNat - 48)

def worth (cs : List Char) : Nat := Nat.ofDigitChars 10 cs 0

theorem ofDigitValues (cs : List Char) : Text.ofDigits (digitValues cs) = worth cs := by
  simp only [Text.ofDigits, digitValues, worth, Nat.ofDigitChars_eq_foldl, List.foldl_map]
  rfl

theorem worthZeros (cs : List Char) (count : Nat) : worth (cs ++ List.replicate count '0') = worth cs * 10 ^ count := by
  rw [worth, Nat.ofDigitChars_append, Nat.ofDigitChars_replicate_zero, Nat.mul_comm, worth]

theorem worthBehindZeros (count : Nat) (cs : List Char) : worth (List.replicate count '0' ++ cs) = worth cs := by
  rw [worth, Nat.ofDigitChars_append, Nat.ofDigitChars_replicate_zero, Nat.mul_zero, worth]

theorem worthToDigits (n : Nat) : worth (Nat.toDigits 10 n) = n :=
  Nat.ofDigitChars_toDigits (by decide) (by decide)

def OnlyDigits (cs : List Char) : Prop := ∀ c ∈ cs, c.isDigit = true

theorem decimalDigit {c : Char} (digit : c.isDigit = true) : Text.digitValue? c = some (c.toNat - 48) := by
  simp only [Char.isDigit, Bool.and_eq_true, decide_eq_true_eq, ge_iff_le, UInt32.le_iff_toNat_le] at digit
  have low : 0x30 ≤ c.toNat := digit.1
  have high : c.toNat < 0x30 + 10 := Nat.lt_succ_of_le digit.2
  simp [Text.digitValue?, Text.digitZeros, low, high]

theorem decimalDigits {cs : List Char} (all : OnlyDigits cs) : Digits cs (digitValues cs) :=
  List.forall₂_map_right_iff.mpr (List.forall₂_same.mpr fun c member => decimalDigit (all c member))

theorem toDigitsDecimal (n : Nat) : OnlyDigits (Nat.toDigits 10 n) :=
  fun _ member => Nat.isDigit_of_mem_toDigits (by decide) (by decide) member

theorem zerosDecimal (count : Nat) : OnlyDigits (List.replicate count '0') := by
  intro c member
  rw [List.eq_of_mem_replicate member]
  rfl

theorem OnlyDigits.take {digits : List Char} (all : OnlyDigits digits) (count : Nat) :
    OnlyDigits (digits.take count) :=
  fun c member => all c (List.mem_of_mem_take member)

theorem OnlyDigits.drop {digits : List Char} (all : OnlyDigits digits) (count : Nat) :
    OnlyDigits (digits.drop count) :=
  fun c member => all c (List.mem_of_mem_drop member)

end Digits

inductive Writes : List Char → Decimal → Prop where
  | intro {whole fraction exponent mantissa power} (digits : Mantissa whole fraction mantissa)
      (scaled : Exponent exponent power) :
      Writes (mantissa ++ power) ⟨Text.ofDigits (whole ++ fraction), exponent - fraction.length⟩

theorem readsWritten {cs : List Char} {d : Decimal} {text : String} {negative : Bool} {sign : List Char}
    (writes : Writes cs d) (signed : Sign negative sign) (same : text.toList = sign ++ cs) :
    ofText? text = some (d.toNumber negative) := by
  cases writes with
  | intro digits scaled =>
    have spells := Spells.intro signed digits scaled
    rw [← same] at spells
    exact ofTextSpelled spells

section Mantissas
variable {before behind power : List Char} {exponent : Int}

theorem pointedWrites (all : OnlyDigits before) (some : before ≠ []) (digits : OnlyDigits behind)
    (scaled : Exponent exponent power) :
    Writes (before ++ '.' :: behind ++ power) ⟨worth (before ++ behind), exponent - behind.length⟩ := by
  have values : Mantissa (digitValues before) (digitValues behind) (before ++ '.' :: behind) := by
    cases before with
    | nil => contradiction
    | cons c cs => exact .point (decimalDigits all) (decimalDigits digits)
  have writes := Writes.intro values scaled
  rwa [digitValues, digitValues, ← List.map_append, List.length_map, ← digitValues, ofDigitValues] at writes

theorem wholeWrites (all : OnlyDigits before) (some : before ≠ []) (scaled : Exponent exponent power) :
    Writes (before ++ power) ⟨worth before, exponent⟩ := by
  have values : Mantissa (digitValues before) [] before := by
    cases before with
    | nil => contradiction
    | cons c cs => exact .whole (decimalDigits all)
  have writes := Writes.intro values scaled
  rwa [List.append_nil, List.length_nil, Int.natCast_zero, Int.sub_zero, ofDigitValues] at writes

end Mantissas

section Texts
variable {digits : List Char} (all : OnlyDigits digits)
include all

theorem pointTextWrites (exponent : Int) :
    ∃ zeros, Writes (pointText digits exponent) (Decimal.padded ⟨worth digits, exponent + 1 - digits.length⟩ zeros) := by
  unfold pointText
  split
  · rename_i below
    have behind := List.forall_mem_append.mpr ⟨zerosDecimal (exponent.natAbs - 1), all⟩
    have writes := pointedWrites (zerosDecimal 1) (by simp) behind .none
    have places : (0 : Int) - (List.replicate (exponent.natAbs - 1) '0' ++ digits).length =
        exponent + 1 - digits.length := by
      rw [List.length_append, List.length_replicate]
      omega
    rw [worthBehindZeros, worthBehindZeros, places, List.append_nil] at writes
    exact ⟨0, by simpa [Decimal.padded] using writes⟩
  · rename_i above
    dsimp only
    cases rest : digits.drop (exponent.natAbs + 1) with
    | nil =>
      have short : digits.length ≤ exponent.natAbs + 1 := List.drop_eq_nil_iff.mp rest
      have before := List.forall_mem_append.mpr ⟨all, zerosDecimal (exponent.natAbs + 1 - digits.length)⟩
      have some : digits ++ List.replicate (exponent.natAbs + 1 - digits.length) '0' ≠ [] := by
        rw [← List.length_pos_iff, List.length_append, List.length_replicate]
        omega
      have writes := pointedWrites before some (zerosDecimal 1) .none
      have places : (0 : Int) - (List.replicate 1 '0').length =
          exponent + 1 - digits.length - ((exponent.natAbs + 1 - digits.length + 1 : Nat) : Int) := by
        rw [List.length_replicate]
        omega
      rw [worthZeros, worthZeros, Nat.mul_assoc, ← Nat.pow_add, places, List.append_nil] at writes
      rw [List.take_of_length_le short]
      exact ⟨exponent.natAbs + 1 - digits.length + 1, writes⟩
    | cons c cs =>
      have long : exponent.natAbs + 1 < digits.length := by
        rw [← Nat.not_le, ← List.drop_eq_nil_iff, rest]
        exact List.cons_ne_nil c cs
      have some : digits.take (exponent.natAbs + 1) ≠ [] := by
        rw [← List.length_pos_iff, List.length_take]
        omega
      have writes := pointedWrites (all.take _) some (all.drop (exponent.natAbs + 1)) .none
      have places : (0 : Int) - (digits.drop (exponent.natAbs + 1)).length = exponent + 1 - digits.length := by
        rw [List.length_drop]
        omega
      rw [List.take_append_drop, places, rest, List.append_nil] at writes
      rw [Nat.sub_eq_zero_of_le (Nat.le_of_lt long)]
      exact ⟨0, by simpa [Decimal.padded] using writes⟩

theorem exponentMarked (some : digits ≠ []) (negative : Bool) :
    Exponent (if negative then -(worth digits : Int) else worth digits)
      ('e' :: (if negative then '-' else '+') :: digits) := by
  rw [← ofDigitValues]
  cases digits with
  | nil => contradiction
  | cons c cs =>
    cases negative
    · exact .some (.inl rfl) .plus (decimalDigits all)
    · exact .some (.inl rfl) .minus (decimalDigits all)

theorem exponentPadded (some : digits ≠ []) : OnlyDigits (if digits.length < 2 then '0' :: digits else digits) ∧
    (if digits.length < 2 then '0' :: digits else digits) ≠ [] ∧
      worth (if digits.length < 2 then '0' :: digits else digits) = worth digits := by
  split
  · exact ⟨List.forall_mem_cons.mpr ⟨rfl, all⟩, List.cons_ne_nil _ _, worthBehindZeros 1 digits⟩
  · exact ⟨all, some, rfl⟩

omit all in
theorem exponentSpelled (exponent : Int) : Exponent exponent
    (['e', if exponent < 0 then '-' else '+'] ++
      (if (Nat.toDigits 10 exponent.natAbs).length < 2 then '0' :: Nat.toDigits 10 exponent.natAbs
        else Nat.toDigits 10 exponent.natAbs)) := by
  obtain ⟨padded, written, value⟩ := exponentPadded (toDigitsDecimal exponent.natAbs) Nat.toDigits_ne_nil
  have marked := exponentMarked padded written (exponent < 0)
  have signed : (if exponent < 0 then -(exponent.natAbs : Int) else exponent.natAbs) = exponent := by
    split <;> omega
  simp only [value, worthToDigits, decide_eq_true_eq, signed] at marked
  exact marked

theorem exponentTextWrites (some : digits ≠ []) (exponent : Int) :
    Writes (exponentText digits exponent) ⟨worth digits, exponent + 1 - digits.length⟩ := by
  have first : digits.take 1 ≠ [] := by simpa using some
  have length := List.length_pos_iff.mpr some
  have scaled := exponentSpelled exponent
  unfold exponentText
  rw [List.append_assoc]
  split
  · rename_i single
    have writes := wholeWrites (all.take 1) first scaled
    have places : exponent = exponent + 1 - digits.length := by omega
    rw [List.take_of_length_le single] at writes ⊢
    rw [List.append_nil, ← places]
    exact writes
  · have writes := pointedWrites (all.take 1) first (all.drop 1) scaled
    have places : exponent - (digits.drop 1).length = exponent + 1 - digits.length := by
      rw [List.length_drop]
      omega
    rw [List.take_append_drop, places] at writes
    exact writes

end Texts

theorem zerosBehind (cs : List Char) :
    ∃ zeros, cs = (cs.reverse.dropWhile (· = '0')).reverse ++ List.replicate zeros '0' := by
  have zeros : ∀ c ∈ cs.reverse.takeWhile (· = '0'), c = '0' := by
    intro c member
    simpa using List.all_eq_true.mp List.all_takeWhile c member
  have whole := List.takeWhile_append_dropWhile (p := (· = '0')) (l := cs.reverse)
  rw [List.eq_replicate_of_mem zeros] at whole
  have turned := congrArg List.reverse whole
  rw [List.reverse_append, List.reverse_replicate, List.reverse_reverse] at turned
  exact ⟨_, turned.symm⟩

theorem scientificPadded (d : Decimal) : ∃ zeros,
    d = Decimal.padded ⟨worth d.scientific.1, d.scientific.2 + 1 - d.scientific.1.length⟩ zeros := by
  obtain ⟨zeros, whole⟩ := zerosBehind (Nat.toDigits 10 d.coefficient)
  have value := worthToDigits d.coefficient
  have count := congrArg List.length whole
  rw [whole, worthZeros] at value
  rw [List.length_append, List.length_replicate] at count
  refine ⟨zeros, ?_⟩
  obtain ⟨coefficient, exponent⟩ := d
  simp only [Decimal.scientific, Decimal.padded, Decimal.mk.injEq] at value count ⊢
  exact ⟨value.symm, by omega⟩

theorem digitsPositive {n : Nat} (positive : n ≠ 0) : ∃ c ∈ Nat.toDigits 10 n, c ≠ '0' := by
  by_contra none
  simp only [not_exists, not_and, not_not] at none
  have value := worthToDigits n
  rw [List.eq_replicate_of_mem none, ← List.nil_append (List.replicate _ _), worthZeros] at value
  exact positive (value.symm.trans (Nat.zero_mul _))

theorem scientificDecimal (d : Decimal) : OnlyDigits d.scientific.1 := by
  intro c member
  simp only [Decimal.scientific, List.mem_reverse] at member
  exact toDigitsDecimal _ c (List.mem_reverse.mp ((List.dropWhile_sublist _).subset member))

theorem scientificSome {d : Decimal} (positive : d.coefficient ≠ 0) : d.scientific.1 ≠ [] := by
  obtain ⟨c, member, digit⟩ := digitsPositive positive
  intro none
  simp only [Decimal.scientific, List.reverse_eq_nil_iff, List.dropWhile_eq_nil_iff, List.mem_reverse,
    decide_eq_true_eq] at none
  exact digit (none c member)

theorem magnitudeWrites {rank : Nat} (finite : rank < finiteRanks) :
    ∃ d : Decimal, Writes (magnitudeText rank) d ∧ d.rank = rank := by
  unfold magnitudeText
  by_cases zero : rank = 0
  · rw [if_pos zero, zero]
    exact ⟨_, pointedWrites (zerosDecimal 1) (by simp) (zerosDecimal 1) .none, by decide +kernel⟩
  · rw [if_neg zero]
    have place := Decimal.rankShortest finite zero
    have some := scientificSome (Decimal.shortestPositive finite zero)
    have decimal := scientificDecimal (Decimal.shortest rank)
    obtain ⟨zeros, whole⟩ := scientificPadded (Decimal.shortest rank)
    rw [whole, Decimal.rankPadded] at place
    generalize (Decimal.shortest rank).scientific = written at some decimal place
    obtain ⟨digits, exponent⟩ := written
    dsimp only at some decimal place ⊢
    split
    · obtain ⟨more, writes⟩ := pointTextWrites decimal exponent
      exact ⟨_, writes, (Decimal.rankPadded _ more).trans place⟩
    · exact ⟨_, exponentTextWrites decimal some exponent, place⟩

theorem textReads (negative : Bool) (rank : Fin finiteRanks) :
    ofText? (text (.finite negative rank)) = some (.finite negative rank) := by
  obtain ⟨d, writes, place⟩ := magnitudeWrites rank.isLt
  have signed : Sign negative (if negative then ['-'] else []) := by
    cases negative
    · exact .none
    · exact .minus
  rw [readsWritten writes signed (by rw [text, String.toList_ofList]), Decimal.toNumber, place, ofRank,
    dif_pos rank.isLt]

theorem integerWrites (n : Nat) : Writes (Nat.toDigits 10 n) ⟨n, 0⟩ := by
  have writes := wholeWrites (toDigitsDecimal n) Nat.toDigits_ne_nil .none
  rwa [worthToDigits, List.append_nil] at writes

theorem integerReads (n : Int) : ofText? (toString n) = some (Decimal.toNumber (n < 0) ⟨n.natAbs, 0⟩) := by
  rw [Int.toString_eq_repr, Int.repr_eq_if]
  split
  · rename_i positive
    have size : n.toNat = n.natAbs := by omega
    have signless : ¬n < 0 := by omega
    rw [size, readsWritten (integerWrites n.natAbs) .none (by rw [Nat.toList_repr, List.nil_append])]
    simp only [signless, decide_false]
  · rename_i negative
    have size : (-n).toNat = n.natAbs := by omega
    have signed : n < 0 := by omega
    rw [size, readsWritten (integerWrites n.natAbs) .minus (by rw [String.toList_append, Nat.toList_repr]; rfl)]
    simp only [signed, decide_true]

theorem finiteZero (negative : Bool) (rank : Fin finiteRanks) :
    toInt? (.finite negative rank) = some 0 ↔ rank.val = 0 := by
  rw [toIntWhole]
  constructor
  · rintro ⟨size, same, signed⟩
    have none : size = 0 := by cases negative <;> simpa using signed.symm
    by_contra positive
    exact Decimal.unitsPositive positive (by rw [same, none, Nat.zero_mul])
  · intro none
    rw [none]
    exact ⟨0, (if_pos binadePositive).trans (Nat.zero_mul _).symm, by simp⟩

theorem negZero (negative : Bool) (rank : Fin finiteRanks) :
    Number.finite negative rank = neg zero ↔ negative = true ∧ rank.val = 0 := by
  rw [show neg zero = .finite true ⟨0, by decide⟩ from rfl, Number.finite.injEq, Fin.ext_iff]

theorem wholeReads {negative : Bool} {rank : Fin finiteRanks} {n : Int}
    (whole : toInt? (.finite negative rank) = some n) (short : n.natAbs < 2 ^ 63) :
    ofText? (toString n) = some (if Number.finite negative rank = neg zero then zero else .finite negative rank) := by
  obtain ⟨size, same, signed⟩ := (toIntWhole negative rank n).mp whole
  have magnitude : n.natAbs = size := by cases negative <;> simp [signed]
  have place := Decimal.rankInteger (Nat.lt_trans short (by decide +kernel)) (magnitude ▸ same)
  have finite : Decimal.toNumber (n < 0) ⟨n.natAbs, 0⟩ = .finite (n < 0) rank := by
    rw [Decimal.toNumber, place, ofRank, dif_pos rank.isLt]
  rw [integerReads, finite, Option.some.injEq]
  by_cases none : rank.val = 0
  · obtain rfl : n = 0 := Option.some.inj (whole.symm.trans ((finiteZero negative rank).mpr none))
    have zeroRank : rank = ⟨0, by decide⟩ := Fin.ext none
    rw [zeroRank]
    cases negative <;> rfl
  · have some : n ≠ 0 := by
      rintro rfl
      exact none ((finiteZero negative rank).mp whole)
    have sign : decide (n < 0) = negative := by cases negative <;> simp at signed ⊢ <;> omega
    rw [if_neg (fun same => none ((negZero negative rank).mp same).2), sign]

theorem finiteReads (negative : Bool) (rank : Fin finiteRanks) :
    ofText? (render (.finite negative rank)) =
      some (if Number.finite negative rank = neg zero then zero else .finite negative rank) := by
  have apart (some : rank.val ≠ 0) : Number.finite negative rank ≠ neg zero :=
    fun same => some ((negZero negative rank).mp same).2
  unfold render
  cases whole : (Number.finite negative rank).toInt? with
  | none =>
    have some : rank.val ≠ 0 := by
      rw [Ne, ← finiteZero negative rank, whole]
      exact Option.some_ne_none 0 ∘ Eq.symm
    rw [if_neg (apart some)]
    exact textReads negative rank
  | some n =>
    dsimp only
    split
    · exact wholeReads whole ‹_›
    · rename_i long
      have some : rank.val ≠ 0 := by
        rw [Ne, ← finiteZero negative rank, whole]
        rintro ⟨⟩
        exact long (by decide)
      rw [if_neg (apart some)]
      exact textReads negative rank

theorem nameReads (negative : Bool) : ofText? (render (.infinite negative)) = some (.infinite negative) := by
  revert negative
  decide +kernel

theorem renderingIsLiteral (x : Number) : ∃ y, ofText? x.render = some y := by
  cases x with
  | nan => exact ⟨.nan, by decide +kernel⟩
  | infinite negative => exact ⟨_, nameReads negative⟩
  | finite negative rank => exact ⟨_, finiteReads negative rank⟩

/- A number that is rendered and read again is the same number, but for the sign of zero. -/
theorem renderingReadsBack (x : Number) : ofText? x.render = some (if x = neg zero then zero else x) := by
  cases x with
  | nan => decide +kernel
  | infinite negative =>
    rw [if_neg (by simp [neg, zero])]
    exact nameReads negative
  | finite negative rank => exact finiteReads negative rank

end LineScript.Number
