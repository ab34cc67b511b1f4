import LineScript.Text.Space
import LineScript.Proofs.Number.Spelling

/-! The grammar of number literals. Whatever is read is spelled by it, so a text has a number exactly if
it is a numeral or a name, and the number is that of the numeral or of the name. -/
namespace LineScript.Number

/- A name, each letter of which may be a capital. Only ASCII letters have ASCII letters as lower case,
but for the sign of the kelvin, which no name has. -/
def Named (name : String) (cs : List Char) : Prop :=
  List.Forall₂ (fun letter c => c = letter ∨ c = letter.toUpper) name.toList cs

inductive Name : Number → List Char → Prop where
  | infinity {negative sign name cs} (signed : Sign negative sign) (isName : name = "inf" ∨ name = "infinity")
      (named : Named name cs) : Name (.infinite negative) (sign ++ cs)
  | nan {cs} (named : Named "nan" cs) : Name .nan cs

inductive Literal : Number → List Char → Prop where
  | numeral {n cs} (spells : Spells n cs) : Literal n.toNumber cs
  | name {x cs} (name : Name x cs) : Literal x cs

section Numerals

theorem digitsTaken (cs : List Char) : ∃ front, cs = front ++ (readDigits cs).2 ∧ Digits front (readDigits cs).1 := by
  induction cs with
  | nil => exact ⟨[], rfl, .nil⟩
  | cons c cs ih =>
    rw [readDigits]
    split
    · rename_i value digit
      obtain ⟨front, same, digits⟩ := ih
      exact ⟨c :: front, congrArg (c :: ·) same, .cons digit digits⟩
    · exact ⟨[], rfl, .nil⟩

theorem digitsRead {cs rest : List Char} {values : List Nat} (read : readDigits cs = (values, rest)) :
    ∃ front, cs = front ++ rest ∧ Digits front values := by
  have taken := digitsTaken cs
  rwa [read] at taken

theorem signRead {cs rest : List Char} {negative : Bool} (read : readSign cs = (negative, rest)) :
    ∃ sign, cs = sign ++ rest ∧ Sign negative sign := by
  unfold readSign at read
  split at read <;> cases read
  · exact ⟨['+'], rfl, .plus⟩
  · exact ⟨['-'], rfl, .minus⟩
  · exact ⟨[], rfl, .none⟩

theorem exponentRead {cs : List Char} {exponent : Int} (read : readExponent? cs = some exponent) :
    Exponent exponent cs := by
  cases cs with
  | nil =>
    cases read
    exact .none
  | cons mark cs =>
    rw [readExponent?] at read
    split at read
    · rename_i isMark
      rcases signed : readSign cs with ⟨negative, behind⟩
      simp only [signed] at read
      split at read
      · rename_i digits
        cases read
        obtain ⟨sign, rfl, isSign⟩ := signRead signed
        obtain ⟨front, rfl, isDigits⟩ := digitsRead digits
        rw [List.append_nil]
        exact .some (by simpa using isMark) isSign isDigits
      · contradiction
    · contradiction

theorem mantissaRead {cs rest : List Char} {whole fraction : List Nat}
    (read : readMantissa? cs = some (whole, fraction, rest)) :
    ∃ mantissa, cs = mantissa ++ rest ∧ Mantissa whole fraction mantissa := by
  unfold readMantissa? at read
  split at read
  · rename_i none
    obtain ⟨front, rfl, nothing⟩ := digitsRead none
    cases nothing
    split at read
    · contradiction
    · rename_i some digits
      obtain ⟨front, rfl, behind⟩ := digitsRead digits
      obtain ⟨d, values, rfl⟩ := List.exists_cons_of_ne_nil some
      cases read
      exact ⟨'.' :: front, rfl, .fraction behind⟩
  · contradiction
  · rename_i behind some digits
    obtain ⟨front, rfl, before⟩ := digitsRead digits
    obtain ⟨d, values, rfl⟩ := List.exists_cons_of_ne_nil some
    simp only [Option.some.injEq, Prod.mk.injEq] at read
    obtain ⟨rfl, later⟩ := read
    obtain ⟨more, rfl, behind⟩ := digitsRead later
    exact ⟨front ++ '.' :: more, by rw [List.append_assoc, List.cons_append], .point before behind⟩
  · rename_i some noPoint digits
    obtain ⟨front, rfl, before⟩ := digitsRead digits
    obtain ⟨d, values, rfl⟩ := List.exists_cons_of_ne_nil some
    cases read
    exact ⟨front, rfl, .whole before⟩

theorem numeralRead {cs : List Char} {n : Numeral} (read : readNumeral? cs = some n) : Spells n cs := by
  simp only [readNumeral?, Option.bind_eq_bind, Option.bind_eq_some_iff] at read
  rcases signed : readSign cs with ⟨negative, unsigned⟩
  rw [signed] at read
  obtain ⟨⟨whole, fraction, power⟩, digits, exponent, scaled, same⟩ := read
  cases same
  obtain ⟨sign, rfl, isSign⟩ := signRead signed
  obtain ⟨mantissa, rfl, isMantissa⟩ := mantissaRead digits
  exact .intro isSign isMantissa (exponentRead scaled)

end Numerals

section Names

theorem lowerCode (c : Char) :
    c.toLower.toNat = if 65 ≤ c.toNat ∧ c.toNat ≤ 90 then c.toNat + 32 else c.toNat := by
  have codes : ('A'.val ≤ c.val ∧ c.val ≤ 'Z'.val) ↔ 65 ≤ c.toNat ∧ c.toNat ≤ 90 := Iff.rfl
  unfold Char.toLower
  split
  · rename_i capital
    have range := codes.mp capital
    have sum : (c.val + ('a'.val - 'A'.val)).toNat = c.toNat + 32 := by
      rw [UInt32.toNat_add]
      exact Nat.mod_eq_of_lt (show c.toNat + 32 < 2 ^ 32 by omega)
    rw [if_pos range]
    exact sum
  · rename_i small
    rw [if_neg (fun range => small (codes.mpr range))]

theorem upperCode (c : Char) :
    c.toUpper.toNat = if 97 ≤ c.toNat ∧ c.toNat ≤ 122 then c.toNat - 32 else c.toNat := by
  have codes : ('a'.val ≤ c.val ∧ c.val ≤ 'z'.val) ↔ 97 ≤ c.toNat ∧ c.toNat ≤ 122 := Iff.rfl
  unfold Char.toUpper
  split
  · rename_i small
    have range := codes.mp small
    have difference : (c.val + ('A'.val - 'a'.val)).toNat = c.toNat - 32 := by
      have less : ('A'.val - 'a'.val).toNat = 4294967264 := by decide
      have code : c.val.toNat = c.toNat := rfl
      rw [UInt32.toNat_add, less, code]
      omega
    rw [if_pos range]
    exact difference
  · rename_i other
    rw [if_neg (fun range => other (codes.mpr range))]

theorem lowerIs {c letter : Char} (small : letter.isUpper = false) :
    c.toLower = letter ↔ c = letter ∨ c = letter.toUpper := by
  have other : ¬(65 ≤ letter.toNat ∧ letter.toNat ≤ 90) := of_decide_eq_false small
  rw [← Char.toNat_inj, ← Char.toNat_inj, ← Char.toNat_inj, lowerCode, upperCode]
  split <;> split <;> omega

theorem namedLower {letters cs : List Char} (small : ∀ letter ∈ letters, letter.isUpper = false) :
    List.Forall₂ (fun letter c => c = letter ∨ c = letter.toUpper) letters cs ↔ cs.map Char.toLower = letters := by
  induction letters generalizing cs with
  | nil => simp
  | cons letter letters ih =>
    rw [List.forall_mem_cons] at small
    cases cs with
    | nil => simp
    | cons c cs => rw [List.forall₂_cons, List.map_cons, List.cons.injEq, lowerIs small.1, ih small.2]

theorem lettersAll {P : Char → Prop} {letters cs : List Char}
    (named : List.Forall₂ (fun letter c => c = letter ∨ c = letter.toUpper) letters cs)
    (all : ∀ letter ∈ letters, P letter ∧ P letter.toUpper) : ∀ c ∈ cs, P c := by
  induction named with
  | nil => nofun
  | cons here others ih =>
    rw [List.forall_mem_cons] at all ⊢
    refine ⟨?_, ih all.2⟩
    rcases here with rfl | rfl
    · exact all.1.1
    · exact all.1.2

theorem signedLower {negative : Bool} {sign cs letters : List Char} (signed : Sign negative sign) :
    cs.map Char.toLower = sign ++ letters ↔ ∃ name, cs = sign ++ name ∧ name.map Char.toLower = letters := by
  have alone {c mark : Char} (isSign : mark = '+' ∨ mark = '-') : c.toLower = mark ↔ c = mark := by
    rcases isSign with rfl | rfl
    · exact (lowerIs (by decide)).trans (or_self_iff)
    · exact (lowerIs (by decide)).trans (or_self_iff)
  have first {mark : Char} (isSign : mark = '+' ∨ mark = '-') : cs.map Char.toLower = mark :: letters ↔
      ∃ name, cs = mark :: name ∧ name.map Char.toLower = letters := by
    cases cs with
    | nil => simp
    | cons c cs => simp [alone isSign]
  cases signed with
  | none => simp
  | plus => exact first (.inl rfl)
  | minus => exact first (.inr rfl)

theorem infinityLower {negative : Bool} {sign cs : List Char} {name : String} (signed : Sign negative sign)
    (isName : name = "inf" ∨ name = "infinity") :
    cs.map Char.toLower = sign ++ name.toList ↔ ∃ letters, cs = sign ++ letters ∧ Named name letters := by
  have small : ∀ letter ∈ name.toList, letter.isUpper = false := by
    rcases isName with rfl | rfl <;> exact List.forall_iff_forall_mem.mp (by decide)
  simp only [signedLower signed, Named, namedLower small]

theorem nanLower {cs : List Char} : cs.map Char.toLower = "nan".toList ↔ Named "nan" cs :=
  (namedLower (List.forall_iff_forall_mem.mp (by decide))).symm

theorem nameExact {cs : List Char} {x : Number} :
    ofName? (String.ofList (cs.map Char.toLower)) = some x ↔ Name x cs := by
  constructor
  · intro found
    have spelled (name : String) : String.ofList (cs.map Char.toLower) = name ↔
        cs.map Char.toLower = name.toList := by rw [← String.toList_inj, String.toList_ofList]
    have infinity {negative : Bool} {sign : List Char} {name : String} (signed : Sign negative sign)
        (isName : name = "inf" ∨ name = "infinity") (same : cs.map Char.toLower = sign ++ name.toList) :
        Name (.infinite negative) cs := by
      obtain ⟨letters, rfl, named⟩ := (infinityLower signed isName).mp same
      exact .infinity signed isName named
    simp only [ofName?, Bool.or_eq_true, decide_eq_true_eq, spelled] at found
    split at found
    · cases found
      rename_i positive
      rcases positive with ((same | same) | same) | same
      · exact infinity .none (.inl rfl) same
      · exact infinity .plus (.inl rfl) same
      · exact infinity .none (.inr rfl) same
      · exact infinity .plus (.inr rfl) same
    · split at found
      · cases found
        rename_i negative
        rcases negative with same | same
        · exact infinity .minus (.inl rfl) same
        · exact infinity .minus (.inr rfl) same
      · split at found
        · cases found
          exact .nan (nanLower.mp ‹_›)
        · contradiction
  · intro name
    cases name with
    | infinity signed isName named =>
      rw [(infinityLower signed isName).mpr ⟨_, rfl, named⟩]
      cases signed <;> rcases isName with rfl | rfl <;> decide
    | nan named =>
      rw [nanLower.mpr named]
      decide

end Names

section Characters

def Solid (c : Char) : Prop := Text.isSpace c = false ∧ c ≠ '_'

instance (c : Char) : Decidable (Solid c) := inferInstanceAs (Decidable (_ ∧ _))

theorem digitZerosSolid : ∀ first ∈ Text.digitZeros, ∀ i < 10, Solid (Char.ofNat (first + i)) := by
  decide +kernel

theorem digitSolid {c : Char} {value : Nat} (digit : Text.digitValue? c = some value) : Solid c := by
  obtain ⟨first, found, -⟩ := Option.map_eq_some_iff.mp digit
  have range := List.find?_some found
  simp only [Bool.and_eq_true, decide_eq_true_eq] at range
  have solid := digitZerosSolid first (List.mem_of_find?_eq_some found) (c.toNat - first) (by omega)
  rwa [Nat.add_sub_cancel' range.1, Char.ofNat_toNat] at solid

theorem digitsSolid {cs : List Char} {values : List Nat} (digits : Digits cs values) : ∀ c ∈ cs, Solid c := by
  induction digits with
  | nil => nofun
  | cons first others ih => exact List.forall_mem_cons.mpr ⟨digitSolid first, ih⟩

theorem signApart {negative : Bool} {sign : List Char} (signed : Sign negative sign) :
    ∀ c ∈ sign, Solid c ∧ Text.isDigit c = false := by
  cases signed <;> exact List.forall_iff_forall_mem.mp (by decide)

theorem signSolid {negative : Bool} {sign : List Char} (signed : Sign negative sign) : ∀ c ∈ sign, Solid c :=
  fun c member => (signApart signed c member).1

theorem mantissaSolid {whole fraction : List Nat} {cs : List Char} (digits : Mantissa whole fraction cs) :
    ∀ c ∈ cs, Solid c := by
  have point : Solid '.' := by decide
  cases digits with
  | whole digits => exact digitsSolid digits
  | point before behind =>
    exact List.forall_mem_append.mpr ⟨digitsSolid before, List.forall_mem_cons.mpr ⟨point, digitsSolid behind⟩⟩
  | fraction behind => exact List.forall_mem_cons.mpr ⟨point, digitsSolid behind⟩

theorem exponentSolid {exponent : Int} {cs : List Char} (scaled : Exponent exponent cs) : ∀ c ∈ cs, Solid c := by
  cases scaled with
  | none => nofun
  | some isMark signed digits =>
    refine List.forall_mem_cons.mpr ⟨?_, List.forall_mem_append.mpr ⟨signSolid signed, digitsSolid digits⟩⟩
    rcases isMark with rfl | rfl <;> decide

theorem mantissaDigit {whole fraction : List Nat} {cs : List Char} (digits : Mantissa whole fraction cs) :
    ∃ c ∈ cs, Text.isDigit c = true := by
  have first {cs : List Char} {d : Nat} {values : List Nat} (digits : Digits cs (d :: values)) :
      ∃ c ∈ cs, Text.isDigit c = true := by
    cases digits with
    | cons first others => exact ⟨_, List.mem_cons_self, by rw [Text.isDigit, first]; rfl⟩
  cases digits with
  | whole digits => exact first digits
  | point before behind =>
    obtain ⟨c, member, digit⟩ := first before
    exact ⟨c, List.mem_append_left _ member, digit⟩
  | fraction behind =>
    obtain ⟨c, member, digit⟩ := first behind
    exact ⟨c, List.mem_cons_of_mem _ member, digit⟩

theorem numeralSolid {n : Numeral} {cs : List Char} (spells : Spells n cs) : ∀ c ∈ cs, Solid c := by
  cases spells with
  | intro signed digits scaled =>
    exact List.forall_mem_append.mpr
      ⟨signSolid signed, List.forall_mem_append.mpr ⟨mantissaSolid digits, exponentSolid scaled⟩⟩

theorem numeralDigit {n : Numeral} {cs : List Char} (spells : Spells n cs) : ∃ c ∈ cs, Text.isDigit c = true := by
  cases spells with
  | intro signed digits scaled =>
    obtain ⟨c, member, digit⟩ := mantissaDigit digits
    exact ⟨c, List.mem_append_right _ (List.mem_append_left _ member), digit⟩

theorem nameLetters {x : Number} {cs : List Char} (name : Name x cs) :
    ∀ c ∈ cs, Solid c ∧ Text.isDigit c = false := by
  cases name with
  | infinity signed isName named =>
    refine List.forall_mem_append.mpr ⟨signApart signed, lettersAll named ?_⟩
    rcases isName with rfl | rfl <;> exact List.forall_iff_forall_mem.mp (by decide)
  | nan named => exact lettersAll named (List.forall_iff_forall_mem.mp (by decide))

theorem noNumeral {cs : List Char} (free : ∀ c ∈ cs, Text.isDigit c = false) : readNumeral? cs = none := by
  rw [Option.eq_none_iff_forall_ne_some]
  intro n read
  obtain ⟨c, member, digit⟩ := numeralDigit (numeralRead read)
  rw [free c member] at digit
  contradiction

end Characters

theorem literalExact {cs : List Char} {x : Number} : ofChars? cs = some x ↔ Literal x cs := by
  unfold ofChars?
  constructor
  · intro found
    split at found
    · cases found
      exact .numeral (numeralRead ‹_›)
    · exact .name (nameExact.mp found)
  · intro literal
    cases literal with
    | numeral spells => rw [readSpelled spells]
    | name name =>
      rw [noNumeral fun c member => (nameLetters name c member).2]
      exact nameExact.mpr name

theorem literalSolid {cs : List Char} {x : Number} (literal : Literal x cs) : ∀ c ∈ cs, Solid c := by
  cases literal with
  | numeral spells => exact numeralSolid spells
  | name name => exact fun c member => (nameLetters name c member).1

theorem signedNan {sign : Char} {cs : List Char} (signed : isSign sign = true) (named : Named "nan" cs) :
    ofChars? (sign :: cs) = none := by
  have letters : ∀ c ∈ cs, Text.isDigit c = false := lettersAll named (List.forall_iff_forall_mem.mp (by decide))
  simp only [isSign, Bool.or_eq_true, decide_eq_true_eq] at signed
  have free : ∀ c ∈ sign :: cs, Text.isDigit c = false := by
    refine List.forall_mem_cons.mpr ⟨?_, letters⟩
    rcases signed with rfl | rfl <;> decide
  unfold ofChars?
  rw [noNumeral free, List.map_cons, nanLower.mpr named]
  rcases signed with rfl | rfl <;> decide

/- A text has a number exactly if it is a literal, and then the number of the literal. -/
theorem literalsRead (text : String) :
    (∀ x, ofText? text = some x ↔ Literal x text.toList) ∧
      ((∃ c ∈ text.toList, Text.isSpace c = true ∨ c = '_') → ofText? text = none) ∧
      ∀ sign cs, text.toList = sign :: cs → isSign sign = true → Named "nan" cs → ofText? text = none := by
  refine ⟨fun x => literalExact, ?_, ?_⟩
  · rintro ⟨c, member, gap⟩
    rw [Option.eq_none_iff_forall_ne_some]
    intro x read
    have solid := literalSolid (literalExact.mp read) c member
    rcases gap with space | rfl
    · rw [solid.1] at space
      contradiction
    · exact solid.2 rfl
  · intro sign cs same signed named
    rw [ofText?, same]
    exact signedNan signed named

theorem textsWithoutNumber : ofText? "1_000" = none ∧ ofText? " 1" = none ∧
    Named "nan" "NaN".toList ∧ ofText? "-NaN" = none := by
  have capitals : Named "nan" "NaN".toList := .cons (.inr rfl) (.cons (.inl rfl) (.cons (.inr rfl) .nil))
  exact ⟨(literalsRead "1_000").2.1 ⟨'_', by decide, .inr rfl⟩,
    (literalsRead " 1").2.1 ⟨' ', by decide, .inl rfl⟩, capitals,
    (literalsRead "-NaN").2.2 '-' _ rfl rfl capitals⟩

end LineScript.Number
