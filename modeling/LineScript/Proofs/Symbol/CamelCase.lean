import LineScript.Proofs.Number.Grammar
import LineScript.Proofs.Symbol.Path
import LineScript.Proofs.Symbol.Table

/-! Methods under their script-side names. Of a public name in letters and digits of ASCII and
underscores only the letters and digits are left, so that a table which is not frozen takes every
method of that kind that describes itself. All it can refuse else is the name of the group that the
methods are put in. -/
namespace LineScript

namespace Text
variable {c : Char}

theorem upperAscii (ascii : c.toNat < 128) : upper c = [c.toUpper] := by
  -- No expansion and only the first run of letters concerns a character of ASCII.
  have single : upperExpansions.lookup c.toNat = none := by
    have beyond : ∀ entry ∈ upperExpansions, 128 ≤ entry.1 := by decide
    refine List.lookup_eq_none_iff.mpr fun entry member => bne_iff_ne.mpr ?_
    exact Nat.ne_of_lt (Nat.lt_of_lt_of_le ascii (beyond entry member))
  have others : upperRuns.tail.find? (·.covers c.toNat) = none := by
    have beyond : ∀ run ∈ upperRuns.tail, 128 ≤ run.first := by decide +kernel
    refine List.find?_eq_none.mpr fun run member covers => ?_
    have first := beyond run member
    simp only [CaseRun.covers, Bool.and_eq_true, decide_eq_true_eq] at covers
    omega
  have runs : upperRuns = ⟨97, 122, 1, -32⟩ :: upperRuns.tail := rfl
  rw [← Char.ofNat_toNat c.toUpper, Number.upperCode]
  simp only [upper, single]
  rw [runs, List.find?_cons, others]
  by_cases small : 97 ≤ c.toNat ∧ c.toNat ≤ 122
  · have covered : CaseRun.covers ⟨97, 122, 1, -32⟩ c.toNat = true := by simp [CaseRun.covers, small, Nat.mod_one]
    have code : ((c.toNat : Int) + -32).toNat = c.toNat - 32 := by omega
    simp only [covered, if_pos small, code]
  · have uncovered : CaseRun.covers ⟨97, 122, 1, -32⟩ c.toNat = false := by
      simp [CaseRun.covers, Nat.mod_one]
      omega
    simp only [uncovered, if_neg small, Char.ofNat_toNat]

theorem alphanumCode (c : Char) : c.isAlphanum = true ↔ 48 ≤ c.toNat ∧ c.toNat ≤ 57 ∨
    65 ≤ c.toNat ∧ c.toNat ≤ 90 ∨ 97 ≤ c.toNat ∧ c.toNat ≤ 122 := by
  have kinds : c.isAlphanum = (c.isUpper || c.isLower || c.isDigit) := rfl
  have large : c.isUpper = decide (65 ≤ c.toNat ∧ c.toNat ≤ 90) := rfl
  have small : c.isLower = (decide (97 ≤ c.toNat) && decide (c.toNat ≤ 122)) := rfl
  have digit : c.isDigit = (decide (48 ≤ c.toNat) && decide (c.toNat ≤ 57)) := rfl
  simp only [kinds, large, small, digit, Bool.or_eq_true, Bool.and_eq_true, decide_eq_true_eq]
  omega

theorem upperAlphanum (plain : c.isAlphanum = true) : ∃ d, upper c = [d] ∧ d.isAlphanum = true := by
  have code := (alphanumCode c).mp plain
  refine ⟨c.toUpper, upperAscii (by omega), ?_⟩
  rw [alphanumCode, Number.upperCode]
  split <;> omega

end Text

namespace Name
variable {name : String}

def Bare (name : String) : Prop :=
  ∃ c cs, name.toList = c :: cs ∧ c.isAlpha = true ∧ ∀ d ∈ cs, d.isAlphanum = true

theorem Bare.identifier (bare : Bare name) : Identifier name := by
  obtain ⟨c, cs, chars, letter, later⟩ := bare
  refine ⟨c, cs, chars, (firstIsLetter c).mp (by simp [isFirst, letter]), fun d member => ?_⟩
  exact (laterIsLetterOrDigit d).mp (by simp [isLater, later d member])

theorem Bare.noUnderscore (bare : Bare name) : '_' ∉ name.toList := by
  obtain ⟨c, cs, chars, letter, later⟩ := bare
  rw [chars]
  intro member
  rcases List.mem_cons.mp member with rfl | member
  · contradiction
  · exact absurd (later '_' member) (by decide)

theorem letterBare {c : Char} (letter : Letter c) (other : c ≠ '_') : c.isAlpha = true := by
  simpa [isFirst, other] using (firstIsLetter c).mpr letter

theorem Identifier.alphanum (named : Identifier name) {c : Char} (member : c ∈ name.toList)
    (other : c ≠ '_') : c.isAlphanum = true := by
  obtain ⟨first, rest, chars, letter, later⟩ := named
  have either : Letter c ∨ Digit c := by
    rw [chars] at member
    rcases List.mem_cons.mp member with rfl | member
    · exact .inl letter
    · exact later c member
  simpa [isLater, other] using (laterIsLetterOrDigit c).mpr either

theorem capitalizeAlphanum {part : List Char} (plain : ∀ c ∈ part, c.isAlphanum = true) :
    ∀ c ∈ capitalize part, c.isAlphanum = true := by
  cases part with
  | nil => exact plain
  | cons first rest =>
    obtain ⟨first', capital, plain'⟩ := Text.upperAlphanum (plain first List.mem_cons_self)
    rw [capitalize, capital, List.singleton_append, List.forall_mem_cons]
    exact ⟨plain', fun c member => plain c (List.mem_cons_of_mem _ member)⟩

theorem camelCaseBare (named : Identifier name) (isPublic : name.toList.head? ≠ some '_') :
    Bare (camelCase name) := by
  have plain : ∀ part ∈ splitWhere (· = '_') name.toList, ∀ c ∈ part, c.isAlphanum = true := by
    intro part among c member
    obtain ⟨inside, other⟩ := splitWhereParts _ among member
    exact named.alphanum inside (by simpa using other)
  obtain ⟨first, rest, chars, letter, -⟩ := named
  have other : first ≠ '_' := by simpa [chars] using isPublic
  -- Any later part may be empty or start with a digit, but the first one starts with a letter.
  obtain ⟨front, others, split⟩ := splitWhereStarts (p := (· = '_')) (by simpa using other) rest
  rw [chars, split, List.forall_mem_cons, List.forall_mem_cons] at plain
  refine ⟨first, front ++ others.flatMap capitalize, ?_, letterBare letter other, fun c member => ?_⟩
  · simp [camelCase, chars, split]
  · rcases List.mem_append.mp member with inFront | inOthers
    · exact plain.1.2 c inFront
    · obtain ⟨part, among, inside⟩ := List.mem_flatMap.mp inOthers
      exact capitalizeAlphanum (plain.2 part among) c inside

theorem camelCaseFixed (free : '_' ∉ name.toList) : camelCase name = name := by
  have single : splitWhere (· = '_') name.toList = [name.toList] :=
    splitWhereFree fun c member => decide_eq_false fun same => free (same ▸ member)
  simp [camelCase, single]

end Name

namespace SymbolTable

structure GainsMethods (t : SymbolTable) (o : HostObject Value) (t' : SymbolTable) : Prop where
  thawed : t'.frozen = false
  method : ∀ member f, o.Answers member f → t'.entries.get? member = some (.builtin (f.under member))
  others : ∀ name, (∀ f, ¬o.Answers name f) → t'.entries.get? name = t.entries.get? name

structure GainsGroup (t : SymbolTable) (o : HostObject Value) (group : String) (t' : SymbolTable) : Prop where
  thawed : t'.frozen = false
  members : ∃ members, t'.entries.get? group = some (.group members) ∧ ∀ member b,
    members.get? member = some b ↔ ∃ f, o.Answers member f ∧ b = f.under (group ++ "." ++ member)
  others : ∀ name, name ≠ group → t'.entries.get? name = t.entries.get? name

def Undescribed (o : HostObject Value) : Prop := ∃ member f, o.Answers member f ∧ ¬f.Describes

section Bind
variable {t : SymbolTable} {o : HostObject Value} {methods : Bindings (HostFunction Value)}

theorem methodsAnswer (api : o.api = .ok (methods.map methodTarget)) (member : String) (f : HostFunction Value) :
    methods.get? member = some f ↔ o.Answers member f := by
  obtain ⟨list, reads, same⟩ := o.apiMembers api
  have targets : (exposedMethods list).get? member = (methods.get? member).map Value.function := by
    rw [← same]
    exact Bindings.getMapped methods (fun _ => Value.function) member
  have answers := apiAnswers reads member (.function f)
  rw [targets, Option.map_eq_some_iff] at answers
  constructor
  · intro found
    obtain ⟨g, same, answer⟩ := answers.mp ⟨f, found, rfl⟩
    cases same
    exact answer
  · intro answer
    obtain ⟨g, found, same⟩ := answers.mpr ⟨f, rfl, answer⟩
    cases same
    exact found

theorem methodsNamed (api : o.api = .ok (methods.map methodTarget))
    (ascii : ∀ member m, o.Exposes member m → Name.Identifier m.function.name) :
    ∀ m ∈ methods, Name.Identifier m.1 := by
  intro m among
  obtain ⟨list, reads, same⟩ := o.apiMembers api
  have inApi : methodTarget m ∈ exposedMethods list := same ▸ List.mem_map_of_mem among
  rcases Bindings.memMerge inApi with exposed | nothing
  · obtain ⟨⟨name, method⟩, inside, same⟩ := List.mem_map.mp exposed
    obtain ⟨named, exposes⟩ := (exposedHas reads name method).mp inside
    have scriptName : Name.camelCase name = m.1 := congrArg Prod.fst same
    rw [← scriptName, ← named]
    exact (Name.camelCaseBare (ascii _ method exposes) exposes.isPublic).identifier
  · contradiction

theorem methodsDistinct (api : o.api = .ok (methods.map methodTarget)) : methods.Distinct := by
  obtain ⟨list, -, same⟩ := o.apiMembers api
  have distinct : (exposedMethods list).Distinct := Bindings.ofListDistinct _
  rw [← same] at distinct
  unfold Bindings.Distinct at distinct ⊢
  rw [List.map_map] at distinct
  exact distinct

theorem methodsDescribed (api : o.api = .ok (methods.map methodTarget)) :
    (∀ m ∈ methods, m.2.Describes) ↔ ¬Undescribed o := by
  constructor
  · rintro all ⟨member, f, answers, silent⟩
    exact silent (all (member, f) (Bindings.memOfGet ((methodsAnswer api member f).mpr answers)))
  · intro all m among
    by_contra silent
    have found := @Bindings.Distinct.getOfMem _ methods (methodsDistinct api) m.1 m.2 among
    exact all ⟨m.1, m.2, (methodsAnswer api m.1 m.2).mp found, silent⟩

theorem bindEach {targets : Bindings Value} (api : o.api = .ok targets) : t.bindHost o none = t.registerAll targets := by
  simp only [bindHost, api]

theorem bindTogether {targets : Bindings Value} (api : o.api = .ok targets) (group : String) :
    t.bindHost o (some group) = match t.registerGroup group targets with
      | .ok t => (t, none)
      | .error f => (t, some f) := by
  cases registered : t.registerGroup group targets <;> simp only [bindHost, api, registered]

theorem bindMethods (thawed : t.frozen = false) (api : o.api = .ok (methods.map methodTarget))
    (ascii : ∀ member m, o.Exposes member m → Name.Identifier m.function.name) (all : ¬Undescribed o) :
    ∃ t', t.bindHost o none = (t', none) ∧ t.GainsMethods o t' := by
  have taken := registerAllTakes thawed (methodsNamed api ascii) ((methodsDescribed api).mpr all)
  have distinct : Bindings.Distinct (methods.map methodEntry) := by
    have distinct := methodsDistinct api
    unfold Bindings.Distinct at distinct ⊢
    rwa [List.map_map]
  have shows (name : String) : (t.entries.merge (methods.map methodEntry)).get? name =
      ((methods.get? name).map fun f => Entry.builtin (f.under name)).or (t.entries.get? name) := by
    rw [Bindings.getMerge _ distinct]
    congr 1
    exact Bindings.getMapped methods (fun name f => Entry.builtin (f.under name)) name
  refine ⟨_, (bindEach api).trans taken, thawed, fun member f answer => ?_, fun name silent => ?_⟩
  · rw [shows, (methodsAnswer api member f).mpr answer]
    rfl
  · have missing : methods.get? name = none := by
      cases found : methods.get? name with
      | none => rfl
      | some f => exact absurd ((methodsAnswer api name f).mp found) (silent f)
    rw [shows, missing]
    rfl

theorem bindMethodsRefused (thawed : t.frozen = false) (api : o.api = .ok (methods.map methodTarget))
    (ascii : ∀ member m, o.Exposes member m → Name.Identifier m.function.name) {f : Failure}
    (refused : (t.bindHost o none).2 = some f) : ∃ typeName, f = .unhashable typeName := by
  rw [bindEach api] at refused
  obtain ⟨before, bad, after, whole, added, failed⟩ := registerAllRefused (Prod.ext rfl refused)
  have named := methodsNamed api ascii bad (by simp [whole])
  rw [registerNamed (by rw [added]; exact thawed) named] at failed
  rcases bad.2.builtinCases bad.1 with ⟨-, made⟩ | ⟨-, typeName, -, undescribed⟩
  · rw [made] at failed
    cases failed
  · rw [undescribed] at failed
    cases failed
    exact ⟨typeName, rfl⟩

theorem bindGroup (thawed : t.frozen = false) (api : o.api = .ok (methods.map methodTarget)) {group : String}
    (named : Name.Identifier group) :
    (¬Undescribed o → ∃ t', t.bindHost o (some group) = (t', none) ∧ t.GainsGroup o group t') ∧
      (Undescribed o → ∃ typeName, t.bindHost o (some group) = (t, some (.unhashable typeName))) := by
  have made : t.registerGroup group (methods.map methodTarget) =
      (wrapMembers group (methods.map methodTarget)).map fun members =>
        { t with entries := t.entries.set group (.group members) } := by
    rw [registerGroup, takesIdentifier thawed named]
    rfl
  rcases wrapMethods group methods with ⟨all, wrapped⟩ | ⟨some, typeName, refused⟩
  · refine ⟨fun _ => ?_, fun undescribed => absurd undescribed ((methodsDescribed api).mp all)⟩
    let members : Bindings (Builtin Value) := methods.map (methodMember group)
    have bound : t.bindHost o (some group) = ({ t with entries := t.entries.set group (.group members) }, none) := by
      rw [bindTogether api, made, wrapped]
      rfl
    refine ⟨_, bound, thawed, ⟨members, ?_, fun member b => ?_⟩, fun name other => ?_⟩
    · rw [Bindings.get?_set, if_pos rfl]
    · have shows : members.get? member = (methods.get? member).map fun f => f.under (group ++ "." ++ member) :=
        Bindings.getMapped methods (fun name f => f.under (group ++ "." ++ name)) member
      rw [shows, Option.map_eq_some_iff]
      exact exists_congr fun f => and_congr (methodsAnswer api member f) eq_comm
    · rw [Bindings.get?_set, if_neg other]
  · obtain ⟨m, member, silent⟩ := some
    refine ⟨fun all => absurd ((methodsDescribed api).mpr all m member) silent, fun _ => ⟨typeName, ?_⟩⟩
    rw [bindTogether api, made, refused]
    rfl

theorem bindRefused (thawed : t.frozen = false) {targets : Bindings Value} (api : o.api = .ok targets)
    {group : String} (odd : ¬Name.Identifier group) :
    t.bindHost o (some group) = (t, some (.invalidName group)) := by
  have refused : t.registerGroup group targets = .error (.invalidName group) := by
    rw [registerGroup, refusesOther thawed odd]
    rfl
  rw [bindTogether api, refused]

theorem bindUnread {fault : HostFault} (fails : o.members = .error fault) (group : Option String) :
    t.bindHost o group = (t, some (.raised fault)) := by
  simp only [bindHost, HostObject.api, fails]
  rfl

end Bind
end SymbolTable

/- A public name in letters, digits and underscores of ASCII becomes one that a table takes and that
stays as it is. So binding an object whose exposed methods have such names ends in one of these ways
only: all methods are bound; reading the object's members fails; a method does not describe itself; or
a group's own name is refused. -/
theorem methodNamesRegistrable :
    (∀ name, Name.Identifier name → name.toList.head? ≠ some '_' →
      '_' ∉ (Name.camelCase name).toList ∧ Name.Identifier (Name.camelCase name) ∧
        (∀ t : SymbolTable, t.frozen = false → t.checkWritable (Name.camelCase name) = .ok ()) ∧
        Name.camelCase (Name.camelCase name) = Name.camelCase name) ∧
      ∀ (t : SymbolTable) (o : HostObject Value), t.frozen = false →
        (∀ fault, o.members = .error fault → ∀ group, t.bindHost o group = (t, some (.raised fault))) ∧
        (o.members.isOk = true →
          ((∀ member m, o.Exposes member m → Name.Identifier m.function.name) →
            (¬SymbolTable.Undescribed o → ∃ t', t.bindHost o none = (t', none) ∧ t.GainsMethods o t') ∧
            ∀ f, (t.bindHost o none).2 = some f → ∃ typeName, f = .unhashable typeName) ∧
          ∀ group,
            (Name.Identifier group →
              (¬SymbolTable.Undescribed o →
                ∃ t', t.bindHost o (some group) = (t', none) ∧ t.GainsGroup o group t') ∧
              (SymbolTable.Undescribed o →
                ∃ typeName, t.bindHost o (some group) = (t, some (.unhashable typeName)))) ∧
            (¬Name.Identifier group → t.bindHost o (some group) = (t, some (.invalidName group)))) := by
  refine ⟨fun name named isPublic => ?_, fun t o thawed => ⟨fun fault fails group => ?_, fun reads => ?_⟩⟩
  · have bare := Name.camelCaseBare named isPublic
    refine ⟨bare.noUnderscore, bare.identifier, fun t thawed => ?_, Name.camelCaseFixed bare.noUnderscore⟩
    exact SymbolTable.takesIdentifier thawed bare.identifier
  · exact SymbolTable.bindUnread fails group
  · obtain ⟨methods, api⟩ := o.apiReads reads
    refine ⟨fun ascii => ⟨SymbolTable.bindMethods thawed api ascii, fun f => SymbolTable.bindMethodsRefused thawed api ascii⟩,
      fun group => ⟨SymbolTable.bindGroup thawed api, SymbolTable.bindRefused thawed api⟩⟩

theorem methodOfCarBound :
    let damage : HostFunction Value := .plain 0 "take__damage_2_" ⟨"Car.take__damage_2_", [], none, [], 1⟩
    let odd : HostFunction Value := .plain 1 "é" ⟨"Car.é", [], none, [], 1⟩
    let car : HostObject Value := ⟨"Car", .ok [⟨odd, false⟩, ⟨damage, true⟩], .ok "<Car>"⟩
    let t := SymbolTable.standard
    Name.camelCase "take__damage_2_" = "takeDamage2" ∧ Name.Identifier "takeDamage2" ∧
      t.checkWritable "takeDamage2" = .ok () ∧ Name.camelCase "takeDamage2" = "takeDamage2" ∧
      (∃ t', t.bindHost car none = (t', none) ∧ t.GainsMethods car t') ∧
      (∃ t', t.bindHost car (some "db") = (t', none) ∧ t.GainsGroup car "db" t') ∧
      t.bindHost car (some "db.x") = (t, some (.invalidName "db.x")) := by
  intro damage odd car t
  have named : Name.Identifier "take__damage_2_" := by decide +kernel
  have short : Name.camelCase "take__damage_2_" = "takeDamage2" := by decide +kernel
  have among {m : Method Value} (has : car.Has m) : m = ⟨odd, false⟩ ∨ m = ⟨damage, true⟩ := by
    obtain ⟨before, after, methods, -⟩ := has
    have listed : [⟨odd, false⟩, ⟨damage, true⟩] = before ++ m :: after := Except.ok.inj methods
    have member : m ∈ [(⟨odd, false⟩ : Method Value), ⟨damage, true⟩] := by simp [listed]
    simpa using member
  have ascii : ∀ member m, car.Exposes member m → Name.Identifier m.function.name := by
    intro member m exposes
    rcases among exposes.has with rfl | rfl
    · exact absurd exposes.marked (by decide)
    · exact named
  have described : ¬SymbolTable.Undescribed car := by
    rintro ⟨member, f, ⟨m, exposes, rfl, -⟩, silent⟩
    rcases among exposes.has with rfl | rfl <;> exact silent (.inr rfl)
  obtain ⟨names, binding⟩ := methodNamesRegistrable
  have taken := names "take__damage_2_" named (by decide +kernel)
  obtain ⟨-, bound⟩ := binding t car rfl
  obtain ⟨single, grouped⟩ := bound rfl
  rw [short] at taken
  exact ⟨short, taken.2.1, taken.2.2.1 t rfl, taken.2.2.2, (single ascii).1 described,
    ((grouped "db").1 (by decide +kernel)).1 described, (grouped "db.x").2 (by decide +kernel)⟩

/- The names of an object's methods do not help where the name of the group is no identifier, nor where
the object's members cannot be read at all. -/
theorem bindingRefused :
    let damage : HostFunction Value := .plain 0 "take_damage" ⟨"Car.take_damage", [], none, [], 1⟩
    let car : HostObject Value := ⟨"Car", .ok [⟨damage, true⟩], .ok "<Car>"⟩
    let worn : HostObject Value := ⟨"Car", .error ⟨"ValueError", "no fuel", false⟩, .ok "<Car>"⟩
    let t := SymbolTable.standard
    (∀ member m, car.Exposes member m → Name.Identifier m.function.name) ∧
      (∀ member m, worn.Exposes member m → Name.Identifier m.function.name) ∧
      (∃ f, (t.bindHost car (some "db.x")).2 = some f ∧ f.className = "ValueError") ∧
      ∃ f, (t.bindHost worn none).2 = some f ∧ f.className = "ValueError" := by
  intro damage car worn t
  have named : Name.Identifier "take_damage" := by decide +kernel
  refine ⟨fun member m exposes => ?_, fun member m exposes => ?_, ⟨.invalidName "db.x", ?_, rfl⟩,
    ⟨.raised ⟨"ValueError", "no fuel", false⟩, ?_, rfl⟩⟩
  · obtain ⟨before, after, methods, -⟩ := exposes.has
    have listed : [⟨damage, true⟩] = before ++ m :: after := Except.ok.inj methods
    have among : m ∈ [(⟨damage, true⟩ : Method Value)] := by simp [listed]
    cases List.mem_singleton.mp among
    exact named
  · obtain ⟨before, after, methods, -⟩ := exposes.has
    cases methods
  · rw [SymbolTable.bindRefused (t := t) (o := car) rfl rfl (by decide +kernel)]
  · rw [SymbolTable.bindUnread (t := t) (o := worn) rfl]

end LineScript
