import LineScript.Proofs.Bindings
import LineScript.Proofs.Value.Describe
import LineScript.Symbol.Resolve

/-! What call paths reach. A path without a point is a function of the table; one with a single point
is a member of a group of the table or, only where the table has nothing of the group's name, of the
value that a variable shows. Of a host object no method is reached but those that are exposed. What
reading an object's members fails with, and a method that does not describe itself, come through. -/
namespace LineScript

namespace HostObject
variable (o : HostObject Value)

def Has (m : Method Value) : Prop :=
  ∃ before after, o.members = .ok (before ++ m :: after) ∧ ∀ n ∈ after, n.function.name ≠ m.function.name

structure Exposes (member : String) (m : Method Value) : Prop where
  has : o.Has m
  marked : m.exposed = true
  isPublic : m.function.name.toList.head? ≠ some '_'
  named : Name.camelCase m.function.name = member

/- Of the exposed methods with one script-side name, the one whose own name comes last. -/
def Answers (member : String) (f : HostFunction Value) : Prop :=
  ∃ m, o.Exposes member m ∧ m.function = f ∧
    ∀ other, o.Exposes member other → other.function.name ≤ m.function.name

end HostObject

inductive Value.Callable (path : String) : Value → Builtin Value → Prop where
  | builtin (b) : Callable path (.builtin b) b
  | function {f : HostFunction Value} (describes : f.Describes) : Callable path (.function f) (f.under path)

structure Dotted (group member path : String) : Prop where
  whole : path.toList = group.toList ++ '.' :: member.toList
  groupSome : group ≠ ""
  memberSome : member ≠ ""
  groupFlat : '.' ∉ group.toList
  memberFlat : '.' ∉ member.toList

inductive Value.Gives (name : String) : Value → Value → Prop where
  | member {holder members target} (holds : holder.members? = some members)
      (found : members.get? name = some target) : Gives name holder target
  | method {o f} (answers : o.Answers name f) : Gives name (.object o) (.function f)

namespace SymbolTable
variable (t : SymbolTable) (shown : String → Option Value) (path : String)

structure Through (group name : String) (holder : Value) : Prop where
  dotted : Dotted group name path
  absent : t.entries.get? group = none
  shows : shown group = some holder

inductive Reaches : Builtin Value → Prop where
  | entry {b} (flat : '.' ∉ path.toList) (nonempty : path ≠ "") (found : t.entries.get? path = some (.builtin b)) :
      Reaches b
  | member {group name members b} (dotted : Dotted group name path)
      (entry : t.entries.get? group = some (.group members)) (found : members.get? name = some b) : Reaches b
  | held {group name holder target b} (through : t.Through shown path group name holder)
      (gives : holder.Gives name target) (callable : target.Callable path b) : Reaches b

/- What keeps a path from being followed to its end. -/
inductive Breaks : Failure → Prop where
  | unread {group name o fault} (through : t.Through shown path group name (.object o))
      (fails : o.members = .error fault) : Breaks (.raised fault)
  | undescribed {group name holder typeName} {f : HostFunction Value} (through : t.Through shown path group name holder)
      (gives : holder.Gives name (.function f)) (silent : ¬f.Describes)
      (first : f.signature.unhashable? = some typeName) : Breaks (.unhashable typeName)

end SymbolTable

section Methods

def namedMethods (methods : List (Method Value)) : Bindings (Method Value) :=
  .ofList (methods.map fun m => (m.function.name, m))

def isExposed (entry : String × Method Value) : Bool :=
  entry.2.exposed && entry.1.toList.head? ≠ some '_'

def exposedOf (methods : List (Method Value)) : List (String × Method Value) :=
  (namedMethods methods).sorted.filter isExposed

def scriptSide (entry : String × Method Value) : String × Value :=
  (Name.camelCase entry.1, .function entry.2.function)

variable {o : HostObject Value} {methods : List (Method Value)}

theorem namedHas (reads : o.members = .ok methods) (name : String) (m : Method Value) :
    (name, m) ∈ namedMethods methods ↔ o.Has m ∧ m.function.name = name := by
  have distinct : (namedMethods methods).Distinct := Bindings.ofListDistinct _
  constructor
  · intro member
    obtain ⟨before, after, whole, absent⟩ := (Bindings.getOfList _ _ _).mp (distinct.getOfMem member)
    obtain ⟨front, rest, same, rfl, behind⟩ := List.map_eq_append_iff.mp whole
    obtain ⟨n, back, rfl, entry, rfl⟩ := List.map_eq_cons_iff.mp behind
    cases entry
    refine ⟨⟨front, back, by rw [reads, same], fun other later equal => absent ?_⟩, rfl⟩
    rw [List.map_map]
    exact List.mem_map.mpr ⟨other, later, equal⟩
  · rintro ⟨⟨before, after, again, absent⟩, rfl⟩
    cases reads.symm.trans again
    apply Bindings.memOfGet
    refine (Bindings.getOfList _ _ _).mpr
      ⟨_, after.map fun n => (n.function.name, n), by rw [List.map_append]; rfl, ?_⟩
    rw [List.map_map]
    intro member
    obtain ⟨other, later, equal⟩ := List.mem_map.mp member
    exact absent other later equal

theorem exposedHas (reads : o.members = .ok methods) (name : String) (m : Method Value) :
    (name, m) ∈ exposedOf methods ↔ m.function.name = name ∧ o.Exposes (Name.camelCase name) m := by
  rw [exposedOf, List.mem_filter, Bindings.sorted, List.mem_mergeSort, namedHas reads, isExposed,
    Bool.and_eq_true, decide_eq_true_eq]
  constructor
  · rintro ⟨⟨has, rfl⟩, marked, isPublic⟩
    exact ⟨rfl, has, marked, isPublic, rfl⟩
  · rintro ⟨rfl, exposes⟩
    exact ⟨⟨exposes.has, rfl⟩, exposes.marked, exposes.isPublic⟩

theorem exposedSorted (methods : List (Method Value)) : (exposedOf methods).Pairwise fun x y => x.1 ≤ y.1 := by
  have sorted : (namedMethods methods).sorted.Pairwise fun x y => decide (x.1 ≤ y.1) = true := by
    apply List.pairwise_mergeSort
    · simpa using fun a b c left right => String.le_trans left right
    · simpa using fun a b => String.le_total a b
  exact (sorted.imp (by simp)).filter _

theorem exposedDistinct (methods : List (Method Value)) : ((exposedOf methods).map Prod.fst).Nodup := by
  have distinct : (namedMethods methods).Distinct := Bindings.ofListDistinct _
  have sorted : ((namedMethods methods).sorted.map Prod.fst).Nodup :=
    ((List.mergeSort_perm (namedMethods methods) _).map Prod.fst).nodup_iff.mpr distinct
  exact sorted.sublist (List.filter_sublist.map Prod.fst)

theorem apiAnswers (reads : o.members = .ok methods) (member : String) (target : Value) :
    (exposedMethods methods).get? member = some target ↔ ∃ f, target = .function f ∧ o.Answers member f := by
  have api : exposedMethods methods = .ofList ((exposedOf methods).map scriptSide) := rfl
  rw [api, Bindings.getOfList]
  have sorted := exposedSorted methods
  have distinct := exposedDistinct methods
  constructor
  · rintro ⟨before, after, whole, last⟩
    obtain ⟨front, rest, same, rfl, behind⟩ := List.map_eq_append_iff.mp whole
    obtain ⟨⟨name, m⟩, back, rfl, entry, rfl⟩ := List.map_eq_cons_iff.mp behind
    cases entry
    rw [same] at sorted
    obtain ⟨rfl, exposes⟩ := (exposedHas reads name m).mp (by simp [same])
    refine ⟨m.function, rfl, m, exposes, rfl, fun other otherExposes => ?_⟩
    have among : (other.function.name, other) ∈ front ++ (m.function.name, m) :: back :=
      same ▸ (exposedHas reads _ _).mpr ⟨rfl, otherExposes.named ▸ otherExposes⟩
    rcases List.mem_append.mp among with earlier | here
    · exact (List.pairwise_append.mp sorted).2.2 _ earlier _ List.mem_cons_self
    · rcases List.mem_cons.mp here with equal | later
      · obtain ⟨-, rfl⟩ := Prod.mk.inj equal
        exact String.le_refl _
      · refine absurd ?_ last
        rw [List.map_map]
        exact List.mem_map.mpr ⟨_, later, otherExposes.named⟩
  · rintro ⟨_, rfl, m, exposes, rfl, most⟩
    have here : (m.function.name, m) ∈ exposedOf methods :=
      (exposedHas reads _ _).mpr ⟨rfl, exposes.named ▸ exposes⟩
    obtain ⟨front, back, same⟩ := List.append_of_mem here
    rw [same] at sorted distinct
    refine ⟨front.map scriptSide, back.map scriptSide, ?_, ?_⟩
    · rw [same, List.map_append, List.map_cons, scriptSide, exposes.named]
    · rw [List.map_map]
      intro among
      obtain ⟨⟨name, other⟩, later, named⟩ := List.mem_map.mp among
      obtain ⟨rfl, otherExposes⟩ := (exposedHas reads name other).mp (by simp [same, later])
      have least := (List.pairwise_cons.mp (List.pairwise_append.mp sorted).2.1).1 _ later
      have equal := String.le_antisymm (most other (named ▸ otherExposes)) least
      rw [List.map_append, List.map_cons, List.nodup_append] at distinct
      exact (List.nodup_cons.mp distinct.2.1).1 (List.mem_map.mpr ⟨_, later, equal⟩)

end Methods

section Paths
variable {path group name : String}

theorem flatFree (cs : List Char) : '.' ∉ cs ↔ ∀ c ∈ cs, decide (c = '.') = false := by
  simp only [decide_eq_false_iff_not]
  exact ⟨fun flat c member point => flat (point ▸ member), fun flat member => flat '.' member rfl⟩

theorem Dotted.split (dotted : Dotted group name path) :
    splitWhere (· = '.') path.toList = [group.toList, name.toList] := by
  rw [dotted.whole, splitWhereCut ((flatFree _).mp dotted.groupFlat) (by simp),
    splitWhereFree ((flatFree _).mp dotted.memberFlat)]

theorem textCons {s : String} (nonempty : s ≠ "") : ∃ c cs, s.toList = c :: cs :=
  List.exists_cons_of_ne_nil (by simpa using nonempty)

namespace SymbolTable
variable (t : SymbolTable) (shown : String → Option Value)

theorem resolveFlat (flat : '.' ∉ path.toList) (nonempty : path ≠ "") :
    t.resolve path shown = match t.entries.get? path with
      | none => .error (.path (.noSymbol path))
      | some (.builtin function) => .ok function
      | some (.group _) => .error (.path (.notFunction path)) := by
  obtain ⟨c, cs, same⟩ := textCons nonempty
  have split : splitWhere (· = '.') path.toList = [c :: cs] := by
    rw [splitWhereFree ((flatFree _).mp flat), same]
  cases found : t.entries.get? path with
  | none => simp only [resolve, split, found]
  | some entry => cases entry <;> simp only [resolve, split, found]

theorem resolveDotted (dotted : Dotted group name path) :
    t.resolve path shown = match t.entries.get? group with
      | some (.builtin _) => .error (.path (.malformed path))
      | some (.group members) =>
        match members.get? name with
        | some function => .ok function
        | none => .error (.path (.noMethod name))
      | none => resolveMember path name (shown group) := by
  obtain ⟨g, gs, groupChars⟩ := textCons dotted.groupSome
  obtain ⟨m, ms, nameChars⟩ := textCons dotted.memberSome
  have split : splitWhere (· = '.') path.toList = [g :: gs, m :: ms] := by
    rw [dotted.split, groupChars, nameChars]
  have asGroup : String.ofList (g :: gs) = group := by rw [← groupChars, String.ofList_toList]
  have asName : String.ofList (m :: ms) = name := by rw [← nameChars, String.ofList_toList]
  cases found : t.entries.get? group with
  | none => simp only [resolve, split, asGroup, asName, found]
  | some entry =>
    cases entry with
    | builtin function => simp only [resolve, split, asGroup, found]
    | group members => cases has : members.get? name <;> simp only [resolve, split, asGroup, asName, found, has]

theorem pathShapes (path : String) :
    ('.' ∉ path.toList ∧ path ≠ "") ∨ (∃ group name, Dotted group name path) ∨
      ∀ t shown, resolve t path shown = .error (.path (.malformed path)) := by
  have point {c : Char} (marked : decide (c = '.') = true) : c = '.' := by simpa using marked
  rcases splitWhereCases (· = '.') path.toList with ⟨free, split⟩ | ⟨front, mark, rest, whole, free, marked, split⟩
  · by_cases empty : path = ""
    · subst empty
      exact .inr (.inr fun t shown => rfl)
    · exact .inl ⟨(flatFree _).mpr free, empty⟩
  · cases point marked
    rcases splitWhereCases (· = '.') rest with ⟨free', split'⟩ | ⟨front', mark', rest', -, -, -, split'⟩
    · rw [split'] at split
      by_cases nonempty : front ≠ [] ∧ rest ≠ []
      · refine .inr (.inl ⟨String.ofList front, String.ofList rest, ?_⟩)
        have frontFlat := (flatFree front).mpr free
        have restFlat := (flatFree rest).mpr free'
        exact ⟨by simpa using whole, by simpa using nonempty.1, by simpa using nonempty.2,
          by simpa using frontFlat, by simpa using restFlat⟩
      · refine .inr (.inr fun t shown => ?_)
        unfold resolve
        rw [split]
        cases front with
        | nil => cases rest <;> rfl
        | cons c front =>
          cases rest with
          | nil => rfl
          | cons d rest => simp at nonempty
    · obtain ⟨last, more, others⟩ := List.exists_cons_of_ne_nil (splitWhereNonempty (· = '.') rest')
      refine .inr (.inr fun t shown => ?_)
      unfold resolve
      rw [split, split', others]
      cases front with
      | nil => rfl
      | cons c front => cases front' <;> rfl

variable {t : SymbolTable} {shown : String → Option Value} {b : Builtin Value} {holder target : Value}

theorem reachableGives {members : Bindings Value} (reads : holder.reachable? = .ok (some members)) :
    members.get? name = some target ↔ holder.Gives name target := by
  cases holder with
  | object o =>
    simp only [Value.reachable?, HostObject.api] at reads
    cases methods : o.members with
    | error fault =>
      rw [methods] at reads
      cases reads
    | ok list =>
      rw [methods] at reads
      cases reads
      rw [apiAnswers methods]
      constructor
      · rintro ⟨f, rfl, answers⟩
        exact .method answers
      · rintro (⟨holds, -⟩ | answers)
        · cases holds
        · exact ⟨_, rfl, answers⟩
  | group _ _ | mapping _ =>
    cases reads
    constructor
    · exact fun found => .member rfl found
    · rintro (⟨holds, found⟩ | -)
      cases holds
      exact found
  | _ => cases reads

theorem givesReachable (gives : holder.Gives name target) :
    ∃ members, holder.reachable? = .ok (some members) ∧ members.get? name = some target := by
  cases gives with
  | @member _ members _ holds found =>
    refine ⟨members, ?_, found⟩
    cases holder <;> first | exact congrArg Except.ok holds | contradiction
  | @method o f answers =>
    have ⟨m, exposes, _⟩ := answers
    obtain ⟨before, after, reads, -⟩ := exposes.has
    refine ⟨exposedMethods (before ++ m :: after), by rw [Value.reachable?, HostObject.api, reads]; rfl, ?_⟩
    exact (apiAnswers reads name (.function f)).mpr ⟨f, rfl, answers⟩

theorem callableWraps (callable : target.Callable path b) :
    target.isCallable = true ∧ Builtin.wrap path target = .ok b := by
  cases callable with
  | builtin b => exact ⟨rfl, rfl⟩
  | function describes => exact ⟨rfl, HostFunction.builtinOk describes⟩

theorem callableCases (path : String) (callable : target.isCallable = true) :
    (∃ b, target.Callable path b) ∨
      ∃ f typeName, target = .function f ∧ ¬f.Describes ∧ f.signature.unhashable? = some typeName := by
  cases target with
  | builtin b => exact .inl ⟨b, .builtin b⟩
  | function f =>
    rcases f.builtinCases path with ⟨describes, -⟩ | ⟨silent, typeName, first, -⟩
    · exact .inl ⟨_, .function describes⟩
    · exact .inr ⟨f, typeName, rfl, silent, first⟩
  | _ => contradiction

theorem memberGiven (gives : holder.Gives name target) (callable : target.isCallable = true) :
    resolveMember path name (some holder) = Builtin.wrap path target := by
  obtain ⟨members, reads, found⟩ := givesReachable gives
  unfold resolveMember
  simp only [reads, found]
  cases target with
  | nil => contradiction
  | _ => exact if_pos callable

theorem memberCases (path name : String) (holder : Value) :
    (∃ o fault, holder = .object o ∧ o.members = .error fault) ∨
      (∃ target, holder.Gives name target ∧ target.isCallable = true) ∨
      ∃ fault, resolveMember path name (some holder) = .error (.path fault) := by
  unfold resolveMember
  simp only
  split
  · rename_i fault reads
    cases holder with
    | object o =>
      cases methods : o.members with
      | error other =>
        simp only [Value.reachable?, HostObject.api, methods] at reads
        cases reads
        exact .inl ⟨o, fault, rfl, methods⟩
      | ok list =>
        simp only [Value.reachable?, HostObject.api, methods] at reads
        cases reads
    | _ => cases reads
  · exact .inr (.inr ⟨_, rfl⟩)
  · rename_i members reads
    split
    · exact .inr (.inr ⟨_, rfl⟩)
    · exact .inr (.inr ⟨_, rfl⟩)
    · rename_i target _ found
      split
      · rename_i callable
        exact .inr (.inl ⟨target, (reachableGives reads).mp found, callable⟩)
      · exact .inr (.inr ⟨_, rfl⟩)

theorem throughResolves (through : t.Through shown path group name holder) :
    t.resolve path shown = resolveMember path name (some holder) := by
  rw [resolveDotted t shown through.dotted, through.absent, through.shows]

theorem reachesResolves (reaches : t.Reaches shown path b) : t.resolve path shown = .ok b := by
  cases reaches with
  | entry flat nonempty found => rw [resolveFlat t shown flat nonempty, found]
  | member dotted entry found =>
    rw [resolveDotted t shown dotted, entry]
    simp only [found]
  | held through gives callable =>
    obtain ⟨isCallable, wrapped⟩ := callableWraps callable
    rw [throughResolves through, memberGiven gives isCallable, wrapped]

theorem breaksResolve {f : Failure} (breaks : t.Breaks shown path f) : t.resolve path shown = .error f := by
  cases breaks with
  | @unread group name o fault through fails =>
    rw [throughResolves through]
    simp only [resolveMember, Value.reachable?, HostObject.api, fails]
    rfl
  | @undescribed group name holder typeName g through gives silent first =>
    obtain ⟨other, again, refused⟩ := @HostFunction.builtinRefused path g silent
    cases first.symm.trans again
    rw [throughResolves through, memberGiven gives rfl]
    exact refused

theorem resolveCases (t : SymbolTable) (shown : String → Option Value) (path : String) :
    (∃ b, t.Reaches shown path b) ∨ (∃ f, t.Breaks shown path f) ∨
      ∃ fault, t.resolve path shown = .error (.path fault) := by
  rcases pathShapes path with ⟨flat, nonempty⟩ | ⟨group, name, dotted⟩ | malformed
  · rw [resolveFlat t shown flat nonempty]
    split
    · exact .inr (.inr ⟨_, rfl⟩)
    · rename_i b found
      exact .inl ⟨b, .entry flat nonempty found⟩
    · exact .inr (.inr ⟨_, rfl⟩)
  · rw [resolveDotted t shown dotted]
    split
    · exact .inr (.inr ⟨_, rfl⟩)
    · rename_i members entry
      split
      · rename_i b found
        exact .inl ⟨b, .member dotted entry found⟩
      · exact .inr (.inr ⟨_, rfl⟩)
    · rename_i absent
      cases shows : shown group with
      | none => exact .inr (.inr ⟨_, rfl⟩)
      | some holder =>
        have through : t.Through shown path group name holder := ⟨dotted, absent, shows⟩
        rcases memberCases path name holder with ⟨o, fault, rfl, fails⟩ | ⟨target, gives, callable⟩ | missing
        · exact .inr (.inl ⟨_, .unread through fails⟩)
        · rcases callableCases path callable with ⟨b, callable⟩ | ⟨f, typeName, rfl, silent, first⟩
          · exact .inl ⟨b, .held through gives callable⟩
          · exact .inr (.inl ⟨_, .undescribed through gives silent first⟩)
        · exact .inr (.inr missing)
  · exact .inr (.inr ⟨_, malformed t shown⟩)

end SymbolTable
end Paths

/- A path is resolved exactly to what it reaches, and fails to be found in every other case but that
reading an object's members fails or a function does not describe itself. What the table has under a name
hides what a variable of that name shows, also where the group lacks the member. -/
theorem pathsReach (t : SymbolTable) (shown : String → Option Value) (path : String) :
    (∀ b, t.resolve path shown = .ok b ↔ t.Reaches shown path b) ∧
      (∀ f, t.Breaks shown path f → t.resolve path shown = .error f) ∧
      ((∀ b, ¬t.Reaches shown path b) → (∀ f, ¬t.Breaks shown path f) →
        ∃ fault, t.resolve path shown = .error (.path fault)) ∧
      ∀ group name, Dotted group name path → (t.entries.get? group).isSome = true →
        ∀ other, t.resolve path other = t.resolve path shown := by
  refine ⟨fun b => ⟨fun resolved => ?_, SymbolTable.reachesResolves⟩, fun f => SymbolTable.breaksResolve,
    fun nothing unbroken => ?_, ?_⟩
  · rcases SymbolTable.resolveCases t shown path with ⟨c, reaches⟩ | ⟨f, breaks⟩ | ⟨fault, missing⟩
    · cases resolved.symm.trans (SymbolTable.reachesResolves reaches)
      exact reaches
    · cases resolved.symm.trans (SymbolTable.breaksResolve breaks)
    · cases resolved.symm.trans missing
  · rcases SymbolTable.resolveCases t shown path with ⟨c, reaches⟩ | ⟨f, breaks⟩ | missing
    · exact absurd reaches (nothing c)
    · exact absurd breaks (unbroken f)
    · exact missing
  · intro group name dotted has other
    obtain ⟨entry, found⟩ := Option.isSome_iff_exists.mp has
    rw [SymbolTable.resolveDotted t other dotted, SymbolTable.resolveDotted t shown dotted, found]
    cases entry <;> rfl

def unreadCar : HostObject Value := ⟨"Car", .error ⟨"TypeError", "'float' object is not callable", true⟩, .ok "<Car>"⟩

theorem unreadCarBreaks : ∃ fault, SymbolTable.empty.Breaks (fun _ => some (.object unreadCar)) "car.takeDamage" (.raised fault) := by
  have dotted : Dotted "car" "takeDamage" "car.takeDamage" := by
    refine ⟨?_, ?_, ?_, ?_, ?_⟩ <;> decide +kernel
  exact ⟨_, .unread ⟨dotted, rfl, rfl⟩ rfl⟩

theorem unreadObjectEscapes :
    let resolved := SymbolTable.empty.resolve "car.takeDamage" fun _ => some (.object unreadCar)
    (∀ b, resolved ≠ .ok b) ∧ ∀ missing, resolved ≠ .error (.path missing) := by
  intro resolved
  obtain ⟨fault, breaks⟩ := unreadCarBreaks
  have escapes : resolved = .error (.raised fault) := SymbolTable.breaksResolve breaks
  refine ⟨fun b found => ?_, fun missing absent => ?_⟩
  · cases escapes.symm.trans found
  · cases escapes.symm.trans absent

end LineScript
