import LineScript.Proofs.Bindings
import LineScript.Proofs.Value.Describe
import LineScript.Symbol.Table

/-! What can become of a symbol table. A table that takes an entry is not frozen, and the entry has
an identifier for its name; a table that refuses one is left as it is, and binding an object leaves
the methods that came before the refused one. -/
namespace LineScript

namespace Name

def Letter (c : Char) : Prop := ('A' ≤ c ∧ c ≤ 'Z') ∨ ('a' ≤ c ∧ c ≤ 'z') ∨ c = '_'

def Digit (c : Char) : Prop := '0' ≤ c ∧ c ≤ '9'

def Identifier (name : String) : Prop :=
  ∃ c cs, name.toList = c :: cs ∧ Letter c ∧ ∀ d ∈ cs, Letter d ∨ Digit d

theorem firstIsLetter (c : Char) : isFirst c = true ↔ Letter c := by
  have alpha : c.isAlpha = (c.isUpper || c.isLower) := rfl
  have upper : c.isUpper = decide ('A' ≤ c ∧ c ≤ 'Z') := rfl
  have lower : c.isLower = (decide ('a' ≤ c) && decide (c ≤ 'z')) := rfl
  simp [isFirst, Letter, alpha, upper, lower, or_assoc]

theorem laterIsLetterOrDigit (c : Char) : isLater c = true ↔ Letter c ∨ Digit c := by
  have same : isLater c = (isFirst c || c.isDigit) := by
    simp [isLater, isFirst, Char.isAlphanum, Bool.or_right_comm]
  rw [same, Bool.or_eq_true, firstIsLetter]
  simp [Digit, Char.isDigit, Char.le_def]

theorem symbolIsIdentifier (name : String) : isSymbol name = true ↔ Identifier name := by
  unfold isSymbol Identifier
  cases name.toList with
  | nil => simp
  | cons c cs => simp [firstIsLetter, laterIsLetterOrDigit, and_assoc]

instance (name : String) : Decidable (Identifier name) := decidable_of_iff _ (symbolIsIdentifier name)

end Name

namespace SymbolTable

structure Edited (t t' : SymbolTable) : Prop where
  writable : t.frozen = false
  unfrozen : t'.frozen = false
  entries : ∀ entry ∈ t'.entries, entry ∈ t.entries ∨ Name.Identifier entry.1

theorem Edited.trans {a b c : SymbolTable} (left : Edited a b) (right : Edited b c) : Edited a c := by
  refine ⟨left.writable, right.unfrozen, ?_⟩
  intro entry member
  rcases right.entries entry member with before | named
  · exact left.entries entry before
  · exact .inr named

theorem writable {t : SymbolTable} {name : String} (ok : t.checkWritable name = .ok ()) :
    t.frozen = false ∧ Name.Identifier name := by
  unfold checkWritable at ok
  split at ok
  · contradiction
  · rename_i thawed
    split at ok
    · rename_i named
      exact ⟨by simpa using thawed, (Name.symbolIsIdentifier name).mp named⟩
    · contradiction

theorem takesIdentifier {t : SymbolTable} (thawed : t.frozen = false) {name : String}
    (named : Name.Identifier name) : t.checkWritable name = .ok () := by
  rw [checkWritable, thawed, (Name.symbolIsIdentifier name).mpr named]
  rfl

theorem refusesOther {t : SymbolTable} (thawed : t.frozen = false) {name : String}
    (odd : ¬Name.Identifier name) : t.checkWritable name = .error (.invalidName name) := by
  have unfit : Name.isSymbol name = false := by
    simpa using fun fit => odd ((Name.symbolIsIdentifier name).mp fit)
  rw [checkWritable, thawed, unfit]
  rfl

theorem editedSet {t : SymbolTable} {name : String} (ok : t.checkWritable name = .ok ()) (entry : Entry) :
    Edited t { t with entries := t.entries.set name entry } := by
  obtain ⟨thawed, named⟩ := writable ok
  refine ⟨thawed, thawed, ?_⟩
  intro other member
  rcases Bindings.memSet member with rfl | before
  · exact .inr named
  · exact .inl before

theorem checkedBind {α : Type} {t : SymbolTable} {name : String} {next : Unit → Except Failure α} {a : α}
    (ok : (t.checkWritable name >>= next) = .ok a) : t.checkWritable name = .ok () ∧ next () = .ok a := by
  cases checked : t.checkWritable name with
  | error f =>
    rw [checked] at ok
    contradiction
  | ok u =>
    rw [checked] at ok
    exact ⟨rfl, ok⟩

theorem registerGroupEdits {t t' : SymbolTable} {name : String} {members : Bindings Value}
    (ok : t.registerGroup name members = .ok t') : Edited t t' := by
  obtain ⟨checked, ok⟩ := checkedBind ok
  cases wrapped : wrapMembers name members with
  | error f =>
    rw [wrapped] at ok
    contradiction
  | ok functions =>
    rw [wrapped] at ok
    cases ok
    exact editedSet checked _

theorem registerEdits {t t' : SymbolTable} {name : String} {target : Value}
    (ok : t.register name target = .ok t') : Edited t t' := by
  obtain ⟨checked, ok⟩ := checkedBind ok
  split at ok
  · exact registerGroupEdits ok
  · cases wrapped : Builtin.wrap name target with
    | error f =>
      rw [wrapped] at ok
      contradiction
    | ok function =>
      rw [wrapped] at ok
      cases ok
      exact editedSet checked _

theorem registerNamespaceEdits {t t' : SymbolTable} {name : String} {target : Value}
    (ok : t.registerNamespace name target = .ok t') : Edited t t' := by
  obtain ⟨checked, ok⟩ := checkedBind ok
  split at ok
  · exact registerGroupEdits ok
  · contradiction

theorem unregisterEdits {t t' : SymbolTable} {name : String} (ok : t.unregister name = .ok t') :
    Edited t t' := by
  obtain ⟨checked, ok⟩ := checkedBind ok
  obtain ⟨thawed, -⟩ := writable checked
  cases ok
  exact ⟨thawed, thawed, fun entry member => .inl (List.mem_filter.mp member).1⟩

theorem registerFrozen {t : SymbolTable} (frozen : t.frozen = true) (name : String) (target : Value) :
    t.register name target = .error (.frozen name) := by
  simp [register, checkWritable, frozen]
  rfl

theorem registerAllEdits (t : SymbolTable) (targets : Bindings Value) :
    (t.registerAll targets).1 = t ∨ Edited t (t.registerAll targets).1 := by
  induction targets generalizing t with
  | nil => exact .inl rfl
  | cons first rest ih =>
    rw [registerAll]
    cases done : t.register first.1 first.2 with
    | error f => exact .inl rfl
    | ok next =>
      have edited := registerEdits done
      rcases ih next with same | later
      · simp only [same]
        exact .inr edited
      · exact .inr (edited.trans later)

theorem bindHostEdits (t : SymbolTable) (o : HostObject Value) (name : Option String) :
    (t.bindHost o name).1 = t ∨ Edited t (t.bindHost o name).1 := by
  unfold bindHost
  cases o.api with
  | error fault => exact .inl rfl
  | ok api =>
    cases name with
    | none => exact registerAllEdits t api
    | some name =>
      cases done : t.registerGroup name api with
      | error f => simp only [done, true_or]
      | ok next =>
        simp only [done]
        exact .inr (registerGroupEdits done)

def methodTarget (m : String × HostFunction Value) : String × Value := (m.1, .function m.2)

def methodEntry (m : String × HostFunction Value) : String × Entry := (m.1, .builtin (m.2.under m.1))

theorem registerMethod {t t' : SymbolTable} {m : String × HostFunction Value}
    (ok : t.register m.1 (.function m.2) = .ok t') :
    t' = { t with entries := t.entries.set m.1 (methodEntry m).2 } := by
  obtain ⟨-, ok⟩ := checkedBind ok
  simp only [Value.members?, Builtin.wrap] at ok
  rcases m.2.builtinCases m.1 with ⟨-, made⟩ | ⟨-, typeName, -, refused⟩
  · rw [made] at ok
    cases ok
    rfl
  · rw [refused] at ok
    contradiction

theorem registerAllRefused {t t' : SymbolTable} {methods : Bindings (HostFunction Value)} {f : Failure}
    (refused : t.registerAll (methods.map methodTarget) = (t', some f)) :
    ∃ before bad after, methods = before ++ bad :: after ∧
      t' = { t with entries := t.entries.merge (before.map methodEntry) } ∧
      t'.register bad.1 (.function bad.2) = .error f := by
  induction methods generalizing t with
  | nil => simp [registerAll] at refused
  | cons first rest ih =>
    simp only [List.map_cons, methodTarget, registerAll] at refused
    cases done : t.register first.1 (.function first.2) with
    | error g =>
      rw [done] at refused
      cases refused
      exact ⟨[], first, rest, rfl, rfl, done⟩
    | ok next =>
      rw [done] at refused
      obtain ⟨before, bad, after, rfl, rfl, failed⟩ := ih refused
      rw [registerMethod done] at failed ⊢
      exact ⟨first :: before, bad, after, rfl, rfl, failed⟩

theorem registerNamed {t : SymbolTable} (thawed : t.frozen = false) {m : String × HostFunction Value}
    (named : Name.Identifier m.1) :
    t.register m.1 (.function m.2) = (m.2.builtin m.1).map fun b =>
      { t with entries := t.entries.set m.1 (.builtin b) } := by
  rw [register, takesIdentifier thawed named]
  rfl

theorem registerAllTakes {t : SymbolTable} (thawed : t.frozen = false)
    {methods : Bindings (HostFunction Value)} (named : ∀ m ∈ methods, Name.Identifier m.1)
    (described : ∀ m ∈ methods, m.2.Describes) :
    t.registerAll (methods.map methodTarget) =
      ({ t with entries := t.entries.merge (methods.map methodEntry) }, none) := by
  induction methods generalizing t with
  | nil => rfl
  | cons first rest ih =>
    rw [List.forall_mem_cons] at named described
    have taken : t.register first.1 (.function first.2) =
        .ok { t with entries := t.entries.set first.1 (methodEntry first).2 } := by
      rw [registerNamed thawed named.1, HostFunction.builtinOk described.1]
      rfl
    rw [List.map_cons, methodTarget, registerAll, taken]
    exact ih (t := { t with entries := t.entries.set first.1 (methodEntry first).2 }) thawed named.2 described.2

def methodMember (group : String) (m : String × HostFunction Value) : String × Builtin Value :=
  (m.1, m.2.under (group ++ "." ++ m.1))

theorem wrapMethods (group : String) (methods : Bindings (HostFunction Value)) :
    ((∀ m ∈ methods, m.2.Describes) ∧
        wrapMembers group (methods.map methodTarget) = .ok (methods.map (methodMember group))) ∨
      ((∃ m ∈ methods, ¬m.2.Describes) ∧
        ∃ typeName, wrapMembers group (methods.map methodTarget) = .error (.unhashable typeName)) := by
  induction methods with
  | nil => exact .inl ⟨nofun, rfl⟩
  | cons first rest ih =>
    rw [List.map_cons, methodTarget, wrapMembers, Builtin.wrap]
    rcases first.2.builtinCases (group ++ "." ++ first.1) with ⟨describes, made⟩ | ⟨silent, typeName, -, refused⟩
    · rw [made]
      rcases ih with ⟨others, wrapped⟩ | ⟨⟨m, member, silent⟩, typeName, refused⟩
      · refine .inl ⟨List.forall_mem_cons.mpr ⟨describes, others⟩, ?_⟩
        rw [wrapped]
        rfl
      · refine .inr ⟨⟨m, List.mem_cons_of_mem _ member, silent⟩, typeName, ?_⟩
        rw [refused]
        rfl
    · refine .inr ⟨⟨first, List.mem_cons_self, silent⟩, typeName, ?_⟩
      rw [refused]
      rfl

end SymbolTable

namespace HostObject
variable (o : HostObject Value) {targets : Bindings Value}

theorem apiMembers (reads : o.api = .ok targets) : ∃ methods, o.members = .ok methods ∧ targets = exposedMethods methods := by
  rw [api] at reads
  cases members : o.members with
  | error fault =>
    rw [members] at reads
    cases reads
  | ok methods =>
    rw [members] at reads
    cases reads
    exact ⟨methods, rfl, rfl⟩

theorem apiTargets (reads : o.api = .ok targets) :
    ∃ methods : Bindings (HostFunction Value), targets = methods.map SymbolTable.methodTarget := by
  obtain ⟨list, -, rfl⟩ := o.apiMembers reads
  have each : ∀ entry ∈ exposedMethods list, ∃ f, entry.2 = Value.function f := by
    intro entry member
    rcases Bindings.memMerge member with exposed | nothing
    · obtain ⟨⟨name, m⟩, -, rfl⟩ := List.mem_map.mp exposed
      exact ⟨m.function, rfl⟩
    · contradiction
  generalize exposedMethods list = targets at each
  clear reads
  induction targets with
  | nil => exact ⟨[], rfl⟩
  | cons first rest ih =>
    obtain ⟨methods, rfl⟩ := ih (fun entry member => each entry (List.mem_cons_of_mem _ member))
    obtain ⟨f, same⟩ := each first List.mem_cons_self
    exact ⟨(first.1, f) :: methods, by simp [SymbolTable.methodTarget, ← same]⟩

theorem apiReads (reads : o.members.isOk = true) :
    ∃ methods : Bindings (HostFunction Value), o.api = .ok (methods.map SymbolTable.methodTarget) := by
  cases members : o.members with
  | error fault =>
    rw [members] at reads
    cases reads
  | ok list =>
    have made : o.api = .ok (exposedMethods list) := by
      rw [api, members]
      rfl
    obtain ⟨methods, same⟩ := o.apiTargets made
    exact ⟨methods, same ▸ made⟩

end HostObject
end LineScript
