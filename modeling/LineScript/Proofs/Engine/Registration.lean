import Mathlib.Data.List.Permutation
import LineScript.Proofs.Engine.Moves
import LineScript.Proofs.Engine.Operations
import LineScript.Proofs.Symbol.Table

/-! The symbol table over a whole session. Its names are identifiers, an operation that fails leaves
it as it was, and from the first freeze or run on nothing changes it, not even a host that tries to
register from inside a run. -/
namespace LineScript

theorem SymbolTable.freezeFrozen {t : SymbolTable} (frozen : t.frozen = true) : t.freeze = t := by
  obtain ⟨entries, _⟩ := t
  cases frozen
  rfl

namespace Engine

theorem frozenSteps {around : Surroundings} (ref : ContextRef)
    (nested : ∀ m place source, m.symbols.frozen = true →
      (after (around.reenter place source) m).2.symbols = m.symbols) :
    Steps around ref (fun m n => m.symbols.frozen = true → n.symbols = m.symbols) where
  stay m _ := rfl
  join left right frozen := by
    have first := left frozen
    exact (right (first ▸ frozen)).trans first
  atLine m line _ := by
    obtain ⟨_, _, same⟩ := m.setActiveKeeps { m.activeJournal with line := some line }
    rw [Machine.setLine, same]
  said m notice _ := by
    obtain ⟨_, _, same⟩ := m.sayKeeps notice
    rw [same]
  streamed m stream text next _ _ _ := rfl
  assigned m name value _ := by
    unfold Machine.assign Machine.setContext
    split
    · split <;> rfl
    · rfl
  traced m lines _ := rfl
  called m name arguments _ := rfl
  recorded m r _ := rfl
  seeded m name value _ := rfl
  registered m name target symbols done frozen := by
    rw [SymbolTable.registerFrozen frozen] at done
    contradiction
  reentered := nested

theorem openedSymbols (m : Machine) (place : Place) :
    (opened m place).1.symbols = m.symbols.freeze := by
  cases place <;> rfl

theorem executeSymbols {around : Surroundings} (place : Place) (p : Program) (m : Machine)
    (nested : ∀ m place source, m.symbols.frozen = true →
      (after (around.reenter place source) m).2.symbols = m.symbols) :
    (execute around place p m).2.symbols = m.symbols.freeze := by
  have entry := openedSymbols m place
  have ran := runProgramMoves (frozenSteps (opened m place).2 nested) p (opened m place).1
    (by rw [entry]; rfl)
  obtain ⟨_, _, kept⟩ := resultKeeps (ranIn around place p m).1 (ranIn around place p m).2
  show (resultOf (ranIn around place p m).1 (ranIn around place p m).2).2.symbols = _
  rw [kept]
  exact ran.trans entry

theorem nestedSymbols (host : Host) (depth : Nat) (place : Place) (p : Program) (m : Machine) :
    (executeNested host depth place p m).2.symbols = m.symbols.freeze := by
  induction depth generalizing place p m with
  | zero => exact executeSymbols place p m (fun m _ _ _ => rfl)
  | succ depth ih =>
    refine executeSymbols place p m (fun m place source frozen => ?_)
    exact (ih place (parse source.toList) m).trans (SymbolTable.freezeFrozen frozen)

end Engine

def Operation.seals : Operation → Bool
  | .freeze => true
  | .run _ _ _ => true
  | _ => false

/- The table that an operation leaves when it fails: the one before, or that with the methods before
the one that was refused. -/
def Operation.Leaves (f : Failure) (t t' : SymbolTable) : Operation → Prop
  | .bindHost object none =>
    (∃ fault, object.api = .error fault ∧ f = .raised fault ∧ t' = t) ∨ ∃ before bad after,
      object.api = .ok ((before ++ bad :: after).map SymbolTable.methodTarget) ∧
      t' = { t with entries := t.entries.merge (before.map SymbolTable.methodEntry) } ∧
      t'.register bad.1 (.function bad.2) = .error f
  | _ => t' = t

namespace Machine
open SymbolTable

theorem orKeptSymbols (m : Machine) {made : Except Failure SymbolTable} {change : Except Failure Machine}
    (changes : change = made.map fun symbols => { m with symbols := symbols })
    (edits : ∀ symbols, made = .ok symbols → Edited m.symbols symbols) :
    (m.orKept change).1.symbols = m.symbols ∨ Edited m.symbols (m.orKept change).1.symbols := by
  subst changes
  cases made with
  | ok symbols => exact .inr (edits symbols rfl)
  | error f => exact .inl rfl

theorem operateSymbols (m : Machine) (operation : Operation) :
    (operation.seals = true ∧ (m.operate operation).1.symbols = m.symbols.freeze) ∨
      (operation.seals = false ∧ ((m.operate operation).1.symbols = m.symbols ∨
        Edited m.symbols (m.operate operation).1.symbols)) := by
  cases operation with
  | register name target =>
    exact .inr ⟨rfl, m.orKeptSymbols rfl (fun _ => registerEdits)⟩
  | registerNamespace name target =>
    exact .inr ⟨rfl, m.orKeptSymbols rfl (fun _ => registerNamespaceEdits)⟩
  | bindHost object name => exact .inr ⟨rfl, bindHostEdits m.symbols object name⟩
  | unregister name => exact .inr ⟨rfl, m.orKeptSymbols rfl (fun _ => unregisterEdits)⟩
  | freeze => exact .inl ⟨rfl, rfl⟩
  | setVariable name value => exact .inr ⟨rfl, .inl rfl⟩
  | write context name value =>
    refine .inr ⟨rfl, .inl ?_⟩
    simp only [operate, assign, setContext]
    split
    · split <;> rfl
    · rfl
  | newContext => exact .inr ⟨rfl, .inl rfl⟩
  | fork context =>
    refine .inr ⟨rfl, .inl ?_⟩
    simp only [operate]
    split <;> rfl
  | run host place program => exact .inl ⟨rfl, Engine.nestedSymbols host _ place program m⟩

def WellNamed (m : Machine) : Prop := ∀ entry ∈ m.symbols.entries, Name.Identifier entry.1

theorem startSymbols {setup : Setup} {first : Machine} (started : Machine.start setup = .ok first) :
    let table := if setup.standardLibrary then SymbolTable.standard else SymbolTable.empty
    first.symbols = table ∨ Edited table first.symbols := by
  intro table
  unfold Machine.start at started
  cases object : setup.object with
  | none =>
    rw [object] at started
    cases started
    exact .inl rfl
  | some o =>
    simp only [object] at started
    have edited := bindHostEdits table o none
    split at started
    · cases started
    · rename_i symbols bound
      cases started
      simpa only [table, bound] using edited

theorem startWellNamed {setup : Setup} {first : Machine} (started : Machine.start setup = .ok first) :
    first.WellNamed := by
  have standard : ∀ entry ∈ SymbolTable.standard.entries, Name.isSymbol entry.1 = true := by
    simp only [SymbolTable.standard, List.forall_mem_cons]
    decide
  have given : ∀ entry ∈ (if setup.standardLibrary then SymbolTable.standard else SymbolTable.empty).entries,
      Name.Identifier entry.1 := by
    split
    · exact fun entry member => (Name.symbolIsIdentifier entry.1).mp (standard entry member)
    · simp [SymbolTable.empty]
  unfold WellNamed
  rcases startSymbols started with same | edited
  · rw [same]
    exact given
  · exact fun entry member => (edited.entries entry member).elim (given entry) id

theorem operateWellNamed {m : Machine} (named : m.WellNamed) (operation : Operation) :
    (m.operate operation).1.WellNamed := by
  unfold WellNamed
  rcases m.operateSymbols operation with ⟨-, same⟩ | ⟨-, same | edited⟩
  · rw [same]
    exact named
  · rw [same]
    exact named
  · exact fun entry member => (edited.entries entry member).elim (named entry) id

theorem sessionWellNamed {m : Machine} (named : m.WellNamed) (operations : List Operation) :
    (m.session operations).WellNamed := by
  induction operations generalizing m with
  | nil => exact named
  | cons operation rest ih => exact ih (operateWellNamed named operation)

theorem operateFrozen {m : Machine} (frozen : m.symbols.frozen = true) (operation : Operation) :
    (m.operate operation).1.symbols = m.symbols := by
  rcases m.operateSymbols operation with ⟨-, same⟩ | ⟨-, same | edited⟩
  · rw [same, freezeFrozen frozen]
  · exact same
  · cases frozen.symm.trans edited.writable

theorem sessionFrozen {m : Machine} (frozen : m.symbols.frozen = true) (operations : List Operation) :
    (m.session operations).symbols = m.symbols := by
  induction operations generalizing m with
  | nil => rfl
  | cons operation rest ih =>
    have same := operateFrozen frozen operation
    exact (ih (same ▸ frozen)).trans same

theorem sessionSealed (m : Machine) {operations : List Operation}
    (sealing : operations.any Operation.seals = true) : (m.session operations).symbols.frozen = true := by
  obtain ⟨operation, member, seals⟩ := List.any_eq_true.mp sealing
  obtain ⟨before, after, rfl⟩ := List.append_of_mem member
  rcases (m.session before).operateSymbols operation with ⟨-, same⟩ | ⟨other, -⟩
  · rw [sessionAppend, session, sessionFrozen, same]
    · rfl
    · rw [same]
      rfl
  · cases seals.symm.trans other

theorem operateFailed {m : Machine} {operation : Operation} {f : Failure}
    (failed : (m.operate operation).2 = some f) :
    operation.Leaves f m.symbols (m.operate operation).1.symbols := by
  have kept {change : Except Failure Machine} (failed : (m.orKept change).2 = some f) :
      (m.orKept change).1.symbols = m.symbols := by
    cases change with
    | ok n => cases failed
    | error g => rfl
  cases operation with
  | register name target => exact kept failed
  | registerNamespace name target => exact kept failed
  | unregister name => exact kept failed
  | bindHost object name =>
    simp only [operate, Machine.bindHost, SymbolTable.bindHost] at failed ⊢
    cases api : object.api with
    | error fault =>
      rw [api] at failed
      cases failed
      cases name with
      | none => exact .inl ⟨fault, api, rfl, rfl⟩
      | some name => rfl
    | ok targets =>
      rw [api] at failed
      cases name with
      | none =>
        obtain ⟨methods, rfl⟩ := object.apiTargets api
        obtain ⟨before, bad, after, rfl, added, error⟩ := registerAllRefused (Prod.ext rfl failed)
        exact .inr ⟨before, bad, after, api, added, error⟩
      | some name =>
        cases done : m.symbols.registerGroup name targets with
        | ok symbols => simp [done] at failed
        | error g =>
          simp only [done]
          rfl
  | fork context =>
    simp only [operate] at failed
    split at failed <;> cases failed
  | _ => cases failed

end Machine

theorem Engine.registerRefused {m : Machine} (frozen : m.symbols.frozen = true) (around : Surroundings)
    (name : String) (target : Value) (next : Option Failure → HostProgram) :
    after (perform around (.register name target next)) m =
      after (perform around (next (some (.frozen name)))) m := by
  simp only [perform, attempt, register, afterBind, afterTryCatch, afterGet,
    SymbolTable.registerFrozen frozen, afterThrow, afterPure]

/- For a session from any start: the names of the table are identifiers and its entries functions or
groups of functions; a failed operation leaves it as it was, but for an object whose methods are
bound one by one; and nothing changes it from the first freeze or run on. -/
theorem tableOverSession {setup : Setup} {first : Machine} (started : Machine.start setup = .ok first)
    (operations : List Operation) (operation : Operation) :
    let m := first.session operations
    let (n, failure) := m.operate operation
    (∀ name entry, (name, entry) ∈ m.symbols.entries → Name.Identifier name ∧
      ((∃ function : Builtin Value, entry = .builtin function) ∨
        ∃ members : Bindings (Builtin Value), entry = .group members)) ∧
      (∀ f, failure = some f → operation.Leaves f m.symbols n.symbols) ∧
      (operation.seals = true → n.symbols = m.symbols.freeze) ∧
      (operations.any Operation.seals = true → n.symbols = m.symbols) ∧
      ∀ around name target next (inside : Machine), inside.symbols.frozen = true →
        Engine.after (Engine.perform around (.register name target next)) inside =
          Engine.after (Engine.perform around (next (some (.frozen name)))) inside := by
  have named := Machine.sessionWellNamed (Machine.startWellNamed started) operations
  refine ⟨?_, fun f => Machine.operateFailed, ?_, ?_, ?_⟩
  · intro name entry member
    refine ⟨named (name, entry) member, ?_⟩
    cases entry with
    | builtin function => exact .inl ⟨function, rfl⟩
    | group members => exact .inr ⟨members, rfl⟩
  · intro seals
    rcases (first.session operations).operateSymbols operation with ⟨-, same⟩ | ⟨other, -⟩
    · exact same
    · cases seals.symm.trans other
  · intro sealing
    exact Machine.operateFrozen (first.sessionSealed sealing) operation
  · intro around name target next inside frozen
    exact Engine.registerRefused frozen around name target next

theorem objectHalfBound :
    let go : HostFunction Value := .plain 0 "go" ⟨"Car.go", [], none, [], 1⟩
    let odd : HostFunction Value := .plain 1 "é" ⟨"Car.é", [], none, [], 1⟩
    let car : HostObject Value := ⟨"Car", .ok [⟨odd, true⟩, ⟨go, true⟩], .ok "<Car>"⟩
    ∃ first, Machine.start {} = .ok first ∧
      let m := first.session [.unregister "len"]
      (m.operate (.bindHost car none)).2 = some (.invalidName "é") ∧
      (Operation.bindHost car none).Leaves (.invalidName "é") m.symbols
        (m.operate (.bindHost car none)).1.symbols := by
  intro go odd car
  refine ⟨_, rfl, ?_⟩
  intro m
  have law := @tableOverSession {} _ rfl [.unregister "len"] (.bindHost car none)
  have api : car.api = .ok [("go", .function go), ("é", .function odd)] := by cbv
  have refused : (m.operate (.bindHost car none)).2 = some (.invalidName "é") := by
    simp only [Machine.operate, Machine.bindHost, SymbolTable.bindHost, api]
    rfl
  exact ⟨refused, law.2.1 _ refused⟩

end LineScript
