import LineScript.Proofs.Engine.Deeds
import LineScript.Proofs.Engine.Reliable

/-! What variables show is a function of what has been written. At every moment of a session a context
shows the last value written in it, else what it inherited when it was made; so nothing that is done
on one context is seen from another that is there already. -/
namespace LineScript

/- What has been done to variables when a machine is reached. Every machine that a session passes
through is one of these: between its operations, at the start of a run on whatever level, behind any
statement of a run, and behind anything a host does when it is called. -/
inductive Moment : List Deed → Machine → Prop where
  | start {setup first} (started : Machine.start setup = .ok first) : Moment [] first
  | operated {h m} (operation : Operation) (moment : Moment h m) :
      Moment ((operation.deeds m).reverse ++ h) (m.operate operation).1
  | entered {h m} (place : Place) (moment : Moment h m) :
      Moment ((Engine.startLog place m).reverse ++ h) (Engine.opened m place).1
  | ran {h m} (host : Host) (depth : Nat) (ref : ContextRef) (s : Stmt) (moment : Moment h m) :
      Moment ((Engine.stmtLog (Engine.nesting host depth) (Engine.nestingLog host depth) ref s m).reverse ++ h)
        (Engine.after (Engine.runStmt (Engine.nesting host depth) ref s) m).2
  | performed {h m} (host : Host) (depth : Nat) (program : HostProgram) (moment : Moment h m) :
      Moment ((Engine.performLog (Engine.nesting host depth) (Engine.nestingLog host depth) program m).reverse ++ h)
        (Engine.after (Engine.perform (Engine.nesting host depth) program) m).2
  | aside {h m n} (same : n.stored = m.stored) (moment : Moment h m) : Moment h n

namespace Machine

theorem startExplained {setup : Setup} {first : Machine} (started : Machine.start setup = .ok first) :
    first.Explained [] := by
  have empty : first.stored = ([], .empty, []) := by
    unfold Machine.start at started
    simp only at started
    split at started
    · cases started
    · cases started
      rfl
  simp only [stored, Prod.mk.injEq] at empty
  obtain ⟨globals, main, contexts⟩ := empty
  have nothing (ref : ContextRef) : first.context? ref = none ∨ first.context? ref = some .empty := by
    cases ref <;> simp [context?, main, contexts]
  refine ⟨?_, ?_, ?_, ?_, ?_⟩
  · intro key
    rw [globals]
    rfl
  · intro ref key
    rcases nothing ref with missing | empty
    · rw [Machine.own, missing]
      rfl
    · rw [Machine.own, empty]
      rfl
  · intro ref key
    rcases nothing ref with missing | empty
    · rw [Machine.below, missing]
      rfl
    · rw [Machine.below, empty]
      rfl
  · rw [contexts]
    rfl
  · intro ref c found
    rcases nothing ref with missing | empty
    · cases missing.symm.trans found
    · cases empty.symm.trans found
      exact List.nodup_nil

theorem operateExplained {m : Machine} {h : List Deed} (explained : m.Explained h) (operation : Operation) :
    (m.operate operation).1.Explained ((operation.deeds m).reverse ++ h) := by
  have kept (made : Except Failure SymbolTable) :
      (m.orKept (made.map fun symbols => { m with symbols := symbols })).1.stored = m.stored := by
    cases made <;> rfl
  cases operation with
  | register name target => exact explained.ofStored (kept (m.symbols.register name target))
  | registerNamespace name target =>
    exact explained.ofStored (kept (m.symbols.registerNamespace name target))
  | bindHost object name => exact explained.ofStored rfl
  | unregister name => exact explained.ofStored (kept (m.symbols.unregister name))
  | freeze => exact explained.ofStored rfl
  | setVariable name value => exact explained.seed name value
  | write context name value => exact explained.assign context name value
  | newContext => exact explained.layer
  | fork context =>
    simp only [operate, Operation.deeds]
    cases found : m.context? context with
    | none => exact explained
    | some c => exact explained.fork found
  | run host place program =>
    have ran := Engine.executeExplained (Engine.nestingAccounts host host.room) explained place program
    rw [← Engine.executeNesting] at ran
    exact ran

end Machine

theorem Moment.explained {h : List Deed} {m : Machine} (moment : Moment h m) : m.Explained h := by
  induction moment with
  | start started => exact Machine.startExplained started
  | operated operation moment ih => exact Machine.operateExplained ih operation
  | entered place moment ih => exact Engine.openedExplained ih place
  | ran host depth ref s moment ih =>
    exact (Engine.runAccounts (Engine.nestingAccounts host depth) ref).1 s _ _ ih
  | performed host depth program moment ih =>
    exact Engine.performAccounts (Engine.nestingAccounts host depth) program _ _ ih
  | aside same moment ih => exact ih.ofStored same

def Deed.On (ref : ContextRef) : Deed → Prop
  | .write context _ _ => context = ref
  | .run context => context = ref
  | .resume => ref = .main
  | _ => False

namespace History

theorem madeAppend (deeds h : List Deed) : made h ≤ made (deeds ++ h) := by
  induction deeds with
  | nil => exact Nat.le_refl _
  | cons deed rest ih =>
    cases deed <;> simp only [List.cons_append, made] <;> omega

theorem Exists.old {deeds h : List Deed} {ref : ContextRef} (there : Exists h ref) :
    ref ≠ .layered (made (deeds ++ h)) := by
  rintro rfl
  exact Nat.lt_irrefl _ (Nat.lt_of_lt_of_le there (madeAppend deeds h))

theorem shownApart {deeds h : List Deed} {ref : ContextRef} (there : Exists h ref)
    (apart : ∀ deed ∈ deeds, ¬ deed.On ref) (key : String) :
    shown ref key (deeds ++ h) = shown ref key h := by
  induction deeds with
  | nil => rfl
  | cons deed rest ih =>
    have before := ih (fun other member => apart other (List.mem_cons_of_mem _ member))
    have off := apart deed List.mem_cons_self
    rw [← before]
    cases deed with
    | seed name value => rfl
    | run context => rfl
    | write context name value =>
      have other : ref ≠ context := fun same => off same.symm
      simp only [shown, List.cons_append, written, inherited, other, false_and, if_false]
    | resume =>
      have other : ref ≠ .main := off
      simp only [shown, List.cons_append, written, inherited, other, if_false]
    | layer => simp only [shown, List.cons_append, written, inherited, there.old, if_false]
    | fork source => simp only [shown, List.cons_append, written, inherited, there.old, if_false]

end History

/- At every moment: what a context shows, what is got for a variable and what a global is are all
found in the history; and a context that is there shows the same at any later moment, unless it was
itself written to or run in. -/
theorem variablesFollowHistory {h : List Deed} {m : Machine} (moment : Moment h m) :
    (∀ ref key, m.lookup ref key = History.shown ref key h) ∧
      (∀ key, m.getVariable? key = History.current key h) ∧
      (∀ key, m.globals.get? key = History.seeded key h) ∧
      ∀ later n ref, Moment (later ++ h) n → (m.context? ref).isSome = true →
        (∀ deed ∈ later, ¬ deed.On ref) → ∀ key, n.lookup ref key = m.lookup ref key := by
  have explained := moment.explained
  refine ⟨explained.lookup, explained.getVariable, explained.globals, ?_⟩
  intro later n ref after there apart key
  rw [explained.lookup, after.explained.lookup]
  exact History.shownApart ((explained.exists ref).mp there) apart key

theorem letInRunInsideRun :
    ∃ h m, Moment h m ∧ m.lookup .main "x" = some (.text "outer") ∧
      m.lookup (.layered 0) "x" = some (.text "old") ∧ m.lookup (.layered 1) "x" = some (.text "inner") := by
  let bind (text : String) : Stmt := .assign 1 "x" ⟨[⟨.literal text, .start⟩], text, 1⟩
  let host : Host := .behaving fun _ _ _ => .pure .nil
  have before := ((@Moment.start {} _ rfl).operated (.setVariable "x" (.text "old"))).operated .newContext
  have outer := (before.entered .session).ran host 1 .main (bind "outer")
  have inner := (outer.entered .fresh).ran host 0 (.layered 1) (bind "inner")
  have law := variablesFollowHistory inner
  refine ⟨_, _, inner, (law.1 .main "x").trans ?_, (law.1 (.layered 0) "x").trans ?_,
    (law.1 (.layered 1) "x").trans ?_⟩
  · rfl
  · rfl
  · rfl

end LineScript
