import LineScript.Engine.Session
import LineScript.Proofs.Call.Marshal
import LineScript.Proofs.Engine.Conservative
import LineScript.Proofs.Engine.Reliable
import LineScript.Proofs.Script.Reading
import LineScript.Proofs.Symbol.Path

/-! Strict names are conservative. Calls, statements and whole runs do the same on a strict machine
as on one that is not, unless a name is refused; runs inside runs are covered by the depth to which
they nest. -/
namespace LineScript

theorem Builtin.marshalInternal (b : Builtin Value) (values : List Value) : Internal (b.marshal values) := by
  intro f refused
  rcases (marshalRefuses.mp refused).cases with ⟨name, kind, found, rfl⟩ | unsaid
  · rfl
  · rcases unsaid.internal with rfl | ⟨fault, rfl⟩ <;> rfl

theorem SymbolTable.resolveInternal {t : SymbolTable} {path : String} {shown : String → Option Value} {f : Failure}
    (failed : t.resolve path shown = .error f) : (∃ fault, f = .path fault) ∨ f.isEngine = false := by
  rcases t.resolveCases shown path with ⟨b, reaches⟩ | ⟨g, breaks⟩ | ⟨fault, missing⟩
  · cases failed.symm.trans (reachesResolves reaches)
  · cases failed.symm.trans (breaksResolve breaks)
    cases breaks <;> exact .inr rfl
  · cases failed.symm.trans missing
    exact .inl ⟨fault, rfl⟩

namespace Engine

section Calls
variable {around : Surroundings}
  (nested : ∀ place source, Conservative false (around.reenter place source))

include nested in
theorem performConservative (program : HostProgram) : Conservative false (perform around program) := by
  induction program with
  | finish outcome => exact conservativePure outcome
  | emit effect next ih => exact (attemptConservative (emitConservative effect)).bind ih
  | setVariable name value next ih =>
    have set : Conservative false (setVariable name value) :=
      conservativeModify (fun _ => rfl) (fun _ => rfl) (fun _ => cleanQuiet rfl)
    exact set.bind (fun _ => ih)
  | register name target next ih => exact (attemptConservative (registerConservative name target)).bind ih
  | run source place next ih =>
    exact (nested place source).bind (fun result => (recordConservative _).bind (fun _ => ih result))

theorem callStandardConservative (function : Standard) (arguments : List Value) :
    Conservative false (callStandard around function arguments) := by
  have outside {e : Except Failure String} : false = true → Internal e := fun outside => by cases outside
  unfold callStandard
  split
  · refine (conservativeLift outside).bind (fun message => (conservativeLift outside).bind (fun topic => ?_))
    exact (emitConservative _).bind (fun _ => conservativePure _)
  · exact conservativePure _
  · exact conservativeRead (fun _ => rfl) (fun m => conservativePure _)
  · exact conservativePure _

include nested in
theorem invokeConservative (routine : Routine Value) (arguments : List Value) :
    Conservative false (invoke around routine arguments) := by
  unfold invoke
  split
  · exact conservativeRaise _
  · split
    · exact (callStandardConservative _ _).bind (fun _ => conservativePure _)
    · refine (recordConservative _).bind (fun _ => ?_)
      exact conservativeRead (fun _ => rfl) (fun m => performConservative nested _)

theorem concludeInternal (name : String) (warning : Option String) (ended : Except Thrown Value) :
    Internal (conclude name warning ended) := by
  rcases ended with ⟨f, speechless⟩ | value
  · cases speechless with
    | none => exact internalOk _
    | some fault => exact internalError rfl
  · exact internalOk _

include nested in
theorem dispatchToConservative (b : Builtin Value) (values : List Value) :
    Conservative true (dispatchTo around b values) := by
  unfold dispatchTo
  have internal := b.marshalInternal values
  split
  · rename_i f failed
    split
    · exact conservativePure _
    · exact conservativeThrow (fun _ => internal f failed)
  · rename_i arguments warning _
    have logged : Conservative true (modify (·.log (.called b.name arguments))) :=
      conservativeModify (fun _ => rfl) (fun _ => rfl) (fun _ => cleanOne rfl (fun unresolved => unresolved))
    refine (traceConservative _).bind (fun _ => logged.bind (fun _ => ?_))
    refine ((invokeConservative nested _ _).caught fun _ => conservativePure _).bind (fun ended => ?_)
    exact conservativeLift (fun _ => concludeInternal _ _ ended)

include nested in
theorem dispatchConservative (path : String) (values : List Value) (shown : String → Option Value) :
    Conservative true (dispatch around path values shown) := by
  refine conservativeRead (fun _ => rfl) (fun m => ?_)
  split
  · exact dispatchToConservative nested _ _
  · rename_i f failed
    rcases SymbolTable.resolveInternal failed with ⟨fault, rfl⟩ | internal
    · exact conservativePure _
    · split
      · exact conservativePure _
      · exact conservativeThrow (fun _ => internal)

end Calls

section Outcomes
variable {around : Surroundings}

def Other (o : CallOutcome) : Prop := ∀ line path, ∀ notice ∈ o.notices line path, ¬ (Event.said notice).Unresolved

theorem otherOf {o : CallOutcome} (told : o.status = .notFound ∨ o.succeeded = true ∨
    ∃ text, o.message = some text ∧ ∀ name, text ≠ (Failure.unresolvedName name).message) : Other o := by
  intro line path notice member
  rcases List.mem_append.mp member with warned | failed
  · obtain ⟨warning, -, rfl⟩ := by simpa using warned
    rintro ⟨text, same⟩
    exact messageApart (by decide) (by decide) warning text same
  · split at failed
    · obtain rfl := List.mem_singleton.mp failed
      rintro ⟨text, same⟩
      rw [String.append_assoc, String.append_assoc, String.append_assoc] at same
      exact messageApart (by decide) (by decide) _ text same
    · rename_i found
      split at failed
      · cases failed
      · rename_i refused
        obtain rfl := List.mem_singleton.mp failed
        rcases told with missing | succeeded | ⟨message, known, other⟩
        · exact absurd missing found
        · exact absurd succeeded refused
        · rintro ⟨text, same⟩
          rw [known] at same
          exact other text same

theorem failedOther (name : String) (warning : Option String) (f : Failure) :
    Other (failedCall name warning f) := by
  have apart (rest text : String) : "runtime error in " ++ rest ≠ (Failure.unresolvedName text).message :=
    messageApart (by decide) (by decide) rest text
  refine otherOf (.inr (.inr ?_))
  unfold failedCall
  split
  · refine ⟨_, rfl, fun text same => apart (name ++ ": " ++ f.message) text ?_⟩
    simpa only [String.append_assoc] using same
  · refine ⟨_, rfl, fun text same => apart (name ++ ": " ++ f.className ++ ": " ++ f.message) text ?_⟩
    simpa only [String.append_assoc] using same

theorem dispatchToOther {b : Builtin Value} {values : List Value} {m : Machine} {o : CallOutcome}
    (ended : (after (dispatchTo around b values) m).1 = .ok o) : Other o := by
  unfold dispatchTo at ended
  split at ended
  · split at ended
    · cases ended
      refine otherOf (.inr (.inr ⟨_, rfl, fun text same => ?_⟩))
      rw [String.append_assoc, String.append_assoc] at same
      exact messageApart (by decide) (by decide) _ text same
    · cases ended
  · rename_i arguments warning _
    have traced (m : Machine) (message : String) : ∃ n, after (trace message) m = (.ok (), n) := ⟨_, rfl⟩
    obtain ⟨_, traced⟩ := traced m ("dispatch " ++ b.name ++ " argc " ++ toString arguments.length ++ " warning " ++
      warning.getD "None")
    simp only [afterBind, traced, afterModify, afterTryCatch] at ended
    generalize after (invoke around b.routine arguments) _ = ran at ended
    obtain ⟨outcome, _⟩ := ran
    have told (ended : Except Thrown Value) (said : conclude b.name warning ended = .ok o) : Other o := by
      rcases ended with ⟨f, speechless⟩ | value
      · cases speechless with
        | none =>
          cases said
          exact failedOther _ _ _
        | some fault => cases said
      · cases said
        exact otherOf (.inr (.inl (by cases warning <;> rfl)))
    cases outcome with
    | ok outcome => exact told outcome (by simpa only [afterLift] using ended)
    | error f => exact told (.error ⟨f, none⟩) (by simpa only [afterPure, afterLift] using ended)

theorem dispatchOther {path : String} {values : List Value} {shown : String → Option Value} {m : Machine}
    {o : CallOutcome} (ended : (after (dispatch around path values shown) m).1 = .ok o) : Other o := by
  simp only [dispatch, afterBind, afterGet] at ended
  split at ended
  · exact dispatchToOther ended
  · split at ended
    · cases ended
      exact otherOf (.inl rfl)
    · cases ended

end Outcomes

section Statements
variable {around : Surroundings} {ref : ContextRef}

theorem conservativeScoped {α β : Type} (ref : ContextRef) (read : Scope → Except Failure α) {next : α → EngineM β}
    (strict : ∀ lookup, read ⟨lookup, true⟩ = read ⟨lookup, false⟩ ∨
      ∃ text, read ⟨lookup, true⟩ = .error (.unresolvedName text))
    (lenient : ∀ lookup, Internal (read ⟨lookup, false⟩)) (rest : ∀ value, Conservative true (next value)) :
    Conservative true (do let m ← get; let value ← liftM (read (m.scope ref)); next value) := by
  have ran (m : Machine) : after (do let m ← get; liftM (read (m.scope ref)) : EngineM α) m =
      (read ⟨m.lookup ref, m.strict⟩, m) := by
    simp only [afterBind, afterGet, afterLift, Machine.scope]
  have first : Conservative true (do let m ← get; liftM (read (m.scope ref)) : EngineM α) := by
    refine ⟨fun m => ?_, fun m isStrict => ?_, fun m isLenient => ?_⟩
    · rw [ran]
      exact ⟨rfl, List.prefix_refl _⟩
    · rw [ran, ran, isStrict]
      rcases strict (m.lookup ref) with same | ⟨text, refused⟩
      · exact .inl (by rw [same]; rfl)
      · exact .inr (.inr ⟨rfl, text, refused⟩)
    · rw [ran, isLenient]
      exact ⟨cleanQuiet rfl, fun _ => lenient _⟩
  simpa only [bind_assoc] using first.bind rest

theorem evaluateConservative (e : Expr) : Conservative true (evaluate ref e) := by
  have read := conservativeScoped ref (fun scope => e.eval scope) (fun lookup => e.evalStrict lookup)
    (fun lookup => e.evalInternal lookup) (fun value => conservativePure value)
  simp only [bind_pure] at read
  exact read

theorem evaluateAllConservative (arguments : List Expr) : Conservative true (evaluateAll ref arguments) := by
  induction arguments with
  | nil => exact conservativePure []
  | cons e rest ih =>
    exact (evaluateConservative e).bind (fun _ => ih.bind (fun _ => conservativePure _))

theorem evaluateConditionConservative (e : Expr) : Conservative true (evaluateCondition ref e) := by
  refine conservativeScoped ref (fun scope => e.evalCondition scope) (fun lookup => e.evalConditionStrict lookup)
    (fun lookup => e.evalConditionInternal lookup) (fun verdict => ?_)
  split
  · rename_i left c right _
    refine (conservativeLift (fun _ => left.inspectInternal)).bind (fun _ => ?_)
    refine (conservativeLift (fun _ => right.inspectInternal)).bind (fun _ => ?_)
    exact (traceConservative _).bind (fun _ => conservativePure _)
  · exact (conservativePure ()).bind (fun _ => conservativePure _)

variable (nested : ∀ place source, Conservative false (around.reenter place source))

include nested in
theorem runCallConservative (line : Nat) (path : String) (arguments : List Expr) :
    Conservative true (runCall around ref line path arguments) := by
  refine (evaluateAllConservative arguments).bind (fun values => conservativeRead (fun _ => rfl) (fun m => ?_))
  refine (dispatchConservative nested path values _).bindOf (fun _ _ ended => dispatchOther ended)
    (fun outcome other => ?_)
  exact (announceAllConservative (other line path)).bind (fun _ => conservativePure _)

theorem internalTold {f : Failure} (notEngine : f.isEngine = false) (line : Option Nat) :
    ¬ (Event.said (.report line (failureText f))).Unresolved := by
  rintro ⟨text, same⟩
  simp only [failureText, notEngine, Bool.false_eq_true, if_false, String.append_assoc] at same
  exact messageApart (by decide) (by decide) _ text same

def telling (line : Nat) (f : Failure) : EngineM Value := do
  report (failureText f) (some ((← get).activeJournal.line.getD line))
  return .nil

theorem afterTelling (line : Nat) (f : Failure) (m : Machine) :
    let notice := .report (some (m.activeJournal.line.getD line)) (failureText f)
    after (telling line f) m =
      ((after (announce notice) m).1.map fun _ => .nil, (after (announce notice) m).2) := by
  intro notice
  simp only [telling, afterBind, afterGet, report, afterPure]
  rcases h : after (announce notice) m with ⟨outcome, n⟩
  cases outcome <;> rfl

theorem tellingLenient (line : Nat) (f : Failure) (m : Machine) : after (telling line f) m.lenient =
    ((after (telling line f) m).1, (after (telling line f) m).2.lenient) := by
  have active : m.lenient.activeJournal = m.activeJournal := rfl
  simp only [afterTelling, active, announceLenient]

theorem tellingHistory (line : Nat) (f : Failure) (m : Machine) :
    (after (telling line f) m).2.strict = m.strict ∧ ∃ place,
      (after (telling line f) m).2.history = m.history ++ [.said (.report place (failureText f))] := by
  rw [afterTelling]
  obtain ⟨strict, history⟩ := announceHistory (.report (some (m.activeJournal.line.getD line)) (failureText f)) m
  exact ⟨strict, _, history⟩

theorem tellingInternal (line : Nat) (f : Failure) (m : Machine) : Internal (after (telling line f) m).1 := by
  rw [afterTelling]
  have announced := announceInternal (.report (some (m.activeJournal.line.getD line)) (failureText f)) m
  generalize (after (announce _) m).1 = outcome at announced ⊢
  cases outcome with
  | ok value => exact internalOk _
  | error g => exact internalError (announced g rfl)

theorem guardedConservative {inside : Bool} (line : Nat) {act : EngineM Value} (inner : Conservative true act) :
    Conservative inside (guarded line act) := by
  have onward (f : Failure) (m : Machine) : Onward m (after (telling line f) m).2 := by
    obtain ⟨strict, _, history⟩ := tellingHistory line f m
    exact ⟨strict, _, history.symm⟩
  have caught : Conservative inside (tryCatch act (telling line)) := by
    refine ⟨fun m => ?_, fun m strict => ?_, fun m lenient => ?_⟩
    · have one := inner.onward m
      rw [afterTryCatch]
      generalize after act m = ran at one ⊢
      obtain ⟨outcome, n⟩ := ran
      cases outcome with
      | ok value => exact one
      | error f => exact one.trans (onward f n)
    · have one := inner.same m strict
      have reached := inner.onward m
      rw [afterTryCatch, afterTryCatch]
      generalize after act m = ran at one reached ⊢
      obtain ⟨outcome, n⟩ := ran
      rcases one with same | told | ⟨_, text, refused⟩
      · rw [same]
        cases outcome with
        | ok value => exact .inl rfl
        | error f => exact .inl (tellingLenient line f n)
      · cases outcome with
        | ok value => exact .inr (.inl told)
        | error f => exact .inr (.inl (told.later (onward f n)))
      · cases refused
        obtain ⟨_, _, history⟩ := tellingHistory line (.unresolvedName text) n
        have told : Told n (after (telling line (.unresolvedName text)) n).2 :=
          ⟨_, history, _, List.mem_singleton_self _, text, rfl⟩
        exact .inr (.inl (told.earlier reached))
    · obtain ⟨one, internal⟩ := inner.clean m lenient
      rw [afterTryCatch]
      generalize after act m = ran at one internal ⊢
      obtain ⟨outcome, n⟩ := ran
      cases outcome with
      | ok value => exact ⟨one, fun _ => internalOk value⟩
      | error f =>
        obtain ⟨_, place, history⟩ := tellingHistory line f n
        have other := internalTold (internal rfl f rfl) place
        exact ⟨one.trans (cleanOne history other), fun _ => tellingInternal line f n⟩
  exact (setLineConservative line).bind (fun _ => caught)

theorem runElseConservative (body : Block Stmt)
    (list : Conservative true (runList around ref .nil body.statements))
    (each : ∀ s ∈ body.statements, Conservative true (runStmt around ref s)) :
    Conservative true (runElse around ref body) := by
  rcases runElseCases around ref body with ⟨s, alone, same⟩ | same
  · rw [same]
    exact each s (by simp [alone])
  · rw [same]
    exact list

include nested in
theorem runConservative :
    (∀ s, Conservative true (runStmt around ref s)) ∧
      ∀ statements inside value, Conservative inside (runList around ref value statements) := by
  apply Stmt.induction
  case block =>
    intro line statements inner
    simpa only [runStmt, runBlockStatements] using inner true .nil
  case assign =>
    intro line name value
    unfold runStmt
    refine (evaluateConservative value).bind (fun v => Conservative.bind ?_ (fun _ => ?_))
    · refine conservativeModify (fun m => (m.assignKeeps ref name v).1) (fun m => (m.assignKeeps ref name v).2.1) ?_
      exact fun m => cleanQuiet (m.assignKeeps ref name v).2.2
    · refine (conservativeLift (fun _ => v.inspectInternal)).bind (fun _ => ?_)
      exact (traceConservative _).bind (fun _ => conservativePure v)
  case print =>
    intro line value
    unfold runStmt
    refine (evaluateConservative value).bind (fun v => ?_)
    refine (conservativeLift (fun _ => Value.renderInternal v)).bind (fun text => ?_)
    exact (emitConservative _).bind (fun _ => conservativePure _)
  case branch =>
    intro line condition thenBody otherwise thenList otherwiseList
    unfold runStmt
    refine (setLineConservative line).bind (fun _ => ?_)
    refine (evaluateConditionConservative condition).bind (fun holds => (traceConservative _).bind (fun _ => ?_))
    split
    · simpa only [runBlockStatements] using thenList true .nil
    · cases otherwise with
      | none => simpa only [runOtherwise] using conservativePure _
      | some body =>
        obtain ⟨list, each⟩ := otherwiseList body rfl
        simpa only [runOtherwise] using runElseConservative body (list true .nil) each
  case call =>
    intro line path arguments
    simpa only [runStmt] using runCallConservative nested line path arguments
  case unknown =>
    intro line text why
    unfold runStmt
    refine (announceConservative ?_).bind (fun _ => conservativePure _)
    rintro ⟨name, same⟩
    cases why <;> exact messageApart (by decide) (by decide) _ name same
  case nil => exact fun inside value => by simpa only [runList] using conservativePure value
  case cons =>
    intro s rest first others inside value
    unfold runList
    exact (guardedConservative s.line first).bind (fun value => others inside value)

include nested in
theorem runProgramConservative (p : Program) : Conservative false (runProgram around ref p) := by
  have syntaxes : ∀ notice ∈ p.diagnostics.map syntaxNotice, ¬ (Event.said notice).Unresolved := by
    intro notice member
    obtain ⟨d, _, rfl⟩ := List.mem_map.mp member
    rintro ⟨text, same⟩
    exact messageApart (by decide) (by decide) d.message text same
  exact (announceAllConservative syntaxes).bind (fun _ => (runConservative nested).2 p.statements false .nil)

end Statements

section Runs
variable {around : Surroundings}

def runAct (act : Machine → RunResult × Machine) : EngineM RunResult := fun m => (.ok (act m).1, (act m).2)

def finish (outcome : Except Failure Value) (m : Machine) : RunResult × Machine :=
  let (result, n) := resultOf outcome m
  (result, { n with frames := n.frames.drop 1 }.log (.ended result))

theorem finishLenient (outcome : Except Failure Value) (m : Machine) :
    finish outcome m.lenient = ((finish outcome m).1, (finish outcome m).2.lenient) := by
  cases outcome with
  | ok value => rfl
  | error f =>
    have active : m.lenient.activeJournal = m.activeJournal := rfl
    have said : m.lenient.append (.fatal ("InternalError: " ++ f.message)) =
        (m.append (.fatal ("InternalError: " ++ f.message))).lenient := m.setActiveLenient _
    simp only [finish, resultOf, said]
    rfl

theorem finishHistory (outcome : Except Failure Value) (m : Machine) :
    (finish outcome m).2.strict = m.strict ∧
      (finish outcome m).2.history = m.history ++ [.ended (finish outcome m).1] := by
  obtain ⟨_, _, same⟩ := resultKeeps outcome m
  simp only [finish, Machine.log, same, and_self]

theorem openedLenient (m : Machine) (place : Place) :
    opened m.lenient place = ((opened m place).1.lenient, (opened m place).2) := by
  cases place <;> rfl

theorem openedHistory (m : Machine) (place : Place) :
    (opened m place).1.strict = m.strict ∧ (opened m place).1.history = m.history ++ [.started place] := by
  cases place <;> exact ⟨rfl, rfl⟩

theorem executeConservative (nested : ∀ place source, Conservative false (around.reenter place source))
    (place : Place) (p : Program) : Conservative false (runAct (execute around place p)) := by
  have program (ref : ContextRef) : Conservative false (runProgram around ref p) :=
    runProgramConservative nested p
  have ran (m : Machine) : after (runAct (execute around place p)) m =
      (.ok (finish (ranIn around place p m).1 (ranIn around place p m).2).1,
        (finish (ranIn around place p m).1 (ranIn around place p m).2).2) := rfl
  have start (m : Machine) : Onward m (opened m place).1 :=
    ⟨(openedHistory m place).1, _, (openedHistory m place).2.symm⟩
  have stop (outcome : Except Failure Value) (m : Machine) : Onward m (finish outcome m).2 :=
    ⟨(finishHistory outcome m).1, _, (finishHistory outcome m).2.symm⟩
  refine ⟨fun m => ?_, fun m strict => ?_, fun m lenient => ?_⟩
  · exact ((start m).trans ((program _).onward _)).trans (stop _ _)
  · rw [ran, ran]
    unfold ranIn
    rw [openedLenient]
    rcases (program (opened m place).2).same _ ((start m).strict.trans strict) with same | told | ⟨outside, _⟩
    · rw [same]
      exact .inl (by rw [finishLenient])
    · exact .inr (.inl ((told.earlier (start m)).later (stop _ _)))
    · cases outside
  · obtain ⟨clean, -⟩ := (program (opened m place).2).clean _ ((start m).strict.trans lenient)
    have opening : Clean m (opened m place).1 := cleanOne (openedHistory m place).2 (fun unresolved => unresolved)
    have ending := cleanOne (finishHistory (ranIn around place p m).1 (ranIn around place p m).2).2
      (fun unresolved => unresolved)
    exact ⟨(opening.trans clean).trans ending, fun outside => by cases outside⟩

theorem nestedConservative (host : Host) (depth : Nat) (place : Place) (p : Program) :
    Conservative false (runAct (executeNested host depth place p)) := by
  induction depth generalizing place p with
  | zero => exact executeConservative (fun _ _ => conservativeRaise _) place p
  | succ depth ih => exact executeConservative (fun place source => ih place (parse source.toList)) place p

end Runs
end Engine

/- A strict run and the run that is not do the same, to the same end, exactly if the strict one
reports no refused name, be it in a run inside. Of a single expression a strict scope finds what a
lenient one finds, or refuses; and it refuses exactly where something has to stand for its text. A lenient
scope fails only where the host fails to give a value of its own a text. -/
theorem strictIsConservative (host : Host) (m : Machine) (place : Place) (source : List Char) :
    let strictly := { m with strict := true }.run host place source
    ((∀ event ∈ strictly.2.history.drop m.history.length, ¬ event.Unresolved) ↔
        { m with strict := false }.run host place source =
          (strictly.1, { strictly.2 with strict := false })) ∧
      ∀ lookup, InRange lookup → ∀ e : Expr,
        (∃ value, e.eval ⟨lookup, false⟩ = .ok value ∧
          (e.eval ⟨lookup, true⟩ = .ok value ∨ ∃ text, e.eval ⟨lookup, true⟩ = .error (.unresolvedName text)) ∧
          ((∃ text, e.eval ⟨lookup, true⟩ = .error (.unresolvedName text)) ↔
            lookup e.text = none ∧ ∃ operand ∈ e.summands, operand.Unresolved lookup)) ∨
        ∃ fault, e.eval ⟨lookup, false⟩ = .error (.raised fault) ∧
          (∃ operand ∈ e.summands, operand.Mute lookup fault) ∧
          (e.eval ⟨lookup, true⟩ = .error (.raised fault) ∨
            ∃ text, e.eval ⟨lookup, true⟩ = .error (.unresolvedName text)) := by
  have conservative := Engine.nestedConservative host host.room place (parse source)
  have strict := conservative.same { m with strict := true } rfl
  have lenient := (conservative.clean { m with strict := false } rfl).1
  have ran (m : Machine) : Engine.after (Engine.runAct (Engine.executeNested host host.room place (parse source))) m =
      (.ok (m.run host place source).1, (m.run host place source).2) := rfl
  have apart : Machine.lenient { m with strict := true } = { m with strict := false } := rfl
  rw [ran, ran, apart] at strict
  rw [ran] at lenient
  intro strictly
  have named : strictly = { m with strict := true }.run host place source := rfl
  rw [← named] at strict
  clear_value strictly
  generalize ({ m with strict := false } : Machine).run host place source = leniently at strict lenient ⊢
  obtain ⟨result, n⟩ := strictly
  obtain ⟨result', n'⟩ := leniently
  refine ⟨⟨fun quiet => ?_, fun same => ?_⟩, fun lookup inRange e => ?_⟩
  · rcases strict with same | ⟨events, history, event, member, unresolved⟩ | ⟨outside, _⟩
    · cases same
      rfl
    · refine absurd unresolved (quiet event ?_)
      rw [history, List.drop_left]
      exact member
    · cases outside
  · cases same
    obtain ⟨events, history, others⟩ := lenient
    intro event member
    refine others event ?_
    have added : n.history = m.history ++ events := history
    rwa [added, List.drop_left] at member
  · have strictly := e.evalStrict lookup
    rcases e.evalLenient inRange with ⟨value, found⟩ | ⟨fault, failed, mute⟩
    · exact .inl ⟨value, found, strictly.imp_left (·.trans found), Expr.evalFails found⟩
    · exact .inr ⟨fault, failed, mute, strictly.imp_left (·.trans failed)⟩

theorem boundAndUnbound :
    let host : Host := .behaving fun _ _ _ => .pure .nil
    let m := { Machine.idle SymbolTable.empty with globals := [("n", .text "one")] }
    let lookup (name : String) : Option Value := if name = "n" then some (.integer 3) else none
    let sum : Expr := ⟨tokens "n + m".toList, "n + m", 1⟩
    ({ m with strict := false }.run host .fresh "print(n)".toList).1.output = ["one"] ∧
      InRange lookup ∧ ∃ text, sum.eval ⟨lookup, true⟩ = .error (.unresolvedName text) := by
  intro host m lookup sum
  have found : tokens "print(n)".toList = [⟨.word "print", ⟨0, 1, 1⟩⟩, ⟨.op .openParen, ⟨5, 1, 6⟩⟩,
      ⟨.word "n", ⟨6, 1, 7⟩⟩, ⟨.op .closeParen, ⟨7, 1, 8⟩⟩] := by decide +kernel
  have parsed : parse "print(n)".toList = ⟨[.print 1 ⟨[⟨.word "n", ⟨6, 1, 7⟩⟩], "n", 1⟩], []⟩ := by
    apply Parser.parseOfReading
    rw [found]
    exact .step rfl rfl (.line _ rfl rfl) (.finish _ _)
  have near : (Number.ofInt? 3).isSome = true := by decide +kernel
  have inRange : InRange lookup := by
    intro name n bound
    by_cases named : name = "n"
    · simp only [lookup, named, if_true, Option.some.injEq, Value.integer.injEq] at bound
      subst bound
      exact near
    · simp [lookup, named] at bound
  obtain ⟨runs, expressions⟩ := strictIsConservative host m .fresh "print(n)".toList
  have quiet : ∀ event ∈ ({ m with strict := true }.run host .fresh "print(n)".toList).2.history.drop
      m.history.length, ¬ event.Unresolved := by
    have all : ({ m with strict := true }.run host .fresh "print(n)".toList).2.history =
        [.started .fresh, .said (.plain (.printed "one")), .ended ⟨.success, .nil, none, [.printed "one"]⟩] := by
      rw [Machine.run, parsed]
      rfl
    rw [all]
    intro event member
    rcases List.mem_cons.mp (List.mem_of_mem_drop member) with rfl | later
    · exact fun unresolved => unresolved
    · rcases List.mem_cons.mp later with rfl | last
      · exact fun unresolved => unresolved
      · obtain rfl := List.mem_singleton.mp last
        exact fun unresolved => unresolved
  refine ⟨?_, inRange, ?_⟩
  · rw [runs.mp quiet, Machine.run, parsed]
    rfl
  · have succeeds : (sum.eval ⟨lookup, false⟩).isOk = true := by decide +kernel
    obtain ⟨_, _, _, refuses⟩ | ⟨fault, failed, _⟩ := expressions lookup inRange sum
    case inr =>
      rw [failed] at succeeds
      cases succeeds
    have lexed : tokens "n + m".toList = [⟨.word "n", ⟨0, 1, 1⟩⟩, ⟨.op .plus, ⟨2, 1, 3⟩⟩, ⟨.word "m", ⟨4, 1, 5⟩⟩] := by
      decide +kernel
    apply refuses.mpr
    refine ⟨rfl, ⟨[⟨.word "m", ⟨4, 1, 5⟩⟩], "m", 1⟩, ?_, ?_⟩
    · have apart : sum.summands = [⟨[⟨.word "n", ⟨0, 1, 1⟩⟩], "n", 1⟩, ⟨[⟨.word "m", ⟨4, 1, 5⟩⟩], "m", 1⟩] := by
        simp only [sum, lexed]
        rfl
      rw [apart]
      simp
    · exact ⟨by simp, rfl, rfl, by decide +kernel⟩

end LineScript
