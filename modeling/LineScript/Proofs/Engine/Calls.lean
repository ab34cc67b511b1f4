import LineScript.Proofs.Call.Marshal
import LineScript.Proofs.Engine.Attribution
import LineScript.Proofs.Engine.Conservative
import LineScript.Proofs.Engine.Deeds
import LineScript.Proofs.Symbol.Path

/-! A call from a script, from its path to its outcome: whether a function is called at all, with
which arguments, and what the outcome says of it. -/
namespace LineScript

namespace Activity

def calls : List Activity → List (String × List Value)
  | [] => []
  | .said _ :: rest => calls rest
  | .called name arguments :: rest => (name, arguments) :: calls rest
  | .run _ _ _ :: rest => calls rest

theorem joinedCalls (xs ys : List Activity) : calls (xs ++ ys) = calls xs ++ calls ys := by
  induction xs with
  | nil => rfl
  | cons a rest ih => cases a <;> simp [calls, ih]

theorem eventsInjective {xs ys : List Activity} (same : eventsOf xs = eventsOf ys) : xs = ys := by
  let ended : Event := .ended ⟨.success, .nil, none, []⟩
  have closed : eventsOf xs ++ [ended] = eventsOf ys ++ [ended] := by rw [same]
  exact (eventsDetermine xs closed).1

end Activity

def Made (calls : List (String × List Value)) (m n : Machine) : Prop :=
  ∃ inside, n.history = m.history ++ Activity.eventsOf inside ∧ Activity.calls inside = calls

namespace Made
variable {m n k : Machine} {first second : List (String × List Value)}

theorem join (left : Made first m n) (right : Made second n k) : Made (first ++ second) m k := by
  obtain ⟨before, grown, rfl⟩ := left
  obtain ⟨behind, grows, rfl⟩ := right
  refine ⟨before ++ behind, ?_, Activity.joinedCalls before behind⟩
  rw [grows, grown, Activity.eventsAppend, List.append_assoc]

theorem unique (one : Made first m n) (other : Made second m n) : first = second := by
  obtain ⟨inside, grown, rfl⟩ := one
  obtain ⟨again, same, rfl⟩ := other
  rw [grown] at same
  rw [Activity.eventsInjective (List.append_cancel_left same)]

theorem ofHistory (same : n.history = m.history) : Made [] m n := ⟨[], by simp [same, Activity.eventsOf], rfl⟩

theorem one (a : Activity) (grown : n.history = m.history ++ a.events) : Made (Activity.calls [a]) m n :=
  ⟨[a], by simp [grown, Activity.eventsOf], rfl⟩

end Made

def Machine.calling (m : Machine) (b : Builtin Value) (values arguments : List Value) : Machine :=
  let said := "dispatch " ++ b.name ++ " argc " ++ toString arguments.length ++ " warning " ++
    (b.arityWarning values.length).getD "None"
  (m.traced [said]).log (.called b.name arguments)

theorem Machine.callingHistory (m : Machine) (b : Builtin Value) (values arguments : List Value) :
    (m.calling b values arguments).history = m.history ++ [.called b.name arguments] :=
  congrArg (· ++ _) (m.tracedHistory _)

namespace Engine

theorem madeHosted (host : Host) (depth : Nat) : Hosted (nesting host depth) (Made []) where
  stay m := .ofHistory rfl
  join left right := left.join right
  atLine m line := .ofHistory (m.setActiveHistory _)
  said m notice := by
    have grown : (m.say notice).history = m.history ++ [.said notice] := by
      simp [Machine.say, Machine.log, Machine.append]
    exact .one (.said notice) grown
  streamed m stream text next _ _ := .ofHistory rfl
  traced m lines := .ofHistory rfl
  recorded m r := .ofHistory rfl
  registered m name target symbols _ := .ofHistory rfl
  seeded m name value := .ofHistory rfl
  reentered m place source := by
    cases depth with
    | zero => exact .ofHistory rfl
    | succ depth =>
      obtain ⟨_, inside, grew⟩ := nestedGrew host depth place (parse source.toList) m
      exact ⟨_, grew.history, rfl⟩

def answeredCall (warning : Option String) (value : Value) : CallOutcome :=
  ⟨if warning.isSome then .arityWarning else .ok, value, none, warning⟩

theorem answeredStatus (warning : Option String) (value : Value) :
    (answeredCall warning value).status = .ok ∨ (answeredCall warning value).status = .arityWarning := by
  cases warning with
  | none => exact .inl rfl
  | some text => exact .inr rfl

theorem failedStatus (name : String) (warning : Option String) (f : Failure) :
    (failedCall name warning f).status = if f.isTypeMismatch then .typeError else .error := by
  unfold failedCall
  split <;> rfl

theorem failedRest (name : String) (warning : Option String) (f : Failure) :
    (failedCall name warning f).value = .nil ∧ (failedCall name warning f).warning = warning := by
  unfold failedCall
  split <;> exact ⟨rfl, rfl⟩

section Dispatch
variable (around : Surroundings)

def ending (b : Builtin Value) (arguments : List Value) (m : Machine) : Except Thrown Value × Machine :=
  match after (invoke around b.routine arguments) m with
  | (.ok ended, n) => (ended, n)
  | (.error f, n) => (.error ⟨f, none⟩, n)

variable (m : Machine) (path : String) (values : List Value) (shown : String → Option Value)

/- What gets out of a call: a path that cannot be followed, a value that cannot be told, or what asking
the failure of a function for its text fails with. Only then has anything been done. -/
inductive Escapes : Failure → Machine → Prop where
  | path {f} (breaks : m.symbols.Breaks shown path f) : Escapes f m
  | value {b f} (resolved : m.symbols.resolve path shown = .ok b) (unsaid : b.Unsaid values f) : Escapes f m
  | text {b arguments f fault n} (resolved : m.symbols.resolve path shown = .ok b) (converts : b.Converts values arguments)
      (ends : ending around b arguments (m.calling b values arguments) = (.error ⟨f, some fault⟩, n)) :
      Escapes (.raised fault) n

inductive Dispatched : Except Failure CallOutcome → Machine → Prop where
  | notFound {fault} (unresolved : m.symbols.resolve path shown = .error (.path fault)) :
      Dispatched (.ok ⟨.notFound, .nil, some fault.message, none⟩) m
  | refused {b name kind found} (resolved : m.symbols.resolve path shown = .ok b)
      (refuses : b.Refuses values (.argument name kind found)) :
      Dispatched (.ok ⟨.typeError, .nil,
        some ("invalid argument for " ++ b.name ++ ": " ++ (Failure.argument name kind found).message), none⟩) m
  | answered {b arguments value n} (resolved : m.symbols.resolve path shown = .ok b)
      (converts : b.Converts values arguments)
      (answers : ending around b arguments (m.calling b values arguments) = (.ok value, n)) :
      Dispatched (.ok (answeredCall (b.arityWarning values.length) value)) n
  | failed {b arguments f n} (resolved : m.symbols.resolve path shown = .ok b)
      (converts : b.Converts values arguments)
      (fails : ending around b arguments (m.calling b values arguments) = (.error ⟨f, none⟩, n)) :
      Dispatched (.ok (failedCall b.name (b.arityWarning values.length) f)) n
  | escaped {f n} (escapes : Escapes around m path values shown f n) : Dispatched (.error f) n

variable {around} {m} {path} {values} {shown}

theorem afterDispatchTo {b : Builtin Value} {arguments : List Value} (converts : b.Converts values arguments) :
    after (dispatchTo around b values) m =
      let (ended, n) := ending around b arguments (m.calling b values arguments)
      (conclude b.name (b.arityWarning values.length) ended, n) := by
  have marshalled : b.marshal values = .ok ⟨arguments, b.arityWarning values.length⟩ :=
    Builtin.marshalConverts.mpr ⟨converts, rfl⟩
  simp only [dispatchTo, marshalled, afterBind, afterTrace, afterModify, afterTryCatch, afterPure, Machine.calling,
    ending]
  generalize after (invoke around b.routine arguments) _ = ran
  obtain ⟨outcome, n⟩ := ran
  cases outcome <;> simp only [afterLift]

theorem afterDispatchFound {b : Builtin Value} (resolved : m.symbols.resolve path shown = .ok b) :
    after (dispatch around path values shown) m = after (dispatchTo around b values) m := by
  simp only [dispatch, afterBind, afterGet, resolved]

theorem afterDispatchUnsaid {b : Builtin Value} {f : Failure} (unsaid : b.Unsaid values f) :
    after (dispatchTo around b values) m = (.error f, m) := by
  have marshalled : b.marshal values = .error f := Builtin.marshalRefuses.mpr unsaid.refuses
  simp only [dispatchTo, marshalled]
  rcases unsaid.internal with rfl | ⟨fault, rfl⟩ <;> rfl

theorem Escapes.after {f : Failure} {n : Machine} (escapes : Escapes around m path values shown f n) :
    after (dispatch around path values shown) m = (.error f, n) := by
  cases escapes with
  | path breaks =>
    simp only [dispatch, afterBind, afterGet, SymbolTable.breaksResolve breaks]
    cases breaks <;> rfl
  | value resolved unsaid => rw [afterDispatchFound resolved, afterDispatchUnsaid unsaid]
  | text resolved converts ends =>
    rw [afterDispatchFound resolved, afterDispatchTo converts, ends]
    rfl

theorem Escapes.cause {f : Failure} {n : Machine} (escapes : Escapes around m path values shown f n) :
    (f = .integerTooLarge ∧ ∃ v ∈ values, v.TooLarge) ∨ (∃ typeName, f = .unhashable typeName) ∨
      ∃ fault, f = .raised fault := by
  cases escapes with
  | path breaks =>
    cases breaks with
    | unread => exact .inr (.inr ⟨_, rfl⟩)
    | undescribed => exact .inr (.inl ⟨_, rfl⟩)
  | value resolved unsaid =>
    obtain ⟨i, v, spec, takes, unsaid, -⟩ := unsaid
    exact (Value.renderRefuses unsaid).imp (fun large => ⟨large.1, v, List.mem_of_getElem? takes.given, large.2⟩) .inr
  | text => exact .inr (.inr ⟨_, rfl⟩)

variable (around) (m) (path) (values) (shown) in
theorem dispatched : Dispatched around m path values shown (after (dispatch around path values shown) m).1
    (after (dispatch around path values shown) m).2 := by
  rcases m.symbols.resolveCases shown path with ⟨b, reaches⟩ | ⟨f, breaks⟩ | ⟨fault, missing⟩
  · have resolved := SymbolTable.reachesResolves reaches
    cases marshalled : b.marshal values with
    | error f =>
      have refuses := Builtin.marshalRefuses.mp marshalled
      rcases refuses.cases with ⟨name, kind, found, rfl⟩ | unsaid
      · rw [afterDispatchFound resolved]
        simp only [dispatchTo, marshalled]
        exact .refused resolved refuses
      · rw [(Escapes.value resolved unsaid).after]
        exact .escaped (.value resolved unsaid)
    | ok made =>
      obtain ⟨arguments, warning⟩ := made
      obtain ⟨converts, -⟩ := Builtin.marshalConverts.mp marshalled
      rw [afterDispatchFound resolved, afterDispatchTo converts]
      rcases ends : ending around b arguments (m.calling b values arguments) with ⟨ended, n⟩
      cases ended with
      | ok value => exact .answered resolved converts ends
      | error thrown =>
        obtain ⟨f, speechless⟩ := thrown
        cases speechless with
        | none => exact .failed resolved converts ends
        | some fault => exact .escaped (.text resolved converts ends)
  · rw [(Escapes.path breaks).after]
    exact .escaped (.path breaks)
  · simp only [dispatch, afterBind, afterGet, missing]
    exact .notFound missing

end Dispatch

/- A failure gets out of a call exactly if the path breaks off, a value cannot be told or the failure of
the function has no text. It is an integer that is too large to convert, a declaration that cannot be
looked up, or what code of the host fails with. -/
theorem dispatchEscapes (around : Surroundings) (m : Machine) (path : String) (values : List Value)
    (shown : String → Option Value) (f : Failure) (n : Machine) :
    (after (dispatch around path values shown) m = (.error f, n) ↔ Escapes around m path values shown f n) ∧
      (Escapes around m path values shown f n →
        (f = .integerTooLarge ∧ ∃ v ∈ values, v.TooLarge) ∨ (∃ typeName, f = .unhashable typeName) ∨
          ∃ fault, f = .raised fault) := by
  refine ⟨⟨fun raised => ?_, Escapes.after⟩, Escapes.cause⟩
  have went := dispatched around m path values shown
  rw [raised] at went
  cases went with
  | escaped escapes => exact escapes

theorem largeIntegerEscapes :
    let f : HostFunction Value := .plain 0 "f" ⟨"f", [⟨"x", .scalar .float, none⟩], none, [], 0⟩
    let m := Machine.idle ⟨[("f", .builtin (.ofRoutine "f" (.host f)))], false⟩
    let host : Host := .behaving fun _ _ _ => .pure .nil
    ∀ o n, after (dispatch (nesting host 0) "f" [.integer (10 ^ 309)] fun _ => none) m ≠ (.ok o, n) := by
  intro f m host o n ended
  let b : Builtin Value := .ofRoutine "f" (.host f)
  have resolved : m.symbols.resolve "f" (fun _ => none) = .ok b := rfl
  have unsaid : b.Unsaid [.integer (10 ^ 309)] .integerTooLarge := by
    have noText : (Value.integer (10 ^ 309)).render = .error .integerTooLarge :=
      Value.tooLargeUnsaid.mp ⟨_, rfl, by decide +kernel⟩
    exact ⟨0, _, _, ⟨rfl, rfl⟩, noText, nofun, nofun⟩
  have escapes : Escapes (nesting host 0) m "f" [.integer (10 ^ 309)] (fun _ => none) .integerTooLarge m :=
    .value resolved unsaid
  cases ended.symm.trans escapes.after

structure Called (around : Surroundings) (m : Machine) (b : Builtin Value) (values arguments : List Value)
    (o : CallOutcome) (n : Machine) : Prop where
  once : Made [(b.name, arguments)] m n
  reached : n = (ending around b arguments (m.calling b values arguments)).2
  answered : ∀ value, (ending around b arguments (m.calling b values arguments)).1 = .ok value →
    o.value = value ∧ (b.OutOfRange values.length → o.status = .arityWarning) ∧
      (¬b.OutOfRange values.length → o.status = .ok)
  failed : ∀ thrown, (ending around b arguments (m.calling b values arguments)).1 = .error thrown →
    o.status = if thrown.failure.isTypeMismatch then .typeError else .error
  unbound : ∀ fault, b.routine.signature.bind arguments = .error fault → o.status = .typeError

structure Classified (around : Surroundings) (m : Machine) (path : String) (values : List Value)
    (shown : String → Option Value) (o : CallOutcome) (n : Machine) : Prop where
  notFound : o.status = .notFound ↔ ∃ f, m.symbols.resolve path shown = .error f
  uncalled : o.status = .notFound → n = m
  refused : ∀ b, m.symbols.resolve path shown = .ok b → (o.status = .typeError ∧ Made [] m n ↔ b.Unfit values)
  called : ∀ b, m.symbols.resolve path shown = .ok b → ¬b.Unfit values →
    ∃ arguments, b.Converts values arguments ∧ Called around m b values arguments o n
  valued : o.value ≠ .nil → o.status = .ok ∨ o.status = .arityWarning
  warned : o.warning.isSome = true ↔
    ∃ b, m.symbols.resolve path shown = .ok b ∧ ¬b.Unfit values ∧ b.OutOfRange values.length

theorem invokeUnbound {around : Surroundings} {routine : Routine Value} {arguments : List Value} {fault : ArityFault}
    (unbound : routine.signature.bind arguments = .error fault) (m : Machine) :
    after (invoke around routine arguments) m = (.error (.arity fault), m) := by
  simp only [invoke, unbound, afterThrow]

section Outcomes
variable {host : Host} {depth : Nat} {m n : Machine} {path : String} {values arguments : List Value}
  {shown : String → Option Value} {b : Builtin Value}

theorem endingUnbound {around : Surroundings} {fault : ArityFault}
    (unbound : b.routine.signature.bind arguments = .error fault) (m : Machine) :
    ending around b arguments m = (.error ⟨.arity fault, none⟩, m) := by
  rw [ending, invokeUnbound unbound]

theorem calledOnce : Made [(b.name, arguments)] m
    (ending (nesting host depth) b arguments (m.calling b values arguments)).2 := by
  have started : Made [(b.name, arguments)] m (m.calling b values arguments) :=
    .one (.called b.name arguments) (m.callingHistory b values arguments)
  have within := invokeMoves (madeHosted host depth) b.routine arguments (m.calling b values arguments)
  unfold ending
  generalize after (invoke (nesting host depth) b.routine arguments) _ = ran at within ⊢
  obtain ⟨outcome, n⟩ := ran
  cases outcome <;> exact started.join within

theorem answeredCalled {value : Value}
    (answers : ending (nesting host depth) b arguments (m.calling b values arguments) = (.ok value, n)) :
    Called (nesting host depth) m b values arguments (answeredCall (b.arityWarning values.length) value) n where
  once := by
    have once := @calledOnce host depth m values arguments b
    rwa [answers] at once
  reached := by rw [answers]
  answered other same := by
    rw [answers] at same
    cases same
    refine ⟨rfl, fun out => ?_, fun fits => ?_⟩
    · exact if_pos ((Builtin.arityWarned _).mpr out)
    · exact if_neg (fun warned => fits ((Builtin.arityWarned _).mp warned))
  failed f raised := by
    rw [answers] at raised
    cases raised
  unbound fault unbound := by
    rw [endingUnbound unbound] at answers
    cases answers

theorem failedCalled {f : Failure}
    (fails : ending (nesting host depth) b arguments (m.calling b values arguments) = (.error ⟨f, none⟩, n)) :
    Called (nesting host depth) m b values arguments (failedCall b.name (b.arityWarning values.length) f) n where
  once := by
    have once := @calledOnce host depth m values arguments b
    rwa [fails] at once
  reached := by rw [fails]
  answered value same := by
    rw [fails] at same
    cases same
  failed thrown raised := by
    rw [fails] at raised
    cases raised
    exact failedStatus _ _ _
  unbound fault unbound := by
    rw [endingUnbound unbound] at fails
    cases fails
    exact failedStatus _ _ (.arity fault)

variable {around : Surroundings} {o : CallOutcome}

theorem calledClassified (resolved : m.symbols.resolve path shown = .ok b) (converts : b.Converts values arguments)
    (called : Called around m b values arguments o n) (found : o.status ≠ .notFound)
    (warning : o.warning = b.arityWarning values.length)
    (valued : o.value ≠ .nil → o.status = .ok ∨ o.status = .arityWarning) :
    Classified around m path values shown o n where
  notFound := by
    refine ⟨fun missing => absurd missing found, ?_⟩
    rintro ⟨fault, unresolved⟩
    cases resolved.symm.trans unresolved
  uncalled missing := absurd missing found
  refused c again := by
    cases resolved.symm.trans again
    refine ⟨?_, fun unfit => absurd unfit converts.fit⟩
    -- The function may refuse its arguments too; but then it has been called.
    rintro ⟨_, none⟩
    cases called.once.unique none
  called c again _ := by
    cases resolved.symm.trans again
    exact ⟨arguments, converts, called⟩
  valued := valued
  warned := by
    rw [warning, Builtin.arityWarned]
    refine ⟨fun out => ⟨b, resolved, converts.fit, out⟩, ?_⟩
    rintro ⟨c, again, _, out⟩
    cases resolved.symm.trans again
    exact out

theorem refusedClassified {f : Failure} (resolved : m.symbols.resolve path shown = .ok b)
    (refuses : b.Refuses values f) (message : Option String) :
    Classified around m path values shown ⟨.typeError, .nil, message, none⟩ m where
  notFound := by
    refine ⟨nofun, ?_⟩
    rintro ⟨fault, unresolved⟩
    cases resolved.symm.trans unresolved
  uncalled := nofun
  refused c again := by
    cases resolved.symm.trans again
    exact ⟨fun _ => refuses.unfit, fun _ => ⟨rfl, .ofHistory rfl⟩⟩
  called c again fit := by
    cases resolved.symm.trans again
    exact absurd refuses.unfit fit
  valued given := absurd rfl given
  warned := by
    refine ⟨nofun, ?_⟩
    rintro ⟨c, again, fit, _⟩
    cases resolved.symm.trans again
    exact absurd refuses.unfit fit

theorem notFoundClassified {f : Failure} (unresolved : m.symbols.resolve path shown = .error f)
    (message : Option String) : Classified around m path values shown ⟨.notFound, .nil, message, none⟩ m where
  notFound := ⟨fun _ => ⟨f, unresolved⟩, fun _ => rfl⟩
  uncalled _ := rfl
  refused b resolved := by cases unresolved.symm.trans resolved
  called b resolved := by cases unresolved.symm.trans resolved
  valued given := absurd rfl given
  warned := by
    refine ⟨nofun, ?_⟩
    rintro ⟨b, resolved, _⟩
    cases unresolved.symm.trans resolved

end Outcomes

/- The outcome of a call tells a path that names nothing, a value that does not fit, a call that fails
and a call that is answered apart. There is one, unless a failure of the host's own gets out. -/
theorem callsClassified (host : Host) (depth : Nat) (m : Machine) (path : String) (values : List Value)
    (shown : String → Option Value) (inRange : ∀ v ∈ values, ¬v.TooLarge) :
    (∃ o n, after (dispatch (nesting host depth) path values shown) m = (.ok o, n) ∧
      Classified (nesting host depth) m path values shown o n) ∨
    ∃ f n, after (dispatch (nesting host depth) path values shown) m = (.error f, n) ∧
      Escapes (nesting host depth) m path values shown f n ∧
      ((∃ typeName, f = .unhashable typeName) ∨ ∃ fault, f = .raised fault) := by
  have went := dispatched (nesting host depth) m path values shown
  rcases ended : after (dispatch (nesting host depth) path values shown) m with ⟨outcome, n⟩
  rw [ended] at went
  cases went with
  | notFound unresolved => exact .inl ⟨_, _, rfl, notFoundClassified unresolved _⟩
  | refused resolved refuses => exact .inl ⟨_, _, rfl, refusedClassified resolved refuses _⟩
  | @answered b arguments value n resolved converts answers =>
    have status := answeredStatus (b.arityWarning values.length) value
    refine .inl ⟨_, _, rfl, calledClassified resolved converts (answeredCalled answers) ?_ rfl (fun _ => status)⟩
    intro missing
    rw [missing] at status
    rcases status with other | other <;> cases other
  | @failed b arguments f n resolved converts fails =>
    obtain ⟨nothing, warned⟩ := failedRest b.name (b.arityWarning values.length) f
    refine .inl ⟨_, _, rfl, calledClassified resolved converts (failedCalled fails) ?_ warned (absurd nothing)⟩
    rw [failedStatus]
    split <;> exact nofun
  | escaped escapes =>
    refine .inr ⟨_, _, rfl, escapes, ?_⟩
    rcases escapes.cause with ⟨-, v, given, large⟩ | own
    · exact absurd large (inRange v given)
    · exact own

theorem surplusAnswered :
    let host : Host := .behaving fun _ _ _ => .pure .nil
    let m := Machine.idle .standard
    ∃ o n, after (dispatch (nesting host 0) "len" [.text "ab", .nil] fun _ => none) m = (.ok o, n) ∧
      o.status = .arityWarning ∧ o.value = .number (.ofNat 2) ∧ Made [("len", [.text "ab"])] m n := by
  intro host m
  have inRange : ∀ v ∈ [Value.text "ab", .nil], ¬v.TooLarge := by
    intro v member
    rintro ⟨n, rfl, _⟩
    simp at member
  let b : Builtin Value := .ofRoutine "len" (.standard .length)
  have resolved : m.symbols.resolve "len" (fun _ => none) = .ok b := rfl
  have marshalled : b.marshal [.text "ab", .nil] = .ok ⟨[.text "ab"], b.arityWarning 2⟩ := rfl
  have converts := (Builtin.marshalConverts.mp marshalled).1
  have made := @afterDispatchTo (nesting host 0) m _ _ _ converts
  rcases callsClassified host 0 m "len" [.text "ab", .nil] (fun _ => none) inRange with
    ⟨o, n, ended, classified⟩ | ⟨f, n, escaped, -⟩
  · obtain ⟨arguments, again, called⟩ := classified.called b resolved converts.fit
    obtain rfl := converts.unique again
    obtain ⟨value, warned, -⟩ := called.answered (.number (.ofNat 2)) rfl
    exact ⟨o, n, ended, warned (.inr ⟨1, rfl, by decide⟩), value, called.once⟩
  · rw [afterDispatchFound resolved, made] at escaped
    cases escaped

theorem unreadObjectUnanswered :
    let host : Host := .behaving fun _ _ _ => .pure .nil
    let m := Machine.idle .empty
    ∀ o n, after (dispatch (nesting host 0) "car.takeDamage" [] fun _ => some (.object unreadCar)) m ≠ (.ok o, n) := by
  intro host m o n ended
  obtain ⟨fault, breaks⟩ := unreadCarBreaks
  have escapes : Escapes (nesting host 0) m "car.takeDamage" [] (fun _ => some (.object unreadCar)) (.raised fault) m :=
    .path breaks
  cases ended.symm.trans escapes.after

end Engine
end LineScript
