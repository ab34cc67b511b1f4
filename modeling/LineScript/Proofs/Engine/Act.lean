import LineScript.Proofs.Engine.Journal

/-! Acts of the engine as functions of the machine. An act that fails keeps the machine it has
reached, so every rule speaks of the outcome and of the machine together. -/
namespace LineScript

theorem CallOutcome.noticesHidden (o : CallOutcome) (line : Nat) (path : String) :
    ∀ notice ∈ o.notices line path, notice.effect.topics = ["diagnostic"] := by
  have reports (message : String) : (Notice.report (some line) message).effect.topics = ["diagnostic"] := rfl
  unfold notices
  intro notice member
  rcases List.mem_append.mp member with warned | failed
  · cases warning : o.warning with
    | none => simp [warning] at warned
    | some text => simp_all
  · split at failed
    · simp_all
    · split at failed <;> simp_all

namespace Machine

def traced (m : Machine) (messages : List String) : Machine :=
  if m.tracing then { m with trace := m.trace ++ messages.map ("[DBG] " ++ ·) } else m

section Traced
variable (m : Machine)

theorem tracedKeeps (messages : List String) : ∃ lines, m.traced messages = { m with trace := lines } := by
  unfold traced
  split
  · exact ⟨_, rfl⟩
  · exact ⟨m.trace, rfl⟩

@[simp] theorem tracedNil : m.traced [] = m := by simp [traced]

theorem tracedAppend (xs ys : List String) : (m.traced xs).traced ys = m.traced (xs ++ ys) := by
  unfold traced
  split <;> simp

@[simp] theorem tracedActive (messages : List String) : (m.traced messages).activeJournal = m.activeJournal := by
  obtain ⟨_, same⟩ := m.tracedKeeps messages
  rw [same]
  rfl

theorem tracedHistory (messages : List String) : (m.traced messages).history = m.history := by
  obtain ⟨_, same⟩ := m.tracedKeeps messages
  rw [same]

theorem tracedScope (messages : List String) (ref : ContextRef) : (m.traced messages).scope ref = m.scope ref := by
  obtain ⟨_, same⟩ := m.tracedKeeps messages
  rw [same]
  cases ref <;> rfl

end Traced
end Machine

namespace Engine

def after {α : Type} (act : EngineM α) (m : Machine) : Except Failure α × Machine := act m

section Rules
variable {α β : Type} (m : Machine)

@[simp] theorem afterPure (value : α) : after (pure value) m = (.ok value, m) := rfl

@[simp] theorem afterThrow (f : Failure) : after (throw f : EngineM α) m = (.error f, m) := rfl

@[simp] theorem afterGet : after get m = (.ok m, m) := rfl

@[simp] theorem afterModify (f : Machine → Machine) : after (modify f) m = (.ok (), f m) := rfl

@[simp] theorem afterLift (e : Except Failure α) : after (liftM e : EngineM α) m = (e, m) := by
  cases e <;> rfl

theorem afterBind (act : EngineM α) (next : α → EngineM β) :
    after (act >>= next) m = match after act m with
      | (.ok value, n) => after (next value) n
      | (.error f, n) => (.error f, n) := by
  have unfolded : after (act >>= next) m = ExceptT.bindCont next (after act m).1 (after act m).2 := rfl
  rw [unfolded]
  rcases after act m with ⟨outcome, n⟩
  cases outcome <;> rfl

theorem afterTryCatch (act : EngineM α) (handler : Failure → EngineM α) :
    after (tryCatch act handler) m = match after act m with
      | (.ok value, n) => (.ok value, n)
      | (.error f, n) => after (handler f) n := by
  simp only [after, tryCatch, tryCatchThe, MonadExceptOf.tryCatch, ExceptT.tryCatch, ExceptT.mk, bind,
    StateT.bind]
  rcases act m with ⟨outcome, n⟩
  cases outcome <;> rfl

end Rules

theorem afterAnnounce (notice : Notice) (m : Machine) :
    after (announce notice) m = match m.stream with
      | none => (.ok (), m.say notice)
      | some stream =>
        match stream.writeLine? notice.effect.message with
        | some next => (.ok (), { m.say notice with stream := some next })
        | none => (.error (.raised stream.refusal), m.say notice) := by
  simp only [announce, afterBind, afterModify, afterGet, Machine.sayStream]
  cases m.stream with
  | none => rfl
  | some stream =>
    cases wrote : stream.writeLine? notice.effect.message with
    | none => simp only [wrote, afterThrow]
    | some next => simp only [wrote, afterModify]

theorem afterTrace (message : String) (m : Machine) : after (trace message) m = (.ok (), m.traced [message]) := rfl

def rescue (line : Nat) (f : Failure) : EngineM Value := do
  report (failureText f) (some ((← get).activeJournal.line.getD line))
  return .nil

theorem afterGuarded (line : Nat) (act : EngineM Value) (m : Machine) :
    after (guarded line act) m = after (tryCatch act (rescue line)) (m.setLine line) := rfl

def opened (m : Machine) (place : Place) : Machine × ContextRef :=
  enter ({ m with symbols := m.symbols.freeze }.log (.started place)) place

def ranIn (around : Surroundings) (place : Place) (p : Program) (m : Machine) :
    Except Failure Value × Machine :=
  after (runProgram around (opened m place).2 p) (opened m place).1

theorem executeOpened (around : Surroundings) (place : Place) (p : Program) (m : Machine) :
    execute around place p m =
      let (result, n) := resultOf (ranIn around place p m).1 (ranIn around place p m).2
      (result, { n with frames := n.frames.drop 1 }.log (.ended result)) := rfl

theorem resultKeeps (outcome : Except Failure Value) (m : Machine) :
    ∃ main frames, (resultOf outcome m).2 = { m with journal := main, frames := frames } := by
  cases outcome with
  | ok value => exact ⟨m.journal, m.frames, rfl⟩
  | error f => exact m.setActiveKeeps _

theorem runListAppend (around : Surroundings) (ref : ContextRef) (value : Value) (xs ys : List Stmt) :
    runList around ref value (xs ++ ys) =
      runList around ref value xs >>= fun value => runList around ref value ys := by
  induction xs generalizing value with
  | nil => simp only [List.nil_append, runList, pure_bind]
  | cons s rest ih => simp only [List.cons_append, runList, ih, bind_assoc]

theorem runBlockStatements (around : Surroundings) (ref : ContextRef) (body : Block Stmt) :
    runBlock around ref body = runList around ref .nil body.statements := by
  obtain ⟨line, statements⟩ := body
  simp only [runBlock]

theorem runElseCases (around : Surroundings) (ref : ContextRef) (body : Block Stmt) :
    (∃ s, body.statements = [s] ∧ runElse around ref body = runStmt around ref s) ∨
      runElse around ref body = runList around ref .nil body.statements := by
  obtain ⟨line, statements⟩ := body
  match statements with
  | [] => exact .inr (by simp only [runElse])
  | [s] =>
    by_cases link : isBranch s = true
    · exact .inl ⟨s, rfl, by simp only [runElse, if_pos link]⟩
    · exact .inr (by simp only [runElse, runList, if_neg link, bind_pure])
  | s :: t :: rest => exact .inr (by simp only [runElse])

end Engine
end LineScript
