import LineScript.Proofs.Engine.Act
import LineScript.Proofs.Engine.Unresolved

/-! Acts on a strict machine beside the same acts on the machine that is not strict. The two stay
together until a name is refused, which is then reported; no other report reads like that one, and
what has been reported stays in the history. One rule for each way of putting acts together. -/
namespace LineScript

def Event.Unresolved : Event → Prop
  | .said (.report _ message) => ∃ text, message = (Failure.unresolvedName text).message
  | _ => False

theorem appendApart {start other : String} (notBehind : ¬ other.toList <+: start.toList)
    (notBefore : ¬ start.toList <+: other.toList) (rest text : String) : start ++ rest ≠ other ++ text := by
  intro same
  have chars := congrArg String.toList same
  rw [String.toList_append, String.toList_append] at chars
  have front : start.toList <+: other.toList ++ text.toList := ⟨rest.toList, chars⟩
  rcases List.prefix_or_prefix_of_prefix front (List.prefix_append _ _) with before | behind
  · exact notBefore before
  · exact notBehind behind

theorem messageApart {start : String} (notBehind : ¬ "unresolved name: ".toList <+: start.toList)
    (notBefore : ¬ start.toList <+: "unresolved name: ".toList) (rest text : String) :
    start ++ rest ≠ (Failure.unresolvedName text).message :=
  appendApart notBehind notBefore rest text

namespace Machine

def lenient (m : Machine) : Machine := { m with strict := false }

theorem setActiveLenient (m : Machine) (journal : Journal) :
    m.lenient.setActiveJournal journal = (m.setActiveJournal journal).lenient := by
  cases found : m.frames with
  | nil => simp only [setActiveJournal, lenient, found]
  | cons top rest => cases top <;> simp only [setActiveJournal, lenient, found]

theorem sayLenient (m : Machine) (notice : Notice) : m.lenient.say notice = (m.say notice).lenient := by
  have active : m.lenient.activeJournal = m.activeJournal := rfl
  simp only [say, append, active, setActiveLenient]
  rfl

theorem setLineLenient (m : Machine) (line : Nat) : m.lenient.setLine line = (m.setLine line).lenient :=
  m.setActiveLenient _

theorem setLineStrict (m : Machine) (line : Nat) : (m.setLine line).strict = m.strict := by
  obtain ⟨_, _, same⟩ := m.setActiveKeeps { m.activeJournal with line := some line }
  rw [setLine, same]

theorem assignKeeps (m : Machine) (ref : ContextRef) (name : String) (value : Value) :
    m.lenient.assign ref name value = (m.assign ref name value).lenient ∧
      (m.assign ref name value).strict = m.strict ∧ (m.assign ref name value).history = m.history := by
  have there : m.lenient.context? ref = m.context? ref := by cases ref <;> rfl
  unfold assign
  rw [there]
  cases m.context? ref with
  | none => exact ⟨rfl, rfl, rfl⟩
  | some c => cases ref <;> exact ⟨rfl, rfl, rfl⟩

end Machine

namespace Engine

structure Onward (m n : Machine) : Prop where
  strict : n.strict = m.strict
  history : m.history <+: n.history

def Clean (m n : Machine) : Prop :=
  ∃ events, n.history = m.history ++ events ∧ ∀ event ∈ events, ¬ event.Unresolved

def Told (m n : Machine) : Prop :=
  ∃ events, n.history = m.history ++ events ∧ ∃ event ∈ events, event.Unresolved

theorem Onward.trans {a b c : Machine} (left : Onward a b) (right : Onward b c) : Onward a c :=
  ⟨right.strict.trans left.strict, left.history.trans right.history⟩

theorem cleanQuiet {m n : Machine} (history : n.history = m.history) : Clean m n :=
  ⟨[], by simp [history], by simp⟩

theorem cleanOne {m n : Machine} {event : Event} (history : n.history = m.history ++ [event])
    (other : ¬ event.Unresolved) : Clean m n := ⟨[event], history, by simpa using other⟩

theorem Clean.trans {a b c : Machine} (left : Clean a b) (right : Clean b c) : Clean a c := by
  obtain ⟨first, one, others⟩ := left
  obtain ⟨second, two, others'⟩ := right
  refine ⟨first ++ second, by rw [two, one, List.append_assoc], ?_⟩
  intro event member
  exact (List.mem_append.mp member).elim (others event) (others' event)

theorem Clean.grown {m n : Machine} (clean : Clean m n) : m.history <+: n.history :=
  let ⟨events, history, _⟩ := clean
  ⟨events, history.symm⟩

theorem Told.later {a b c : Machine} (told : Told a b) (onward : Onward b c) : Told a c := by
  obtain ⟨events, history, event, member, unresolved⟩ := told
  obtain ⟨more, history'⟩ := onward.history
  refine ⟨events ++ more, by rw [← history', history, List.append_assoc], event, ?_, unresolved⟩
  exact List.mem_append_left _ member

theorem Told.earlier {a b c : Machine} (told : Told b c) (onward : Onward a b) : Told a c := by
  obtain ⟨events, history, event, member, unresolved⟩ := told
  obtain ⟨more, history'⟩ := onward.history
  refine ⟨more ++ events, by rw [history, ← history', List.append_assoc], event, ?_, unresolved⟩
  exact List.mem_append_right _ member

/- The act does the same without strictness, unless it tells of a refused name. Inside of a statement
the refusal itself may be how it ends, and is told by what guards the statement; then the act has no
other failure that would be told so. -/
structure Conservative {α : Type} (inside : Bool) (act : EngineM α) : Prop where
  onward : ∀ m, Onward m (after act m).2
  same : ∀ m, m.strict = true →
    after act m.lenient = ((after act m).1, (after act m).2.lenient) ∨ Told m (after act m).2 ∨
      inside = true ∧ ∃ text, (after act m).1 = .error (.unresolvedName text)
  clean : ∀ m, m.strict = false →
    Clean m (after act m).2 ∧ (inside = true → Internal (after act m).1)

section Rules
variable {α β : Type} {inside : Bool}

theorem conservativeBlind {act : EngineM α}
    (same : ∀ m, after act m.lenient = ((after act m).1, (after act m).2.lenient))
    (strict : ∀ m, (after act m).2.strict = m.strict) (clean : ∀ m, Clean m (after act m).2)
    (internal : inside = true → ∀ m, Internal (after act m).1) : Conservative inside act where
  onward m := ⟨strict m, (clean m).grown⟩
  same m _ := .inl (same m)
  clean m _ := ⟨clean m, fun inner => internal inner m⟩

theorem conservativePure (value : α) : Conservative inside (pure value) :=
  conservativeBlind (fun _ => rfl) (fun _ => rfl) (fun _ => cleanQuiet rfl) (fun _ _ => internalOk value)

theorem conservativeLift {e : Except Failure α} (internal : inside = true → Internal e) :
    Conservative inside (liftM e : EngineM α) := by
  apply conservativeBlind
  · intro m
    rw [afterLift, afterLift]
  · intro m
    rw [afterLift]
  · intro m
    rw [afterLift]
    exact cleanQuiet rfl
  · intro inner m
    rw [afterLift]
    exact internal inner

theorem conservativeThrow {f : Failure} (internal : inside = true → f.isEngine = false) :
    Conservative inside (throw f : EngineM α) :=
  conservativeBlind (fun _ => rfl) (fun _ => rfl) (fun _ => cleanQuiet rfl)
    (fun inner _ => internalError (internal inner))

theorem conservativeRaise (f : Failure) : Conservative false (throw f : EngineM α) :=
  conservativeThrow (fun outside => by cases outside)

theorem conservativeModify {f : Machine → Machine} (same : ∀ m, f m.lenient = (f m).lenient)
    (strict : ∀ m, (f m).strict = m.strict) (clean : ∀ m, Clean m (f m)) :
    Conservative inside (modify f : EngineM PUnit) := by
  apply conservativeBlind
  · intro m
    rw [afterModify, afterModify, same]
  · exact strict
  · exact clean
  · exact fun _ _ => internalOk _

theorem conservativeRead {f : Machine → EngineM α} (blind : ∀ m, f m.lenient = f m)
    (each : ∀ m, Conservative inside (f m)) : Conservative inside (get >>= f) where
  onward m := (each m).onward m
  same m strict := by
    have one := (each m).same m strict
    simpa only [afterBind, afterGet, blind] using one
  clean m lenient := (each m).clean m lenient

theorem Conservative.bindOf {act : EngineM α} {next : α → EngineM β} {known : α → Prop}
    (first : Conservative inside act) (knows : ∀ m value, (after act m).1 = .ok value → known value)
    (rest : ∀ value, known value → Conservative inside (next value)) :
    Conservative inside (act >>= next) where
  onward m := by
    have one := first.onward m
    have knows := knows m
    rw [afterBind]
    generalize after act m = ran at one knows ⊢
    obtain ⟨outcome, n⟩ := ran
    cases outcome with
    | ok value => exact one.trans ((rest value (knows value rfl)).onward n)
    | error f => exact one
  same m strict := by
    have one := first.same m strict
    have onward := first.onward m
    have knows := knows m
    rw [afterBind, afterBind]
    generalize after act m = ran at one onward knows ⊢
    obtain ⟨outcome, n⟩ := ran
    cases outcome with
    | ok value =>
      have next := rest value (knows value rfl)
      rcases one with same | told | ⟨_, _, failed⟩
      · rw [same]
        rcases next.same n (onward.strict.trans strict) with same | told | refused
        · exact .inl same
        · exact .inr (.inl (told.earlier onward))
        · exact .inr (.inr refused)
      · exact .inr (.inl (told.later (next.onward n)))
      · cases failed
    | error f =>
      rcases one with same | told | ⟨inner, text, failed⟩
      · exact .inl (by rw [same])
      · exact .inr (.inl told)
      · exact .inr (.inr ⟨inner, text, by rw [Except.error.inj failed]⟩)
  clean m lenient := by
    obtain ⟨one, internal⟩ := first.clean m lenient
    have onward := first.onward m
    have knows := knows m
    rw [afterBind]
    generalize after act m = ran at one internal onward knows ⊢
    obtain ⟨outcome, n⟩ := ran
    cases outcome with
    | ok value =>
      obtain ⟨two, internal'⟩ := (rest value (knows value rfl)).clean n (onward.strict.trans lenient)
      exact ⟨one.trans two, internal'⟩
    | error f => exact ⟨one, fun inner => internalError (internal inner f rfl)⟩

theorem Conservative.bind {act : EngineM α} {next : α → EngineM β} (first : Conservative inside act)
    (rest : ∀ value, Conservative inside (next value)) : Conservative inside (act >>= next) := by
  have nothing : ∀ m value, (after act m).1 = .ok value → True := fun _ _ _ => trivial
  exact first.bindOf nothing (fun value _ => rest value)

theorem Conservative.caught {act : EngineM α} {handler : Failure → EngineM α}
    (first : Conservative false act) (rest : ∀ f, Conservative inside (handler f)) :
    Conservative inside (tryCatch act handler) where
  onward m := by
    have one := first.onward m
    rw [afterTryCatch]
    generalize after act m = ran at one ⊢
    obtain ⟨outcome, n⟩ := ran
    cases outcome with
    | ok value => exact one
    | error f => exact one.trans ((rest f).onward n)
  same m strict := by
    have one := first.same m strict
    have onward := first.onward m
    rw [afterTryCatch, afterTryCatch]
    generalize after act m = ran at one onward ⊢
    obtain ⟨outcome, n⟩ := ran
    rcases one with same | told | ⟨outside, _⟩
    · rw [same]
      cases outcome with
      | ok value => exact .inl rfl
      | error f =>
        rcases (rest f).same n (onward.strict.trans strict) with same | told | refused
        · exact .inl same
        · exact .inr (.inl (told.earlier onward))
        · exact .inr (.inr refused)
    · cases outcome with
      | ok value => exact .inr (.inl told)
      | error f => exact .inr (.inl (told.later ((rest f).onward n)))
    · cases outside
  clean m lenient := by
    have one := (first.clean m lenient).1
    have onward := first.onward m
    rw [afterTryCatch]
    generalize after act m = ran at one onward ⊢
    obtain ⟨outcome, n⟩ := ran
    cases outcome with
    | ok value => exact ⟨one, fun _ => internalOk value⟩
    | error f =>
      obtain ⟨two, internal⟩ := (rest f).clean n (onward.strict.trans lenient)
      exact ⟨one.trans two, internal⟩

end Rules

section Says
variable {inside : Bool}

theorem announceLenient (notice : Notice) (m : Machine) :
    after (announce notice) m.lenient =
      ((after (announce notice) m).1, (after (announce notice) m).2.lenient) := by
  have stream : m.lenient.stream = m.stream := rfl
  simp only [afterAnnounce, Machine.sayLenient, stream]
  split
  · rfl
  · split <;> rfl

theorem announceHistory (notice : Notice) (m : Machine) :
    (after (announce notice) m).2.strict = m.strict ∧
      (after (announce notice) m).2.history = m.history ++ [.said notice] := by
  obtain ⟨_, _, same⟩ := m.sayKeeps notice
  rw [afterAnnounce, same]
  split
  · exact ⟨rfl, rfl⟩
  · split <;> exact ⟨rfl, rfl⟩

theorem announceInternal (notice : Notice) (m : Machine) : Internal (after (announce notice) m).1 := by
  rw [afterAnnounce]
  split
  · exact internalOk _
  · split
    · exact internalOk _
    · exact internalError rfl

theorem announceConservative {notice : Notice} (other : ¬ (Event.said notice).Unresolved) :
    Conservative inside (announce notice) :=
  conservativeBlind (announceLenient notice) (fun m => (announceHistory notice m).1)
    (fun m => cleanOne (announceHistory notice m).2 other) (fun _ m => announceInternal notice m)

theorem emitConservative (effect : Effect) : Conservative inside (emit effect) := by
  have other : ¬ (Event.said (.plain effect)).Unresolved := fun unresolved => unresolved
  exact announceConservative other

theorem announceAllConservative {notices : List Notice}
    (others : ∀ notice ∈ notices, ¬ (Event.said notice).Unresolved) :
    Conservative inside (announceAll notices) := by
  induction notices with
  | nil => exact conservativePure ()
  | cons notice rest ih =>
    refine (announceConservative (others notice (by simp))).bind (fun _ => ih ?_)
    exact fun later member => others later (List.mem_cons_of_mem _ member)

theorem traceConservative (message : String) : Conservative inside (trace message) := by
  have either (m : Machine) : (if m.tracing then { m with trace := m.trace ++ ["[DBG] " ++ message] } else m) =
      { m with trace := if m.tracing then m.trace ++ ["[DBG] " ++ message] else m.trace } := by
    split <;> rfl
  refine conservativeModify (fun m => ?_) (fun m => ?_) (fun m => cleanQuiet ?_)
  · rw [either, either]
    rfl
  · rw [either]
  · rw [either]

theorem registerConservative (name : String) (target : Value) :
    Conservative false (register name target) := by
  refine conservativeRead (fun _ => rfl) (fun m => ?_)
  split
  · exact conservativeModify (fun _ => rfl) (fun _ => rfl) (fun _ => cleanQuiet rfl)
  · exact conservativeRaise _

theorem attemptConservative {act : EngineM Unit} (first : Conservative false act) :
    Conservative false (attempt act) :=
  (first.bind (fun _ => conservativePure none)).caught (fun f => conservativePure (some f))

theorem setLineConservative (line : Nat) : Conservative inside (modify (·.setLine line)) := by
  refine conservativeModify (fun m => m.setLineLenient line) (fun m => m.setLineStrict line) (fun m => ?_)
  exact cleanQuiet (m.setActiveHistory _)

theorem recordConservative (r : HostRecord) : Conservative inside (modify (·.record r)) :=
  conservativeModify (fun _ => rfl) (fun _ => rfl) (fun _ => cleanQuiet rfl)

end Says

end Engine
end LineScript
