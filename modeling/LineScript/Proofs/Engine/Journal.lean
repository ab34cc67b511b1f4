import LineScript.Engine.Session

/-! The active journal: that of the innermost run, which is the main one unless the run has its own.
Writing to it changes no other journal and no other part of the machine. -/
namespace LineScript

def noticesOf (events : List Event) : List Notice :=
  events.filterMap fun
    | .said notice => some notice
    | _ => none

def callsOf (events : List Event) : List (String × List Value) :=
  events.filterMap fun
    | .called name arguments => some (name, arguments)
    | _ => none

theorem noticesAppend (xs ys : List Event) : noticesOf (xs ++ ys) = noticesOf xs ++ noticesOf ys :=
  List.filterMap_append

theorem callsAppend (xs ys : List Event) : callsOf (xs ++ ys) = callsOf xs ++ callsOf ys :=
  List.filterMap_append

def effectsOf (events : List Event) : List Effect := (noticesOf events).map Notice.effect

inductive SameFrames : List Frame → List Frame → Prop where
  | same (frames) : SameFrames frames frames
  | top (before after rest) : SameFrames (.own before :: rest) (.own after :: rest)

theorem SameFrames.trans {a b c : List Frame} (left : SameFrames a b) (right : SameFrames b c) :
    SameFrames a c := by
  cases left with
  | same => exact right
  | top before after rest =>
    cases right with
    | same => exact .top before after rest
    | top _ last _ => exact .top before last rest

theorem SameFrames.drop {a b : List Frame} (frames : SameFrames a b) : b.drop 1 = a.drop 1 := by
  cases frames <;> rfl

namespace Machine

def onMain (m : Machine) : Bool :=
  match m.frames with
  | .own _ :: _ => false
  | _ => true

theorem journalCases (m : Machine) :
    (∃ own rest, m.frames = .own own :: rest ∧ m.onMain = false ∧ m.activeJournal = own ∧
      ∀ journal, m.setActiveJournal journal = { m with frames := .own journal :: rest }) ∨
    (m.onMain = true ∧ m.activeJournal = m.journal ∧
      ∀ journal, m.setActiveJournal journal = { m with journal := journal }) := by
  cases h : m.frames with
  | nil => exact .inr (by simp [onMain, activeJournal, setActiveJournal, h])
  | cons top rest =>
    cases top with
    | session => exact .inr (by simp [onMain, activeJournal, setActiveJournal, h])
    | own own => exact .inl ⟨own, rest, by simp [onMain, activeJournal, setActiveJournal, h]⟩

theorem onMainOfSameFrames {m n : Machine} (frames : SameFrames m.frames n.frames) :
    n.onMain = m.onMain := by
  unfold onMain
  generalize m.frames = before at frames
  generalize n.frames = after at frames
  cases frames <;> rfl

theorem activeOnMain {m : Machine} (main : m.onMain = true) : m.activeJournal = m.journal := by
  rcases journalCases m with ⟨_, _, _, own, _⟩ | ⟨_, active, _⟩
  · simp [own] at main
  · exact active

theorem activeOfFrames {m n : Machine} (own : m.onMain = false) (frames : n.frames = m.frames) :
    n.activeJournal = m.activeJournal := by
  rcases journalCases m with ⟨journal, rest, found, _, active, _⟩ | ⟨main, _⟩
  · rw [active, activeJournal, frames, found]
  · simp [own] at main

section Set
variable (m : Machine) (journal : Journal)

theorem setActiveFrames : SameFrames m.frames (m.setActiveJournal journal).frames := by
  rcases journalCases m with ⟨own, rest, found, _, _, set⟩ | ⟨_, _, set⟩
  · rw [set, found]
    exact .top own journal rest
  · rw [set]
    exact .same _

@[simp] theorem setActiveActive : (m.setActiveJournal journal).activeJournal = journal := by
  rcases journalCases m with ⟨own, rest, _, _, _, set⟩ | ⟨main, _, set⟩
  · rw [set, activeJournal]
  · rw [set]
    exact activeOnMain (m := { m with journal := journal }) main

theorem setActiveJournalOwn (own : m.onMain = false) :
    (m.setActiveJournal journal).journal = m.journal := by
  rcases journalCases m with ⟨_, _, _, _, _, set⟩ | ⟨main, _⟩
  · rw [set]
  · simp [own] at main

@[simp] theorem setActiveHistory : (m.setActiveJournal journal).history = m.history := by
  unfold setActiveJournal
  split <;> rfl

theorem setActiveKeeps : ∃ main frames,
    m.setActiveJournal journal = { m with journal := main, frames := frames } := by
  rcases journalCases m with ⟨_, rest, _, _, _, set⟩ | ⟨_, _, set⟩
  · exact ⟨_, _, set journal⟩
  · exact ⟨_, _, set journal⟩

end Set

theorem appendKeeps (m : Machine) (effect : Effect) : ∃ main frames,
    m.append effect = { m with journal := main, frames := frames } :=
  m.setActiveKeeps _

theorem sayKeeps (m : Machine) (notice : Notice) : ∃ main frames,
    m.say notice =
      { m with journal := main, frames := frames, history := m.history ++ [.said notice] } := by
  obtain ⟨main, frames, same⟩ := m.appendKeeps notice.effect
  refine ⟨main, frames, ?_⟩
  simp only [say, log, same]

@[simp] theorem sayStream (m : Machine) (notice : Notice) : (m.say notice).stream = m.stream := by
  obtain ⟨_, _, same⟩ := m.sayKeeps notice
  rw [same]

@[simp] theorem sayActive (m : Machine) (notice : Notice) :
    (m.say notice).activeJournal =
      ⟨m.activeJournal.effects ++ [notice.effect], m.activeJournal.line⟩ :=
  m.setActiveActive _

@[simp] theorem setLineActive (m : Machine) (line : Nat) :
    (m.setLine line).activeJournal = ⟨m.activeJournal.effects, some line⟩ :=
  m.setActiveActive _

theorem setLineOnMain {m : Machine} (main : m.onMain = true) (line : Nat) :
    m.setLine line = { m with journal := ⟨m.journal.effects, some line⟩ } := by
  rcases journalCases m with ⟨_, _, _, own, _⟩ | ⟨_, active, set⟩
  · simp [own] at main
  · rw [setLine, set, active]

theorem sayOnMain {m : Machine} (main : m.onMain = true) (notice : Notice) :
    m.say notice = { m with
      journal := ⟨m.journal.effects ++ [notice.effect], m.journal.line⟩
      history := m.history ++ [.said notice] } := by
  rcases journalCases m with ⟨_, _, _, own, _⟩ | ⟨_, active, set⟩
  · simp [own] at main
  · simp only [say, append, log, set, active]

end Machine
end LineScript
