import LineScript.Proofs.Engine.Moves

/-! The history of an engine read as a tree of runs, and which effects belong to which run. The
history itself is only a line of events; the tree is found in it. -/
namespace LineScript

inductive Activity where
  | said (notice : Notice)
  | called (name : String) (arguments : List Value)
  | run (place : Place) (inside : List Activity) (result : RunResult)

def RunResult.closing (r : RunResult) : List Effect :=
  match r.status with
  | .success => []
  | .error => [.fatal (r.errorMessage.getD "")]

namespace Activity

mutual

def events : Activity → List Event
  | .said notice => [.said notice]
  | .called name arguments => [.called name arguments]
  | .run place inside result => .started place :: (eventsOf inside ++ [.ended result])

def eventsOf : List Activity → List Event
  | [] => []
  | a :: rest => events a ++ eventsOf rest

end

def emitted : List Activity → List Effect
  | [] => []
  | .said notice :: rest => notice.effect :: emitted rest
  | .called _ _ :: rest => emitted rest
  | .run _ _ _ :: rest => emitted rest

/- No run of the main session starts while another one is going on; `busy` if one is already. -/
inductive Apart : Bool → Activity → Prop where
  | said {busy} (notice) : Apart busy (.said notice)
  | called {busy} (name arguments) : Apart busy (.called name arguments)
  | run {busy place inside result} (free : place = .session → busy = false)
      (inner : ∀ a ∈ inside, Apart (busy || place == .session) a) : Apart busy (.run place inside result)

inductive Attributed : Activity → Prop where
  | said (notice) : Attributed (.said notice)
  | called (name arguments) : Attributed (.called name arguments)
  | run {place inside result} (effects : result.effects = emitted inside ++ result.closing)
      (inner : ∀ a ∈ inside, Attributed a) : Attributed (.run place inside result)

theorem eventsAppend (xs ys : List Activity) : eventsOf (xs ++ ys) = eventsOf xs ++ eventsOf ys := by
  induction xs with
  | nil => simp [eventsOf]
  | cons a rest ih => simp [eventsOf, ih]

theorem emittedAppend (xs ys : List Activity) : emitted (xs ++ ys) = emitted xs ++ emitted ys := by
  induction xs with
  | nil => rfl
  | cons a rest ih => cases a <;> simp [emitted, ih]

theorem apartOfBusy {busy : Bool} {a : Activity} (apart : Apart busy a) : Apart false a := by
  induction apart with
  | said notice => exact .said notice
  | called name arguments => exact .called name arguments
  | @run busy place inside result free inner ih =>
    refine .run (fun _ => rfl) ?_
    cases busy with
    | false => exact inner
    | true =>
      have other : (place == Place.session) = false := by
        cases place <;> simp at free ⊢
      intro a member
      simpa [other] using ih a member

theorem eventsDetermine (xs : List Activity) {ys : List Activity} {r s : RunResult} {tail rest : List Event}
    (same : eventsOf xs ++ .ended r :: tail = eventsOf ys ++ .ended s :: rest) :
    xs = ys ∧ r = s ∧ tail = rest := by
  revert ys r s tail rest
  apply Activity.rec_1
    (motive_1 := fun a => ∀ {b tail rest}, a.events ++ tail = b.events ++ rest → a = b ∧ tail = rest)
    (motive_2 := fun xs => ∀ {ys} {r s : RunResult} {tail rest : List Event},
      eventsOf xs ++ .ended r :: tail = eventsOf ys ++ .ended s :: rest → xs = ys ∧ r = s ∧ tail = rest)
  case said =>
    intro notice b tail rest same
    cases b <;> simp_all [events]
  case called =>
    intro name arguments b tail rest same
    cases b <;> simp_all [events]
  case run =>
    intro place inside result inner b tail rest same
    cases b with
    | said notice => simp [events] at same
    | called name arguments => simp [events] at same
    | run other others last =>
      simp only [events, List.cons_append, List.append_assoc, List.nil_append, List.cons.injEq,
        Event.started.injEq] at same
      obtain ⟨rfl, rfl, rfl⟩ := inner same.2
      exact ⟨by rw [same.1], rfl⟩
  case nil =>
    intro ys r s tail rest same
    cases ys with
    | nil => simpa [eventsOf] using same
    | cons b others => cases b <;> simp [eventsOf, events] at same
  case cons =>
    intro a xs first others ys r s tail rest same
    cases ys with
    | nil => cases a <;> simp [eventsOf, events] at same
    | cons b ys =>
      simp only [eventsOf, List.append_assoc] at same
      obtain ⟨rfl, next⟩ := first same
      obtain ⟨rfl, last⟩ := others next
      exact ⟨rfl, last⟩

end Activity
end LineScript
