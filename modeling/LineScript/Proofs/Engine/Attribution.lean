import LineScript.Proofs.Engine.Activity
import LineScript.Proofs.Engine.Reliable
import LineScript.Proofs.Script.Reading

/-! No effect is lost, duplicated or given to the wrong run, however runs nest: each run returns what
was emitted while it was the innermost one. Runs of the main session share one journal, so the
statement needs that no two of them overlap; it does not bound the nesting. -/
namespace LineScript.Engine
open Activity

structure Grew (m n : Machine) (inside : List Activity) : Prop where
  frames : SameFrames m.frames n.frames
  history : n.history = m.history ++ eventsOf inside
  own : m.onMain = false → (∀ a ∈ inside, Apart false a) →
    n.activeJournal.effects = m.activeJournal.effects ++ emitted inside
  main : (∀ a ∈ inside, Apart true a) →
    n.journal.effects = m.journal.effects ++ if m.onMain then emitted inside else []
  attributed : (∀ a ∈ inside, Apart false a) → ∀ a ∈ inside, Attributed a

theorem Grew.join {a b c : Machine} {first second : List Activity} (left : Grew a b first)
    (right : Grew b c second) : Grew a c (first ++ second) := by
  have same := Machine.onMainOfSameFrames left.frames
  refine ⟨left.frames.trans right.frames, ?_, ?_, ?_, ?_⟩
  · rw [right.history, left.history, eventsAppend, List.append_assoc]
  · intro own apart
    rw [List.forall_mem_append] at apart
    rw [right.own (same.trans own) apart.2, left.own own apart.1, emittedAppend, List.append_assoc]
  · intro apart
    rw [List.forall_mem_append] at apart
    rw [right.main apart.2, left.main apart.1, same, emittedAppend]
    split <;> simp
  · intro apart
    rw [List.forall_mem_append] at apart ⊢
    exact ⟨left.attributed apart.1, right.attributed apart.2⟩

theorem grewQuiet {m n : Machine} (frames : n.frames = m.frames) (journal : n.journal = m.journal)
    {inside : List Activity} (history : n.history = m.history ++ eventsOf inside)
    (silent : emitted inside = []) (attributed : ∀ a ∈ inside, Attributed a) : Grew m n inside := by
  have active : n.activeJournal = m.activeJournal := by
    simp only [Machine.activeJournal, frames, journal]
  refine ⟨frames ▸ .same _, history, ?_, ?_, fun _ => attributed⟩
  · intro _ _
    rw [active, silent, List.append_nil]
  · intro _
    rw [journal, silent]
    simp

theorem grewStay {m n : Machine} (frames : n.frames = m.frames) (journal : n.journal = m.journal)
    (history : n.history = m.history) : Grew m n [] :=
  grewQuiet frames journal (by simp [eventsOf, history]) rfl (by simp)

theorem grewActive {m n : Machine} {journal : Journal} {inside : List Activity}
    (frames : n.frames = (m.setActiveJournal journal).frames)
    (main : n.journal = (m.setActiveJournal journal).journal)
    (history : n.history = m.history ++ eventsOf inside)
    (effects : journal.effects = m.activeJournal.effects ++ emitted inside)
    (attributed : ∀ a ∈ inside, Attributed a) : Grew m n inside := by
  have active : n.activeJournal = journal := by
    rw [← m.setActiveActive journal]
    simp only [Machine.activeJournal, frames, main]
  refine ⟨frames ▸ m.setActiveFrames journal, history, ?_, ?_, fun _ => attributed⟩
  · intro _ _
    rw [active, effects]
  · intro _
    rcases m.journalCases with ⟨_, _, _, own, _, set⟩ | ⟨here, here', set⟩
    · rw [main, set, own]
      simp
    · rw [main, set, here, if_pos rfl, ← here']
      exact effects

theorem grewSteps {around : Surroundings} (ref : ContextRef)
    (nested : ∀ m place source, ∃ inside, Grew m (after (around.reenter place source) m).2 inside) :
    Steps around ref (fun m n => ∃ inside, Grew m n inside) where
  stay m := ⟨[], grewStay rfl rfl rfl⟩
  join := fun ⟨_, left⟩ ⟨_, right⟩ => ⟨_, left.join right⟩
  atLine m line := by
    refine ⟨[], grewActive rfl rfl ?_ ?_ (by simp)⟩
    · simp [Machine.setLine, eventsOf]
    · simp [emitted]
  said m notice := by
    refine ⟨[.said notice], grewActive rfl rfl ?_ rfl ?_⟩
    · simp [Machine.say, Machine.log, Machine.append, eventsOf, events]
    · simpa using Attributed.said notice
  streamed m stream text next _ _ := ⟨[], grewStay rfl rfl rfl⟩
  assigned m name value := by
    refine ⟨[], ?_⟩
    unfold Machine.assign Machine.setContext
    split
    · split <;> exact grewStay rfl rfl rfl
    · exact grewStay rfl rfl rfl
  traced m lines := ⟨[], grewStay rfl rfl rfl⟩
  called m name arguments := by
    refine ⟨[.called name arguments], ?_⟩
    apply grewQuiet
    case attributed => simpa using Attributed.called name arguments
    all_goals rfl
  recorded m r := ⟨[], grewStay rfl rfl rfl⟩
  seeded m name value := ⟨[], grewStay rfl rfl rfl⟩
  registered m name target symbols _ := ⟨[], grewStay rfl rfl rfl⟩
  reentered := nested

structure Entered (m : Machine) (place : Place) (n : Machine) : Prop where
  history : n.history = m.history ++ [.started place]
  outside : n.frames.drop 1 = m.frames
  onMain : n.onMain = (place == .session)
  empty : n.activeJournal.effects = []
  main : place ≠ .session → n.journal = m.journal

theorem entered (m : Machine) (place : Place) : Entered m place (opened m place).1 := by
  cases place with
  | session => exact ⟨rfl, rfl, rfl, rfl, by simp⟩
  | fresh => exact ⟨rfl, rfl, rfl, rfl, fun _ => rfl⟩
  | within ref => exact ⟨rfl, rfl, rfl, rfl, fun _ => rfl⟩

structure Closed (m : Machine) (result : RunResult) (n : Machine) : Prop where
  history : n.history = m.history
  frames : SameFrames m.frames n.frames
  effects : result.effects = m.activeJournal.effects ++ result.closing
  main : m.onMain = false → n.journal = m.journal

theorem closed (outcome : Except Failure Value) (m : Machine) :
    Closed m (resultOf outcome m).1 (resultOf outcome m).2 := by
  cases outcome with
  | ok value => exact ⟨rfl, .same _, by simp [resultOf, RunResult.closing], fun _ => rfl⟩
  | error f =>
    refine ⟨?_, m.setActiveFrames _, ?_, m.setActiveJournalOwn _⟩
    · simp [resultOf, Machine.append]
    · simp [resultOf, Machine.append, RunResult.closing]

theorem executeGrew {around : Surroundings} (place : Place) (p : Program) (m : Machine)
    (nested : ∀ m place source, ∃ inside, Grew m (after (around.reenter place source) m).2 inside) :
    (execute around place p m).2.frames = m.frames ∧
      ∃ inside, Grew m (execute around place p m).2 [.run place inside (execute around place p m).1] := by
  let ran := ranIn around place p m
  have entry := entered m place
  obtain ⟨inside, grew⟩ : ∃ inside, Grew (opened m place).1 ran.2 inside :=
    runProgramMoves (grewSteps (opened m place).2 nested) p (opened m place).1
  have exit := closed ran.1 ran.2
  have onMain : ran.2.onMain = (place == .session) :=
    (Machine.onMainOfSameFrames grew.frames).trans entry.onMain
  have frames : (execute around place p m).2.frames = m.frames := by
    show (resultOf ran.1 ran.2).2.frames.drop 1 = m.frames
    rw [exit.frames.drop, grew.frames.drop, entry.outside]
  have active (apart : ∀ a ∈ inside, Apart (place == .session) a) :
      ran.2.activeJournal.effects = emitted inside := by
    cases session : place == Place.session with
    | false =>
      rw [session] at apart
      simpa [entry.empty] using grew.own (entry.onMain.trans session) apart
    | true =>
      rw [session] at apart
      have whole := grew.main apart
      rw [entry.onMain, session, if_pos rfl,
        ← Machine.activeOnMain (entry.onMain.trans session), entry.empty, List.nil_append] at whole
      rw [Machine.activeOnMain (onMain.trans session)]
      exact whole
  have keeps (apart : Apart true (.run place inside (execute around place p m).1)) :
      (execute around place p m).2.journal.effects = m.journal.effects := by
    cases apart with
    | run free inner =>
      have other : place ≠ .session := fun same => by simpa using free same
      have away : (place == Place.session) = false := by simpa using other
      have whole := grew.main inner
      rw [entry.onMain, away, entry.main other] at whole
      show (resultOf ran.1 ran.2).2.journal.effects = _
      rw [exit.main (onMain.trans away)]
      exact whole.trans (List.append_nil _)
  refine ⟨frames, inside, ?_, ?_, ?_, ?_, ?_⟩
  · rw [frames]
    exact .same _
  · show (resultOf ran.1 ran.2).2.history ++ [.ended (resultOf ran.1 ran.2).1] = _
    rw [exit.history, grew.history, entry.history]
    simp [eventsOf, events, executeOpened, ran]
  · intro own _
    rw [Machine.activeOfFrames own frames]
    simp [emitted]
  · intro apart
    rw [keeps (apart _ (by simp))]
    simp [emitted]
  · intro apart a member
    rw [List.mem_singleton] at member
    subst member
    cases apart _ (List.mem_singleton_self _) with
    | run _ inner =>
      simp only [Bool.false_or] at inner
      refine .run ?_ ?_
      · exact exit.effects.trans (by rw [active inner]; rfl)
      · exact grew.attributed fun b inside => apartOfBusy (inner b inside)

theorem nestedGrew (host : Host) (depth : Nat) (place : Place) (p : Program) (m : Machine) :
    (executeNested host depth place p m).2.frames = m.frames ∧
      ∃ inside, Grew m (executeNested host depth place p m).2
        [.run place inside (executeNested host depth place p m).1] := by
  induction depth generalizing place p m with
  | zero => exact executeGrew place p m (fun m _ _ => ⟨[], grewStay rfl rfl rfl⟩)
  | succ depth ih =>
    refine executeGrew place p m (fun m place source => ?_)
    obtain ⟨_, inside, grew⟩ := ih place (parse source.toList) m
    exact ⟨_, grew⟩

/- Every run ends with the frames that were there when it started, and returns the effects that
were emitted in it. The history of the run leaves one tree, and the statement is about that tree. -/
theorem effectsBelongToInnermostRun (host : Host) (depth : Nat) (place : Place) (p : Program)
    (m : Machine) :
    let (result, n) := executeNested host depth place p m
    n.frames = m.frames ∧
      (∃ inside, n.history = m.history ++ (Activity.run place inside result).events) ∧
      ∀ inside, n.history = m.history ++ (Activity.run place inside result).events →
        Apart false (.run place inside result) → Attributed (.run place inside result) := by
  obtain ⟨frames, inside, grew⟩ := nestedGrew host depth place p m
  generalize executeNested host depth place p m = ended at frames grew ⊢
  obtain ⟨result, n⟩ := ended
  have happened : n.history = m.history ++ (Activity.run place inside result).events := by
    simpa [eventsOf] using grew.history
  refine ⟨frames, ⟨inside, happened⟩, ?_⟩
  intro other same apart
  have events := List.append_cancel_left (happened.symm.trans same)
  simp only [Activity.events, List.cons.injEq, true_and] at events
  obtain ⟨rfl, -, -⟩ := eventsDetermine inside events
  exact grew.attributed (by simpa using apart) _ (by simp)

theorem runInsideRun :
    let again : HostFunction Value := .plain 0 "again" ⟨"again", [], none, [], 0⟩
    let host : Host := .behaving fun _ _ _ => .emit ⟨["again"], "before"⟩ fun _ =>
      .run "" .fresh fun _ => .emit ⟨["again"], "behind"⟩ fun _ => .pure .nil
    let m := Machine.idle ⟨[("again", .builtin (.ofRoutine "again" (.host again)))], false⟩
    (executeNested host 1 .session ⟨[.call 1 "again" []], []⟩ m).1.effects =
      [⟨["again"], "before"⟩, ⟨["again"], "behind"⟩] := by
  intro again host m
  have nothing : parse "".toList = ⟨[], []⟩ := by
    have found : tokens "".toList = [] := by
      simp [tokens, scan, Lexer.segments, Lexer.splitLines, Lexer.lineSegments, Lexer.joinLines, Lexer.place]
    apply Parser.parseOfReading
    rw [found]
    exact .finish _ _
  let p : Program := ⟨[.call 1 "again" []], []⟩
  let around : Surroundings := ⟨host, fun place source m =>
    let ended := executeNested host 0 place (if source = "" then ⟨[], []⟩ else parse source.toList) m
    (.ok ended.1, ended.2)⟩
  have same : executeNested host 1 = execute around := by
    show execute ⟨host, _⟩ = execute ⟨host, _⟩
    congr
    funext place source m
    by_cases empty : source = ""
    · simp only [empty, if_pos, nothing]
    · simp only [if_neg empty]
  have attributed := effectsBelongToInnermostRun host 1 .session p m
  rw [same] at attributed ⊢
  let inside : List Activity := [.called "again" [], .said (.plain ⟨["again"], "before"⟩),
    .run .fresh [] ⟨.success, .nil, none, []⟩, .said (.plain ⟨["again"], "behind"⟩)]
  have happened : (execute around .session p m).2.history =
      m.history ++ (Activity.run .session inside (execute around .session p m).1).events := rfl
  have succeeded : (execute around .session p m).1.status = .success := rfl
  generalize execute around .session p m = ended at attributed happened succeeded ⊢
  obtain ⟨result, n⟩ := ended
  have apart : Apart false (.run .session inside result) := by
    refine .run (fun _ => rfl) ?_
    simp only [inside, List.forall_mem_cons, List.not_mem_nil, false_implies, implies_true, and_true]
    exact ⟨.called _ _, .said _, .run (by simp) (by simp), .said _⟩
  cases attributed.2.2 inside happened apart with
  | run effects _ =>
    rw [effects, RunResult.closing, succeeded]
    rfl

end LineScript.Engine
