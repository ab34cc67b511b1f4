import Mathlib.Logic.Relation
import LineScript.Proofs.Engine.Chain

/-! Points of a run: the machine, and what is left of the block that the run is in and of those around
it. A run goes from point to point, into the blocks that it enters and out of them again; from any
point on its way it ends as it ends from the start. -/
namespace LineScript
namespace Engine

structure Point where
  value : Value
  machine : Machine
  pending : List (List Stmt)

/- A statement gives way to the statements of a block; what it does before that has been done. -/
inductive Enters (ref : ContextRef) : Stmt → Machine → List Stmt → Machine → Prop where
  | block (body m) : Enters ref (.block body) m body.statements m
  | chosen {s links final tested body m} (chain : Chain s links final)
      (decides : Decides (m.scope ref) final links tested (.ok (some body))) :
      Enters ref s m body.statements (tested.foldl (Machine.tested (m.scope ref)) m)

section Points
variable (around : Surroundings) (ref : ContextRef)

def runPending (value : Value) : List (List Stmt) → EngineM Value
  | [] => return value
  | statements :: outer => do
    let value ← runList around ref value statements
    runPending value outer

def Point.finish (p : Point) : Except Failure Value × Machine :=
  after (runPending around ref p.value p.pending) p.machine

inductive Advances : Point → Point → Prop where
  | leave {value m outer} : Advances ⟨value, m, [] :: outer⟩ ⟨value, m, outer⟩
  | enter {value m s rest outer inner n} (enters : Enters ref s (m.setLine s.line) inner n) :
      Advances ⟨value, m, (s :: rest) :: outer⟩ ⟨.nil, n, inner :: rest :: outer⟩
  | whole {value m s rest outer last n} (closed : ∀ inner k, ¬Enters ref s (m.setLine s.line) inner k)
      (ran : after (guarded s.line (runStmt around ref s)) m = (.ok last, n)) :
      Advances ⟨value, m, (s :: rest) :: outer⟩ ⟨last, n, rest :: outer⟩

def Point.start (place : Place) (p : Program) (m : Machine) : Point :=
  ⟨.nil, (after (announceAll (p.diagnostics.map syntaxNotice)) (opened m place).1).2, [p.statements]⟩

def Reaches : Point → Point → Prop := Relation.ReflTransGen (Advances around ref)

end Points

section Runs
variable {around : Surroundings} {ref : ContextRef}

theorem startReliable (place : Place) (p : Program) {m : Machine} (reliable : m.Reliable) :
    (Point.start place p m).machine.Reliable :=
  (announceAllReliable (openedReliable place reliable) _).2

theorem ranFrom (around : Surroundings) (place : Place) (p : Program) {m : Machine} (reliable : m.Reliable) :
    ranIn around place p m = (Point.start place p m).finish around (opened m place).2 := by
  have announced := (announceAllReliable (openedReliable place reliable) (p.diagnostics.map syntaxNotice)).1
  rw [ranIn, runProgram, afterBind]
  rcases said : after (announceAll (p.diagnostics.map syntaxNotice)) (opened m place).1 with ⟨outcome, n⟩
  rw [said] at announced
  dsimp only at announced
  subst announced
  simp only [Point.finish, Point.start, said, runPending, bind_pure]

theorem entersReliable {s : Stmt} {m n : Machine} {inner : List Stmt} (enters : Enters ref s m inner n)
    (reliable : m.Reliable) : n.Reliable := by
  cases enters with
  | block => exact reliable
  | chosen chain decides => exact Machine.testedReliable _ _ reliable

theorem entersRuns {s : Stmt} {m n : Machine} {inner : List Stmt} (enters : Enters ref s m inner n) :
    after (runStmt around ref s) m = after (runList around ref .nil inner) n := by
  cases enters with
  | block body =>
    obtain ⟨line, statements⟩ := body
    rw [runStmt, runBlock]
  | chosen chain decides =>
    rw [chainRuns chain decides]
    rfl

theorem guardedOk {act : EngineM Value} {line : Nat} {m n : Machine} {value : Value}
    (ran : after act (m.setLine line) = (.ok value, n)) : after (guarded line act) m = (.ok value, n) := by
  rw [afterGuarded, afterTryCatch, ran]

theorem entersGuarded (nested : around.Reliable) {s : Stmt} {m n : Machine} {inner : List Stmt}
    (enters : Enters ref s (m.setLine s.line) inner n) (reliable : m.Reliable) :
    after (guarded s.line (runStmt around ref s)) m = after (runList around ref .nil inner) n := by
  have steps := reliableSteps ref nested
  obtain ⟨value, ended⟩ := runListReliable steps inner .nil (entersReliable enters (Machine.setLineReliable s.line reliable))
  have same := @entersRuns around ref s _ _ _ enters
  rcases ran : after (runList around ref .nil inner) n with ⟨outcome, k⟩
  rw [ran] at ended same
  dsimp only at ended
  subst ended
  exact guardedOk same

theorem advancesFinish (nested : around.Reliable) {p q : Point} (advances : Advances around ref p q)
    (reliable : p.machine.Reliable) :
    q.machine.Reliable ∧ p.finish around ref = q.finish around ref := by
  have steps := reliableSteps ref nested
  cases advances with
  | leave =>
    refine ⟨reliable, ?_⟩
    simp only [Point.finish, runPending, runList, pure_bind]
  | enter enters =>
    refine ⟨entersReliable enters (Machine.setLineReliable _ reliable), ?_⟩
    simp only [Point.finish, runPending, runList, bind_assoc, afterBind, entersGuarded nested enters reliable]
  | @whole value m s rest outer last n closed ran =>
    have still := (guardedReliable steps ((runMoves steps).1 s) reliable s.line).2
    rw [ran] at still
    refine ⟨still, ?_⟩
    simp only [Point.finish, runPending, runList, bind_assoc, afterBind, ran]

theorem reachesFinish (nested : around.Reliable) {p q : Point} (reaches : Reaches around ref p q)
    (reliable : p.machine.Reliable) :
    q.machine.Reliable ∧ p.finish around ref = q.finish around ref := by
  induction reaches with
  | refl => exact ⟨reliable, rfl⟩
  | tail _ advances ih =>
    obtain ⟨still, same⟩ := ih
    obtain ⟨next, equal⟩ := advancesFinish nested advances still
    exact ⟨next, same.trans equal⟩

def Finishes (around : Surroundings) (ref : ContextRef) (statements : List Stmt) : Prop :=
  ∀ value m outer, m.Reliable → ∃ last n, Reaches around ref ⟨value, m, statements :: outer⟩ ⟨last, n, outer⟩

theorem finishesNil : Finishes around ref [] :=
  fun value m _ _ => ⟨value, m, .single .leave⟩

theorem finishesCons (nested : around.Reliable) {s : Stmt} {rest : List Stmt}
    (inner : ∀ m inner n, Enters ref s m inner n → Finishes around ref inner) (others : Finishes around ref rest) :
    Finishes around ref (s :: rest) := by
  intro value m outer reliable
  have steps := reliableSteps ref nested
  by_cases entered : ∃ inner n, Enters ref s (m.setLine s.line) inner n
  · obtain ⟨body, n, enters⟩ := entered
    have first : Advances around ref ⟨value, m, (s :: rest) :: outer⟩ ⟨.nil, n, body :: rest :: outer⟩ := .enter enters
    obtain ⟨between, k, within⟩ := inner _ _ _ enters .nil n (rest :: outer) (advancesFinish nested first reliable).1
    have still := (reachesFinish nested within (advancesFinish nested first reliable).1).1
    obtain ⟨last, final, behind⟩ := others between k outer still
    exact ⟨last, final, (within.head first).trans behind⟩
  · simp only [not_exists] at entered
    obtain ⟨⟨next, ended⟩, still⟩ := guardedReliable steps ((runMoves steps).1 s) reliable s.line
    have first : Advances around ref ⟨value, m, (s :: rest) :: outer⟩ ⟨next, _, rest :: outer⟩ :=
      .whole entered (Prod.ext ended rfl)
    obtain ⟨last, final, behind⟩ := others next _ outer still
    exact ⟨last, final, behind.head first⟩

theorem runFinishes (nested : around.Reliable) :
    (∀ s m inner n, Enters ref s m inner n → Finishes around ref inner) ∧
      ∀ statements, Finishes around ref statements := by
  apply Stmt.induction
  case block =>
    rintro line statements inner m _ n enters
    cases enters with
    | block => exact inner
    | chosen chain => cases chain
  case branch =>
    rintro line condition thenBody otherwise first others m _ n enters
    cases enters with
    | chosen chain decides =>
      cases chain with
      | alone =>
        cases decides with
        | holds => exact first
        | passes _ next => cases next
      | last =>
        cases decides with
        | holds => exact first
        | passes _ next =>
          cases next
          exact (others _ rfl).1
      | link _ _ _ opened chain =>
        cases decides with
        | holds => exact first
        | passes _ next => exact (others _ rfl).2 _ List.mem_cons_self m _ _ (.chosen chain next)
  case nil => exact finishesNil
  case cons => exact fun s rest first others => finishesCons nested first others
  all_goals
    intros
    rename_i enters
    cases enters with
    | chosen chain => cases chain

end Runs
end Engine
end LineScript
