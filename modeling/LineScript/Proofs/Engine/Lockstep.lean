import LineScript.Proofs.Engine.Act
import LineScript.Proofs.Script.Shift

/-! Two runs side by side. Two machines that are related, a program on the one and the same program
some lines further down on the other: if every primitive step keeps the machines related, then so
does every statement, and both runs take the same branches. -/
namespace LineScript

def Notice.shift (lines : Nat) : Notice → Notice
  | .plain effect => .plain effect
  | .report line message => .report (line.map (· + lines)) message

theorem CallOutcome.noticesShift (o : CallOutcome) (line lines : Nat) (path : String) :
    o.notices (line + lines) path = (o.notices line path).map (Notice.shift lines) := by
  unfold notices
  rw [List.map_append]
  congr 1
  · cases o.warning <;> rfl
  · split
    · rfl
    · split <;> rfl

namespace Engine

inductive Alike {α : Type} (agree : α → α → Prop) : Except Failure α → Except Failure α → Prop where
  | ok {u v} (same : agree u v) : Alike agree (.ok u) (.ok v)
  | failed (f) : Alike agree (.error f) (.error f)

def Together {α : Type} (R : Machine → Machine → Prop) (agree : α → α → Prop) (x y : EngineM α) : Prop :=
  ∀ a b, R a b → Alike agree (after x a).1 (after y b).1 ∧ R (after x a).2 (after y b).2

def Any (_ _ : Value) : Prop := True

section Rules
variable {α β : Type} {R : Machine → Machine → Prop} {agree : α → α → Prop} {agree' : β → β → Prop}

theorem togetherPure {u v : α} (same : agree u v) : Together R agree (pure u) (pure v) :=
  fun _ _ related => ⟨.ok same, related⟩

theorem togetherThrow (f : Failure) : Together R agree (throw f) (throw f) :=
  fun _ _ related => ⟨.failed f, related⟩

theorem togetherGet : Together R R get get :=
  fun _ _ related => ⟨.ok related, related⟩

theorem togetherModify {f g : Machine → Machine} (step : ∀ a b, R a b → R (f a) (g b)) :
    Together R Eq (modify f : EngineM PUnit) (modify g) :=
  fun a b related => ⟨.ok rfl, step a b related⟩

theorem togetherLift (e : Except Failure α) : Together R Eq (liftM e : EngineM α) (liftM e) := by
  intro a b related
  rw [afterLift, afterLift]
  refine ⟨?_, related⟩
  cases e with
  | ok value => exact .ok rfl
  | error f => exact .failed f

theorem Together.bind {x y : EngineM α} {next next' : α → EngineM β} (first : Together R agree x y)
    (rest : ∀ u v, agree u v → Together R agree' (next u) (next' v)) :
    Together R agree' (x >>= next) (y >>= next') := by
  intro a b related
  obtain ⟨alike, still⟩ := first a b related
  rw [afterBind, afterBind]
  generalize after x a = ran at alike still ⊢
  generalize after y b = ran' at alike still ⊢
  obtain ⟨outcome, a'⟩ := ran
  obtain ⟨outcome', b'⟩ := ran'
  cases alike with
  | ok same => exact rest _ _ same a' b' still
  | failed f => exact ⟨.failed f, still⟩

theorem Together.tryCatch {x y : EngineM α} {handler handler' : Failure → EngineM α}
    (first : Together R agree x y) (rest : ∀ f, Together R agree (handler f) (handler' f)) :
    Together R agree (MonadExcept.tryCatch x handler) (MonadExcept.tryCatch y handler') := by
  intro a b related
  obtain ⟨alike, still⟩ := first a b related
  rw [afterTryCatch, afterTryCatch]
  generalize after x a = ran at alike still ⊢
  generalize after y b = ran' at alike still ⊢
  obtain ⟨outcome, a'⟩ := ran
  obtain ⟨outcome', b'⟩ := ran'
  cases alike with
  | ok same => exact ⟨.ok same, still⟩
  | failed f => exact rest f a' b' still

def Still (R : Machine → Machine → Prop) (x y : EngineM α) : Prop :=
  ∀ a b, R a b → R (after x a).2 (after y b).2

theorem stillPure (u v : α) : Still R (pure u) (pure v) := fun _ _ related => related

theorem stillThrow (f g : Failure) : Still R (throw f : EngineM α) (throw g) := fun _ _ related => related

theorem Together.still {x y : EngineM α} (together : Together R agree x y) : Still R x y :=
  fun a b related => (together a b related).2

theorem Together.bindStill {x y : EngineM α} {next next' : α → EngineM β} (first : Together R agree x y)
    (rest : ∀ u v, agree u v → Still R (next u) (next' v)) : Still R (x >>= next) (y >>= next') := by
  intro a b related
  obtain ⟨alike, still⟩ := first a b related
  rw [afterBind, afterBind]
  generalize after x a = ran at alike still ⊢
  generalize after y b = ran' at alike still ⊢
  obtain ⟨outcome, a'⟩ := ran
  obtain ⟨outcome', b'⟩ := ran'
  cases alike with
  | ok same => exact rest _ _ same a' b' still
  | failed f => exact still

theorem Still.lifted {x y : EngineM α} (still : Still R x y) (f f' : α → Except Failure β) :
    Still R (do liftM (f (← x))) (do liftM (f' (← y))) := by
  intro a b related
  have related' := still a b related
  rw [afterBind, afterBind]
  generalize after x a = ran at related' ⊢
  generalize after y b = ran' at related' ⊢
  obtain ⟨outcome, a'⟩ := ran
  obtain ⟨outcome', b'⟩ := ran'
  cases outcome <;> cases outcome' <;> simpa only [afterLift] using related'

theorem Still.caught {x y : EngineM α} (still : Still R x y) (f f' : Failure → α) :
    Still R (tryCatch x fun e => return f e) (tryCatch y fun e => return f' e) := by
  intro a b related
  have related' := still a b related
  rw [afterTryCatch, afterTryCatch]
  generalize after x a = ran at related' ⊢
  generalize after y b = ran' at related' ⊢
  obtain ⟨outcome, a'⟩ := ran
  obtain ⟨outcome', b'⟩ := ran'
  cases outcome <;> cases outcome' <;> exact related'

theorem attemptTogether {act act' : EngineM Unit} (inner : Together R Eq act act') :
    Together R Eq (attempt act) (attempt act') :=
  (inner.bind (fun _ _ _ => togetherPure rfl)).tryCatch (fun _ => togetherPure rfl)

end Rules

section Evaluation
variable {R : Machine → Machine → Prop} {ref : ContextRef} {offset lines : Nat}

theorem evaluateTogether (scope : ∀ a b, R a b → b.scope ref = a.scope ref) (e : Expr) :
    Together R Eq (evaluate ref e) (evaluate ref (e.shift offset lines)) := by
  refine togetherGet.bind (fun a b related => ?_)
  rw [scope a b related, Expr.evalShift]
  exact togetherLift _

theorem evaluateAllTogether (scope : ∀ a b, R a b → b.scope ref = a.scope ref) (arguments : List Expr) :
    Together R Eq (evaluateAll ref arguments) (evaluateAll ref (arguments.map (Expr.shift offset lines))) := by
  induction arguments with
  | nil => exact togetherPure rfl
  | cons e rest ih =>
    refine (evaluateTogether scope e).bind (fun first other same => ?_)
    subst same
    refine ih.bind (fun others other same => ?_)
    subst same
    exact togetherPure rfl

theorem announceAllTogether
    (announced : ∀ notice, Together R Eq (announce notice) (announce (notice.shift lines)))
    (notices : List Notice) :
    Together R Eq (announceAll notices) (announceAll (notices.map (Notice.shift lines))) := by
  induction notices with
  | nil => exact togetherPure rfl
  | cons notice rest ih => exact (announced notice).bind (fun _ _ _ => ih)

end Evaluation

/- What the primitive steps have to keep. Outside of statements the lines that the runs are at need
not be related; `R true` says that they are. -/
structure Paced (ref : ContextRef) (lines : Nat) (R : Bool → Machine → Machine → Prop) : Prop where
  forget : ∀ known a b, R true a b → R known a b
  atLine : ∀ known a b line, R known a b → R true (a.setLine line) (b.setLine (line + lines))
  reached : ∀ a b line, R true a b →
    b.activeJournal.line.getD (line + lines) = a.activeJournal.line.getD line + lines
  scope : ∀ a b, R true a b → b.scope ref = a.scope ref
  assigned : ∀ a b name value, R true a b → R true (a.assign ref name value) (b.assign ref name value)
  traced : ∀ message, Together (R true) Eq (trace message) (trace message)
  announced : ∀ known notice, Together (R known) Eq (announce notice) (announce (notice.shift lines))

/- A call may end differently on the two sides, as long as it is the same to what guards it. -/
structure Lockstep (left right : Surroundings) (ref : ContextRef) (offset lines : Nat)
    (R : Bool → Machine → Machine → Prop) : Prop extends Paced ref lines R where
  called : ∀ known line path arguments, Together (R known) Any
    (guarded line (runCall left ref line path arguments))
    (guarded (line + lines)
      (runCall right ref (line + lines) path (arguments.map (Expr.shift offset lines))))

section Guards
variable {ref : ContextRef} {offset lines : Nat} {R : Bool → Machine → Machine → Prop} (paced : Paced ref lines R)
include paced

theorem evaluateConditionTogether (e : Expr) :
    Together (R true) Eq (evaluateCondition ref e) (evaluateCondition ref (e.shift offset lines)) := by
  refine togetherGet.bind (fun a b related => ?_)
  rw [paced.scope a b related, Expr.evalConditionShift]
  refine (togetherLift _).bind (fun verdict other same => ?_)
  subst same
  split
  · refine (togetherLift _).bind (fun shown other same => ?_)
    subst same
    refine (togetherLift _).bind (fun shown' other same => ?_)
    subst same
    exact (paced.traced _).bind (fun _ _ _ => togetherPure rfl)
  · exact togetherPure rfl

theorem guardedTogether (known : Bool) (line : Nat) {act act' : EngineM Value}
    (inner : Together (R true) Any act act') :
    Together (R known) Any (guarded line act) (guarded (line + lines) act') := by
  intro a b related
  have inside : Together (R true) Any
      (tryCatch act fun f => do
        report (failureText f) (some ((← get).activeJournal.line.getD line))
        return .nil)
      (tryCatch act' fun f => do
        report (failureText f) (some ((← get).activeJournal.line.getD (line + lines)))
        return .nil) := by
    refine inner.tryCatch (fun f => togetherGet.bind (fun a b related => ?_))
    rw [paced.reached a b line related]
    have announced :=
      paced.announced true (.report (some (a.activeJournal.line.getD line)) (failureText f))
    exact announced.bind (fun _ _ _ => togetherPure trivial)
  -- from here on both sides are at a line that they have set themselves
  obtain ⟨alike, still⟩ := inside _ _ (paced.atLine known a b line related)
  exact ⟨alike, paced.forget known _ _ still⟩

end Guards

section Statements
variable {left right : Surroundings} {ref : ContextRef} {offset lines : Nat}
  {R : Bool → Machine → Machine → Prop}

structure Abreast (left right : Surroundings) (ref : ContextRef) (offset lines : Nat)
    (R : Bool → Machine → Machine → Prop) (s : Stmt) : Prop where
  guarded : ∀ known, Together (R known) Any (guarded s.line (runStmt left ref s))
    (guarded (s.line + lines) (runStmt right ref (s.shift offset lines)))
  linked : isBranch s = true → Together (R true) Any (runStmt left ref s) (runStmt right ref (s.shift offset lines))

theorem abreast (lockstep : Lockstep left right ref offset lines R) {s : Stmt}
    (inner : Together (R true) Any (runStmt left ref s) (runStmt right ref (s.shift offset lines))) :
    Abreast left right ref offset lines R s :=
  ⟨fun known => guardedTogether lockstep.toPaced known s.line inner, fun _ => inner⟩

theorem runElseTogether (body : Block Stmt)
    (list : Together (R true) Any (runList left ref .nil body.statements)
      (runList right ref .nil (shiftList offset lines body.statements)))
    (each : ∀ s ∈ body.statements, Abreast left right ref offset lines R s) :
    Together (R true) Any (runElse left ref body) (runElse right ref (shiftBlock offset lines body)) := by
  obtain ⟨line, statements⟩ := body
  match statements with
  | [] => simpa only [runElse, shiftBlock, shiftList] using list
  | [s] =>
    have same : isBranch (s.shift offset lines) = isBranch s := by
      cases s <;> simp only [Stmt.shift, isBranch]
    simp only [runElse, shiftBlock, shiftList, same]
    split
    · rename_i link
      exact (each s (by simp)).linked link
    · rw [Stmt.shiftLine]
      exact (each s (by simp)).guarded true
  | s :: t :: rest => simpa only [runElse, shiftBlock, shiftList] using list

theorem runTogether (lockstep : Lockstep left right ref offset lines R) :
    (∀ s, Abreast left right ref offset lines R s) ∧ ∀ statements known value value', Together (R known) Any (runList left ref value statements)
        (runList right ref value' (shiftList offset lines statements)) := by
  apply Stmt.induction
  case block =>
    intro line statements inner
    refine abreast lockstep ?_
    simpa only [runStmt, Stmt.shift, shiftBlock, runBlockStatements] using inner true .nil .nil
  case assign =>
    intro line name value
    refine abreast lockstep ?_
    simp only [Stmt.shift, runStmt]
    refine (evaluateTogether lockstep.scope value).bind (fun v w same => ?_)
    subst same
    refine (togetherModify (fun a b => lockstep.assigned a b name v)).bind (fun _ _ _ => ?_)
    refine (togetherLift _).bind (fun shown other same => ?_)
    subst same
    exact (lockstep.traced _).bind (fun _ _ _ => togetherPure trivial)
  case print =>
    intro line value
    refine abreast lockstep ?_
    simp only [Stmt.shift, runStmt]
    refine (evaluateTogether lockstep.scope value).bind (fun v w same => ?_)
    subst same
    refine (togetherLift _).bind (fun text other same => ?_)
    subst same
    exact (lockstep.announced true (.plain (.printed text))).bind (fun _ _ _ => togetherPure trivial)
  case branch =>
    intro line condition thenBody otherwise thenTogether otherwiseTogether
    refine abreast lockstep ?_
    simp only [Stmt.shift, runStmt]
    refine (togetherModify (fun a b => lockstep.atLine true a b line)).bind (fun _ _ _ => ?_)
    refine (evaluateConditionTogether lockstep.toPaced condition).bind (fun holds other same => ?_)
    subst same
    refine (lockstep.traced _).bind (fun _ _ _ => ?_)
    split
    · obtain ⟨opened, statements⟩ := thenBody
      simpa only [shiftBlock, runBlockStatements] using thenTogether true .nil .nil
    · cases otherwise with
      | none =>
        simp only [shiftOtherwise, runOtherwise]
        exact togetherPure trivial
      | some body =>
        obtain ⟨list, each⟩ := otherwiseTogether body rfl
        simpa only [shiftOtherwise, runOtherwise] using
          runElseTogether body (list true .nil .nil) each
  case call =>
    intro line path arguments
    refine ⟨fun known => ?_, fun link => by cases link⟩
    simpa only [Stmt.shift, Stmt.line, runStmt] using lockstep.called known line path arguments
  case unknown =>
    intro line text why
    refine abreast lockstep ?_
    simp only [Stmt.shift, runStmt]
    exact (lockstep.announced true (.report (some line) (why.text ++ ": " ++ text))).bind
      (fun _ _ _ => togetherPure trivial)
  case nil =>
    intro known value value'
    simp only [shiftList, runList]
    exact togetherPure trivial
  case cons =>
    intro s rest first others known value value'
    simp only [shiftList, runList, Stmt.shiftLine]
    exact (first.guarded known).bind (fun u v _ => others known u v)

end Statements
end Engine
end LineScript
