import LineScript.Proofs.Engine.Activations
import LineScript.Proofs.Engine.Reliable

/-! Chains of `else if`. The links of a chain are a list, and what becomes of the chain is settled by
their conditions alone: the first one that does not give false decides it, and those behind it are
not looked at. -/
namespace LineScript

structure Link where
  line : Nat
  condition : Expr
  body : Block Stmt

inductive Chain : Stmt → List Link → Option (Block Stmt) → Prop where
  | alone (line condition body) : Chain (.branch line condition body none) [⟨line, condition, body⟩] none
  | last (line condition body) {other : Block Stmt} (own : ¬other.Links) :
      Chain (.branch line condition body (some other)) [⟨line, condition, body⟩] (some other)
  | link (line condition body opened) {s links final} (next : Chain s links final) :
      Chain (.branch line condition body (some ⟨opened, [s]⟩)) (⟨line, condition, body⟩ :: links) final

theorem Chain.isBranch {s : Stmt} {links : List Link} {final : Option (Block Stmt)}
    (chain : Chain s links final) : Engine.isBranch s = true := by
  cases chain <;> rfl

theorem Chain.nonempty {s : Stmt} {links : List Link} {final : Option (Block Stmt)}
    (chain : Chain s links final) : links ≠ [] := by
  cases chain <;> simp

theorem chainOfBranch : ∀ s, Engine.isBranch s = true → ∃ links final, Chain s links final := by
  refine (@Stmt.induction (fun s => Engine.isBranch s = true → ∃ links final, Chain s links final)
    (fun _ => True) ?block ?assign ?print ?branch ?call ?unknown trivial (fun _ _ _ _ => trivial)).1
  case branch =>
    intro line condition thenBody otherwise _ inner _
    cases otherwise with
    | none => exact ⟨_, _, .alone line condition thenBody⟩
    | some body =>
      by_cases links : body.Links
      · obtain ⟨opened, statements⟩ := body
        obtain ⟨_, _, _, _, rfl⟩ := links
        obtain ⟨links, final, next⟩ := (inner _ rfl).2 _ List.mem_cons_self rfl
        exact ⟨_, _, .link line condition thenBody opened next⟩
      · exact ⟨_, _, .last line condition thenBody links⟩
  all_goals
    intros
    contradiction

def Verdict.lines (v : Verdict) : Except Failure (List String) :=
  match v.compared with
  | some (left, c, right) => do
    let shown ← left.inspect
    let shown' ← right.inspect
    return ["compare " ++ shown ++ " " ++ c.operator.text ++ " " ++ shown' ++ " -> " ++ Value.truthText v.holds]
  | none => return []

def Expr.test (scope : Scope) (e : Expr) : Except Failure (Bool × List String) :=
  match e.evalCondition scope with
  | .ok v => v.lines.map ((v.holds, ·))
  | .error f => .error f

namespace Link

def lines (scope : Scope) (link : Link) : List String :=
  match link.condition.test scope with
  | .ok (holds, lines) => lines ++ ["if " ++ link.condition.text ++ " -> " ++ Value.truthText holds]
  | .error _ => []

def Gives (scope : Scope) (holds : Bool) (link : Link) : Prop :=
  ∃ lines, link.condition.test scope = .ok (holds, lines)

end Link

/- The links that are tested, and what comes of it: the body that is to run, if any, or a failure. -/
inductive Decides (scope : Scope) (final : Option (Block Stmt)) :
    List Link → List Link → Except Failure (Option (Block Stmt)) → Prop where
  | holds {link rest} (holds : link.Gives scope true) : Decides scope final (link :: rest) [link] (.ok (some link.body))
  | fails {link rest f} (raises : link.condition.test scope = .error f) :
      Decides scope final (link :: rest) [link] (.error f)
  | passes {link rest tested outcome} (passes : link.Gives scope false)
      (next : Decides scope final rest tested outcome) : Decides scope final (link :: rest) (link :: tested) outcome
  | last : Decides scope final [] [] (.ok final)

theorem decidesSome (scope : Scope) (final : Option (Block Stmt)) (links : List Link) :
    ∃ tested outcome, Decides scope final links tested outcome := by
  induction links with
  | nil => exact ⟨_, _, .last⟩
  | cons link rest ih =>
    rcases test : link.condition.test scope with f | ⟨holds, lines⟩
    · exact ⟨_, _, .fails test⟩
    · cases holds with
      | true => exact ⟨_, _, .holds ⟨lines, test⟩⟩
      | false =>
        obtain ⟨tested, outcome, next⟩ := ih
        exact ⟨_, _, .passes ⟨lines, test⟩ next⟩

theorem decidesTested {scope : Scope} {final : Option (Block Stmt)} {links tested : List Link}
    {outcome : Except Failure (Option (Block Stmt))} (decides : Decides scope final links tested outcome)
    (nonempty : links ≠ []) : tested ≠ [] := by
  cases decides <;> simp_all

namespace Machine

def tested (scope : Scope) (m : Machine) (link : Link) : Machine := (m.setLine link.line).traced (link.lines scope)

section Traced
variable (m : Machine)

theorem setLineScope (line : Nat) (ref : ContextRef) : (m.setLine line).scope ref = m.scope ref := by
  obtain ⟨_, _, same⟩ := m.setActiveKeeps { m.activeJournal with line := some line }
  rw [setLine, same]
  cases ref <;> rfl

theorem setActiveTwice (first second : Journal) :
    (m.setActiveJournal first).setActiveJournal second = m.setActiveJournal second := by
  unfold setActiveJournal
  cases m.frames with
  | nil => rfl
  | cons top rest => cases top <;> rfl

@[simp] theorem setLineTwice (first second : Nat) : (m.setLine first).setLine second = m.setLine second := by
  rw [setLine, setLineActive, setLine, setLine, setActiveTwice]

theorem setActiveTrace (journal : Journal) (lines : List String) :
    { m with trace := lines }.setActiveJournal journal = { m.setActiveJournal journal with trace := lines } := by
  cases found : m.frames with
  | nil => simp only [setActiveJournal, found]
  | cons top rest => cases top <;> simp only [setActiveJournal, found]

theorem setLineTraced (messages : List String) (line : Nat) :
    (m.traced messages).setLine line = (m.setLine line).traced messages := by
  obtain ⟨_, _, same⟩ := m.setActiveKeeps { m.activeJournal with line := some line }
  unfold setLine
  rw [tracedActive]
  unfold traced
  split
  · rename_i tracing
    rw [setActiveTrace, same, if_pos tracing]
  · rename_i tracing
    rw [same, if_neg tracing]

theorem testedScope (scope : Scope) (link : Link) (ref : ContextRef) :
    (m.tested scope link).scope ref = m.scope ref := by
  rw [tested, tracedScope, setLineScope]

theorem testedConcat (scope : Scope) (front : List Link) (link : Link) :
    (front ++ [link]).foldl (tested scope) m =
      (m.setLine link.line).traced ((front ++ [link]).flatMap (Link.lines scope)) := by
  induction front generalizing m with
  | nil => simp [tested]
  | cons first rest ih =>
    rw [List.cons_append, List.foldl_cons, ih, tested, setLineTraced, setLineTwice, tracedAppend, List.flatMap_cons]

theorem tracedReliable (messages : List String) {m : Machine} (reliable : m.Reliable) :
    (m.traced messages).Reliable := by
  obtain ⟨_, same⟩ := m.tracedKeeps messages
  rw [same]
  exact reliable

theorem testedReliable (scope : Scope) (tested : List Link) {m : Machine} (reliable : m.Reliable) :
    (tested.foldl (Machine.tested scope) m).Reliable := by
  induction tested generalizing m with
  | nil => exact reliable
  | cons link rest ih =>
    exact ih (tracedReliable _ (setLineReliable link.line reliable))

end Traced
end Machine

namespace Engine
variable {around : Surroundings} {ref : ContextRef}

theorem afterEvaluateCondition (e : Expr) (m : Machine) :
    after (evaluateCondition ref e) m = match e.test (m.scope ref) with
      | .ok (holds, lines) => (.ok holds, m.traced lines)
      | .error f => (.error f, m) := by
  simp only [evaluateCondition, afterBind, afterGet, afterLift, Expr.test]
  cases e.evalCondition (m.scope ref) with
  | error f => rfl
  | ok v =>
    obtain ⟨holds, compared⟩ := v
    cases compared with
    | none =>
      show (_, m) = (_, m.traced [])
      rw [Machine.tracedNil]
    | some what =>
      obtain ⟨left, c, right⟩ := what
      simp only [afterBind, afterLift, Verdict.lines]
      cases left.inspect with
      | error f => rfl
      | ok shown =>
        cases right.inspect with
        | error f => rfl
        | ok shown' =>
          simp only [afterTrace]
          rfl

theorem afterBranch (line : Nat) (condition : Expr) (body : Block Stmt) (otherwise : Option (Block Stmt))
    (m : Machine) :
    after (runStmt around ref (.branch line condition body otherwise)) m =
      let n := m.tested (m.scope ref) ⟨line, condition, body⟩
      match condition.test (m.scope ref) with
      | .ok (holds, _) =>
        if holds then after (runList around ref .nil body.statements) n
        else after (runOtherwise around ref otherwise) n
      | .error f => (.error f, n) := by
  simp only [runStmt, afterBind, afterModify, afterEvaluateCondition, Machine.setLineScope, Machine.tested,
    Link.lines]
  rcases condition.test (m.scope ref) with f | ⟨holds, lines⟩
  · simp only [Machine.tracedNil]
  · simp only [afterTrace, Machine.tracedAppend, runBlockStatements]
    split <;> rfl

theorem runElseOwn {body : Block Stmt} (own : ¬body.Links) :
    runElse around ref body = runList around ref .nil body.statements := by
  rcases elseCases around ref 0 body with ⟨_, _, links, _⟩ | ⟨_, _, run⟩
  · exact absurd links own
  · exact run

theorem runElseLink {s : Stmt} (branch : isBranch s = true) (opened : Nat) :
    runElse around ref ⟨opened, [s]⟩ = runStmt around ref s := by
  rw [runElse, if_pos branch]

def runChosen (around : Surroundings) (ref : ContextRef) : Option (Block Stmt) → EngineM Value
  | none => return .nil
  | some body => runList around ref .nil body.statements

def carriedOut (around : Surroundings) (ref : ContextRef) (tested : List Link)
    (outcome : Except Failure (Option (Block Stmt))) (m : Machine) : Except Failure Value × Machine :=
  let n := tested.foldl (Machine.tested (m.scope ref)) m
  match outcome with
  | .ok chosen => after (runChosen around ref chosen) n
  | .error f => (.error f, n)

theorem carriedOutCons (link : Link) (tested : List Link) (outcome : Except Failure (Option (Block Stmt))) (m : Machine) :
    carriedOut around ref (link :: tested) outcome m =
      carriedOut around ref tested outcome (m.tested (m.scope ref) link) := by
  simp only [carriedOut, List.foldl_cons, Machine.testedScope]

section Chain
variable {m : Machine} {final : Option (Block Stmt)} {links tested : List Link}
  {outcome : Except Failure (Option (Block Stmt))}

theorem linkRuns {line : Nat} {condition : Expr} {body : Block Stmt} {otherwise : Option (Block Stmt)}
    (decides : Decides (m.scope ref) final (⟨line, condition, body⟩ :: links) tested outcome)
    (behind : ∀ n tested, Decides (n.scope ref) final links tested outcome →
      after (runOtherwise around ref otherwise) n = carriedOut around ref tested outcome n) :
    after (runStmt around ref (.branch line condition body otherwise)) m = carriedOut around ref tested outcome m := by
  rw [afterBranch]
  cases decides with
  | holds holds =>
    obtain ⟨lines, test⟩ := holds
    simp only [test]
    rfl
  | fails raises =>
    simp only [raises]
    rfl
  | passes passes next =>
    obtain ⟨lines, test⟩ := passes
    rw [← m.testedScope (m.scope ref) ⟨line, condition, body⟩ ref] at next
    simp only [test, behind _ _ next, carriedOutCons]
    rfl

theorem chainRuns {s : Stmt} (chain : Chain s links final) (decides : Decides (m.scope ref) final links tested outcome) :
    after (runStmt around ref s) m = carriedOut around ref tested outcome m := by
  induction chain generalizing m tested with
  | alone line condition body =>
    refine linkRuns decides fun n tested nothing => ?_
    cases nothing
    rw [runOtherwise]
    rfl
  | last line condition body own =>
    refine linkRuns decides fun n tested nothing => ?_
    cases nothing
    rw [runOtherwise, runElseOwn own]
    rfl
  | link line condition body opened next ih =>
    refine linkRuns decides fun n tested behind => ?_
    rw [runOtherwise, runElseLink next.isBranch]
    exact ih behind

theorem testedLine (scope : Scope) (nonempty : tested ≠ []) :
    ∃ line, (tested.foldl (Machine.tested scope) m).activeJournal.line = some line := by
  obtain ⟨front, link, rfl⟩ := (List.eq_nil_or_concat tested).resolve_left nonempty
  refine ⟨link.line, ?_⟩
  rw [List.concat_eq_append, Machine.testedConcat, Machine.tracedActive, Machine.setLineActive]

end Chain

end Engine
end LineScript
