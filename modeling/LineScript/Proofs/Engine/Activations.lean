import LineScript.Proofs.Engine.Act
import LineScript.Proofs.Script.Levels

/-! Blocks that run inside each other. A watched run notes every block that it enters, with the number
of blocks of the same run that are open then; for the rest it is the run itself. Links of a chain
enter no block, so a program that is parsed never has more than a few blocks open above those that it
may nest. -/
namespace LineScript
namespace Engine

structure Activation where
  depth : Nat
  statements : List Stmt

abbrev WatchM := ExceptT Failure (StateM (Machine × List Activation))

def unwatched {α : Type} (act : EngineM α) : WatchM α := fun (m, seen) =>
  let (outcome, n) := after act m
  (outcome, (n, seen))

def activate (depth : Nat) (statements : List Stmt) : WatchM Unit :=
  modify fun (m, seen) => (m, seen ++ [⟨depth, statements⟩])

def watchGuarded (line : Nat) (act : WatchM Value) : WatchM Value := do
  unwatched (modify (·.setLine line))
  tryCatch act fun f => unwatched do
    report (failureText f) (some ((← get).activeJournal.line.getD line))
    return .nil

section Watch
variable (around : Surroundings) (ref : ContextRef)

mutual

def watchStmt (depth : Nat) : Stmt → WatchM Value
  | .block body => watchBlock depth body
  | .branch line condition thenBody otherwise => do
    unwatched (modify (·.setLine line))
    let holds ← unwatched (evaluateCondition ref condition)
    unwatched (trace ("if " ++ condition.text ++ " -> " ++ Value.truthText holds))
    if holds then watchBlock depth thenBody else watchOtherwise depth otherwise
  | s => unwatched (runStmt around ref s)

def watchBlock (depth : Nat) : Block Stmt → WatchM Value
  | ⟨_, statements⟩ => do
    activate (depth + 1) statements
    watchList (depth + 1) .nil statements

def watchOtherwise (depth : Nat) : Option (Block Stmt) → WatchM Value
  | none => return .nil
  | some body => watchElse depth body

def watchElse (depth : Nat) : Block Stmt → WatchM Value
  | ⟨_, [s]⟩ =>
    if isBranch s then watchStmt depth s
    else do
      activate (depth + 1) [s]
      watchGuarded s.line (watchStmt (depth + 1) s)
  | ⟨_, statements⟩ => do
    activate (depth + 1) statements
    watchList (depth + 1) .nil statements

def watchList (depth : Nat) (value : Value) : List Stmt → WatchM Value
  | [] => return value
  | s :: rest => do
    let value ← watchGuarded s.line (watchStmt depth s)
    watchList depth value rest

end

def watchProgram (p : Program) : WatchM Value := do
  unwatched (announceAll (p.diagnostics.map syntaxNotice))
  activate 1 p.statements
  watchList around ref 1 .nil p.statements

end Watch

/- A watched act does what the act does, and notes only what is allowed. -/
def Watches {α : Type} (allowed : Activation → Prop) (watch : WatchM α) (act : EngineM α) : Prop :=
  ∀ m seen, ∃ noted, watch (m, seen) = ((after act m).1, ((after act m).2, seen ++ noted)) ∧
    ∀ a ∈ noted, allowed a

section Closure
variable {α β : Type} {allowed : Activation → Prop}

theorem watchesPlain (act : EngineM α) : Watches allowed (unwatched act) act :=
  fun m seen => ⟨[], by simp [unwatched], by simp⟩

theorem watchesPure (value : α) : Watches allowed (pure value) (pure value) :=
  fun m seen => ⟨[], by rw [List.append_nil]; rfl, by simp⟩

theorem Watches.bind {watch : WatchM α} {act : EngineM α} {watchNext : α → WatchM β}
    {next : α → EngineM β} (one : Watches allowed watch act)
    (two : ∀ value, Watches allowed (watchNext value) (next value)) :
    Watches allowed (watch >>= watchNext) (act >>= next) := by
  intro m seen
  obtain ⟨noted, same, first⟩ := one m seen
  have unfolded : (watch >>= watchNext) (m, seen) =
    ExceptT.bindCont watchNext (watch (m, seen)).1 (watch (m, seen)).2 := rfl
  rw [unfolded, same, afterBind]
  rcases after act m with ⟨outcome, n⟩
  cases outcome with
  | ok value =>
    obtain ⟨more, goesOn, second⟩ := two value n (seen ++ noted)
    refine ⟨noted ++ more, by rw [← List.append_assoc]; exact goesOn, ?_⟩
    intro a member
    exact (List.mem_append.mp member).elim (first a) (second a)
  | error f => exact ⟨noted, rfl, first⟩

theorem Watches.caught {watch : WatchM α} {act : EngineM α} (one : Watches allowed watch act)
    (handler : Failure → EngineM α) :
    Watches allowed (tryCatch watch fun f => unwatched (handler f)) (tryCatch act handler) := by
  intro m seen
  obtain ⟨noted, same, first⟩ := one m seen
  refine ⟨noted, ?_, first⟩
  simp only [tryCatch, tryCatchThe, MonadExceptOf.tryCatch, ExceptT.tryCatch, ExceptT.mk, Bind.bind,
    StateT.bind, after, same]
  simp only [after] at same ⊢
  rcases act m with ⟨outcome, n⟩
  cases outcome <;> rfl

theorem Watches.guarded {watch : WatchM Value} {act : EngineM Value} (one : Watches allowed watch act)
    (line : Nat) : Watches allowed (watchGuarded line watch) (guarded line act) :=
  (watchesPlain _).bind fun _ => one.caught _

theorem Watches.activated {watch : WatchM α} {act : EngineM α} {depth : Nat} {statements : List Stmt}
    (inner : Watches allowed watch act) (here : allowed ⟨depth, statements⟩) :
    Watches allowed (activate depth statements >>= fun _ => watch) act := by
  intro m seen
  obtain ⟨noted, same, others⟩ := inner m (seen ++ [⟨depth, statements⟩])
  refine ⟨⟨depth, statements⟩ :: noted, ?_, List.forall_mem_cons.mpr ⟨here, others⟩⟩
  rw [List.append_assoc] at same
  exact same

end Closure

def Activation.Within (most : Nat) (a : Activation) : Prop :=
  a.depth ≤ most + 1 ∧ (a.depth = most + 1 → a.statements = [])

section Run
variable {around : Surroundings} {ref : ContextRef} {most depth room : Nat}

theorem bodyWatched {body : Block Stmt} (fits : body.Fits room) (enough : depth + room ≤ most)
    (list : ∀ left, Fits left body.statements → depth + 1 + left ≤ most →
      Watches (Activation.Within most) (watchList around ref (depth + 1) .nil body.statements)
        (runList around ref .nil body.statements)) :
    Watches (Activation.Within most)
      (activate (depth + 1) body.statements >>= fun _ => watchList around ref (depth + 1) .nil body.statements)
      (runList around ref .nil body.statements) := by
  rcases fits.entered with empty | ⟨left, rfl, inner⟩
  · rw [empty]
    refine Watches.activated ?_ ⟨by dsimp only; omega, fun _ => rfl⟩
    rw [watchList, runList]
    exact watchesPure _
  · refine (list left inner (by omega)).activated ⟨?_, ?_⟩
    · dsimp only
      omega
    · dsimp only
      omega

theorem linksOfBranch {line : Nat} {s : Stmt} (isBranch : isBranch s = true) : (Block.mk line [s]).Links := by
  cases s with
  | branch line condition thenBody otherwise => exact ⟨_, _, _, _, rfl⟩
  | _ => cases isBranch

theorem elseCases (around : Surroundings) (ref : ContextRef) (depth : Nat) (body : Block Stmt) :
    (∃ s, body.statements = [s] ∧ body.Links ∧ watchElse around ref depth body = watchStmt around ref depth s ∧
        runElse around ref body = runStmt around ref s) ∨
      ¬body.Links ∧
        watchElse around ref depth body = (activate (depth + 1) body.statements >>= fun _ =>
          watchList around ref (depth + 1) .nil body.statements) ∧
        runElse around ref body = runList around ref .nil body.statements := by
  obtain ⟨line, statements⟩ := body
  match statements with
  | [] => exact .inr ⟨by simp [Block.Links], by simp only [watchElse], by simp only [runElse]⟩
  | [s] =>
    by_cases link : isBranch s = true
    · refine .inl ⟨s, rfl, linksOfBranch link, ?_, ?_⟩
      · simp only [watchElse, if_pos link]
      · simp only [runElse, if_pos link]
    · refine .inr ⟨?_, ?_, ?_⟩
      · rintro ⟨_, _, _, _, same⟩
        cases same
        exact link rfl
      · simp only [watchElse, watchList, if_neg link, bind_pure]
      · simp only [runElse, runList, if_neg link, bind_pure]
  | s :: t :: rest =>
    exact .inr ⟨by simp [Block.Links], by simp only [watchElse], by simp only [runElse]⟩

theorem runWatched (around : Surroundings) (ref : ContextRef) (most : Nat) :
    (∀ s room depth, Fits room [s] → depth + room ≤ most →
      Watches (Activation.Within most) (watchStmt around ref depth s) (runStmt around ref s)) ∧
    ∀ statements room depth value, Fits room statements → depth + room ≤ most →
      Watches (Activation.Within most) (watchList around ref depth value statements)
        (runList around ref value statements) := by
  apply Stmt.induction
  case block =>
    intro line statements list room depth fits enough
    rw [watchStmt, watchBlock, runStmt, runBlock]
    exact bodyWatched (fun d t stands => fits (d + 1) t (.block List.mem_cons_self stands)) enough
      (fun left inner less => list left (depth + 1) .nil inner less)
  case assign => exact fun line name value room depth _ _ => watchesPlain _
  case print => exact fun line value room depth _ _ => watchesPlain _
  case branch =>
    intro line condition thenBody otherwise thenList otherwiseLists room depth fits enough
    rw [watchStmt, runStmt]
    refine (watchesPlain _).bind fun _ => (watchesPlain _).bind fun holds => (watchesPlain _).bind fun _ => ?_
    by_cases chosen : holds = true
    · obtain ⟨opened, statements⟩ := thenBody
      rw [if_pos chosen, if_pos chosen, watchBlock, runBlock]
      exact bodyWatched (fun d t stands => fits (d + 1) t (.thenBody List.mem_cons_self stands)) enough
        (fun left inner less => thenList left (depth + 1) .nil inner less)
    · rw [if_neg chosen, if_neg chosen]
      cases otherwise with
      | none =>
        rw [watchOtherwise, runOtherwise]
        exact watchesPure _
      | some body =>
        obtain ⟨list, each⟩ := otherwiseLists body rfl
        rw [watchOtherwise, runOtherwise]
        rcases elseCases around ref depth body with ⟨s, same, links, watch, run⟩ | ⟨own, watch, run⟩
        · rw [watch, run]
          refine each s (by simp [same]) room depth (fun d t stands => ?_) enough
          exact fits d t (.link List.mem_cons_self links (same ▸ stands))
        · rw [watch, run]
          exact bodyWatched (fun d t stands => fits (d + 1) t (.elseBody List.mem_cons_self own stands)) enough
            (fun left inner less => list left (depth + 1) .nil inner less)
  case call => exact fun line path arguments room depth _ _ => watchesPlain _
  case unknown => exact fun line text why room depth _ _ => watchesPlain _
  case nil =>
    intro room depth value _ _
    rw [watchList, runList]
    exact watchesPure _
  case cons =>
    intro s rest first others room depth value fits enough
    rw [watchList, runList]
    have here := first room depth (fits.among (by simp)) enough
    have later : Fits room rest := fits.among (List.subset_cons_self s rest)
    exact (here.guarded s.line).bind fun value => others room depth value later enough

theorem programWatched (around : Surroundings) (ref : ContextRef) {p : Program} (fits : Fits room p.statements) :
    Watches (Activation.Within (room + 1)) (watchProgram around ref p) (runProgram around ref p) := by
  have list := (runWatched around ref (room + 1)).2 p.statements room 1 .nil fits (by omega)
  refine (watchesPlain _).bind fun _ => list.activated ⟨?_, ?_⟩
  · dsimp only
    omega
  · dsimp only
    omega

end Run
end Engine

/- How deep the statements of a program stand, and how many blocks a run of it has open. -/
theorem nestingBounded (source : List Char) :
    (∀ depth s, Stands depth s (parse source).statements → depth ≤ 100) ∧
      ∀ (around : Surroundings) (ref : ContextRef) (m : Machine), ∃ activations,
        Engine.watchProgram around ref (parse source) (m, []) =
          ((Engine.after (Engine.runProgram around ref (parse source)) m).1,
            ((Engine.after (Engine.runProgram around ref (parse source)) m).2, activations)) ∧
        ∀ a ∈ activations, a.depth ≤ 102 ∧ (a.depth = 102 → a.statements = []) := by
  have fits := programFits source maxNesting
  refine ⟨fits, fun around ref m => ?_⟩
  obtain ⟨activations, same, within⟩ := Engine.programWatched around ref fits m []
  exact ⟨activations, same, within⟩

end LineScript
