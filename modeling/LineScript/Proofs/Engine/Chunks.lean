import Mathlib.Data.List.Permutation
import LineScript.Proofs.Engine.Lockstep
import LineScript.Proofs.Engine.Reliable
import LineScript.Proofs.Script.Compose
import LineScript.Proofs.Symbol.Table

/-! A session run chunk by chunk is the session run as one source. The one run over the joined chunks
goes beside the runs over the chunks, some lines further down; between two chunks a session is closed
and opened again, and neither is noticed. -/
namespace LineScript

inductive HostProgram.Detached : HostProgram → Prop where
  | finish (outcome) : Detached (.finish outcome)
  | emit {effect next} (rest : ∀ failure, Detached (next failure)) : Detached (.emit effect next)
  | register {name target next} (rest : ∀ failure, Detached (next failure)) :
      Detached (.register name target next)

def Host.Detached (host : Host) : Prop :=
  ∀ records id arguments, (host.behaviour records id arguments).Detached

def Event.shift (lines : Nat) : Event → Event
  | .said notice => .said (notice.shift lines)
  | other => other

theorem noticesShift (lines : Nat) (events : List Event) :
    noticesOf (events.map (Event.shift lines)) = (noticesOf events).map (Notice.shift lines) := by
  induction events with
  | nil => rfl
  | cons e rest ih => cases e <;> simpa [noticesOf, Event.shift] using ih

theorem callsShift (lines : Nat) (events : List Event) :
    callsOf (events.map (Event.shift lines)) = callsOf events := by
  induction events with
  | nil => rfl
  | cons e rest ih => cases e <;> simpa [callsOf, Event.shift] using ih

structure Core where
  symbols : SymbolTable
  globals : Bindings Value
  main : Context
  strict : Bool
  records : List HostRecord

def Machine.core (m : Machine) : Core := ⟨m.symbols, m.globals, m.main, m.strict, m.records⟩

structure Core.Settled (c : Core) : Prop where
  frozen : c.symbols.frozen = true
  layered : c.main.parent = c.globals

namespace Engine

structure Since (before : List Event) (effects : List Effect) (events : List Event) (m : Machine) : Prop where
  history : m.history = before ++ events
  effects : m.journal.effects = effects ++ effectsOf events

/- `a` is in the run of a chunk, `b` at the same point of the one run. -/
structure Beside (lines : Nat) (before before' : List Event) (earlier : List Effect) (known : Bool)
    (a b : Machine) : Prop where
  core : b.core = a.core
  settled : a.core.Settled
  reliable : a.Reliable ∧ b.Reliable
  onMain : a.onMain = true ∧ b.onMain = true
  line : known = true → ∃ line, a.journal.line = some line ∧ b.journal.line = some (line + lines)
  happened : ∃ events, Since before [] events a ∧
    Since before' earlier (events.map (Event.shift lines)) b

section Steps
variable {lines : Nat} {before before' : List Event} {earlier : List Effect} {known : Bool} {a b : Machine}
  (beside : Beside lines before before' earlier known a b)
include beside

theorem Beside.atLine (line : Nat) :
    Beside lines before before' earlier true (a.setLine line) (b.setLine (line + lines)) := by
  rw [Machine.setLineOnMain beside.onMain.1, Machine.setLineOnMain beside.onMain.2]
  obtain ⟨events, left, right⟩ := beside.happened
  exact { beside with
    line := fun _ => ⟨line, rfl, rfl⟩
    happened := ⟨events, ⟨left.history, left.effects⟩, ⟨right.history, right.effects⟩⟩ }

theorem Beside.announced (notice : Notice) :
    Alike Eq (after (announce notice) a).1 (after (announce (notice.shift lines)) b).1 ∧
      Beside lines before before' earlier known (after (announce notice) a).2
        (after (announce (notice.shift lines)) b).2 := by
  obtain ⟨stream, unlimited, left⟩ := announceReliable beside.reliable.1 notice
  obtain ⟨stream', unlimited', right⟩ := announceReliable beside.reliable.2 (notice.shift lines)
  rw [left, right, Machine.sayOnMain beside.onMain.1, Machine.sayOnMain beside.onMain.2]
  obtain ⟨events, first, second⟩ := beside.happened
  refine ⟨.ok rfl, ?_⟩
  exact { beside with
    reliable := ⟨unlimited, unlimited'⟩
    happened := by
      refine ⟨events ++ [.said notice], ⟨?_, ?_⟩, ⟨?_, ?_⟩⟩
      · simp [first.history]
      · simp [first.effects, effectsOf, noticesOf]
      · simp [second.history, Event.shift]
      · simp [second.effects, effectsOf, noticesOf, Event.shift] }

theorem Beside.called (name : String) (arguments : List Value) :
    Beside lines before before' earlier known (a.log (.called name arguments))
      (b.log (.called name arguments)) := by
  obtain ⟨events, first, second⟩ := beside.happened
  exact { beside with
    happened := by
      refine ⟨events ++ [.called name arguments], ⟨?_, ?_⟩, ⟨?_, ?_⟩⟩
      · simp [Machine.log, first.history]
      · simp [Machine.log, first.effects, effectsOf, noticesOf]
      · simp [Machine.log, second.history, Event.shift]
      · simp [Machine.log, second.effects, effectsOf, noticesOf, Event.shift] }

theorem Beside.step {main main' : Context} {records records' : List HostRecord}
    (trace trace' : List String) (layered : main.parent = a.globals) (sameMain : main' = main)
    (sameRecords : records' = records) :
    Beside lines before before' earlier known
      { a with main := main, records := records, trace := trace }
      { b with main := main', records := records', trace := trace' } := by
  have core := beside.core
  obtain ⟨events, first, second⟩ := beside.happened
  simp only [Machine.core, Core.mk.injEq] at core
  obtain ⟨symbols, globals, -, strict, -⟩ := core
  exact { beside with
    core := by simp only [Machine.core, symbols, globals, strict, sameMain, sameRecords]
    settled := ⟨beside.settled.frozen, layered⟩
    happened := ⟨events, ⟨first.history, first.effects⟩, ⟨second.history, second.effects⟩⟩ }

theorem Beside.traced (trace trace' : List String) :
    Beside lines before before' earlier known { a with trace := trace } { b with trace := trace' } :=
  beside.step trace trace' beside.settled.layered (congrArg Core.main beside.core)
    (congrArg Core.records beside.core)

theorem Beside.assigned (name : String) (value : Value) :
    Beside lines before before' earlier known (a.assign .main name value) (b.assign .main name value) :=
  have main : b.main = a.main := congrArg Core.main beside.core
  beside.step a.trace b.trace beside.settled.layered (by rw [main]) (congrArg Core.records beside.core)

theorem Beside.recorded (r : HostRecord) :
    Beside lines before before' earlier known (a.record r) (b.record r) :=
  have records : b.records = a.records := congrArg Core.records beside.core
  beside.step a.trace b.trace beside.settled.layered (congrArg Core.main beside.core) (by rw [records])

theorem Beside.scope : b.scope .main = a.scope .main := by
  have core := beside.core
  simp only [Machine.core, Core.mk.injEq] at core
  obtain ⟨-, -, main, strict, -⟩ := core
  have lookup : b.lookup .main = a.lookup .main := by
    funext name
    simp only [Machine.lookup, Machine.context?, main]
  simp only [Machine.scope, lookup, strict]

end Steps

section Calls
variable {left right : Surroundings} {lines : Nat} {before before' : List Event}
  {earlier : List Effect}

theorem traceTogether (message : String) :
    Together (Beside lines before before' earlier true) Eq (trace message) (trace message) := by
  apply togetherModify
  intro a b beside
  split
  · split
    · exact beside.traced _ _
    · exact beside.traced _ b.trace
  · split
    · exact beside.traced a.trace _
    · exact beside

theorem performTogether {program : HostProgram} (detached : program.Detached) :
    Together (Beside lines before before' earlier true) Eq (perform left program) (perform right program) := by
  induction detached with
  | finish outcome => exact togetherPure rfl
  | @emit effect next rest ih =>
    have announced : Together (Beside lines before before' earlier true) Eq (emit effect) (emit effect) :=
      fun a b beside => beside.announced (.plain effect)
    refine (attemptTogether announced).bind (fun failure other same => ?_)
    subst same
    exact ih failure
  | @register name target next rest ih =>
    have refused : Together (Beside lines before before' earlier true) Eq
        (register name target) (register name target) := by
      refine togetherGet.bind (fun a b beside => ?_)
      have symbols : b.symbols = a.symbols := congrArg Core.symbols beside.core
      have frozen : a.symbols.frozen = true := beside.settled.frozen
      rw [symbols, SymbolTable.registerFrozen frozen]
      exact togetherThrow _
    refine (attemptTogether refused).bind (fun failure other same => ?_)
    subst same
    exact ih failure

theorem callStandardTogether (same : right.host = left.host) (function : Standard)
    (arguments : List Value) :
    Together (Beside lines before before' earlier true) Eq (callStandard left function arguments)
      (callStandard right function arguments) := by
  unfold callStandard
  rw [same]
  split
  · refine (togetherLift _).bind (fun message other same => ?_)
    subst same
    refine (togetherLift _).bind (fun topic other same => ?_)
    subst same
    exact Together.bind (fun a b beside => beside.announced (.plain ⟨[topic], message⟩))
      (fun _ _ _ => togetherPure rfl)
  · exact togetherPure rfl
  · refine togetherGet.bind (fun a b beside => ?_)
    have records : b.records = a.records := congrArg Core.records beside.core
    rw [records]
    exact togetherPure rfl
  · exact togetherPure rfl

theorem invokeTogether (same : right.host = left.host) (detached : left.host.Detached)
    (routine : Routine Value) (arguments : List Value) :
    Together (Beside lines before before' earlier true) Eq (invoke left routine arguments)
      (invoke right routine arguments) := by
  unfold invoke
  split
  · exact togetherThrow _
  · split
    · refine (callStandardTogether same _ _).bind (fun value other same => ?_)
      subst same
      exact togetherPure rfl
    · refine (togetherModify (fun a b beside => beside.recorded _)).bind (fun _ _ _ => ?_)
      refine togetherGet.bind (fun a b beside => ?_)
      have records : b.records = a.records := congrArg Core.records beside.core
      rw [records, same]
      exact performTogether (detached _ _ _)

theorem dispatchToTogether (same : right.host = left.host) (detached : left.host.Detached)
    (b : Builtin Value) (values : List Value) :
    Together (Beside lines before before' earlier true) Eq (dispatchTo left b values)
      (dispatchTo right b values) := by
  unfold dispatchTo
  split
  · split
    · exact togetherPure rfl
    · exact togetherThrow _
  · refine (traceTogether _).bind (fun _ _ _ => ?_)
    refine (togetherModify (fun a b beside => beside.called _ _)).bind (fun _ _ _ => ?_)
    refine Together.bind ((invokeTogether same detached _ _).tryCatch fun f => togetherPure rfl)
      (fun ended other same => ?_)
    subst same
    exact togetherLift _

theorem dispatchTogether (same : right.host = left.host) (detached : left.host.Detached)
    (path : String) (values : List Value) (shown : String → Option Value) :
    Together (Beside lines before before' earlier true) Eq (dispatch left path values shown)
      (dispatch right path values shown) := by
  refine togetherGet.bind (fun a b beside => ?_)
  have symbols : b.symbols = a.symbols := congrArg Core.symbols beside.core
  rw [symbols]
  split
  · exact dispatchToTogether same detached _ _
  · split
    · exact togetherPure rfl
    · exact togetherThrow _

theorem runCallTogether (same : right.host = left.host) (detached : left.host.Detached) (offset line : Nat)
    (path : String) (arguments : List Expr) :
    Together (Beside lines before before' earlier true) Any (runCall left .main line path arguments)
      (runCall right .main (line + lines) path (arguments.map (Expr.shift offset lines))) := by
  refine (evaluateAllTogether (fun a b beside => beside.scope) arguments).bind (fun values other equal => ?_)
  subst equal
  refine togetherGet.bind (fun a b beside => ?_)
  have lookup : b.lookup .main = a.lookup .main := congrArg Scope.lookup beside.scope
  rw [lookup]
  refine (dispatchTogether same detached path values _).bind (fun outcome other equal => ?_)
  subst equal
  rw [CallOutcome.noticesShift]
  refine (announceAllTogether (fun notice a b beside => beside.announced notice) _).bind (fun _ _ _ => ?_)
  exact togetherPure trivial

theorem besidePaced (lines : Nat) (before before' : List Event) (earlier : List Effect) :
    Paced .main lines (Beside lines before before' earlier) where
  forget known a b beside := { beside with line := fun _ => beside.line rfl }
  atLine known a b line beside := beside.atLine line
  reached a b line beside := by
    obtain ⟨reached, left, right⟩ := beside.line rfl
    rw [Machine.activeOnMain beside.onMain.1, Machine.activeOnMain beside.onMain.2, left, right]
    rfl
  scope a b beside := beside.scope
  assigned a b name value beside := beside.assigned name value
  traced := traceTogether
  announced known notice a b beside := beside.announced notice

theorem besideLockstep (same : right.host = left.host) (detached : left.host.Detached) (offset : Nat) :
    Lockstep left right .main offset lines (Beside lines before before' earlier) where
  toPaced := besidePaced lines before before' earlier
  called known line path arguments :=
    guardedTogether (besidePaced lines before before' earlier) known line
      (runCallTogether same detached offset line path arguments)

end Calls

structure Between (a b : Machine) : Prop where
  core : b.core = { a.core with
    symbols := a.symbols.freeze
    main := { a.main with parent := a.globals } }
  reliable : a.Reliable ∧ b.Reliable
  onMain : b.onMain = true

theorem Between.opened {a b : Machine} (between : Between a b) (lines : Nat) :
    Beside lines (a.history ++ [.started .session]) b.history b.journal.effects false
      (opened a .session).1 b where
  core := between.core
  settled := ⟨rfl, rfl⟩
  reliable := between.reliable
  onMain := ⟨rfl, between.onMain⟩
  line := by simp
  happened := by
    refine ⟨[], ⟨?_, rfl⟩, ⟨?_, ?_⟩⟩
    · simp [Engine.opened, enter, Machine.log]
    · simp
    · simp [effectsOf, noticesOf]

structure Matched (lines : Nat) (a : Machine) (result : RunResult) (a' b b' : Machine) : Prop where
  between : Between a' b'
  happened : ∃ events,
    a'.history = a.history ++ .started .session :: (events ++ [.ended result]) ∧
    result.effects = effectsOf events ∧
    Since b.history b.journal.effects (events.map (Event.shift lines)) b'

theorem Beside.closed {lines : Nat} {a b a' b' : Machine} {known : Bool}
    (beside : Beside lines (a.history ++ [.started .session]) b.history b.journal.effects known a' b')
    (value : Value) :
    Matched lines a (resultOf (.ok value) a').1
      ({ (resultOf (.ok value) a').2 with frames := a'.frames.drop 1 }.log
        (.ended (resultOf (.ok value) a').1)) b b' := by
  obtain ⟨frozen, layered⟩ := beside.settled
  obtain ⟨events, first, second⟩ := beside.happened
  refine ⟨⟨?_, beside.reliable, beside.onMain.2⟩, events, ?_, ?_, second⟩
  · have symbols : a'.symbols.freeze = a'.symbols := by
      show { a'.symbols with frozen := true } = a'.symbols
      rw [← show a'.symbols.frozen = true from frozen]
    have main : { a'.main with parent := a'.globals } = a'.main := by
      rw [← show a'.main.parent = a'.globals from layered]
    show b'.core = ⟨a'.symbols.freeze, a'.globals, { a'.main with parent := a'.globals }, a'.strict, a'.records⟩
    rw [symbols, main]
    exact beside.core
  · show a'.history ++ [_] = _
    simp [first.history]
  · show a'.activeJournal.effects = _
    simpa [Machine.activeOnMain beside.onMain.1] using first.effects

theorem chunkMatched {around : Surroundings} {a b : Machine} (between : Between a b)
    (detached : around.host.Detached) (nested : around.Reliable) {chunk : List Char}
    (clean : (parse chunk).diagnostics = []) (offset lines : Nat) (value : Value) :
    let ran := after (runList around .main value (shiftList offset lines (parse chunk).statements)) b
    let (result, n) := execute around .session (parse chunk) a
    Matched lines a result n b ran.2 ∧ ∃ last, ran.1 = .ok last := by
  have lockstep : Lockstep around around .main offset lines
      (Beside lines (a.history ++ [.started .session]) b.history b.journal.effects) :=
    besideLockstep rfl detached offset
  have beside := between.opened lines
  obtain ⟨alike, still⟩ := (runTogether lockstep).2 (parse chunk).statements false .nil value _ _ beside
  obtain ⟨last, ended⟩ :=
    runListReliable (reliableSteps .main nested) (parse chunk).statements .nil beside.reliable.1
  have ran : ranIn around .session (parse chunk) a =
      after (runList around .main .nil (parse chunk).statements) (opened a .session).1 := by
    simp only [ranIn, runProgram, clean, List.map_nil, announceAll, afterBind, afterPure]
    rfl
  rw [executeOpened, ran, ended]
  rw [ended] at alike
  refine ⟨still.closed last, ?_⟩
  generalize (after (runList around .main value _) b).1 = outcome at alike ⊢
  cases alike with
  | ok _ => exact ⟨_, rfl⟩

end Engine

structure Turn where
  lines : Nat
  result : RunResult
  events : List Event

def Machine.since (n m : Machine) : List Event := n.history.drop m.history.length

def Machine.runInTurn (host : Host) (lines : Nat) (m : Machine) : List (List Char) → List Turn × Machine
  | [] => ([], m)
  | chunk :: rest =>
    let (result, n) := m.run host .session chunk
    let (turns, last) := n.runInTurn host (lineCount chunk + lines) rest
    (⟨lines, result, n.since m⟩ :: turns, last)

namespace Engine

def toldBy (turns : List Turn) : List Notice :=
  turns.flatMap fun turn => (noticesOf turn.events).map (Notice.shift turn.lines)

theorem turnsMatched {around : Surroundings} {host : Host} (same : around.host = host)
    (detached : host.Detached) (nested : around.Reliable)
    (runs : ∀ m place source, Machine.run m host place source = execute around place (parse source) m)
    (chunks : List (List Char))
    (standalone : ∀ chunk ∈ chunks, Standalone chunk) {a b : Machine} (between : Between a b)
    (offset lines : Nat) (value : Value) :
    let ran := after (runList around .main value (statementsBelow offset lines chunks)) b
    let (turns, last) := a.runInTurn host lines chunks
    Between last ran.2 ∧ (∃ last, ran.1 = .ok last) ∧
      (∀ turn ∈ turns, turn.result.effects = effectsOf turn.events) ∧
      ∃ events, Since b.history b.journal.effects events ran.2 ∧ noticesOf events = toldBy turns ∧
        callsOf events = turns.flatMap fun turn => callsOf turn.events := by
  induction chunks generalizing a b offset lines value with
  | nil =>
    refine ⟨between, ⟨value, rfl⟩, by simp, [], ⟨?_, ?_⟩, rfl, rfl⟩
    · simp [statementsBelow, runList]
    · simp [statementsBelow, runList, effectsOf, noticesOf]
  | cons chunk rest ih =>
    have first := chunkMatched between (same ▸ detached) nested (standalone chunk (by simp)).clean
      offset lines value
    simp only [statementsBelow, runListAppend, afterBind, Machine.runInTurn, runs]
    generalize execute around .session (parse chunk) a = ended at first ⊢
    generalize after (runList around .main value _) b = ran at first ⊢
    obtain ⟨result, n⟩ := ended
    obtain ⟨outcome, b'⟩ := ran
    obtain ⟨⟨between', events, history, effects, since⟩, last, rfl⟩ := first
    have mine : n.since a = .started .session :: (events ++ [.ended result]) := by
      simp [Machine.since, history]
    have notices : noticesOf (n.since a) = noticesOf events := by
      rw [mine]
      simp [noticesOf]
    have calls : callsOf (n.since a) = callsOf events := by
      rw [mine]
      simp [callsOf]
    have next := ih (fun chunk member => standalone chunk (by simp [member])) between'
      (chunk.length + 1 + offset) (lineCount chunk + lines) last
    simp only
    generalize n.runInTurn host (lineCount chunk + lines) rest = others at next ⊢
    obtain ⟨turns, end'⟩ := others
    obtain ⟨lastBetween, ok, each, more, since', told, called⟩ := next
    refine ⟨lastBetween, ok, ?_, events.map (Event.shift lines) ++ more, ⟨?_, ?_⟩, ?_, ?_⟩
    · intro turn member
      rcases List.mem_cons.mp member with rfl | later
      · simp only [effects, effectsOf, notices]
      · exact each turn later
    · rw [since'.history, since.history, List.append_assoc]
    · rw [since'.effects, since.effects, List.append_assoc]
      simp only [effectsOf, noticesAppend, List.map_append]
    · rw [noticesAppend, noticesShift, told, ← notices]
      simp [toldBy]
    · rw [callsAppend, callsShift, called, ← calls]
      simp

end Engine

/- One run over the joined chunks leaves the bindings of the runs in turn, has called the same
functions with the same arguments in the same order, and returns their effects one after the other,
with the lines of reports counted from the start of the whole. -/
theorem sessionInChunks (host : Host) (detached : host.Detached) (m : Machine) (reliable : m.Reliable)
    (chunks : List (List Char)) (nonempty : chunks ≠ [])
    (standalone : ∀ chunk ∈ chunks, Standalone chunk) :
    let (turns, last) := m.runInTurn host 0 chunks
    let (result, n) := m.run host .session (['\n'].intercalate chunks)
    n.main.bindings = last.main.bindings ∧
      n.records = last.records ∧
      callsOf (n.since m) = (turns.flatMap fun turn => callsOf turn.events) ∧
      (∀ turn ∈ turns, turn.result.effects = (noticesOf turn.events).map Notice.effect) ∧
      result.effects = turns.flatMap fun turn =>
        (noticesOf turn.events).map fun notice => (notice.shift turn.lines).effect := by
  obtain ⟨first, others, rfl⟩ := List.exists_cons_of_ne_nil nonempty
  obtain ⟨around, same, nested, runs⟩ := Engine.runAround host
  have between : Engine.Between m (Engine.opened m .session).1 := ⟨rfl, ⟨reliable, reliable⟩, rfl⟩
  have matched := Engine.turnsMatched same detached nested runs (first :: others) standalone between
    0 0 .nil
  have whole : m.run host .session (['\n'].intercalate (first :: others)) =
      Engine.execute around .session ⟨statementsBelow 0 0 (first :: others), []⟩ m := by
    rw [runs, (parseJoined first others standalone).1]
  have ran : Engine.ranIn around .session ⟨statementsBelow 0 0 (first :: others), []⟩ m =
      Engine.after (Engine.runList around .main .nil (statementsBelow 0 0 (first :: others)))
        (Engine.opened m .session).1 := rfl
  rw [whole, Engine.executeOpened, ran]
  generalize Engine.after (Engine.runList around .main .nil _) _ = ended at matched ⊢
  generalize m.runInTurn host 0 (first :: others) = inTurn at matched ⊢
  obtain ⟨outcome, n⟩ := ended
  obtain ⟨turns, last⟩ := inTurn
  obtain ⟨between', ⟨value, rfl⟩, each, events, since, told, called⟩ := matched
  have happened : n.history = m.history ++ .started .session :: events := by
    rw [since.history]
    simp [Engine.opened, Engine.enter, Machine.log]
  refine ⟨?_, ?_, ?_, each, ?_⟩
  · exact congrArg (·.main.bindings) between'.core
  · exact congrArg Core.records between'.core
  · rw [← called]
    simp [Machine.since, Machine.log, happened, callsOf]
  · show n.activeJournal.effects = _
    rw [Machine.activeOnMain between'.onMain, since.effects, effectsOf, told, Engine.toldBy]
    simp [Engine.opened, Engine.enter, List.map_flatMap, Function.comp_def]

theorem sessionInTwoChunks :
    let bell : HostFunction Value := .plain 0 "bell" ⟨"bell", [], none, [], 0⟩
    let host : Host := .behaving fun _ _ _ => .emit ⟨["bell"], "rung"⟩ (.orRaise (.pure .nil))
    let m := Machine.idle ⟨[("bell", .builtin (.ofRoutine "bell" (.host bell)))], false⟩
    (m.run host .session (['\n'].intercalate ["let x = 1".toList, "bell()".toList])).2.main.bindings =
      (m.runInTurn host 0 ["let x = 1".toList, "bell()".toList]).2.main.bindings := by
  intro bell host m
  have detached : host.Detached := by
    intro records id arguments
    refine .emit (fun failure => ?_)
    cases failure with
    | none => exact .finish _
    | some f => exact .finish _
  have standalone : ∀ chunk ∈ ["let x = 1".toList, "bell()".toList], Standalone chunk := by
    simp only [List.forall_mem_cons, List.not_mem_nil, false_implies, implies_true, and_true]
    exact ⟨⟨Parser.flatClean (by cbv), by cbv⟩, ⟨Parser.flatClean (by cbv), by cbv⟩⟩
  have same := sessionInChunks host detached m (Machine.idleReliable _) _ (by simp) standalone
  exact same.1

end LineScript
