import LineScript.Proofs.Engine.Lockstep
import LineScript.Proofs.Engine.Reliable
import LineScript.Proofs.Script.Compose

/-! What a host returns or raises does not reach the script. Two runs whose functions look the same
from outside take the same branches, assign the same values and make the same calls; they part only
in what the engine reports of the calls. -/
namespace LineScript

/- What functions do is not compared, only how many arguments they take. -/
inductive Routine.Alike : Routine Value → Routine Value → Prop where
  | standard (function) : Alike (.standard function) (.standard function)
  | host {f g} (accepts : ∀ arguments,
      (f.signature.bind arguments).isOk = (g.signature.bind arguments).isOk) : Alike (.host f) (.host g)

structure Builtin.Alike (b c : Builtin Value) : Prop where
  name : c.name = b.name
  descriptor : c.descriptor = b.descriptor
  routine : b.routine.Alike c.routine

inductive Entry.Alike : Entry → Entry → Prop where
  | builtin {b c} (alike : b.Alike c) : Alike (.builtin b) (.builtin c)
  | group {members others} (alike : ∀ name,
      Option.Rel Builtin.Alike (Bindings.get? members name) (Bindings.get? others name)) :
      Alike (.group members) (.group others)

def SymbolTable.Alike (t u : SymbolTable) : Prop :=
  ∀ name, Option.Rel Entry.Alike (t.entries.get? name) (u.entries.get? name)

def Host.Returning (host : Host) : Prop :=
  ∀ records id arguments, ∃ outcome, host.behaviour records id arguments = .finish outcome

theorem Builtin.alikeRefl (b : Builtin Value) : b.Alike b := by
  refine ⟨rfl, rfl, ?_⟩
  cases b.routine with
  | host f => exact .host (fun _ => rfl)
  | standard function => exact .standard function

theorem SymbolTable.resolveAlike {t u : SymbolTable} (alike : t.Alike u) (path : String)
    (shown : String → Option Value) :
    (∃ fault, t.resolve path shown = .error fault ∧ u.resolve path shown = .error fault) ∨
      ∃ b c, t.resolve path shown = .ok b ∧ u.resolve path shown = .ok c ∧ b.Alike c := by
  have same {r : Except Failure (Builtin Value)} :
      (∃ fault, r = .error fault ∧ r = .error fault) ∨ ∃ b c, r = .ok b ∧ r = .ok c ∧ b.Alike c := by
    cases r with
    | error fault => exact .inl ⟨fault, rfl, rfl⟩
    | ok b => exact .inr ⟨b, b, rfl, rfl, b.alikeRefl⟩
  unfold resolve
  split
  · have found := alike path
    generalize t.entries.get? path = left at found ⊢
    generalize u.entries.get? path = right at found ⊢
    cases found with
    | none => exact same
    | some entries =>
      cases entries with
      | builtin alike => exact .inr ⟨_, _, rfl, rfl, alike⟩
      | group _ => exact same
  · rename_i g gs m ms _
    have found := alike (String.ofList (g :: gs))
    simp only
    generalize t.entries.get? (String.ofList (g :: gs)) = left at found ⊢
    generalize u.entries.get? (String.ofList (g :: gs)) = right at found ⊢
    cases found with
    | none => exact same
    | some entries =>
      cases entries with
      | builtin _ => exact same
      | @group members others alike =>
        have found := alike (String.ofList (m :: ms))
        simp only
        generalize Bindings.get? members (String.ofList (m :: ms)) = left at found ⊢
        generalize Bindings.get? others (String.ofList (m :: ms)) = right at found ⊢
        cases found with
        | none => exact same
        | some alike => exact .inr ⟨_, _, rfl, rfl, alike⟩
  · exact same

theorem Builtin.marshalAlike {b c : Builtin Value} (alike : b.Alike c) (values : List Value) :
    c.marshal values = b.marshal values := by
  obtain ⟨name, routine, descriptor⟩ := b
  obtain ⟨name', routine', descriptor'⟩ := c
  obtain ⟨sameName, sameDescriptor, -⟩ := alike
  cases sameName
  cases sameDescriptor
  rfl

def visible (effects : List Effect) : List Effect := effects.filter (·.topics ≠ ["diagnostic"])

structure Store where
  globals : Bindings Value
  main : Context
  contexts : List Context
  strict : Bool

def Machine.store (m : Machine) : Store := ⟨m.globals, m.main, m.contexts, m.strict⟩

namespace Engine

structure Kindred (a b : Machine) : Prop where
  symbols : a.symbols.Alike b.symbols
  store : b.store = a.store
  records : b.records.length = a.records.length
  calls : callsOf b.history = callsOf a.history
  line : b.activeJournal.line = a.activeJournal.line
  shown : visible b.activeJournal.effects = visible a.activeJournal.effects
  reliable : a.Reliable ∧ b.Reliable

structure Spoke (m : Machine) (notices : List Notice) (n : Machine) : Prop where
  symbols : n.symbols = m.symbols
  store : n.store = m.store
  records : n.records = m.records
  history : n.history = m.history ++ notices.map Event.said
  active : n.activeJournal =
    ⟨m.activeJournal.effects ++ notices.map Notice.effect, m.activeJournal.line⟩
  reliable : n.Reliable

theorem announceSpoke {m : Machine} (reliable : m.Reliable) (notice : Notice) :
    ∃ n, after (announce notice) m = (.ok (), n) ∧ Spoke m [notice] n := by
  obtain ⟨stream, unlimited, done⟩ := announceReliable reliable notice
  obtain ⟨main, frames, same⟩ := m.sayKeeps notice
  have active := m.sayActive notice
  refine ⟨_, done, ?_⟩
  rw [same] at active ⊢
  exact ⟨rfl, rfl, rfl, rfl, active, unlimited⟩

theorem announceAllSpoke {m : Machine} (reliable : m.Reliable) (notices : List Notice) :
    ∃ n, after (announceAll notices) m = (.ok (), n) ∧ Spoke m notices n := by
  induction notices generalizing m with
  | nil =>
    refine ⟨m, rfl, ⟨rfl, rfl, rfl, ?_, ?_, reliable⟩⟩
    · simp
    · simp
  | cons notice rest ih =>
    obtain ⟨middle, first, spoke⟩ := announceSpoke reliable notice
    obtain ⟨n, others, more⟩ := ih spoke.reliable
    refine ⟨n, ?_, ?_⟩
    · simp only [announceAll, afterBind, first, others]
    · exact {
        symbols := more.symbols.trans spoke.symbols
        store := more.store.trans spoke.store
        records := more.records.trans spoke.records
        history := by rw [more.history, spoke.history]; simp
        active := by rw [more.active, spoke.active]; simp
        reliable := more.reliable }

theorem callsSaid (events : List Event) (notices : List Notice) :
    callsOf (events ++ notices.map Event.said) = callsOf events := by
  have silent : callsOf (notices.map Event.said) = [] :=
    List.filterMap_eq_nil_iff.mpr (by simp)
  rw [callsAppend, silent, List.append_nil]

section Steps
variable {a b a' b' : Machine} (kindred : Kindred a b)
include kindred

theorem Kindred.spoke {left right : List Notice} (first : Spoke a left a') (second : Spoke b right b')
    (same : visible (right.map Notice.effect) = visible (left.map Notice.effect)) : Kindred a' b' := by
  have shown := kindred.shown
  simp only [visible] at shown same
  exact {
    symbols := by rw [first.symbols, second.symbols]; exact kindred.symbols
    store := by rw [first.store, second.store, kindred.store]
    records := by rw [first.records, second.records, kindred.records]
    calls := by rw [first.history, second.history, callsSaid, callsSaid, kindred.calls]
    line := by rw [first.active, second.active, kindred.line]
    shown := by
      rw [first.active, second.active]
      simp only [visible, List.filter_append, shown, same]
    reliable := ⟨first.reliable, second.reliable⟩ }

theorem Kindred.atLine (line : Nat) : Kindred (a.setLine line) (b.setLine line) := by
  have left := a.setLineActive line
  have right := b.setLineActive line
  obtain ⟨_, _, same⟩ := a.setActiveKeeps { a.activeJournal with line := some line }
  obtain ⟨_, _, same'⟩ := b.setActiveKeeps { b.activeJournal with line := some line }
  unfold Machine.setLine at left right ⊢
  rw [same] at left ⊢
  rw [same'] at right ⊢
  exact { kindred with
    line := by rw [left, right]
    shown := by rw [left, right]; exact kindred.shown }

theorem Kindred.context (ref : ContextRef) : b.context? ref = a.context? ref := by
  have main : b.main = a.main := congrArg Store.main kindred.store
  have contexts : b.contexts = a.contexts := congrArg Store.contexts kindred.store
  cases ref with
  | main => simp only [Machine.context?, main]
  | layered index => simp only [Machine.context?, contexts]

theorem Kindred.scope (ref : ContextRef) : b.scope ref = a.scope ref := by
  have strict : b.strict = a.strict := congrArg Store.strict kindred.store
  have lookup : b.lookup ref = a.lookup ref := by
    funext name
    simp only [Machine.lookup, kindred.context ref]
  simp only [Machine.scope, lookup, strict]

theorem Kindred.assigned (ref : ContextRef) (name : String) (value : Value) :
    Kindred (a.assign ref name value) (b.assign ref name value) := by
  have store := kindred.store
  simp only [Machine.store, Store.mk.injEq] at store
  obtain ⟨globals, main, contexts, strict⟩ := store
  simp only [Machine.assign, kindred.context ref]
  cases a.context? ref with
  | none => exact kindred
  | some c =>
    cases ref with
    | main => exact { kindred with store := by simp [Machine.store, Machine.setContext, globals, contexts, strict] }
    | layered index =>
      exact { kindred with store := by simp [Machine.store, Machine.setContext, globals, main, contexts, strict] }

theorem Kindred.called (name : String) (arguments : List Value) :
    Kindred (a.log (.called name arguments)) (b.log (.called name arguments)) := by
  have calls := kindred.calls
  simp only [callsOf] at calls
  exact { kindred with calls := by simp [callsOf, Machine.log, calls] }

theorem Kindred.recorded (r s : HostRecord) : Kindred (a.record r) (b.record s) :=
  { kindred with records := by simp [Machine.record, kindred.records] }

end Steps

theorem announceKindred (notice : Notice) :
    Together Kindred Eq (announce notice) (announce notice) := by
  intro a b kindred
  obtain ⟨a', left, first⟩ := announceSpoke kindred.reliable.1 notice
  obtain ⟨b', right, second⟩ := announceSpoke kindred.reliable.2 notice
  rw [left, right]
  exact ⟨.ok rfl, kindred.spoke first second rfl⟩

theorem traceKindred (message : String) : Together Kindred Eq (trace message) (trace message) := by
  apply togetherModify
  intro a b kindred
  split <;> split <;> exact { kindred with }

def Hushed (m n : Machine) : Prop :=
  ∃ notices, Spoke m notices n ∧ ∀ notice ∈ notices, notice.effect.topics = ["diagnostic"]

theorem hushedSelf {m : Machine} (reliable : m.Reliable) : Hushed m m :=
  ⟨[], ⟨rfl, rfl, rfl, by simp, by simp, reliable⟩, by simp⟩

theorem hushedSays {m : Machine} (reliable : m.Reliable) {notices : List Notice}
    (hidden : ∀ notice ∈ notices, notice.effect.topics = ["diagnostic"]) :
    ∃ n, after (announceAll notices) m = (.ok (), n) ∧ Hushed m n := by
  obtain ⟨n, done, spoke⟩ := announceAllSpoke reliable notices
  exact ⟨n, done, notices, spoke, hidden⟩

theorem Kindred.hushed {a b a' b' : Machine} (kindred : Kindred a b) (left : Hushed a a') (right : Hushed b b') :
    Kindred a' b' := by
  obtain ⟨notices, first, hidden⟩ := left
  obtain ⟨others, second, hidden'⟩ := right
  have nothing {notices : List Notice} (hidden : ∀ notice ∈ notices, notice.effect.topics = ["diagnostic"]) :
      visible (notices.map Notice.effect) = [] := by
    simpa [visible] using hidden
  exact kindred.spoke first second ((nothing hidden').trans (nothing hidden).symm)

theorem reportedKindred {notices : List Notice}
    (hidden : ∀ notice ∈ notices, notice.effect.topics = ["diagnostic"]) :
    Together Kindred Eq (announceAll notices) (announceAll notices) := by
  intro a b kindred
  obtain ⟨a', done, first⟩ := hushedSays kindred.reliable.1 hidden
  obtain ⟨b', done', second⟩ := hushedSays kindred.reliable.2 hidden
  rw [done, done']
  exact ⟨.ok rfl, kindred.hushed first second⟩

theorem tellsHushed {act : EngineM CallOutcome} {m : Machine} (reliable : (after act m).2.Reliable) (line : Nat)
    (path : String) :
    Hushed (after act m).2 (after (do let o ← act; announceAll (o.notices line path); return o.value) m).2 := by
  rw [afterBind]
  generalize after act m = ran at reliable ⊢
  obtain ⟨outcome, n⟩ := ran
  cases outcome with
  | error f => exact hushedSelf reliable
  | ok o =>
    obtain ⟨k, done, hushed⟩ := hushedSays reliable (o.noticesHidden line path)
    simp only [afterBind, done]
    exact hushed

theorem rescueHushed {act : EngineM Value} {m : Machine} (reliable : (after act m).2.Reliable) (line : Nat) :
    ∃ value n, after (tryCatch act (rescue line)) m = (.ok value, n) ∧ Hushed (after act m).2 n := by
  rw [afterTryCatch]
  generalize after act m = ran at reliable ⊢
  obtain ⟨outcome, n⟩ := ran
  cases outcome with
  | ok value => exact ⟨value, n, rfl, hushedSelf reliable⟩
  | error f =>
    let notice := Notice.report (some (n.activeJournal.line.getD line)) (failureText f)
    obtain ⟨k, done, spoke⟩ := announceSpoke reliable notice
    refine ⟨.nil, k, ?_, [notice], spoke, fun other among => ?_⟩
    · simp only [rescue, report, afterBind, afterGet, notice] at done ⊢
      rw [done]
      rfl
    · rw [List.mem_singleton.mp among]
      rfl

theorem guardedKindred (line : Nat) {act act' : EngineM Value} (still : Still Kindred act act') :
    Together Kindred Any (guarded line act) (guarded line act') := by
  intro a b kindred
  have inside := still _ _ (kindred.atLine line)
  obtain ⟨value, a', done, first⟩ := rescueHushed inside.reliable.1 line
  obtain ⟨value', b', done', second⟩ := rescueHushed inside.reliable.2 line
  rw [afterGuarded, afterGuarded, done, done']
  exact ⟨.ok trivial, inside.hushed first second⟩

section Calls
variable {left right : Surroundings} (returning : left.host.Returning) (returning' : right.host.Returning)

theorem callStandardKindred (function : Standard) (arguments : List Value) :
    Together Kindred Any (callStandard left function arguments) (callStandard right function arguments) := by
  unfold callStandard
  split
  · refine (togetherLift _).bind (fun message other same => ?_)
    subst same
    refine (togetherLift _).bind (fun topic other same => ?_)
    subst same
    exact (announceKindred (.plain ⟨[topic], message⟩)).bind (fun _ _ _ => togetherPure trivial)
  · exact togetherPure trivial
  · exact togetherGet.bind (fun _ _ _ => togetherPure trivial)
  · exact togetherPure trivial

include returning returning'

theorem invokeKindred {routine routine' : Routine Value} (alike : routine.Alike routine') (arguments : List Value) :
    Still Kindred (invoke left routine arguments) (invoke right routine' arguments) := by
  unfold invoke
  cases alike with
  | standard function =>
    simp only
    split
    · exact stillThrow _ _
    · exact (callStandardKindred function _).bindStill (fun _ _ _ => stillPure _ _)
  | @host f g accepts =>
    intro a b kindred
    have same := accepts arguments
    simp only [Routine.signature]
    cases first : f.signature.bind arguments with
    | error fault =>
      cases second : g.signature.bind arguments with
      | error fault' => exact kindred
      | ok bound' => simp [first, second, Except.isOk, Except.toBool] at same
    | ok bound =>
      cases second : g.signature.bind arguments with
      | error fault' => simp [first, second, Except.isOk, Except.toBool] at same
      | ok bound' =>
        have recorded := kindred.recorded (.call f.signature.label bound) (.call g.signature.label bound')
        simp only [afterBind, afterModify, afterGet]
        obtain ⟨outcome, finish⟩ := returning (a.record (.call f.signature.label bound)).records f.id bound
        obtain ⟨outcome', finish'⟩ := returning' (b.record (.call g.signature.label bound')).records g.id bound'
        rw [finish, finish']
        exact recorded

theorem dispatchToKindred {c d : Builtin Value} (alike : c.Alike d) (values : List Value) :
    Still Kindred (dispatchTo left c values) (dispatchTo right d values) := by
  unfold dispatchTo
  rw [Builtin.marshalAlike alike, alike.name]
  split
  · split
    · exact stillPure _ _
    · exact stillThrow _ _
  · refine (traceKindred _).bindStill (fun _ _ _ => ?_)
    refine (togetherModify (fun a b kindred => kindred.called _ _)).bindStill (fun _ _ _ => ?_)
    exact ((invokeKindred returning returning' alike.routine _).caught _ _).lifted _ _

theorem dispatchKindred (path : String) (values : List Value) (shown : String → Option Value) :
    Still Kindred (dispatch left path values shown) (dispatch right path values shown) := by
  refine togetherGet.bindStill (fun a b kindred => ?_)
  rcases SymbolTable.resolveAlike kindred.symbols path shown with ⟨fault, first, second⟩ | ⟨c, d, first, second, alike⟩
  · rw [first, second]
    simp only
    split
    · exact stillPure _ _
    · exact stillThrow _ _
  · rw [first, second]
    exact dispatchToKindred returning returning' alike values

theorem runCallKindred (ref : ContextRef) (line : Nat) (path : String) (arguments : List Expr) :
    Still Kindred (runCall left ref line path arguments)
      (runCall right ref line path (arguments.map (Expr.shift 0 0))) := by
  refine (evaluateAllTogether (fun a b kindred => kindred.scope ref) arguments).bindStill (fun values other same => ?_)
  subst same
  refine togetherGet.bindStill (fun a b kindred => ?_)
  have lookup : b.lookup ref = a.lookup ref := congrArg Scope.lookup (kindred.scope ref)
  rw [lookup]
  generalize a.lookup ref = c
  intro a b kindred
  have still := dispatchKindred returning returning' path values c a b kindred
  exact still.hushed (tellsHushed still.reliable.1 line path) (tellsHushed still.reliable.2 line path)

omit returning returning' in
theorem kindredPaced (ref : ContextRef) : Paced ref 0 (fun _ => Kindred) where
  forget known a b kindred := kindred
  atLine known a b line kindred := kindred.atLine line
  reached a b line kindred := by rw [kindred.line]; rfl
  scope a b kindred := kindred.scope ref
  assigned a b name value kindred := kindred.assigned ref name value
  traced := traceKindred
  announced known notice := by
    have same : notice.shift 0 = notice := by
      cases notice with
      | plain effect => rfl
      | report line message => cases line <;> rfl
    rw [same]
    exact announceKindred notice

theorem kindredLockstep (ref : ContextRef) : Lockstep left right ref 0 0 (fun _ => Kindred) where
  toPaced := kindredPaced ref
  called _ line path arguments := guardedKindred line (runCallKindred returning returning' ref line path arguments)

theorem runProgramKindred (ref : ContextRef) (p : Program) :
    Together Kindred Any (runProgram left ref p) (runProgram right ref p) := by
  have hidden : ∀ notice ∈ p.diagnostics.map syntaxNotice, notice.effect.topics = ["diagnostic"] := by
    intro notice member
    obtain ⟨d, -, rfl⟩ := List.mem_map.mp member
    rfl
  refine (reportedKindred hidden).bind (fun _ _ _ => ?_)
  have statements := (runTogether (kindredLockstep returning returning' ref)).2 p.statements true .nil .nil
  rwa [Parser.shiftZero.2] at statements

end Calls

theorem openedKindred {m : Machine} (reliable : m.Reliable) {other : SymbolTable}
    (alike : m.symbols.Alike other) (place : Place) :
    Kindred (opened m place).1 (opened { m with symbols := other } place).1 ∧
      (opened { m with symbols := other } place).2 = (opened m place).2 := by
  cases place <;> exact ⟨⟨alike, rfl, rfl, rfl, rfl, rfl, reliable, reliable⟩, rfl⟩

end Engine

/- Two tables that look the same, and any two hosts that only return or raise. -/
theorem hostResultsDoNotReachScript (host host' : Host) (returning : host.Returning)
    (returning' : host'.Returning) (m : Machine) (reliable : m.Reliable) (other : SymbolTable)
    (alike : m.symbols.Alike other) (place : Place) (source : List Char) :
    let (result, n) := m.run host place source
    let (result', n') := { m with symbols := other }.run host' place source
    n'.globals = n.globals ∧ n'.main = n.main ∧ n'.contexts = n.contexts ∧
      callsOf n'.history = callsOf n.history ∧ n'.records.length = n.records.length ∧
      visible result'.effects = visible result.effects ∧
      result'.status = result.status ∧ result'.errorMessage = result.errorMessage := by
  obtain ⟨left, rfl, nested, runs⟩ := Engine.runAround host
  obtain ⟨right, rfl, -, runs'⟩ := Engine.runAround host'
  obtain ⟨kindred, ref⟩ := Engine.openedKindred reliable alike place
  obtain ⟨alike', still⟩ := Engine.runProgramKindred returning returning' (Engine.opened m place).2
    (parse source) _ _ kindred
  obtain ⟨value, ended⟩ := Engine.runProgramReliable
    (Engine.reliableSteps (Engine.opened m place).2 nested) (parse source) kindred.reliable.1
  rw [runs, runs', Engine.executeOpened, Engine.executeOpened]
  unfold Engine.ranIn
  rw [ref]
  rw [ended] at alike' ⊢
  generalize Engine.after (Engine.runProgram right _ _) _ = ran' at alike' still ⊢
  obtain ⟨outcome', b⟩ := ran'
  cases alike' with
  | ok _ =>
    have store := still.store
    simp only [Machine.store, Store.mk.injEq] at store
    obtain ⟨globals, main, contexts, -⟩ := store
    refine ⟨globals, main, contexts, ?_, still.records, still.shown, rfl, rfl⟩
    have calls := still.calls
    simp only [callsOf] at calls
    simp [Machine.log, callsOf, calls]

theorem answerOrRaise :
    let ask (id : Nat) : HostFunction Value := .plain id "ask" ⟨"ask", [], none, [], 0⟩
    let table (id : Nat) : SymbolTable := ⟨[("ask", .builtin (.ofRoutine "ask" (.host (ask id))))], false⟩
    let calm : Host := .behaving fun _ _ _ => .pure (.boolean true)
    let angry : Host := .behaving fun _ _ _ => .raise (.raised ⟨"ValueError", "no", false⟩)
    let source := "ask()\nprint(1)".toList
    visible ({ Machine.idle (table 0) with symbols := table 1 }.run angry .fresh source).1.effects =
      visible ((Machine.idle (table 0)).run calm .fresh source).1.effects := by
  intro ask table calm angry source
  have alike : (Machine.idle (table 0)).symbols.Alike (table 1) := by
    intro name
    by_cases named : "ask" = name
    · subst named
      exact .some (.builtin ⟨rfl, rfl, .host (fun _ => rfl)⟩)
    · simp [Machine.idle, table, Bindings.get?, named]
  have same := hostResultsDoNotReachScript calm angry (fun _ _ _ => ⟨_, rfl⟩) (fun _ _ _ => ⟨_, rfl⟩)
    (Machine.idle (table 0)) (Machine.idleReliable _) (table 1) alike .fresh source
  exact same.2.2.2.2.2.1

end LineScript
