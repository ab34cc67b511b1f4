import Mathlib.Data.List.Permutation
import LineScript.Proofs.Engine.Reliable
import LineScript.Proofs.Script.Reading

/-! Streams that fill up. A run with such a stream does what it would do with one that takes
everything until the first refusal. From there on it only unwinds: what the refusal meets on its way
out is reported, which fails again, and the run ends with an error. -/
namespace LineScript

/- A call that fails, whatever becomes of what it does before that. It starts no run, and what it emits is
among its `parting` effects. -/
inductive HostProgram.Fails (parting : Effect → Prop) : HostProgram → Prop where
  | finish (thrown) : Fails parting (.finish (.error thrown))
  | emit {effect next} (said : parting effect) (rest : ∀ failure, Fails parting (next failure)) : Fails parting (.emit effect next)
  | setVariable {name value next} (rest : Fails parting next) : Fails parting (.setVariable name value next)
  | register {name target next} (rest : ∀ failure, Fails parting (next failure)) : Fails parting (.register name target next)

/- A call that starts no run, and that fails if an emission of its own is refused. What it emits on the way
out, in a `finally` say, is refused as well, and that failure takes the place of the first one, which is
lost. So a call that swallows no failure at all has no parting effects. -/
inductive HostProgram.Upright (parting : Effect → Prop) : HostProgram → Prop where
  | finish (outcome) : Upright parting (.finish outcome)
  | emit {effect next} (rest : Upright parting (next none)) (fails : ∀ f, (next (some f)).Fails parting) :
      Upright parting (.emit effect next)
  | setVariable {name value next} (rest : Upright parting next) : Upright parting (.setVariable name value next)
  | register {name target next} (rest : ∀ failure, Upright parting (next failure)) :
      Upright parting (.register name target next)

def Host.Upright (parting : Effect → Prop) (host : Host) : Prop :=
  ∀ records id arguments, (host.behaviour records id arguments).Upright parting

def copied (written : String) (effects : List Effect) : String :=
  effects.foldl (fun text effect => text ++ (effect.message ++ "\n")) written

structure Quota where
  written : String
  flushes : Nat
  room : Nat
  refusal : HostFault

def Quota.stream (q : Quota) (effects : List Effect) : Stream :=
  ⟨copied q.written effects, q.flushes + effects.length, some (q.flushes + q.room), q.refusal⟩

def Machine.onto (m : Machine) (stream : Option Stream) : Machine := { m with stream := stream }

def Quota.limit (q : Quota) (m : Machine) : Machine :=
  m.onto (some (q.stream m.activeJournal.effects))

namespace Engine

structure Broken (q : Quota) (parting : Effect → Prop) (a b : Machine) : Prop where
  more : q.room < a.activeJournal.effects.length
  effects : ∃ later, b.activeJournal.effects = a.activeJournal.effects.take (q.room + 1) ++ later ∧
    ∀ effect ∈ later, effect.topics = ["diagnostic"] ∨ parting effect
  stream : b.stream = some (q.stream (a.activeJournal.effects.take q.room))

structure Grows (a b : Machine) : Prop where
  reliable : a.Reliable → b.Reliable
  effects : a.activeJournal.effects <+: b.activeJournal.effects

theorem Grows.stay (m : Machine) : Grows m m := ⟨id, List.prefix_refl _⟩

theorem Grows.trans {a b c : Machine} (left : Grows a b) (right : Grows b c) : Grows a c :=
  ⟨fun reliable => right.reliable (left.reliable reliable), left.effects.trans right.effects⟩

theorem Broken.grown {q : Quota} {parting : Effect → Prop} {a a' b : Machine} (broken : Broken q parting a b)
    (grows : Grows a a') : Broken q parting a' b := by
  obtain ⟨new, same⟩ := grows.effects
  have more := broken.more
  have front (count : Nat) (within : count ≤ q.room + 1) :
      a'.activeJournal.effects.take count = a.activeJournal.effects.take count := by
    rw [← same, List.take_append_of_le_length (by omega)]
  refine ⟨?_, ?_, ?_⟩
  · rw [← same, List.length_append]
    omega
  · rw [front _ (Nat.le_refl _)]
    exact broken.effects
  · rw [front _ (by omega)]
    exact broken.stream

/- `x` does the same with a quota, or breaks; if it then still returns, its value is `settled`. -/
structure Tracks {α : Type} (q : Quota) (parting : Effect → Prop) (settled : α → Prop) (x : EngineM α) : Prop where
  grows : ∀ a, a.Reliable → Grows a (after x a).2
  follows : ∀ a, a.Reliable → a.activeJournal.effects.length ≤ q.room →
    after x (q.limit a) = ((after x a).1, q.limit (after x a).2) ∧
        (after x a).2.activeJournal.effects.length ≤ q.room ∨
      Broken q parting (after x a).2 (after x (q.limit a)).2 ∧
        ∀ value, (after x (q.limit a)).1 = .ok value → settled value

def Unwinds {α : Type} (q : Quota) (parting : Effect → Prop) (settled : α → Prop) (x : EngineM α) : Prop :=
  ∀ a b, Broken q parting a b → Broken q parting a (after x b).2 ∧ ∀ value, (after x b).1 = .ok value → settled value

def Never {α : Type} (_ : α) : Prop := False

def Silent {α : Type} (x : EngineM α) : Prop :=
  ∀ m, (∀ stream, after x (m.onto stream) = ((after x m).1, (after x m).2.onto stream)) ∧
    (after x m).2.activeJournal.effects = m.activeJournal.effects ∧ (after x m).2.stream = m.stream

section Rules
variable {α β : Type} {q : Quota} {parting : Effect → Prop} {settled : α → Prop} {settled' : β → Prop}

theorem Silent.bind {x : EngineM α} {next : α → EngineM β} (first : Silent x)
    (rest : ∀ value, Silent (next value)) : Silent (x >>= next) := by
  intro m
  obtain ⟨commutes, effects, stream⟩ := first m
  simp only [afterBind, commutes]
  generalize after x m = ran at effects stream ⊢
  obtain ⟨outcome, n⟩ := ran
  cases outcome with
  | error f => exact ⟨fun _ => rfl, effects, stream⟩
  | ok value =>
    obtain ⟨commutes', effects', stream'⟩ := rest value n
    exact ⟨commutes', effects'.trans effects, stream'.trans stream⟩

theorem Silent.tryCatch {x : EngineM α} {handler : Failure → EngineM α} (first : Silent x)
    (rest : ∀ f, Silent (handler f)) : Silent (MonadExcept.tryCatch x handler) := by
  intro m
  obtain ⟨commutes, effects, stream⟩ := first m
  simp only [afterTryCatch, commutes]
  generalize after x m = ran at effects stream ⊢
  obtain ⟨outcome, n⟩ := ran
  cases outcome with
  | ok value => exact ⟨fun _ => rfl, effects, stream⟩
  | error f =>
    obtain ⟨commutes', effects', stream'⟩ := rest f n
    exact ⟨commutes', effects'.trans effects, stream'.trans stream⟩

theorem growsBind {x : EngineM α} {next : α → EngineM β} (first : Tracks q parting settled x)
    (rest : ∀ value, Tracks q parting settled' (next value)) {a : Machine} (reliable : a.Reliable) :
    Grows (after x a).2 (after (x >>= next) a).2 := by
  have grown := first.grows a reliable
  rw [afterBind]
  generalize after x a = ran at grown ⊢
  obtain ⟨outcome, n⟩ := ran
  cases outcome with
  | error f => exact Grows.stay n
  | ok value => exact (rest value).grows n (grown.reliable reliable)

/- If the first act breaks and returns all the same, the rest has to unwind. Without a limit the rest
is run meanwhile, and only adds to the effects. -/
theorem Tracks.bindSettled {x : EngineM α} {next : α → EngineM β} (first : Tracks q parting settled x)
    (rest : ∀ value, Tracks q parting settled' (next value))
    (unwinds : ∀ value, settled value → Unwinds q parting settled' (next value)) :
    Tracks q parting settled' (x >>= next) where
  grows a reliable := (first.grows a reliable).trans (growsBind first rest reliable)
  follows a reliable within := by
    have grown := first.grows a reliable
    have onward := growsBind first rest reliable
    have follows := first.follows a reliable within
    rw [afterBind] at onward ⊢
    rw [afterBind]
    generalize after x (q.limit a) = ran' at follows ⊢
    generalize after x a = ran at grown onward follows ⊢
    obtain ⟨outcome, n⟩ := ran
    obtain ⟨outcome', n'⟩ := ran'
    rcases follows with ⟨same, still⟩ | ⟨broken, ended⟩
    · cases same
      cases outcome with
      | error f => exact .inl ⟨rfl, still⟩
      | ok value => exact (rest value).follows n (grown.reliable reliable) still
    · right
      cases outcome' with
      | error f => exact ⟨broken.grown onward, fun _ never => by cases never⟩
      | ok value =>
        obtain ⟨unwound, settled⟩ := unwinds value (ended value rfl) n n' broken
        exact ⟨unwound.grown onward, settled⟩

theorem Tracks.bind {x : EngineM α} {next : α → EngineM β} (first : Tracks q parting Never x)
    (rest : ∀ value, Tracks q parting settled' (next value)) : Tracks q parting settled' (x >>= next) :=
  first.bindSettled rest (fun _ never => never.elim)

theorem growsTryCatch {x : EngineM α} {handler : Failure → EngineM α} (first : Tracks q parting settled x)
    (rest : ∀ f, Tracks q parting settled (handler f)) {a : Machine} (reliable : a.Reliable) :
    Grows (after x a).2 (after (MonadExcept.tryCatch x handler) a).2 := by
  have grown := first.grows a reliable
  rw [afterTryCatch]
  generalize after x a = ran at grown ⊢
  obtain ⟨outcome, n⟩ := ran
  cases outcome with
  | ok value => exact Grows.stay n
  | error f => exact (rest f).grows n (grown.reliable reliable)

theorem Tracks.tryCatch {x : EngineM α} {handler : Failure → EngineM α} (first : Tracks q parting settled x)
    (rest : ∀ f, Tracks q parting settled (handler f)) (unwinds : ∀ f, Unwinds q parting settled (handler f)) :
    Tracks q parting settled (MonadExcept.tryCatch x handler) where
  grows a reliable := (first.grows a reliable).trans (growsTryCatch first rest reliable)
  follows a reliable within := by
    have grown := first.grows a reliable
    have onward := growsTryCatch first rest reliable
    have follows := first.follows a reliable within
    rw [afterTryCatch] at onward ⊢
    rw [afterTryCatch]
    generalize after x (q.limit a) = ran' at follows ⊢
    generalize after x a = ran at grown onward follows ⊢
    obtain ⟨outcome, n⟩ := ran
    obtain ⟨outcome', n'⟩ := ran'
    rcases follows with ⟨same, still⟩ | ⟨broken, ended⟩
    · cases same
      cases outcome with
      | ok value => exact .inl ⟨rfl, still⟩
      | error f => exact (rest f).follows n (grown.reliable reliable) still
    · right
      cases outcome' with
      | ok value => exact ⟨broken.grown onward, ended⟩
      | error f =>
        obtain ⟨unwound, settled⟩ := unwinds f n n' broken
        exact ⟨unwound.grown onward, settled⟩

end Rules

section Announcements
variable {q : Quota} {parting : Effect → Prop}

theorem Unwinds.bind {α β : Type} {settled : α → Prop} {settled' : β → Prop} {x : EngineM α} {next : α → EngineM β}
    (first : Unwinds q parting settled x) (rest : ∀ value, settled value → Unwinds q parting settled' (next value)) :
    Unwinds q parting settled' (x >>= next) := by
  intro a b broken
  obtain ⟨unwound, holds⟩ := first a b broken
  rw [afterBind]
  generalize after x b = ran at unwound holds ⊢
  obtain ⟨outcome, n⟩ := ran
  cases outcome with
  | ok value => exact rest value (holds value rfl) a n unwound
  | error f => exact ⟨unwound, by simp⟩

theorem Unwinds.tryCatch {α : Type} {settled : α → Prop} {x : EngineM α} {handler : Failure → EngineM α}
    (first : Unwinds q parting settled x) (rest : ∀ f, Unwinds q parting settled (handler f)) :
    Unwinds q parting settled (MonadExcept.tryCatch x handler) := by
  intro a b broken
  obtain ⟨unwound, holds⟩ := first a b broken
  rw [afterTryCatch]
  generalize after x b = ran at unwound holds ⊢
  obtain ⟨outcome, n⟩ := ran
  cases outcome with
  | ok value => exact ⟨unwound, holds⟩
  | error f => exact rest f a n unwound

theorem Silent.unwinds {α : Type} {x : EngineM α} (silent : Silent x) : Unwinds q parting (fun _ => True) x := by
  intro a b broken
  obtain ⟨-, effects, stream⟩ := silent b
  refine ⟨⟨broken.more, ?_, stream.trans broken.stream⟩, fun _ _ => trivial⟩
  rw [effects]
  exact broken.effects

end Announcements

section Silent

end Silent

section Runs
variable {around : Surroundings} {q : Quota} {parting : Effect → Prop}

variable (upright : around.host.Upright parting)
include upright

end Runs

end Engine

/- A `finally` that emits swallows the first refusal, for the call fails with that of the second effect,
which stays behind the first one and before the reports. -/
theorem finallyEmits :
    let bell : HostFunction Value := .plain 0 "bell" ⟨"bell", [], none, [], 0⟩
    let tolled : Effect := ⟨["toll"], "tolled"⟩
    let host : Host := .behaving fun _ _ _ => .emit ⟨["bell"], "rung"⟩ fun refused =>
      .emit tolled fun failure => HostProgram.orRaise (.orRaise (.pure .nil) refused) failure
    let m := Machine.idle ⟨[("bell", .builtin (.ofRoutine "bell" (.host bell)))], false⟩
    host.Upright (· = tolled) ∧
      (Engine.run host .fresh ⟨[.call 1 "bell" []], []⟩
        { m with stream := some ⟨"", 0, some 0, ⟨"OSError", "disk full", false⟩⟩ }).1.effects.map Effect.topics =
        [["bell"], ["toll"], ["diagnostic"], ["diagnostic"], ["stderr"]] := by
  intro bell tolled host m
  refine ⟨fun _ _ _ => .emit (.emit (.finish _) fun f => .finish _) fun f => .emit rfl fun failure => ?_, rfl⟩
  cases failure <;> exact .finish _

end LineScript
