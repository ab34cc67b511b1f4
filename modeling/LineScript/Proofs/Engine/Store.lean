import LineScript.Proofs.Bindings
import LineScript.Proofs.Engine.Act

/-! The variables of an engine as a function of what has been done to them. A history holds the
deeds, the latest first; it says what every context shows, and a machine is explained by it. -/
namespace LineScript

/- What can be done to variables. A run of the main session lays the main context anew over the
globals; a run in a context that is there changes nothing by its start. -/
inductive Deed where
  | seed (name : String) (value : Value)
  | write (context : ContextRef) (name : String) (value : Value)
  | layer
  | fork (context : ContextRef)
  | resume
  | run (context : ContextRef)

namespace History

def seeded (key : String) : List Deed → Option Value
  | [] => none
  | .seed name value :: earlier => if key = name then some value else seeded key earlier
  | _ :: earlier => seeded key earlier

def written (ref : ContextRef) (key : String) : List Deed → Option Value
  | [] => none
  | .write context name value :: earlier =>
    if ref = context ∧ key = name then some value else written ref key earlier
  | _ :: earlier => written ref key earlier

def made : List Deed → Nat
  | [] => 0
  | .layer :: earlier => made earlier + 1
  | .fork _ :: earlier => made earlier + 1
  | _ :: earlier => made earlier

def current (key : String) (h : List Deed) : Option Value := (written .main key h).or (seeded key h)

def inherited (ref : ContextRef) (key : String) : List Deed → Option Value
  | [] => none
  | .resume :: earlier =>
    if ref = .main then seeded key earlier else inherited ref key earlier
  | .layer :: earlier =>
    if ref = .layered (made earlier) then current key earlier else inherited ref key earlier
  | .fork source :: earlier =>
    if ref = .layered (made earlier) then
      (written source key earlier).or (inherited source key earlier)
    else inherited ref key earlier
  | _ :: earlier => inherited ref key earlier

def shown (ref : ContextRef) (key : String) (h : List Deed) : Option Value :=
  (written ref key h).or (inherited ref key h)

def Exists (h : List Deed) : ContextRef → Prop
  | .main => True
  | .layered index => index < made h

end History

namespace Machine
variable {m n : Machine} {h : List Deed}

def stored (m : Machine) : Bindings Value × Context × List Context := (m.globals, m.main, m.contexts)

def own (m : Machine) (ref : ContextRef) (key : String) : Option Value :=
  (m.context? ref).bind (·.bindings.get? key)

def below (m : Machine) (ref : ContextRef) (key : String) : Option Value :=
  (m.context? ref).bind (·.parent.get? key)

/- A history explains a machine if the machine's layers are those of the history. -/
structure Explained (h : List Deed) (m : Machine) : Prop where
  globals : ∀ key, m.globals.get? key = History.seeded key h
  own : ∀ ref key, m.own ref key = History.written ref key h
  below : ∀ ref key, m.below ref key = History.inherited ref key h
  contexts : m.contexts.length = History.made h
  distinct : ∀ ref c, m.context? ref = some c → c.bindings.Distinct

theorem lookupLayers (m : Machine) (ref : ContextRef) (key : String) :
    m.lookup ref key = (m.own ref key).or (m.below ref key) := by
  unfold lookup own below
  cases m.context? ref <;> rfl

theorem Explained.lookup (explained : m.Explained h) (ref : ContextRef) (key : String) :
    m.lookup ref key = History.shown ref key h := by
  rw [lookupLayers, explained.own, explained.below]
  rfl

theorem Explained.getVariable (explained : m.Explained h) (key : String) :
    m.getVariable? key = History.current key h := by
  have main : m.main.bindings.get? key = History.written .main key h := explained.own .main key
  rw [getVariable?, main, explained.globals]
  rfl

theorem Explained.exists (explained : m.Explained h) (ref : ContextRef) :
    (m.context? ref).isSome = true ↔ History.Exists h ref := by
  cases ref with
  | main => simp [context?, History.Exists]
  | layered index => simp [context?, History.Exists, explained.contexts]

theorem Explained.ofStored (explained : m.Explained h) (same : n.stored = m.stored) : n.Explained h := by
  simp only [stored, Prod.mk.injEq] at same
  obtain ⟨globals, main, contexts⟩ := same
  have context (ref : ContextRef) : n.context? ref = m.context? ref := by
    cases ref <;> simp only [context?, main, contexts]
  refine ⟨?_, ?_, ?_, ?_, ?_⟩
  · simpa only [globals] using explained.globals
  · simpa only [Machine.own, context] using explained.own
  · simpa only [Machine.below, context] using explained.below
  · simpa only [contexts] using explained.contexts
  · simpa only [context] using explained.distinct

theorem Explained.seed (explained : m.Explained h) (name : String) (value : Value) :
    { m with globals := m.globals.set name value }.Explained (.seed name value :: h) := by
  refine ⟨?_, explained.own, explained.below, explained.contexts, explained.distinct⟩
  intro key
  simp only [Bindings.get?_set, History.seeded, explained.globals]

theorem contextAssign {c : Context} {ref : ContextRef} (found : m.context? ref = some c) (name : String)
    (value : Value) (other : ContextRef) :
    (m.assign ref name value).context? other =
      if other = ref then some (c.set name value) else m.context? other := by
  unfold assign
  rw [found]
  cases ref with
  | main => cases other <;> simp [setContext, context?]
  | layered index =>
    cases other with
    | main => simp [setContext, context?]
    | layered index' =>
      have inside : index < m.contexts.length := (List.getElem?_eq_some_iff.mp found).1
      by_cases same : index' = index
      · simp [setContext, context?, same, inside]
      · simp [setContext, context?, same, Ne.symm same]

theorem Explained.write (explained : m.Explained h) {ref : ContextRef} {c : Context}
    (found : m.context? ref = some c) (name : String) (value : Value) :
    (m.assign ref name value).Explained (.write ref name value :: h) := by
  have contexts := contextAssign found name value
  have rest : (m.assign ref name value).globals = m.globals ∧
      (m.assign ref name value).contexts.length = m.contexts.length := by
    simp only [assign, found]
    cases ref <;> simp [setContext]
  refine ⟨?_, ?_, ?_, ?_, ?_⟩
  · simpa only [rest.1, History.seeded] using explained.globals
  · intro other key
    have before := explained.own other key
    simp only [Machine.own, contexts, History.written]
    by_cases same : other = ref
    · subst same
      simp only [Machine.own, found, Option.bind_some] at before
      simp only [if_true, Option.bind_some, Context.set, Bindings.get?_set, before, true_and]
    · simp only [same, false_and, if_false]
      exact before
  · intro other key
    have before := explained.below other key
    simp only [Machine.below, contexts, History.inherited]
    by_cases same : other = ref
    · subst same
      simpa only [Machine.below, found, if_true, Option.bind_some, Context.set] using before
    · rw [if_neg same]
      exact before
  · rw [rest.2]
    exact explained.contexts
  · intro other d shown
    rw [contexts] at shown
    split at shown
    · cases shown
      exact (explained.distinct ref c found).set name value
    · exact explained.distinct other d shown

theorem contextAdd (m : Machine) (c : Context) (ref : ContextRef) :
    (m.addContext c).context? ref = if ref = .layered m.contexts.length then some c else m.context? ref := by
  cases ref with
  | main => simp [addContext, context?]
  | layered index =>
    simp only [addContext, context?, ContextRef.layered.injEq]
    split
    · rename_i same
      simp [same]
    · rename_i other
      rw [List.getElem?_append]
      split
      · rfl
      · rename_i outside
        rw [List.getElem?_eq_none (l := [c]) (by simp only [List.length_singleton]; omega),
          List.getElem?_eq_none (l := m.contexts) (by omega)]

theorem Explained.add (explained : m.Explained h) {layer : Bindings Value} {deed : Deed}
    (seeds : ∀ key, History.seeded key (deed :: h) = History.seeded key h)
    (writes : ∀ ref key, History.written ref key (deed :: h) = History.written ref key h)
    (makes : History.made (deed :: h) = History.made h + 1)
    (shows : ∀ ref key, History.inherited ref key (deed :: h) =
      if ref = .layered (History.made h) then layer.get? key else History.inherited ref key h) :
    (m.addContext (.above layer)).Explained (deed :: h) := by
  have contexts := m.contextAdd (.above layer)
  have absent (key : String) : m.own (.layered m.contexts.length) key = none := by
    simp [Machine.own, context?]
  refine ⟨?_, ?_, ?_, ?_, ?_⟩
  · intro key
    rw [seeds]
    exact explained.globals key
  · intro ref key
    rw [writes, ← explained.own]
    simp only [Machine.own, contexts]
    split
    · rename_i same
      rw [same]
      exact (absent key).symm
    · rfl
  · intro ref key
    rw [shows, ← explained.below, ← explained.contexts]
    simp only [Machine.below, contexts]
    split <;> rfl
  · rw [makes, ← explained.contexts]
    simp [addContext]
  · intro ref c found
    rw [contexts] at found
    split at found
    · cases found
      exact List.nodup_nil
    · exact explained.distinct ref c found

theorem Explained.layer (explained : m.Explained h) :
    (m.addContext (.above m.layer)).Explained (.layer :: h) := by
  apply explained.add
  · exact fun _ => rfl
  · exact fun _ _ => rfl
  · rfl
  · intro ref key
    have merged := Bindings.getMerge m.globals (explained.distinct .main m.main rfl) key
    have main : m.main.bindings.get? key = History.written .main key h := explained.own .main key
    rw [main, explained.globals] at merged
    rw [Machine.layer, merged]
    rfl

theorem Explained.fork (explained : m.Explained h) {ref : ContextRef} {c : Context}
    (found : m.context? ref = some c) : (m.addContext c.fork).Explained (.fork ref :: h) := by
  apply explained.add
  · exact fun _ => rfl
  · exact fun _ _ => rfl
  · rfl
  · intro other key
    have merged := Bindings.getMerge c.parent (explained.distinct ref c found) key
    have own := explained.own ref key
    have below := explained.below ref key
    simp only [Machine.own, Machine.below, found, Option.bind_some] at own below
    rw [own, below] at merged
    rw [Context.snapshot, merged]
    rfl

theorem Explained.resume (explained : m.Explained h) :
    { m with main := { m.main with parent := m.globals } }.Explained (.resume :: h) := by
  refine ⟨explained.globals, ?_, ?_, explained.contexts, ?_⟩
  · intro ref key
    have before := explained.own ref key
    cases ref <;> exact before
  · intro ref key
    cases ref with
    | main => exact explained.globals key
    | layered index => exact explained.below (.layered index) key
  · intro ref c found
    cases ref with
    | main =>
      cases found
      exact explained.distinct .main m.main rfl
    | layered index => exact explained.distinct (.layered index) c found

theorem Explained.run (explained : m.Explained h) (ref : ContextRef) : m.Explained (.run ref :: h) :=
  ⟨explained.globals, explained.own, explained.below, explained.contexts, explained.distinct⟩

end Machine
end LineScript
