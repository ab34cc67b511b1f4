import Mathlib.Data.List.Induction
import LineScript.Bindings

/-! Laws of bindings. A list of entries binds each name once, to the last thing that the list has
for it. -/
namespace LineScript
namespace Bindings
variable {α : Type}

def Distinct (b : Bindings α) : Prop := (b.map Prod.fst).Nodup

theorem namesSet (b : Bindings α) (name : String) (value : α) :
    (b.set name value).map Prod.fst = if name ∈ b.map Prod.fst then b.map Prod.fst
      else b.map Prod.fst ++ [name] := by
  induction b with
  | nil => simp [set]
  | cons entry rest ih =>
    by_cases same : entry.1 = name
    · simp [set, same]
    · simp only [set, if_neg same, List.map_cons, ih, List.mem_cons, Ne.symm same, false_or]
      split <;> rfl

theorem Distinct.set {b : Bindings α} (distinct : b.Distinct) (name : String) (value : α) :
    (b.set name value).Distinct := by
  unfold Distinct at distinct ⊢
  rw [namesSet]
  split
  · exact distinct
  · rename_i fresh
    simp only [List.nodup_append, List.nodup_cons, List.not_mem_nil, not_false_eq_true, List.nodup_nil,
      and_self, true_and, distinct]
    intro x member y last same
    simp only [List.mem_singleton] at last
    exact fresh (last ▸ same ▸ member)

theorem getNone {b : Bindings α} {name : String} (missing : name ∉ b.map Prod.fst) :
    b.get? name = none := by
  induction b with
  | nil => rfl
  | cons entry rest ih =>
    simp only [List.map_cons, List.mem_cons, not_or] at missing
    rw [get?, if_neg (Ne.symm missing.1)]
    exact ih missing.2

theorem getMerge (b : Bindings α) {upper : Bindings α} (distinct : upper.Distinct) (name : String) :
    (b.merge upper).get? name = (upper.get? name).or (b.get? name) := by
  induction upper generalizing b with
  | nil => rfl
  | cons entry rest ih =>
    simp only [Distinct, List.map_cons, List.nodup_cons] at distinct
    have later := ih (b.set entry.1 entry.2) distinct.2
    rw [merge] at later ⊢
    rw [List.foldl_cons, later, get?_set, get?]
    by_cases same : entry.1 = name
    · rw [if_pos same.symm, if_pos same, getNone (same ▸ distinct.1)]
      rfl
    · rw [if_neg (Ne.symm same), if_neg same]

theorem memSet {b : Bindings α} {name : String} {value : α} {entry : String × α}
    (member : entry ∈ b.set name value) : entry = (name, value) ∨ entry ∈ b := by
  induction b with
  | nil => exact .inl (by simpa [set] using member)
  | cons first rest ih =>
    rw [set] at member
    split at member
    · exact (List.mem_cons.mp member).imp id (List.mem_cons_of_mem _)
    · rcases List.mem_cons.mp member with rfl | later
      · exact .inr List.mem_cons_self
      · exact (ih later).imp id (List.mem_cons_of_mem _)

theorem memMerge {b upper : Bindings α} {entry : String × α}
    (member : entry ∈ b.merge upper) : entry ∈ upper ∨ entry ∈ b := by
  induction upper generalizing b with
  | nil => exact .inr member
  | cons first rest ih =>
    rcases ih (b := b.set first.1 first.2) member with later | earlier
    · exact .inl (List.mem_cons_of_mem _ later)
    · rcases memSet earlier with rfl | before
      · exact .inl List.mem_cons_self
      · exact .inr before

theorem mergeDistinct {b : Bindings α} (distinct : b.Distinct) (upper : Bindings α) :
    (b.merge upper).Distinct := by
  induction upper generalizing b with
  | nil => exact distinct
  | cons entry rest ih => exact ih (distinct.set entry.1 entry.2)

theorem ofListDistinct (entries : List (String × α)) : (ofList entries).Distinct :=
  mergeDistinct (b := []) List.nodup_nil entries

theorem memOfGet {b : Bindings α} {name : String} {value : α} (found : b.get? name = some value) :
    (name, value) ∈ b := by
  induction b with
  | nil => contradiction
  | cons entry rest ih =>
    rw [get?] at found
    split at found
    · rename_i same
      cases same
      cases found
      exact List.mem_cons_self
    · exact List.mem_cons_of_mem _ (ih found)

theorem Distinct.getOfMem {b : Bindings α} (distinct : b.Distinct) {name : String} {value : α}
    (member : (name, value) ∈ b) : b.get? name = some value := by
  induction b with
  | nil => contradiction
  | cons entry rest ih =>
    obtain ⟨fresh, later⟩ := List.nodup_cons.mp distinct
    rcases List.mem_cons.mp member with rfl | member
    · simp [get?]
    · have other : entry.1 ≠ name := fun same => fresh (same ▸ List.mem_map_of_mem (f := Prod.fst) member)
      rw [get?, if_neg other, ih later member]

theorem getMapped {β : Type} (b : Bindings α) (f : String → α → β) (name : String) :
    get? (b.map fun entry => (entry.1, f entry.1 entry.2)) name = (b.get? name).map (f name) := by
  induction b with
  | nil => rfl
  | cons entry rest ih =>
    rw [List.map_cons, get?, get?, ih]
    split
    · rename_i same
      rw [same, Option.map_some]
    · rfl

theorem endsWith {β : Type} {xs before after : List β} {x y : β} (same : xs ++ [x] = before ++ y :: after) :
    after = [] ∧ xs = before ∧ x = y ∨ ∃ front, after = front ++ [x] ∧ xs = before ++ y :: front := by
  rcases List.eq_nil_or_concat after with rfl | ⟨front, last, rfl⟩
  · obtain ⟨rfl, single⟩ := List.append_inj' same rfl
    exact .inl ⟨rfl, rfl, (List.cons.inj single).1⟩
  · rw [List.concat_eq_append, ← List.cons_append, ← List.append_assoc] at same
    obtain ⟨rfl, single⟩ := List.append_inj' same rfl
    cases single
    exact .inr ⟨front, List.concat_eq_append, rfl⟩

theorem getOfList (entries : List (String × α)) (name : String) (value : α) :
    (ofList entries).get? name = some value ↔
      ∃ before after, entries = before ++ (name, value) :: after ∧ name ∉ after.map Prod.fst := by
  induction entries using List.reverseRecOn with
  | nil => simp [ofList, merge, get?]
  | append_singleton entries last ih =>
    obtain ⟨other, newest⟩ := last
    have step : ofList (entries ++ [(other, newest)]) = (ofList entries).set other newest := by
      simp [ofList, merge]
    rw [step, get?_set]
    split
    · rename_i same
      subst same
      constructor
      · rintro ⟨⟩
        exact ⟨entries, [], rfl, by simp⟩
      · rintro ⟨before, after, whole, absent⟩
        rcases endsWith whole with ⟨-, -, same⟩ | ⟨front, rfl, -⟩
        · cases same
          rfl
        · simp at absent
    · rename_i differs
      rw [ih]
      constructor
      · rintro ⟨before, after, rfl, absent⟩
        exact ⟨before, after ++ [(other, newest)], by simp, by simpa [absent] using differs⟩
      · rintro ⟨before, after, whole, absent⟩
        rcases endsWith whole with ⟨-, -, same⟩ | ⟨front, rfl, rest⟩
        · cases same
          contradiction
        · refine ⟨before, front, rest, fun member => absent ?_⟩
          rw [List.map_append]
          exact List.mem_append_left _ member

end Bindings
end LineScript
