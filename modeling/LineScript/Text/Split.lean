/-! Cutting lists at marked elements. -/
namespace LineScript

def splitWhere {α : Type} (p : α → Bool) : List α → List (List α)
  | [] => [[]]
  | x :: xs =>
    if p x then [] :: splitWhere p xs
    else
      match splitWhere p xs with
      | [] => [[x]]
      | first :: others => (x :: first) :: others

def dropEmptyLast {α : Type} (parts : List (List α)) : List (List α) :=
  match parts.getLast? with
  | some [] => parts.dropLast
  | _ => parts

section Split
variable {α : Type} {p : α → Bool} {xs : List α}

theorem splitWhereFree (free : ∀ x ∈ xs, p x = false) : splitWhere p xs = [xs] := by
  induction xs with
  | nil => rfl
  | cons x xs ih =>
    rw [List.forall_mem_cons] at free
    rw [splitWhere, if_neg (by simp [free.1]), ih free.2]

theorem splitWhereCut (free : ∀ x ∈ xs, p x = false) {mark : α} (marked : p mark = true)
    (rest : List α) : splitWhere p (xs ++ mark :: rest) = xs :: splitWhere p rest := by
  induction xs with
  | nil => rw [List.nil_append, splitWhere, if_pos marked]
  | cons x xs ih =>
    rw [List.forall_mem_cons] at free
    rw [List.cons_append, splitWhere, if_neg (by simp [free.1]), ih free.2]

theorem splitWhereCases (p : α → Bool) (xs : List α) :
    (∀ x ∈ xs, p x = false) ∧ splitWhere p xs = [xs] ∨
      ∃ front mark rest, xs = front ++ mark :: rest ∧ (∀ x ∈ front, p x = false) ∧ p mark = true ∧
        splitWhere p xs = front :: splitWhere p rest := by
  induction xs with
  | nil => exact .inl ⟨by simp, rfl⟩
  | cons x xs ih =>
    by_cases marked : p x = true
    · exact .inr ⟨[], x, xs, rfl, by simp, marked, @splitWhereCut α p [] (by simp) x marked xs⟩
    · have here : p x = false := by simpa using marked
      rcases ih with ⟨free, -⟩ | ⟨front, mark, rest, rfl, free, marked, -⟩
      · have all : ∀ y ∈ x :: xs, p y = false := List.forall_mem_cons.mpr ⟨here, free⟩
        exact .inl ⟨all, splitWhereFree all⟩
      · have all : ∀ y ∈ x :: front, p y = false := List.forall_mem_cons.mpr ⟨here, free⟩
        exact .inr ⟨x :: front, mark, rest, rfl, all, marked, splitWhereCut all marked rest⟩

theorem splitWhereNonempty (p : α → Bool) (xs : List α) : splitWhere p xs ≠ [] := by
  cases xs with
  | nil => simp [splitWhere]
  | cons x xs =>
    rw [splitWhere]
    split
    · simp
    · split <;> simp

theorem splitWhereParts (xs : List α) {part : List α} (among : part ∈ splitWhere p xs) {x : α}
    (member : x ∈ part) : x ∈ xs ∧ p x = false := by
  induction xs generalizing part with
  | nil =>
    cases List.mem_singleton.mp among
    contradiction
  | cons first rest ih =>
    rw [splitWhere] at among
    split at among
    · rcases List.mem_cons.mp among with rfl | later
      · contradiction
      · exact (ih later member).imp (List.mem_cons_of_mem _) id
    · rename_i unmarked
      split at among
      · cases List.mem_singleton.mp among
        cases List.mem_singleton.mp member
        exact ⟨List.mem_cons_self, by simpa using unmarked⟩
      · rename_i front others parts
        rw [parts] at ih
        rcases List.mem_cons.mp among with rfl | later
        · rcases List.mem_cons.mp member with rfl | inside
          · exact ⟨List.mem_cons_self, by simpa using unmarked⟩
          · exact (ih List.mem_cons_self inside).imp (List.mem_cons_of_mem _) id
        · exact (ih (List.mem_cons_of_mem _ later) member).imp (List.mem_cons_of_mem _) id

theorem splitWhereStarts {x : α} (unmarked : p x = false) (xs : List α) :
    ∃ front others, splitWhere p (x :: xs) = (x :: front) :: others := by
  rw [splitWhere, if_neg (by simp [unmarked])]
  split
  · exact ⟨[], [], rfl⟩
  · exact ⟨_, _, rfl⟩

theorem dropEmptyLastCons (part : List α) {parts : List (List α)} (more : parts ≠ []) :
    dropEmptyLast (part :: parts) = part :: dropEmptyLast parts := by
  obtain ⟨next, rest, rfl⟩ := List.exists_cons_of_ne_nil more
  unfold dropEmptyLast
  rw [List.getLast?_cons_cons]
  split
  · rw [List.dropLast_cons_cons]
  · rfl

end Split

end LineScript
