import LineScript.Proofs.Script.Parentheses

/-! Arguments between commas. Cutting at the commas outside parentheses and joining with commas undo
each other, but for a last comma, which nothing has to follow. -/
namespace LineScript.Line

def depthBehind (depth : Nat) (ts : List Token) : Nat := ts.foldl parenDepth depth

def CommasInside (depth : Nat) (ts : List Token) : Prop :=
  ∀ front comma back, ts = front ++ comma :: back → comma.isOp .comma = true → depthBehind depth front ≠ 0

inductive Joined : List (List Token) → List Token → Prop where
  | none : Joined [] []
  | one (group) : Joined [group] group
  | more {comma next groups ts} (group) (isComma : comma.isOp .comma = true)
      (others : Joined (next :: groups) ts) : Joined (group :: next :: groups) (group ++ comma :: ts)

/- Cutting as a relation: a part goes on to the next comma outside parentheses. -/
inductive Cuts : Nat → List Token → List (List Token) → Prop where
  | last {depth part} (inside : CommasInside depth part) : Cuts depth part [part]
  | comma {depth part comma rest parts} (inside : CommasInside depth part)
      (outside : depthBehind depth part = 0) (isComma : comma.isOp .comma = true)
      (others : Cuts 0 rest parts) : Cuts depth (part ++ comma :: rest) (part :: parts)

section Cuts
variable {depth : Nat} {t : Token} {ts : List Token} {parts : List (List Token)}

theorem commasInsideNil (depth : Nat) : CommasInside depth [] := by
  intro front comma back same
  simp at same

theorem commasInsideCons : CommasInside depth (t :: ts) ↔
    ¬(t.isOp .comma && depth == 0) = true ∧ CommasInside (parenDepth depth t) ts := by
  rw [Bool.and_eq_true, beq_iff_eq, not_and]
  constructor
  · intro inside
    refine ⟨inside [] t ts rfl, fun front comma back same isComma => ?_⟩
    exact inside (t :: front) comma back (by rw [same, List.cons_append]) isComma
  · rintro ⟨here, later⟩ front comma back same isComma
    cases front with
    | nil =>
      obtain ⟨rfl, -⟩ := List.cons.inj same
      exact here isComma
    | cons u front =>
      obtain ⟨rfl, rest⟩ := List.cons.inj same
      exact later front comma back rest isComma

instance decideCommasInside : (depth : Nat) → (ts : List Token) → Decidable (CommasInside depth ts)
  | depth, [] => isTrue (commasInsideNil depth)
  | depth, t :: ts =>
    have := decideCommasInside (parenDepth depth t) ts
    decidable_of_iff _ commasInsideCons.symm

theorem cutsOutside (isComma : t.isOp .comma = true) (outside : depth = 0) (others : Cuts 0 ts parts) :
    Cuts depth (t :: ts) ([] :: parts) := by
  rw [← List.nil_append (t :: ts)]
  exact .comma (commasInsideNil depth) outside isComma others

theorem cutsInside {first : List Token} {others : List (List Token)}
    (stays : ¬(t.isOp .comma && depth == 0) = true)
    (cuts : Cuts (parenDepth depth t) ts (first :: others)) : Cuts depth (t :: ts) ((t :: first) :: others) := by
  cases cuts with
  | last inside => exact .last (commasInsideCons.mpr ⟨stays, inside⟩)
  | comma inside outside isComma others =>
    rw [← List.cons_append]
    exact .comma (commasInsideCons.mpr ⟨stays, inside⟩) outside isComma others

theorem cutsNonempty (cuts : Cuts depth ts parts) : parts ≠ [] := by
  cases cuts <;> exact List.cons_ne_nil _ _

theorem cuts (depth : Nat) (ts : List Token) : Cuts depth ts (splitCommas depth ts) := by
  induction ts generalizing depth with
  | nil => exact .last (commasInsideNil depth)
  | cons t ts ih =>
    rw [splitCommas]
    split
    · rename_i comma
      rw [Bool.and_eq_true, beq_iff_eq] at comma
      obtain ⟨isComma, rfl⟩ := comma
      exact cutsOutside isComma rfl (ih 0)
    · rename_i stays
      have later := ih (parenDepth depth t)
      obtain ⟨first, others, same⟩ := List.exists_cons_of_ne_nil (cutsNonempty later)
      rw [same] at later ⊢
      exact cutsInside stays later

theorem splitThrough {part rest first : List Token} {others : List (List Token)}
    (inside : CommasInside depth part)
    (behind : splitCommas (depthBehind depth part) rest = first :: others) :
    splitCommas depth (part ++ rest) = (part ++ first) :: others := by
  induction part generalizing depth with
  | nil => exact behind
  | cons t part ih =>
    obtain ⟨stays, later⟩ := commasInsideCons.mp inside
    rw [List.cons_append, splitCommas, if_neg stays, ih later behind]
    rfl

theorem cutsSound (cuts : Cuts depth ts parts) : splitCommas depth ts = parts := by
  induction cuts with
  | @last depth part inside =>
    have whole := @splitThrough depth part [] [] [] inside rfl
    simpa using whole
  | @comma depth part comma rest parts inside outside isComma others ih =>
    have here : splitCommas (depthBehind depth part) (comma :: rest) = [] :: parts := by
      rw [splitCommas, outside, isComma, ih]
      rfl
    have whole := splitThrough inside here
    rwa [List.append_nil] at whole

end Cuts

theorem depthOfOpen {depth after : Nat} {ts : List Token} (opened : openParens depth ts = some after) :
    depthBehind depth ts = after := by
  induction ts generalizing depth with
  | nil => exact Option.some.inj opened
  | cons t ts ih =>
    rw [openParens] at opened
    split at opened
    · contradiction
    · exact ih opened

theorem depthComma {comma : Token} (isComma : comma.isOp .comma = true) (depth : Nat) :
    parenDepth depth comma = depth := by
  simp only [Token.isOp, beq_iff_eq] at isComma
  simp [parenDepth, Token.isOp, isComma]

theorem joinedCuts {groups : List (List Token)} {ts : List Token} (joined : Joined groups ts) (some : groups ≠ [])
    (whole : ∀ group ∈ groups, Balanced group ∧ CommasInside 0 group) : Cuts 0 ts groups := by
  induction joined with
  | none => contradiction
  | one group => exact .last (whole group (List.mem_singleton_self group)).2
  | more group isComma others ih =>
    obtain ⟨⟨balanced, inside⟩, later⟩ := List.forall_mem_cons.mp whole
    exact .comma inside (depthOfOpen balanced) isComma (ih (List.cons_ne_nil _ _) later)

def Joins (depth : Nat) (groups : List (List Token)) (ts : List Token) : Prop :=
  ∃ front, Joined groups front ∧
    (ts = front ∨ ∃ comma, comma.isOp .comma = true ∧ depthBehind depth front = 0 ∧ ts = front ++ [comma])

theorem joinsLast (depth : Nat) (part : List Token) : Joins depth (dropEmptyLast [part]) part := by
  cases part with
  | nil => exact ⟨[], .none, .inl rfl⟩
  | cons t ts => exact ⟨t :: ts, .one _, .inl rfl⟩

theorem dropEmptyLastNone {parts : List (List Token)} (some : parts ≠ []) (none : dropEmptyLast parts = []) :
    parts = [[]] := by
  obtain ⟨part, others, rfl⟩ := List.exists_cons_of_ne_nil some
  cases others with
  | cons next others =>
    rw [dropEmptyLastCons part (List.cons_ne_nil next others)] at none
    contradiction
  | nil =>
    cases part with
    | nil => rfl
    | cons t ts => cases none

theorem cutsEmpty {ts : List Token} {depth : Nat} (cuts : Cuts depth ts [[]]) : ts = [] := by
  cases cuts with
  | last inside => rfl
  | comma inside outside isComma others => exact absurd rfl (cutsNonempty others)

theorem cutsJoins {depth : Nat} {ts : List Token} {parts : List (List Token)} (cuts : Cuts depth ts parts) :
    Joins depth (dropEmptyLast parts) ts := by
  induction cuts with
  | @last depth part inside => exact joinsLast depth part
  | @comma depth part comma rest parts inside outside isComma others ih =>
    have some := cutsNonempty others
    rw [dropEmptyLastCons part some]
    cases left : dropEmptyLast parts with
    | nil =>
      -- Nothing is behind the comma, so it is the last one.
      rw [dropEmptyLastNone some left] at others
      obtain rfl := cutsEmpty others
      exact ⟨part, .one part, .inr ⟨comma, isComma, outside, rfl⟩⟩
    | cons next groups =>
      rw [left] at ih
      obtain ⟨front, joined, ends⟩ := ih
      refine ⟨part ++ comma :: front, .more part isComma joined, ?_⟩
      rcases ends with rfl | ⟨final, isFinal, reached, rfl⟩
      · exact .inl rfl
      · refine .inr ⟨final, isFinal, ?_, by simp⟩
        have here : part.foldl parenDepth depth = 0 := outside
        rw [depthBehind, List.foldl_append, List.foldl_cons, here, depthComma isComma]
        exact reached

theorem keepsLast {groups : List (List Token)} (last : groups.getLast? ≠ some []) : dropEmptyLast groups = groups := by
  unfold dropEmptyLast
  split
  · contradiction
  · rfl

/- Splitting takes back what joining has put together, and joining what splitting has cut. -/
theorem splittingUndoesJoining :
    (∀ groups ts, Joined groups ts → groups ≠ [] → groups.getLast? ≠ some [] →
      (∀ group ∈ groups, Balanced group ∧ CommasInside 0 group) → argumentGroups ts = groups) ∧
      ∀ ts, Joins 0 (argumentGroups ts) ts := by
  constructor
  · intro groups ts joined some last whole
    rw [argumentGroups, cutsSound (joinedCuts joined some whole), keepsLast last]
  · exact fun ts => cutsJoins (cuts 0 ts)

section NestedComma

def nestedGroup : List Token :=
  [onFirstLine 0 (.word "max"), onFirstLine 3 (.op .openParen), onFirstLine 4 (.word "a"),
    onFirstLine 5 (.op .comma), onFirstLine 6 (.word "b"), onFirstLine 7 (.op .closeParen)]

theorem nestedAndEmptyArguments : Joined [nestedGroup, [], [onFirstLine 10 (.word "c")]]
      (tokens "max(a,b),,c".toList) ∧
    argumentGroups (tokens "max(a,b),,c".toList) = [nestedGroup, [], [onFirstLine 10 (.word "c")]] := by
  have read : tokens "max(a,b),,c".toList = nestedGroup ++ onFirstLine 8 (.op .comma) ::
      ([] ++ onFirstLine 9 (.op .comma) :: [onFirstLine 10 (.word "c")]) := by decide +kernel
  have joined : Joined [nestedGroup, [], [onFirstLine 10 (.word "c")]] (tokens "max(a,b),,c".toList) := by
    rw [read]
    exact .more _ rfl (.more _ rfl (.one _))
  exact ⟨joined, splittingUndoesJoining.1 _ _ joined (by decide) (by decide) (by decide)⟩

end NestedComma

end LineScript.Line
