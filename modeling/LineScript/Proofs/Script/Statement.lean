import LineScript.Script.Statement

/-! Induction over statement trees: one case for each form of statement, with the claim for the
statements of its blocks, and the two cases of a list. -/
namespace LineScript.Stmt

theorem induction {P : Stmt → Prop} {Q : List Stmt → Prop}
    (block : ∀ line statements, Q statements → P (.block ⟨line, statements⟩))
    (assign : ∀ line name value, P (.assign line name value))
    (print : ∀ line value, P (.print line value))
    (branch : ∀ line condition thenBody otherwise, Q thenBody.statements →
      (∀ body, otherwise = some body → Q body.statements ∧ ∀ s ∈ body.statements, P s) →
      P (.branch line condition thenBody otherwise))
    (call : ∀ line path arguments, P (.call line path arguments))
    (unknown : ∀ line text why, P (.unknown line text why))
    (nil : Q [])
    (cons : ∀ s rest, P s → Q rest → Q (s :: rest)) : (∀ s, P s) ∧ ∀ statements, Q statements := by
  let Both (statements : List Stmt) : Prop := Q statements ∧ ∀ s ∈ statements, P s
  have bothNil : Both [] := ⟨nil, by simp⟩
  have bothCons (s : Stmt) (rest : List Stmt) (first : P s) (others : Both rest) : Both (s :: rest) :=
    ⟨cons s rest first others.1, by
      intro t member
      rcases List.mem_cons.mp member with rfl | later
      · exact first
      · exact others.2 t later⟩
  have single (s : Stmt) : P s := by
    apply Stmt.rec (motive_1 := P) (motive_2 := fun body => Both body.statements)
      (motive_3 := fun otherwise => ∀ body, otherwise = some body → Both body.statements)
      (motive_4 := Both)
    case block => exact fun body inner => block body.line body.statements inner.1
    case assign => exact assign
    case print => exact print
    case branch =>
      intro line condition thenBody otherwise first second
      exact branch line condition thenBody otherwise first.1 second
    case call => exact call
    case unknown => exact unknown
    case mk => exact fun line statements inner => inner
    case none => simp
    case some =>
      intro body inner other same
      cases Option.some.inj same
      exact inner
    case nil => exact bothNil
    case cons => exact fun s rest first others => bothCons s rest first others
  refine ⟨single, ?_⟩
  intro statements
  induction statements with
  | nil => exact nil
  | cons s rest ih => exact cons s rest (single s) ih

end LineScript.Stmt
