import LineScript.Proofs.Script.Compose

/-! How many blocks stand around a statement. A block is entered while there is room for one level
more, and an `else` that goes on with a chain takes none; so no statement of a program stands deeper
than blocks may nest, however long the chains are. -/
namespace LineScript

/- An `else` that holds one branch and nothing else goes on with the chain and is no block. -/
def Block.Links (body : Block Stmt) : Prop :=
  ∃ line condition thenBody otherwise, body.statements = [.branch line condition thenBody otherwise]

/- Statements below a list of them, each with the number of blocks that stand around it. -/
inductive Stands : Nat → Stmt → List Stmt → Prop where
  | here {s statements} (member : s ∈ statements) : Stands 0 s statements
  | block {depth s statements body} (outer : .block body ∈ statements)
      (inner : Stands depth s body.statements) : Stands (depth + 1) s statements
  | thenBody {depth s statements line condition body otherwise}
      (outer : .branch line condition body otherwise ∈ statements)
      (inner : Stands depth s body.statements) : Stands (depth + 1) s statements
  | elseBody {depth s statements line condition thenBody body}
      (outer : .branch line condition thenBody (some body) ∈ statements) (own : ¬body.Links)
      (inner : Stands depth s body.statements) : Stands (depth + 1) s statements
  | link {depth s statements line condition thenBody body}
      (outer : .branch line condition thenBody (some body) ∈ statements) (links : body.Links)
      (inner : Stands depth s body.statements) : Stands depth s statements

def Everywhere (holds : Nat → Stmt → Prop) (statements : List Stmt) : Prop :=
  ∀ depth s, Stands depth s statements → holds depth s

def Stmt.isLine : Stmt → Bool
  | .block _ => false
  | .branch _ _ _ _ => false
  | _ => true

theorem Line.statementIsLine (source : List Char) (first : Token) (others : List Token) :
    (Line.statement source first others).isLine = true := by
  unfold Line.statement
  split
  · unfold Line.assignment
    dsimp only
    split
    · rfl
    · split <;> rfl
  · split
    · unfold Line.printing
      split <;> rfl
    · unfold Line.calling
      repeat' split
      all_goals rfl

section Everywhere
variable {holds : Nat → Stmt → Prop} {statements : List Stmt}

theorem standsIn {depth : Nat} {t : Stmt} (stands : Stands depth t statements) :
    ∃ s ∈ statements, Stands depth t [s] := by
  cases stands with
  | here member => exact ⟨t, member, .here List.mem_cons_self⟩
  | block outer inner => exact ⟨_, outer, .block List.mem_cons_self inner⟩
  | thenBody outer inner => exact ⟨_, outer, .thenBody List.mem_cons_self inner⟩
  | elseBody outer own inner => exact ⟨_, outer, .elseBody List.mem_cons_self own inner⟩
  | link outer links inner => exact ⟨_, outer, .link List.mem_cons_self links inner⟩

theorem Stands.among {depth : Nat} {t : Stmt} {all : List Stmt} (stands : Stands depth t statements)
    (among : statements ⊆ all) : Stands depth t all := by
  cases stands with
  | here member => exact .here (among member)
  | block outer inner => exact .block (among outer) inner
  | thenBody outer inner => exact .thenBody (among outer) inner
  | elseBody outer own inner => exact .elseBody (among outer) own inner
  | link outer links inner => exact .link (among outer) links inner

theorem Everywhere.among {some : List Stmt} (all : Everywhere holds statements) (among : some ⊆ statements) :
    Everywhere holds some :=
  fun depth t stands => all depth t (stands.among among)

theorem everywhereNil : Everywhere holds [] := by
  intro depth s stands
  obtain ⟨_, member, _⟩ := standsIn stands
  contradiction

theorem everywhereCons {s : Stmt} (first : Everywhere holds [s]) (others : Everywhere holds statements) :
    Everywhere holds (s :: statements) := by
  intro depth t stands
  obtain ⟨u, member, single⟩ := standsIn stands
  rcases List.mem_cons.mp member with rfl | later
  · exact first depth t single
  · exact others depth t (single.among (by simpa using later))

theorem everywhereLine {s : Stmt} (isLine : s.isLine = true) (here : holds 0 s) : Everywhere holds [s] := by
  intro depth t stands
  cases stands with
  | here member =>
    cases List.mem_singleton.mp member
    exact here
  | block outer inner | thenBody outer inner | elseBody outer own inner | link outer links inner =>
    cases List.mem_singleton.mp outer
    simp [Stmt.isLine] at isLine

theorem everywhereBlock {body : Block Stmt} (here : holds 0 (.block body))
    (inner : Everywhere (fun depth s => holds (depth + 1) s) body.statements) :
    Everywhere holds [.block body] := by
  intro depth t stands
  cases stands with
  | here member =>
    cases List.mem_singleton.mp member
    exact here
  | block outer stands =>
    cases List.mem_singleton.mp outer
    exact inner _ t stands
  | _ => simp_all

theorem everywhereBranch {line : Nat} {condition : Expr} {thenBody : Block Stmt}
    {otherwise : Option (Block Stmt)} (here : holds 0 (.branch line condition thenBody otherwise))
    (first : Everywhere (fun depth s => holds (depth + 1) s) thenBody.statements)
    (own : ∀ body, otherwise = some body → ¬body.Links →
      Everywhere (fun depth s => holds (depth + 1) s) body.statements)
    (link : ∀ body, otherwise = some body → body.Links → Everywhere holds body.statements) :
    Everywhere holds [.branch line condition thenBody otherwise] := by
  intro depth t stands
  cases stands with
  | here member =>
    cases List.mem_singleton.mp member
    exact here
  | block outer inner => simp at outer
  | thenBody outer inner =>
    cases List.mem_singleton.mp outer
    exact first _ t inner
  | elseBody outer apart inner =>
    cases List.mem_singleton.mp outer
    exact own _ rfl apart _ t inner
  | link outer links inner =>
    cases List.mem_singleton.mp outer
    exact link _ rfl links _ t inner

end Everywhere

def Fits (room : Nat) : List Stmt → Prop := Everywhere fun depth _ => depth ≤ room

def Block.Fits (room : Nat) (body : Block Stmt) : Prop :=
  Everywhere (fun depth _ => depth + 1 ≤ room) body.statements

theorem Block.Fits.entered {room : Nat} {body : Block Stmt} (fits : body.Fits room) :
    body.statements = [] ∨ ∃ left, room = left + 1 ∧ LineScript.Fits left body.statements := by
  cases same : body.statements with
  | nil => exact .inl rfl
  | cons s rest =>
    have used : 1 ≤ room := fits 0 s (.here (by simp [same]))
    obtain ⟨left, rfl⟩ := Nat.exists_eq_add_of_le' used
    exact .inr ⟨left, rfl, fun depth t stands => Nat.le_of_succ_le_succ (fits depth t (same ▸ stands))⟩

namespace Parser

def Product.Fits (room : Nat) : Product → Prop
  | .statements value => LineScript.Fits room value
  | .statement value => LineScript.Fits room [value]
  | .block value => value.Fits room
  | .body value => value.block.Fits room

theorem branchReading {source : List Char} {room line : Nat} {ts : List Token} {summary : Summary}
    (reading : Reading source room (.branch line) ts summary) :
    ∃ condition thenBody otherwise, summary.product = .statement (.branch line condition thenBody otherwise) := by
  cases reading <;> exact ⟨_, _, _, rfl⟩

theorem readingFits {source : List Char} {room : Nat} {task : Task} {ts : List Token} {summary : Summary}
    (reading : Reading source room task ts summary) : summary.product.Fits room := by
  induction reading with
  | finish room scope => exact everywhereNil
  | newline isNewline next ih => exact ih
  | stray inLine brace next ih => exact ih
  | close inLine brace => exact everywhereNil
  | leave inLine brace => exact everywhereNil
  | step inLine brace first others firstIh othersIh => exact everywhereCons firstIh othersIh
  | block brace inner ih => exact everywhereBlock (Nat.zero_le _) ih
  | branching brace word inner ih => exact ih
  | line ts brace word => exact everywhereLine (Line.statementIsLine _ _ _) (Nat.zero_le _)
  | skipUnclosed none => exact everywhereNil
  | skipBraced found => exact everywhereNil
  | enterBraced inner ih => exact fun depth s stands => Nat.succ_le_succ (ih depth s stands)
  | skipBare line ts => exact everywhereNil
  | enterBare inner ih => exact fun depth s stands => Nat.succ_le_succ (ih depth s stands)
  | bracedBody found inner ih => exact ih
  | bareBody missing inner ih => exact ih
  | alone inner ends ih => exact everywhereBranch (Nat.zero_le _) ih (by simp) (by simp)
  | link inner braced isElse isIf next firstIh nextIh =>
    obtain ⟨condition, thenBody, otherwise, isBranch⟩ := branchReading next
    cases isBranch
    refine everywhereBranch (Nat.zero_le _) firstIh ?_ ?_
    · rintro _ ⟨⟩ apart
      exact absurd ⟨_, _, _, _, rfl⟩ apart
    · rintro _ ⟨⟩ -
      exact nextIh
  | otherwise inner braced isElse noIf next firstIh nextIh =>
    refine everywhereBranch (Nat.zero_le _) firstIh ?_ ?_
    · rintro _ ⟨⟩ -
      exact nextIh
    · rintro _ ⟨⟩ -
      exact fun depth s stands => Nat.le_of_succ_le (nextIh depth s stands)

end Parser

theorem programFits (source : List Char) (limit : Nat) : Fits limit (Parser.parseWithin limit source).statements :=
  Parser.readingFits (Parser.readProgram source limit)

end LineScript
