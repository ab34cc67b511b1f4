import LineScript.Proofs.Script.Inline
import LineScript.Proofs.Script.Parentheses

/-! The expressions of a program. Each of them is a run of tokens of one line of the source, with the
text from the first of them to the last; so it is made of segments of that line. -/
namespace LineScript
open Lexer

def Stmt.expressions : Stmt → List Expr
  | .assign _ _ value => [value]
  | .print _ value => [value]
  | .branch _ condition _ _ => [condition]
  | .call _ _ arguments => arguments
  | _ => []

def Expr.Among (source : List Char) (ts : List Token) (e : Expr) : Prop :=
  ∃ line run, e = .ofTokens source line run ∧ run <:+: ts

theorem Expr.Among.within {source : List Char} {ts us : List Token} {e : Expr} (among : e.Among source ts)
    (within : ts <:+: us) : e.Among source us := by
  obtain ⟨line, run, same, inside⟩ := among
  exact ⟨line, run, same, inside.trans within⟩

namespace Line

theorem splitCommasInfix (depth : Nat) (ts : List Token) :
    ∃ first others, splitCommas depth ts = first :: others ∧ first <+: ts ∧ ∀ group ∈ others, group <:+: ts := by
  induction ts generalizing depth with
  | nil => exact ⟨[], [], rfl, List.prefix_refl _, by simp⟩
  | cons t ts ih =>
    rw [splitCommas]
    split
    · obtain ⟨first, others, parts, front, later⟩ := ih depth
      refine ⟨[], splitCommas depth ts, rfl, List.nil_prefix, fun group member => ?_⟩
      rw [parts] at member
      refine List.IsInfix.trans ?_ (List.suffix_cons t ts).isInfix
      rcases List.mem_cons.mp member with rfl | behind
      · exact front.isInfix
      · exact later group behind
    · obtain ⟨first, others, parts, front, later⟩ := ih (parenDepth depth t)
      rw [parts]
      refine ⟨t :: first, others, rfl, (List.prefix_cons_inj t).mpr front, fun group member => ?_⟩
      exact (later group member).trans (List.suffix_cons t ts).isInfix

theorem groupsInfix (ts : List Token) : ∀ group ∈ argumentGroups ts, group <:+: ts := by
  intro group member
  obtain ⟨first, others, parts, front, later⟩ := splitCommasInfix 0 ts
  have among : group ∈ splitCommas 0 ts := dropEmptyLastSub _ member
  rw [parts] at among
  rcases List.mem_cons.mp among with rfl | behind
  · exact front.isInfix
  · exact later group behind

theorem withoutCloseParenInfix {ts inner : List Token} (found : withoutCloseParen? ts = some inner) : inner <:+: ts := by
  obtain ⟨close, rfl, -⟩ := withoutCloseParenSome found
  exact (List.prefix_append _ _).isInfix

section Statement
variable {source : List Char} {first : Token} {others : List Token} {e : Expr}

theorem assignmentAmong (member : e ∈ (assignment source first others).expressions) : e.Among source others := by
  unfold assignment at member
  dsimp only at member
  split at member
  · contradiction
  · rename_i sign value found
    split at member
    · contradiction
    · obtain rfl := List.mem_singleton.mp member
      refine ⟨_, value, rfl, ?_⟩
      have suffix : sign :: value <:+ others := found ▸ List.dropWhile_suffix _
      exact ((List.suffix_cons sign value).trans suffix).isInfix

theorem printingAmong (member : e ∈ (printing source first others).expressions) : e.Among source others := by
  unfold printing at member
  split at member
  · rename_i value found
    obtain rfl := List.mem_singleton.mp member
    exact ⟨_, value, rfl, (withoutCloseParenInfix found).trans (List.drop_suffix 1 others).isInfix⟩
  · contradiction

theorem callingAmong (member : e ∈ (calling source first others).expressions) : e.Among source others := by
  unfold calling at member
  split at member
  · rename_i path second inner kind
    split at member
    · split at member
      · rename_i arguments found
        obtain ⟨group, inside, rfl⟩ := List.mem_map.mp member
        refine ⟨_, group, rfl, ?_⟩
        have here := (groupsInfix arguments group inside).trans (withoutCloseParenInfix found)
        exact here.trans (List.suffix_cons second inner).isInfix
      · contradiction
    · contradiction
  · contradiction

theorem statementAmong (member : e ∈ (statement source first others).expressions) : e.Among source (first :: others) := by
  refine Expr.Among.within ?_ (List.suffix_cons first others).isInfix
  unfold statement at member
  split at member
  · exact assignmentAmong member
  · split at member
    · exact printingAmong member
    · exact callingAmong member

theorem conditionAmong (source : List Char) (line : Nat) (ts : List Token) : (condition source line ts).Among source ts := by
  cases ts with
  | nil => exact ⟨line, [], rfl, List.infix_refl _⟩
  | cons first others =>
    simp only [condition]
    split
    · rename_i inner opens found
      exact ⟨line, inner, rfl, (withoutCloseParenInfix found).trans (List.suffix_cons first others).isInfix⟩
    · exact ⟨line, first :: others, rfl, List.infix_refl _⟩

end Statement
end Line

theorem Collected.within {source : List Char} {run : List Token} (collected : Collected source run) :
    run <:+: tokens source := by
  obtain ⟨before, behind, whole, -⟩ := collected.whole
  exact ⟨before, behind, by rw [whole, List.append_assoc]⟩

theorem cutAmong {source : List Char} {s : Stmt} {run behind : List Token} {e : Expr} (cut : Cut source s run behind)
    (member : e ∈ s.expressions) : Collected source run ∧ e.Among source run := by
  cases cut with
  | line collected => exact ⟨collected, Line.statementAmong member⟩
  | branch collected =>
    obtain rfl := List.mem_singleton.mp member
    exact ⟨collected, Line.conditionAmong _ _ _⟩

theorem expressionSegments {source : List Char} {depth : Nat} {s : Stmt} {e : Expr}
    (stands : Stands depth s (parse source).statements) (member : e ∈ s.expressions) :
    (e.tokens = [] ∧ e.text = "") ∨ ∃ p xs, Inline xs ∧ Framed xs ∧ e.tokens = (place p xs).1 ∧
      e.text = String.ofList (charsOf xs) := by
  rcases programCut source depth s stands with ⟨body, rfl⟩ | ⟨run, behind, cut⟩
  · contradiction
  · obtain ⟨collected, line, ts, rfl, inside⟩ := cutAmong cut member
    cases ts with
    | nil => exact .inl ⟨rfl, rfl⟩
    | cons first others =>
      have inLine : ∀ t ∈ first :: others, t.lexeme ≠ .newline :=
        fun t found => Parser.insideInLine (collected.inside t (inside.subset found))
      obtain ⟨xs, inline, framed, spans, text⟩ := inlineRun (inside.trans collected.within) inLine
      exact .inr ⟨first.position, xs, inline, framed, spans.symm, text⟩

end LineScript
