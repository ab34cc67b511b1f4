import Mathlib.Data.List.DropRight
import Mathlib.Data.List.Forall2
import LineScript.Engine.Evaluate
import LineScript.Proofs.Script.Expressions

/-! What an expression says, told by its text alone: where a text is cut, which quotes belong together
and which blanks do not count. The expressions of a program, cut by the positions of their tokens,
evaluate to what their texts say. -/
namespace LineScript
namespace Formula
open Lexer

def parts (quoted : Bool) : List Char → List (List Char)
  | [] => [[]]
  | c :: cs =>
    if c = '+' && !quoted then [] :: parts false cs
    else
      match parts (if c = '"' then !quoted else quoted) cs with
      | [] => [[c]]
      | first :: others => (c :: first) :: others

def trim (text : List Char) : List Char := (text.dropWhile isBlank).rdropWhile isBlank

def operands (text : List Char) : List (List Char) := dropEmptyLast ((parts false text).map trim)

def literal? : List Char → Option String
  | '"' :: rest => if rest.dropWhile (· ≠ '"') = ['"'] then some (String.ofList (rest.takeWhile (· ≠ '"'))) else none
  | _ => none

def joined : List (Except Failure String) → Except Failure String
  | [] => .ok ""
  | first :: rest => do
    let text ← first
    let others ← joined rest
    return text ++ others

section Shorter

theorem partsNonempty (quoted : Bool) (text : List Char) : parts quoted text ≠ [] := by
  cases text with
  | nil => simp [parts]
  | cons c cs =>
    rw [parts]
    split
    · simp
    · split <;> simp

theorem trimShorter (text : List Char) : (trim text).length ≤ text.length :=
  Nat.le_trans (List.rdropWhile_prefix _ _).length_le (List.dropWhile_suffix _).length_le

theorem partsShorter (quoted : Bool) (text : List Char) :
    (∀ part ∈ parts quoted text, part.length ≤ text.length) ∧
      (1 < (parts quoted text).length → ∀ part ∈ parts quoted text, part.length < text.length) := by
  induction text generalizing quoted with
  | nil => simp [parts]
  | cons c cs ih =>
    rw [parts]
    split
    · have later := (ih false).1
      simp only [List.forall_mem_cons, List.length_cons, List.length_nil]
      exact ⟨⟨Nat.zero_le _, fun part member => Nat.le_succ_of_le (later part member)⟩,
        fun _ => ⟨Nat.succ_pos _, fun part member => Nat.lt_succ_of_le (later part member)⟩⟩
    · obtain ⟨most, less⟩ := ih (if c = '"' then !quoted else quoted)
      split
      · simp
      · rename_i first others found
        rw [found, List.forall_mem_cons] at most
        rw [found] at less
        simp only [List.forall_mem_cons, List.length_cons] at less ⊢
        refine ⟨⟨Nat.succ_le_succ most.1, fun part member => Nat.le_succ_of_le (most.2 part member)⟩, fun many => ?_⟩
        obtain ⟨head, rest⟩ := less many
        exact ⟨Nat.succ_lt_succ head, fun part member => Nat.lt_succ_of_lt (rest part member)⟩

theorem operandShorter {text operand : List Char} (many : 1 < (parts false text).length)
    (member : operand ∈ operands text) : operand.length < text.length := by
  obtain ⟨part, inside, rfl⟩ := List.mem_map.mp (Line.dropEmptyLastSub _ member)
  exact Nat.lt_of_le_of_lt (trimShorter part) ((partsShorter false text).2 many part inside)

end Shorter

def eval (scope : Scope) (text : List Char) : Except Failure Value :=
  if text = [] then .ok .nil
  else
    match literal? text with
    | some content => .ok (.text content)
    | none =>
      match scope.lookup (String.ofList text) with
      | some value => .ok value
      | none =>
        if _many : 1 < (parts false text).length then do
          return .text (← joined ((operands text).attach.map fun operand => eval scope operand.1 >>= Value.render))
        else
          match Number.ofText? (String.ofList text) with
          | some x => .ok (.number x)
          | none =>
            if scope.strict then .error (.unresolvedName (String.ofList text)) else .ok (.text (String.ofList text))
termination_by text.length
decreasing_by exact operandShorter _many operand.2

theorem evalSum {scope : Scope} {text : List Char} (nonempty : text ≠ []) (notLiteral : literal? text = none)
    (unbound : scope.lookup (String.ofList text) = none) (many : 1 < (parts false text).length) :
    eval scope text =
      (joined ((operands text).map fun operand => eval scope operand >>= Value.render)).map Value.text := by
  rw [eval, if_neg nonempty, notLiteral]
  simp only [unbound, dif_pos many]
  rw [@List.attach_map_val _ _ (operands text) fun operand => eval scope operand >>= Value.render]
  cases joined ((operands text).map fun operand => eval scope operand >>= Value.render) <;> rfl

section Parts

def prepend (front : List Char) : List (List Char) → List (List Char)
  | [] => [front]
  | first :: others => (front ++ first) :: others

theorem prependPrepend (a b : List Char) (ps : List (List Char)) : prepend a (prepend b ps) = prepend (a ++ b) ps := by
  cases ps <;> simp [prepend]

theorem partsOpen (quoted : Bool) {c : Char} (cs : List Char) (noPlus : c ≠ '+' ∨ quoted = true) :
    parts quoted (c :: cs) = prepend [c] (parts (if c = '"' then !quoted else quoted) cs) := by
  rw [parts, if_neg (by rcases noPlus with other | inside <;> simp_all)]
  cases parts (if c = '"' then !quoted else quoted) cs <;> rfl

theorem partsBehind {quoted : Bool} {front : List Char} (whole : ∀ c ∈ front, c ≠ '"' ∧ (c ≠ '+' ∨ quoted = true))
    (rest : List Char) : parts quoted (front ++ rest) = prepend front (parts quoted rest) := by
  induction front with
  | nil =>
    obtain ⟨first, others, found⟩ := List.exists_cons_of_ne_nil (partsNonempty quoted rest)
    rw [List.nil_append, found]
    rfl
  | cons c front ih =>
    obtain ⟨⟨noQuote, noPlus⟩, others⟩ := List.forall_mem_cons.mp whole
    rw [List.cons_append, partsOpen quoted _ noPlus, if_neg noQuote, ih others, prependPrepend]
    rfl

theorem insideQuotes {content : List Char} (noQuote : '"' ∉ content) :
    ∀ c ∈ content, c ≠ '"' ∧ (c ≠ '+' ∨ true = true) := by
  refine fun c member => ⟨?_, .inr rfl⟩
  rintro rfl
  exact noQuote member

theorem partsLiteral {content : List Char} (noQuote : '"' ∉ content) (rest : List Char) :
    parts false ('"' :: (content ++ '"' :: rest)) = prepend ('"' :: (content ++ ['"'])) (parts false rest) := by
  rw [partsOpen false _ (.inl (by decide)), if_pos rfl]
  show prepend _ (parts true _) = _
  rw [partsBehind (insideQuotes noQuote), partsOpen true _ (.inr rfl), if_pos rfl, prependPrepend, prependPrepend]
  simp

theorem partsUnclosed {text : List Char} (noQuote : '"' ∉ text) : parts false ('"' :: text) = ['"' :: text] := by
  have whole := partsBehind (insideQuotes noQuote) []
  rw [List.append_nil] at whole
  rw [partsOpen false _ (.inl (by decide)), if_pos rfl]
  show prepend _ (parts true _) = _
  rw [whole]
  simp [parts, prepend]

theorem splitBehind {x : Segment} {xs : List Segment} (other : isPlus x = false) :
    (splitWhere isPlus (x :: xs)).map charsOf = prepend x.chars ((splitWhere isPlus xs).map charsOf) := by
  rw [splitWhere, if_neg (by simp [other])]
  cases splitWhere isPlus xs <;> simp [prepend, charsOf]

theorem partsOutside {x : Segment} {xs : List Segment} (plain : ∀ c ∈ x.chars, c ≠ '"' ∧ (c ≠ '+' ∨ false = true))
    (other : isPlus x = false) (same : parts false (charsOf xs) = (splitWhere isPlus xs).map charsOf) :
    parts false (charsOf (x :: xs)) = (splitWhere isPlus (x :: xs)).map charsOf := by
  rw [charsCons, partsBehind plain, same, splitBehind other]

theorem plainOutside {cs : List Char} (plain : ∀ c ∈ cs, isPlain c = true) :
    ∀ c ∈ cs, c ≠ '"' ∧ (c ≠ '+' ∨ false = true) := by
  intro c member
  have here := plain c member
  simp only [isPlain, Bool.and_eq_true, decide_eq_true_eq] at here
  exact ⟨here.1.2, .inl here.2⟩

theorem plainOperator {operator : Operator} (other : operator ≠ .plus) :
    ∀ c ∈ operator.text.toList, isPlain c = true := by
  apply List.all_eq_true.mp
  cases operator <;> first | rfl | contradiction

theorem partsInline {xs : List Segment} (inline : Inline xs) :
    parts false (charsOf xs) = (splitWhere isPlus xs).map charsOf := by
  induction inline with
  | nil => rfl
  | @blank c xs isBlank next ih =>
    refine partsOutside ?_ rfl ih
    simp only [Segment.chars, List.forall_mem_singleton]
    refine ⟨?_, .inl ?_⟩ <;> rintro rfl <;> cases isBlank
  | @literal content xs noQuote next ih =>
    rw [splitBehind rfl, ← ih, charsCons]
    simpa [Segment.chars, Lexeme.chars] using partsLiteral noQuote (charsOf xs)
  | @op operator xs next ih =>
    by_cases plus : operator = .plus
    · subst plus
      have cut : splitWhere isPlus (.lexeme (.op .plus) :: xs) = [] :: splitWhere isPlus xs :=
        @splitWhereCut _ isPlus [] (by simp) _ rfl xs
      rw [cut, List.map_cons, ← ih]
      rfl
    · have other : isPlus (.lexeme (.op operator)) = false := by cases operator <;> first | rfl | contradiction
      exact partsOutside (plainOutside (plainOperator plus)) other ih
  | @word c more xs plain next ih =>
    refine partsOutside (plainOutside ?_) rfl ih
    simpa only [Segment.chars, Lexeme.chars, String.toList_ofList] using plain
  | @unclosed text noQuote ends =>
    rw [splitWhereFree (by simp [isPlus])]
    simpa [charsOf, Segment.chars, Lexeme.chars] using partsUnclosed noQuote

end Parts

section Trim

theorem trimAround {lead core trail : List Char} (before : ∀ c ∈ lead, isBlank c = true)
    (behind : ∀ c ∈ trail, isBlank c = true)
    (solid : core = [] ∨ (∃ c cs, core = c :: cs ∧ isBlank c = false) ∧ ∃ cs c, core = cs ++ [c] ∧ isBlank c = false) :
    trim (lead ++ (core ++ trail)) = core := by
  rw [trim, List.dropWhile_append_of_pos before]
  rcases solid with rfl | ⟨⟨c, cs, starts, first⟩, front, d, ends, last⟩
  · have gone : trail.dropWhile isBlank = [] := List.dropWhile_eq_nil_iff.mpr behind
    rw [List.nil_append, gone]
    rfl
  · have kept : (core ++ trail).dropWhile isBlank = core ++ trail := by
      rw [starts, List.cons_append, List.dropWhile_cons, if_neg (by simp [first])]
    have gone : trail.reverse.dropWhile isBlank = [] := List.dropWhile_eq_nil_iff.mpr (by simpa using behind)
    rw [kept, ends, List.rdropWhile, List.reverse_append, List.dropWhile_append, gone]
    simp [last]

theorem trimInline {xs : List Segment} (inline : Inline xs) : ∃ lead core trail, xs = lead ++ (core ++ trail) ∧
    (∀ x ∈ lead, isGap x = true) ∧ (∀ x ∈ trail, isGap x = true) ∧ (core = [] ∨ Framed core) ∧
    trim (charsOf xs) = charsOf core := by
  obtain ⟨lead, core, trail, rfl, before, behind, framed⟩ := framedCore xs
  refine ⟨lead, core, trail, rfl, before, behind, framed, ?_⟩
  rw [charsAppend, charsAppend]
  refine trimAround (inlineGaps inline.front before) (inlineGaps inline.behind.behind behind) ?_
  rcases framed with rfl | ⟨⟨first, rest, starts⟩, front, last, ends⟩
  · exact .inl rfl
  · have within := inline.behind.front
    obtain ⟨c, cs, chars, solid⟩ := inlineStarts (starts ▸ within)
    obtain ⟨ds, d, chars', solid'⟩ := inlineEnds (Inline.behind (ends ▸ within))
    refine .inr ⟨⟨c, cs ++ charsOf rest, ?_, solid⟩, charsOf front ++ ds, d, ?_, solid'⟩
    · rw [starts, charsCons, Segment.chars, chars, List.cons_append]
    · rw [ends, charsAppend, List.append_assoc, ← chars']
      simp [charsOf, Segment.chars]

end Trim

section Literal

def segmentLiteral? : List Segment → Option String
  | [.lexeme (.literal content)] => some content
  | _ => none

theorem literalOther {c : Char} (cs : List Char) (other : c ≠ '"') : literal? (c :: cs) = none := by
  unfold literal?
  split
  · simp_all
  · rfl

theorem literalInline {xs : List Segment} (inline : Inline xs) : literal? (charsOf xs) = segmentLiteral? xs := by
  cases inline with
  | nil => rfl
  | @blank c xs isBlank next =>
    refine literalOther (charsOf xs) ?_
    rintro rfl
    cases isBlank
  | @literal content xs noQuote next =>
    have chars : charsOf (.lexeme (.literal (String.ofList content)) :: xs) = '"' :: (content ++ '"' :: charsOf xs) := by
      simp [charsCons, Segment.chars, Lexeme.chars]
    obtain ⟨before, behind⟩ := upToQuote noQuote (charsOf xs)
    rw [chars, literal?, behind, before]
    cases xs with
    | nil => rfl
    | cons x xs =>
      rw [if_neg (by simpa using inlineNonempty next)]
      rfl
  | op operator next => cases operator <;> exact literalOther _ (by decide)
  | @word c more xs plain next =>
    have noQuote : c ≠ '"' := by
      rintro rfl
      cases plain _ List.mem_cons_self
    have chars : charsOf (.lexeme (.word (String.ofList (c :: more))) :: xs) = c :: (more ++ charsOf xs) := by
      simp [charsCons, Segment.chars, Lexeme.chars]
    rw [chars]
    exact literalOther _ noQuote
  | @unclosed text noQuote ends =>
    have free : ∀ c ∈ text, decide (c ≠ '"') = true := by
      intro c member
      simpa using fun (quote : c = '"') => noQuote (quote ▸ member)
    have chars : charsOf [.lexeme (.word (String.ofList ('"' :: text)))] = '"' :: text := by
      simp [charsOf, Segment.chars, Lexeme.chars]
    rw [chars, literal?, List.dropWhile_eq_nil_iff.mpr free]
    rfl

end Literal

end Formula

open Lexer Formula

section Expression
variable {scope : Scope} {p : Position} {xs : List Segment}

theorem plusTokens (p : Position) (xs : List Segment) : (place p xs).1.any (·.isOp .plus) = xs.any isPlus := by
  induction xs generalizing p with
  | nil => rfl
  | cons x xs ih =>
    cases x with
    | gap text =>
      rw [place, ih]
      rfl
    | lexeme value =>
      rw [place, List.any_cons, ih]
      rfl

theorem literalTokens (framed : Framed xs) (p : Position) (text : String) (line : Nat) :
    Expr.literal? ⟨(place p xs).1, text, line⟩ = segmentLiteral? xs := by
  obtain ⟨⟨value, rest, rfl⟩, front, last, ends⟩ := framed
  rcases List.cons_eq_append_iff.mp ends with ⟨rfl, same⟩ | ⟨tail, rfl, rfl⟩
  · cases same
    cases value <;> rfl
  · have inside : .lexeme last ∈ tail ++ [.lexeme last] := by simp
    obtain ⟨t, found, -⟩ := placeHas inside (p.after value)
    obtain ⟨u, us, tokens⟩ := List.exists_cons_of_ne_nil (List.ne_nil_of_mem found)
    have many : Expr.literal? ⟨(place p (.lexeme value :: (tail ++ [.lexeme last]))).1, text, line⟩ = none := by
      rw [place, tokens]
      cases value <;> rfl
    rw [many]
    cases tail <;> cases value <;> rfl

theorem framedNonempty (inline : Inline xs) (framed : Framed xs) : charsOf xs ≠ [] := by
  obtain ⟨⟨value, rest, rfl⟩, -⟩ := framed
  exact inlineNonempty inline

theorem framedTokens (framed : Framed xs) (p : Position) : (place p xs).1 ≠ [] := by
  obtain ⟨⟨value, rest, rfl⟩, -⟩ := framed
  simp [place]

theorem operandEvaluates (inline : Inline xs) (framed : Framed xs) (single : xs.any isPlus = false) (p : Position)
    (line : Nat) :
    Expr.evalOperand scope ⟨(place p xs).1, String.ofList (charsOf xs), line⟩ = eval scope (charsOf xs) := by
  have free : ∀ x ∈ xs, isPlus x = false := by simpa using single
  have one : ¬1 < (parts false (charsOf xs)).length := by
    rw [partsInline inline, splitWhereFree free]
    simp
  rw [Expr.evalOperand, eval, if_neg (by simpa using framedTokens framed p), if_neg (framedNonempty inline framed),
    literalTokens framed, literalInline inline]
  cases segmentLiteral? xs with
  | some content => rfl
  | none =>
    dsimp only
    cases scope.lookup (String.ofList (charsOf xs)) with
    | some value => rfl
    | none => cases Number.ofText? (String.ofList (charsOf xs)) <;> simp only [dif_neg one]

theorem partText {before core behind : List Segment} {e : Expr} (framed : Framed (before ++ (core ++ behind)))
    (tokens : e.tokens = (place p (before ++ (core ++ behind))).1)
    (text : e.text = String.ofList (charsOf (before ++ (core ++ behind)))) (inside : Framed core) :
    e.part (place (place p before).2 core).1 =
      ⟨(place (place p before).2 core).1, String.ofList (charsOf core), e.line⟩ := by
  obtain ⟨first, -, head, -, start, -⟩ := placeEnds framed p
  have base : e.base = p.offset := by rw [Expr.base, tokens, head, ← start]; rfl
  obtain ⟨front, last, head', last', start', stop⟩ := placeEnds inside (place p before).2
  have offset : (place p before).2.offset = p.offset + (charsOf before).length := placeOffset p before
  have from' : front.offset - e.base = (charsOf before).length := by rw [start', base, offset, Nat.add_sub_cancel_left]
  have width : last.stop - front.offset = (charsOf core).length := by rw [stop, start', Nat.add_sub_cancel_left]
  rw [Expr.part, head', last']
  simp only [from', width, text, String.toList_ofList, charsAppend, List.drop_left, List.take_left]

structure Aligned (p : Position) (xs : List Segment) (ts : List Token) (ys : List Segment) : Prop where
  free : ∀ y ∈ ys, isPlus y = false
  within : ∃ before behind, xs = before ++ (ys ++ behind) ∧ ts = (place (place p before).2 ys).1

theorem splitAligned (p : Position) (before xs : List Segment) :
    List.Forall₂ (Aligned p (before ++ xs)) (splitWhere (·.isOp .plus) (place (place p before).2 xs).1)
      (splitWhere isPlus xs) := by
  -- On the length of what is left, since what is in front of it grows with every cut.
  induction h : xs.length using Nat.strong_induction_on generalizing before xs with
  | _ size ih =>
  have noPlus {ys : List Segment} (free : ∀ x ∈ ys, isPlus x = false) (q : Position) :
      ∀ t ∈ (place q ys).1, t.isOp .plus = false := by
    intro t member
    exact free _ (placeBehind q ys t member).2
  rcases splitWhereCases isPlus xs with ⟨free, split⟩ | ⟨front, mark, rest, rfl, free, marked, split⟩
  · rw [split, splitWhereFree (noPlus free _)]
    exact .cons ⟨free, before, [], by simp, rfl⟩ .nil
  · obtain ⟨value, rfl⟩ : ∃ value, mark = .lexeme value := by
      cases mark with
      | gap text => cases marked
      | lexeme value => exact ⟨value, rfl⟩
    have isOp (q : Position) : Token.isOp ⟨value, q⟩ .plus = true := marked
    simp only [placeAppend, place]
    rw [split, splitWhereCut (noPlus free _) (isOp _)]
    have shorter : rest.length < size := by
      rw [← h, List.length_append, List.length_cons]
      omega
    have behind := ih rest.length shorter (before ++ (front ++ [.lexeme value])) rest rfl
    refine .cons ⟨free, before, .lexeme value :: rest, rfl, rfl⟩ ?_
    simpa [placeAppend, place] using behind

structure Alike (scope : Scope) (e : Expr) (ts : List Token) (text : List Char) : Prop where
  empty : ts = [] ↔ text = []
  value : (e.part ts).evalOperand scope = eval scope text

section Alike
variable {e : Expr} {tss : List (List Token)} {texts : List (List Char)}

theorem droppedAlike (alike : List.Forall₂ (Alike scope e) tss texts) :
    List.Forall₂ (Alike scope e) (dropEmptyLast tss) (dropEmptyLast texts) := by
  induction alike with
  | nil => exact .nil
  | @cons ts text tss texts same rest ih =>
    cases rest with
    | nil =>
      cases ts with
      | nil =>
        rw [same.empty.mp rfl]
        exact .nil
      | cons t ts =>
        cases text with
        | nil => cases same.empty.mpr rfl
        | cons c cs => exact .cons same .nil
    | cons next others =>
      rw [dropEmptyLastCons ts (List.cons_ne_nil _ _), dropEmptyLastCons text (List.cons_ne_nil _ _)]
      exact .cons same ih

theorem renderedAlike (alike : List.Forall₂ (Alike scope e) tss texts) : Expr.renderAll scope (tss.map e.part) =
    joined (texts.map fun text => eval scope text >>= Value.render) := by
  induction alike with
  | nil => rfl
  | cons same rest ih =>
    rw [List.map_cons, List.map_cons, Expr.renderAll, joined, same.value, ih, bind_assoc]

end Alike

section Sum
variable {e : Expr} (inline : Inline xs) (framed : Framed xs) (tokens : e.tokens = (place p xs).1)
  (text : e.text = String.ofList (charsOf xs))
include inline framed tokens text

theorem partEvaluates {ts : List Token} {ys : List Segment} (aligned : Aligned p xs ts ys) :
    Alike scope e ts (trim (charsOf ys)) := by
  obtain ⟨free, before, behind, rfl, rfl⟩ := aligned
  obtain ⟨lead, core, trail, rfl, gaps, gaps', solid, trimmed⟩ := trimInline inline.behind.front
  have cut : (place (place p before).2 (lead ++ (core ++ trail))).1 = (place (place p (before ++ lead)).2 core).1 := by
    simp only [placeAppend, placeGaps gaps, placeGaps gaps', List.nil_append, List.append_nil]
  rw [trimmed, cut]
  rcases solid with rfl | solid
  · refine ⟨by simp [place, charsOf], ?_⟩
    rw [eval]
    rfl
  · have whole : before ++ (lead ++ (core ++ trail) ++ behind) = (before ++ lead) ++ (core ++ (trail ++ behind)) := by
      simp only [List.append_assoc]
    have within := inline.behind.front.behind.front
    rw [whole] at framed tokens text
    refine ⟨iff_of_false (framedTokens solid _) (framedNonempty within solid), ?_⟩
    rw [partText framed tokens text solid]
    refine operandEvaluates within solid ?_ _ _
    simp only [List.any_eq_false]
    exact fun x member => by simp [free x (by simp [member])]

theorem sumRenders : Expr.renderAll scope e.operands =
    joined ((operands (charsOf xs)).map fun operand => eval scope operand >>= Value.render) := by
  have split : List.Forall₂ (Alike scope e) (splitWhere (·.isOp .plus) e.tokens)
      ((parts false (charsOf xs)).map trim) := by
    rw [tokens, partsInline inline, List.map_map, List.forall₂_map_right_iff]
    exact List.Forall₂.imp (fun _ _ => partEvaluates inline framed tokens text) (splitAligned p [] xs)
  exact renderedAlike (droppedAlike split)

theorem expressionEvaluates : e.eval scope = eval scope (charsOf xs) := by
  have sum : e.isSum = xs.any isPlus := by rw [Expr.isSum, tokens, plusTokens]
  rw [Expr.eval, sum]
  cases plus : xs.any isPlus with
  | false =>
    have whole : e = ⟨(place p xs).1, String.ofList (charsOf xs), e.line⟩ := by rw [← tokens, ← text]
    rw [whole]
    exact operandEvaluates inline framed plus p e.line
  | true =>
    have notLiteral : literal? (charsOf xs) = none := by
      rw [literalInline inline]
      unfold segmentLiteral?
      split
      · cases plus
      · rfl
    have many : 1 < (parts false (charsOf xs)).length := by
      obtain ⟨x, member, marked⟩ := List.any_eq_true.mp plus
      rw [partsInline inline]
      rcases splitWhereCases isPlus xs with ⟨free, -⟩ | ⟨front, mark, rest, -, -, -, split⟩
      · rw [free x member] at marked
        cases marked
      · simpa [split, List.length_pos_iff] using splitWhereNonempty isPlus rest
    rw [if_pos rfl, text]
    cases bound : scope.lookup (String.ofList (charsOf xs)) with
    | some value => rw [eval, if_neg (framedNonempty inline framed), notLiteral, bound]
    | none =>
      rw [evalSum (framedNonempty inline framed) notLiteral bound many, sumRenders inline framed tokens text]
      rfl

end Sum
end Expression

theorem textEvaluates {scope : Scope} {source : List Char} {depth : Nat} {s : Stmt} {e : Expr}
    (stands : Stands depth s (parse source).statements) (member : e ∈ s.expressions) :
    e.eval scope = Formula.eval scope e.text.toList := by
  rcases expressionSegments stands member with ⟨tokens, text⟩ | ⟨p, xs, inline, framed, tokens, text⟩
  · have whole : e = ⟨[], "", e.line⟩ := by rw [← tokens, ← text]
    rw [whole, Formula.eval]
    rfl
  · rw [expressionEvaluates inline framed tokens text, text, String.toList_ofList]

/- Where an expression stands in a source does not count: it says what its text says, and so does any
other expression with that text. -/
theorem evaluationReadsText {source : List Char} {depth : Nat} {s : Stmt} {e : Expr}
    (stands : Stands depth s (parse source).statements) (member : e ∈ s.expressions) (scope : Scope) :
    e.eval scope = Formula.eval scope e.text.toList ∧
      ∀ source' depth' s' e', Stands depth' s' (parse source').statements → e' ∈ s'.expressions →
        e'.text = e.text → e'.eval scope = e.eval scope := by
  refine ⟨textEvaluates stands member, fun source' depth' s' e' stands' member' same => ?_⟩
  rw [textEvaluates stands' member', textEvaluates stands member, same]

theorem sumOfThree :
    let source := "let x = n+ \"p+q\" + \"r +s".toList
    let scope : Scope := ⟨fun name => if name = "n" then some (.text "N") else none, false⟩
    ∃ s e, Stands 0 s (parse source).statements ∧ e ∈ s.expressions ∧ e.text = "n+ \"p+q\" + \"r +s" ∧
      e.eval scope = .ok (.text "Np+q\"r +s") := by
  intro source scope
  let put (offset : Nat) (l : Lexeme) : Token := ⟨l, ⟨offset, 1, offset + 1⟩⟩
  let sum : Expr := ⟨[put 8 (.word "n"), put 9 (.op .plus), put 11 (.literal "p+q"), put 17 (.op .plus),
    put 19 (.word "\"r +s")], "n+ \"p+q\" + \"r +s", 1⟩
  have found : tokens source = put 0 (.word "let") :: put 4 (.word "x") :: put 6 (.op .assign) :: sum.tokens := by
    decide +kernel
  have parsed : parse source = ⟨[.assign 1 "x" sum], []⟩ := by
    apply Parser.parseOfReading
    rw [found]
    exact .step rfl rfl (.line _ rfl rfl) (.finish _ _)
  have stands : Stands 0 (.assign 1 "x" sum) (parse source).statements := by
    rw [parsed]
    exact .here (List.mem_singleton_self _)
  refine ⟨_, sum, stands, List.mem_singleton_self _, rfl, ?_⟩
  rw [(evaluationReadsText stands (List.mem_singleton_self _) scope).1]
  have onlyOne {name : String} (other : name ≠ "n") : scope.lookup name = none := if_neg other
  have name : Formula.eval scope ['n'] = .ok (.text "N") := by
    rw [Formula.eval, if_neg (by decide)]
    rfl
  have literal : Formula.eval scope "\"p+q\"".toList = .ok (.text "p+q") := by
    rw [Formula.eval, if_neg (by decide)]
    rfl
  have unclosed : Formula.eval scope "\"r +s".toList = .ok (.text "\"r +s") := by
    have single : ¬1 < (parts false "\"r +s".toList).length := by decide +kernel
    have unbound : scope.lookup (String.ofList "\"r +s".toList) = none := onlyOne (by decide +kernel)
    have noNumber : Number.ofText? (String.ofList "\"r +s".toList) = none := by decide +kernel
    rw [Formula.eval, if_neg (by decide), unbound, dif_neg single, noNumber]
    rfl
  have unbound : scope.lookup (String.ofList sum.text.toList) = none := onlyOne (by decide +kernel)
  have cut : operands sum.text.toList = [['n'], "\"p+q\"".toList, "\"r +s".toList] := by decide +kernel
  rw [evalSum (by decide) (by decide +kernel) unbound (by decide +kernel), cut]
  simp only [List.map_cons, List.map_nil, name, literal, unclosed]
  rfl

end LineScript
