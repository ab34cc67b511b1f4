import LineScript.Seed.Yaml.Tokenize

/-! The tree that tokens of YAML stand for. A text holds one document, which may be empty. -/
namespace LineScript.Yaml

inductive Node where
  | scalar (isPlain : Bool) (text : String)
  | sequence (items : List Node)
  | mapping (entries : List (Node × Node))
  deriving Repr

namespace Node

def empty : Node := .scalar true ""

abbrev Anchors := List (String × Node)

structure Read where
  node : Node
  anchors : Anchors
  rest : List Token

structure ReadList (α : Type) where
  items : List α
  anchors : Anchors
  rest : List Token

def startsNode (block : Bool) : List Token → Bool
  | [] => false
  | t :: _ =>
    match t with
    | .scalar _ _ | .flowSequence | .flowMapping | .anchor _ | .alias _ => true
    | .blockSequence | .blockMapping => block
    | _ => false

mutual

def read? : Nat → Bool → Bool → Anchors → List Token → Option Read
  | 0, _, _, _, _ => none
  | depth + 1, block, indentless, anchors, tokens =>
    match tokens with
    | .alias name :: rest => do
      let node ← anchors.lookup name
      some ⟨node, anchors, rest⟩
    | .anchor name :: rest => do
      if (anchors.lookup name).isSome then none
      else if startsNode block rest || (indentless && rest.head? = some .blockEntry) then
        match rest with
        | .anchor _ :: _ => none
        | .alias _ :: _ => none
        | _ =>
          let r ← read? depth block indentless anchors rest
          some { r with anchors := (name, r.node) :: r.anchors }
      else some ⟨empty, (name, empty) :: anchors, rest⟩
    | .scalar isPlain text :: rest => some ⟨.scalar isPlain text, anchors, rest⟩
    | .flowSequence :: rest => do
      let r ← flowItems? depth true anchors rest
      some ⟨.sequence r.items, r.anchors, r.rest⟩
    | .flowMapping :: rest => do
      let r ← flowEntries? depth true anchors rest
      some ⟨.mapping r.items, r.anchors, r.rest⟩
    | .blockSequence :: rest => do
      if !block then none
      else
        let r ← blockItems? depth anchors rest
        match r.rest with
        | .blockEnd :: rest => some ⟨.sequence r.items, r.anchors, rest⟩
        | _ => none
    | .blockMapping :: rest => do
      if !block then none
      else
        let r ← blockEntries? depth anchors rest
        match r.rest with
        | .blockEnd :: rest => some ⟨.mapping r.items, r.anchors, rest⟩
        | _ => none
    | .blockEntry :: _ => do
      if !indentless then none
      else
        let r ← blockItems? depth anchors tokens
        some ⟨.sequence r.items, r.anchors, r.rest⟩
    | _ => none

def readOr? : Nat → Bool → Bool → (Token → Bool) → Anchors → List Token → Option Read
  | 0, _, _, _, _, _ => none
  | depth + 1, block, indentless, ends, anchors, tokens =>
    if (tokens.head?.map ends).getD true then some ⟨empty, anchors, tokens⟩
    else read? depth block indentless anchors tokens

def blockItems? : Nat → Anchors → List Token → Option (ReadList Node)
  | 0, _, _ => none
  | depth + 1, anchors, tokens =>
    match tokens with
    | .blockEntry :: rest => do
      let ends (t : Token) : Bool := t = .blockEntry || t = .key || t = .value || t = .blockEnd
      let first ← readOr? depth true false ends anchors rest
      let others ← blockItems? depth first.anchors first.rest
      some { others with items := first.node :: others.items }
    | _ => some ⟨[], anchors, tokens⟩

def blockEntries? : Nat → Anchors → List Token → Option (ReadList (Node × Node))
  | 0, _, _ => none
  | depth + 1, anchors, tokens => do
    let ends (t : Token) : Bool := t = .key || t = .value || t = .blockEnd
    match tokens with
    | .key :: rest =>
      let key ← readOr? depth true true ends anchors rest
      let value ← match key.rest with
        | .value :: rest => readOr? depth true true ends key.anchors rest
        | rest => some ⟨empty, key.anchors, rest⟩
      let others ← blockEntries? depth value.anchors value.rest
      some { others with items := (key.node, value.node) :: others.items }
    | _ => some ⟨[], anchors, tokens⟩

def flowItems? : Nat → Bool → Anchors → List Token → Option (ReadList Node)
  | 0, _, _, _ => none
  | depth + 1, isFirst, anchors, tokens => do
    match tokens with
    | .flowSequenceEnd :: rest => some ⟨[], anchors, rest⟩
    | _ =>
      let tokens ← if isFirst then some tokens
        else match tokens with
          | .flowEntry :: rest => some rest
          | _ => none
      let ends (t : Token) : Bool := t = .flowEntry || t = .flowSequenceEnd
      match tokens with
      | .flowSequenceEnd :: rest => some ⟨[], anchors, rest⟩
      | .key :: rest =>
        let key ← readOr? depth false false (fun t => ends t || t = .value) anchors rest
        let value ← match key.rest with
          | .value :: rest => readOr? depth false false ends key.anchors rest
          | rest => some ⟨empty, key.anchors, rest⟩
        let others ← flowItems? depth false value.anchors value.rest
        some { others with items := .mapping [(key.node, value.node)] :: others.items }
      | _ =>
        let first ← read? depth false false anchors tokens
        let others ← flowItems? depth false first.anchors first.rest
        some { others with items := first.node :: others.items }

def flowEntries? : Nat → Bool → Anchors → List Token → Option (ReadList (Node × Node))
  | 0, _, _, _ => none
  | depth + 1, isFirst, anchors, tokens => do
    match tokens with
    | .flowMappingEnd :: rest => some ⟨[], anchors, rest⟩
    | _ =>
      let tokens ← if isFirst then some tokens
        else match tokens with
          | .flowEntry :: rest => some rest
          | _ => none
      let ends (t : Token) : Bool := t = .flowEntry || t = .flowMappingEnd
      match tokens with
      | .flowMappingEnd :: rest => some ⟨[], anchors, rest⟩
      | .key :: rest =>
        let key ← readOr? depth false false (fun t => ends t || t = .value) anchors rest
        let value ← match key.rest with
          | .value :: rest => readOr? depth false false ends key.anchors rest
          | rest => some ⟨empty, key.anchors, rest⟩
        let others ← flowEntries? depth false value.anchors value.rest
        some { others with items := (key.node, value.node) :: others.items }
      | _ =>
        let key ← read? depth false false anchors tokens
        let others ← flowEntries? depth false key.anchors key.rest
        some { others with items := (key.node, empty) :: others.items }

end

def directives? (versioned : Bool) : List Token → Option (List Token)
  | .directive none :: rest => directives? versioned rest
  | .directive (some major) :: rest =>
    if versioned || major ≠ 1 then none else directives? true rest
  | rest => some rest

def content? (tokens : List Token) : Option (Node × List Token) :=
  match tokens with
  | [] => some (empty, [])
  | .directive _ :: _ => some (empty, tokens)
  | .documentStart :: _ => some (empty, tokens)
  | .documentEnd :: _ => some (empty, tokens)
  | _ => do
    let r ← read? (3 * tokens.length + 3) true false [] tokens
    some (r.node, r.rest)

def isOver (tokens : List Token) : Bool := tokens.all (· = .documentEnd)

def document? (tokens : List Token) : Option (Option Node) :=
  match tokens with
  | [] => some none
  | .directive _ :: _ | .documentStart :: _ => do
    match ← directives? false tokens with
    | .documentStart :: rest =>
      let (node, rest) ← content? rest
      if isOver rest then some (some node) else none
    | _ => none
  | _ => do
    let r ← read? (3 * tokens.length + 3) true false [] tokens
    if isOver r.rest then some (some r.node) else none

end Node
end LineScript.Yaml
