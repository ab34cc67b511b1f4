import LineScript.Call.Kind

/-! Types written as texts: names of kinds, `None`, `Optional[TYPE]`, `Union[TYPE, …]`, list types,
and alternatives between bars. A type means the list of its alternatives. -/
namespace LineScript

inductive SimpleType where
  | scalar (kind : Kind)
  | nil
  deriving DecidableEq, Repr

namespace TypeText

inductive Symbol where
  | name (text : String)
  | bar
  | comma
  | openBracket
  | closeBracket
  | openParen
  | closeParen
  deriving DecidableEq, Repr

def isNameChar (c : Char) : Bool := c.isAlphanum || c = '_'

def symbol? : Char → Option Symbol
  | '|' => some .bar
  | ',' => some .comma
  | '[' => some .openBracket
  | ']' => some .closeBracket
  | '(' => some .openParen
  | ')' => some .closeParen
  | _ => none

def symbols? : List Char → Option (List Symbol)
  | [] => some []
  | c :: cs =>
    if c = ' ' || c = '\t' then symbols? cs
    else if isNameChar c then do
      let rest ← symbols? (cs.dropWhile isNameChar)
      some (.name (String.ofList (c :: cs.takeWhile isNameChar)) :: rest)
    else do
      let symbol ← symbol? c
      let rest ← symbols? cs
      some (symbol :: rest)
termination_by cs => cs.length
decreasing_by
  · simp only [List.length_cons]
    omega
  · have := (List.dropWhile_suffix isNameChar (l := cs)).length_le
    simp only [List.length_cons]
    omega
  · simp only [List.length_cons]
    omega

def otherTypes : List String :=
  ["Any", "list", "dict", "tuple", "set", "frozenset", "type", "object", "bytes", "bytearray",
    "complex"]

def collections : List String := ["list", "dict", "tuple", "set", "frozenset", "type"]

structure Reading where
  types : List SimpleType
  isBareNil : Bool
  deriving DecidableEq, Repr

mutual

def readType : Nat → List Symbol → Option (Reading × List Symbol)
  | 0, _ => none
  | depth + 1, symbols => do
    let (first, rest) ← readTerm depth symbols
    readAlternatives depth first rest

def readAlternatives : Nat → Reading → List Symbol → Option (Reading × List Symbol)
  | 0, _, _ => none
  | depth + 1, before, .bar :: symbols => do
    let (next, rest) ← readTerm depth symbols
    if before.isBareNil && next.isBareNil then none
    else readAlternatives depth ⟨before.types ++ next.types, false⟩ rest
  | _ + 1, before, symbols => some (before, symbols)

def readTerm : Nat → List Symbol → Option (Reading × List Symbol)
  | 0, _ => none
  | depth + 1, .name "Optional" :: .openBracket :: symbols => do
    match ← readType depth symbols with
    | (type, .closeBracket :: rest) => some (⟨type.types ++ [.nil], false⟩, rest)
    | _ => none
  | depth + 1, .name "Union" :: .openBracket :: symbols => do
    let (types, rest) ← readTypes depth symbols
    some (⟨types, false⟩, rest)
  | depth + 1, .openParen :: symbols => do
    match ← readType depth symbols with
    | (type, .closeParen :: rest) => some (type, rest)
    | _ => none
  | depth + 1, .name text :: .openBracket :: symbols => do
    if collections.contains text then
      let (_, rest) ← readTypes depth symbols
      some (⟨[.scalar .any], false⟩, rest)
    else none
  | _ + 1, .name "None" :: rest => some (⟨[.nil], true⟩, rest)
  | _ + 1, .name text :: rest =>
    if otherTypes.contains text then some (⟨[.scalar .any], false⟩, rest)
    else (Kind.ofName? text).map fun kind => (⟨[.scalar kind], false⟩, rest)
  | _ + 1, _ => none

def readTypes : Nat → List Symbol → Option (List SimpleType × List Symbol)
  | 0, _ => none
  | depth + 1, symbols => do
    let (first, rest) ← readType depth symbols
    match rest with
    | .closeBracket :: rest => some (first.types, rest)
    | .comma :: .closeBracket :: rest => some (first.types, rest)
    | .comma :: rest =>
      let (others, rest) ← readTypes depth rest
      some (first.types ++ others, rest)
    | _ => none

end

def read? (text : String) : Option (List SimpleType) := do
  let isSpace (c : Char) : Bool := c = ' ' || c = '\t' || c = '\n'
  let chars := (text.toList.dropWhile (· = '\n')).reverse.dropWhile isSpace |>.reverse
  if chars.head? = some ' ' || chars.head? = some '\t' then none
  else
    let symbols ← symbols? chars
    match ← readType (3 * symbols.length + 3) symbols with
    | (type, []) => some type.types
    | _ => none

end TypeText
end LineScript
