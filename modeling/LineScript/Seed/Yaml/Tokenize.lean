import LineScript.Seed.Yaml.Quoted

/-! Reading a text as tokens of YAML. -/
namespace LineScript.Yaml
namespace Scanner

def isNameChar (c : Char) : Bool := c.isAlphanum || c = '-' || c = '_'

def takeMarker? (s : Scanner) (t : Token) : Option Scanner := do
  let s ← (s.unwind (-1)).removeKey?
  some ({ s with keyAllowed := false }.forward 3 |>.push t)

def takeComment? (s : Scanner) : Option Scanner :=
  let s := s.skipWhile (· = ' ')
  let s := if s.peek 0 = '#' then s.skipWhile (!isLineEnd ·) else s
  if isLineEnd (s.peek 0) then some s else none

def takeVersion? (s : Scanner) : Option (Nat × Scanner) := do
  let s := s.skipWhile (· = ' ')
  let major := s.rest.takeWhile Char.isDigit
  let s := s.forward major.length
  let minor := (s.rest.drop 1).takeWhile Char.isDigit
  if major.isEmpty || s.peek 0 ≠ '.' || minor.isEmpty then none
  else
    let s := s.forward (minor.length + 1)
    if s.peek 0 = ' ' || isLineEnd (s.peek 0) then
      some (major.foldl (fun n c => n * 10 + (c.toNat - 48)) 0, s)
    else none

def takeDirective? (s : Scanner) : Option Scanner := do
  let s ← (s.unwind (-1)).removeKey?
  let s := { s with keyAllowed := false }.step
  let name := s.rest.takeWhile isNameChar
  let s := s.forward name.length
  if name.isEmpty || !(s.peek 0 = ' ' || isLineEnd (s.peek 0)) then none
  else if name = ['Y', 'A', 'M', 'L'] then
    let (major, s) ← takeVersion? s
    (s.push (.directive (some major))).takeComment?
  else ((s.push (.directive none)).skipWhile (!isLineEnd ·)).takeComment?

def takeFlowStart? (s : Scanner) (t : Token) : Option Scanner := do
  let s ← s.saveKey?
  some (({ s with flow := s.flow + 1, keyAllowed := true }.push t).step)

def takeFlowEnd? (s : Scanner) (t : Token) : Option Scanner := do
  if s.flow = 0 then none
  else
    let s ← s.removeKey?
    some (({ s with flow := s.flow - 1, keyAllowed := false }.push t).step)

def takeFlowEntry? (s : Scanner) : Option Scanner := do
  let s ← s.removeKey?
  some (({ s with keyAllowed := true }.push .flowEntry).step)

def takeBlockMark? (s : Scanner) (block mark : Token) (keyAllowed : Bool) : Option Scanner := do
  if s.flow = 0 && !s.keyAllowed then none
  else
    let s := if s.flow = 0 then s.openBlock s.column s.tokens.length block else s
    let s ← s.removeKey?
    some (({ s with keyAllowed := keyAllowed }.push mark).step)

def takeValue? (s : Scanner) : Option Scanner :=
  match s.possibleKey? with
  | some key =>
    let s := (s.forgetKey).insertAt key.place .key
    let s := if s.flow = 0 then s.openBlock key.column key.place .blockMapping else s
    some (({ s with keyAllowed := false }.push .value).step)
  | none => takeBlockMark? s .blockMapping .value (s.flow = 0)

def takeName? (s : Scanner) (token : String → Token) : Option Scanner := do
  let s ← s.saveKey?
  let s := { s with keyAllowed := false }.step
  let name := s.rest.takeWhile isNameChar
  let s := s.forward name.length
  let c := s.peek 0
  if name.isEmpty then none
  else if isSpaceOrEnd c || c = '?' || c = ':' || c = ',' || c = ']' || c = '\x7d' || c = '%' ||
      c = '@' || c.toNat = 0x60 then some (s.push (token (String.ofList name)))
  else none

def isIndicator (c : Char) : Bool :=
  isSpaceOrEnd c || c.toNat = 0x60 ||
    ['-', '?', ':', ',', '[', ']', '\x7b', '\x7d', '#', '&', '*', '!', '|', '>', '\'', '"', '%',
      '@'].contains c

def startsPlain (s : Scanner) : Bool :=
  let c := s.peek 0
  !isIndicator c ||
    (!isSpaceOrEnd (s.peek 1) && (c = '-' || (s.flow = 0 && (c = '?' || c = ':'))))

def take? (s : Scanner) : Option Scanner :=
  let c := s.peek 0
  let alone := isSpaceOrEnd (s.peek 1)
  if c = '%' && s.column = 0 then s.takeDirective?
  else if s.column = 0 && s.atSeparator then
    s.takeMarker? (if c = '-' then .documentStart else .documentEnd)
  else if c = '[' then s.takeFlowStart? .flowSequence
  else if c = '\x7b' then s.takeFlowStart? .flowMapping
  else if c = ']' then s.takeFlowEnd? .flowSequenceEnd
  else if c = '\x7d' then s.takeFlowEnd? .flowMappingEnd
  else if c = ',' then s.takeFlowEntry?
  else if c = '-' && alone then s.takeBlockMark? .blockSequence .blockEntry true
  else if c = '?' && (s.flow ≠ 0 || alone) then
    s.takeBlockMark? .blockMapping .key (s.flow = 0)
  else if c = ':' && (s.flow ≠ 0 || alone) then s.takeValue?
  else if c = '*' then s.takeName? .alias
  else if c = '&' then s.takeName? .anchor
  else if c = '\'' || c = '"' then do
    let s ← s.saveKey?
    { s with keyAllowed := false }.takeQuoted?
  else if s.startsPlain then do
    let s ← s.saveKey?
    some { s with keyAllowed := false }.takePlain
  else none

def takeAll? : Nat → Scanner → Option (List Token)
  | 0, _ => none
  | count + 1, s => do
    let s := toNextToken (s.rest.length + 1) s.skipMark
    let s ← s.dropStaleKeys?
    let s := s.unwind s.column
    if s.rest.isEmpty then
      let s ← (s.unwind (-1)).removeKey?
      some s.tokens
    else takeAll? count (← s.take?)

end Scanner

def tokenize? (text : List Char) : Option (List Token) :=
  if text.all isAllowed then (Scanner.start text).takeAll? (text.length + 1) else none

end LineScript.Yaml
