import LineScript.Text.Digit
import LineScript.Text.Quoted

/-! Arguments of the command line: an optional script, an optional seed file, and help. -/
namespace LineScript.Cli

inductive Flag where
  | help
  | seed
  deriving DecidableEq, Repr

def Flag.name : Flag → String
  | .help => "-h/--help"
  | .seed => "--seed"

def spellings : List (String × Flag) := [("-h", .help), ("--help", .help), ("--seed", .seed)]

inductive UsageFault where
  | ambiguous (given : String) (matching : List String)
  | ignored (flag : Flag) (argument : String)
  | expected (flag : Flag)
  | unrecognized (arguments : List String)
  deriving DecidableEq, Repr

def UsageFault.message : UsageFault → String
  | .ambiguous given matching =>
    "ambiguous option: " ++ given ++ " could match " ++ ", ".intercalate matching
  | .ignored flag argument =>
    "argument " ++ flag.name ++ ": ignored explicit argument " ++ Text.quoted argument
  | .expected flag => "argument " ++ flag.name ++ ": expected one argument"
  | .unrecognized arguments => "unrecognized arguments: " ++ " ".intercalate arguments

/-- An argument by its looks. Behind the first separator `--` every argument is an operand. -/
inductive Argument where
  | operand (text : String)
  | separator
  | unknown (given : String)
  | option (flag : Flag) (isShort : Bool) (attached : Option String)
  deriving DecidableEq, Repr

def splitSign (cs : List Char) : List Char × Option String :=
  match cs.dropWhile (· ≠ '=') with
  | [] => (cs, none)
  | _ :: text => (cs.takeWhile (· ≠ '='), some (String.ofList text))

def isLineEnd (cs : List Char) : Bool := cs = [] || cs = ['\n']

def isDigitLine (cs : List Char) : Bool :=
  !(cs.takeWhile Text.isDigit).isEmpty && isLineEnd (cs.dropWhile Text.isDigit)

def isNegativeNumber : List Char → Bool
  | '-' :: cs =>
    match cs.dropWhile Text.isDigit with
    | '.' :: digits => isDigitLine digits
    | _ => isDigitLine cs
  | _ => false

def unmatched (given : String) : Argument :=
  let cs := given.toList
  if isNegativeNumber cs || cs.contains ' ' then .operand given else .unknown given

def classifyLong (given : String) : Except UsageFault Argument :=
  let (stem, attached) := splitSign given.toList
  match spellings.filter fun s => stem.isPrefixOf s.1.toList with
  | [] => .ok (unmatched given)
  | [(_, flag)] => .ok (.option flag false attached)
  | several => .error (.ambiguous given (several.map (·.1)))

def classifyShort (given : String) : Argument :=
  match given.toList with
  | ['-', 'h'] => .option .help true none
  | '-' :: 'h' :: '=' :: text => .option .help true (some (String.ofList text))
  | '-' :: 'h' :: text => .option .help true (some (String.ofList text))
  | _ => unmatched given

def classify (given : String) : Except UsageFault Argument :=
  match given.toList with
  | '-' :: '-' :: _ =>
    match spellings.lookup given with
    | some flag => .ok (.option flag false none)
    | none => classifyLong given
  | '-' :: _ :: _ => .ok (classifyShort given)
  | _ => .ok (.operand given)

def classifyAll : List String → Except UsageFault (List Argument)
  | [] => .ok []
  | given :: rest =>
    if given = "--" then .ok (.separator :: rest.map .operand)
    else do
      let first ← classify given
      let others ← classifyAll rest
      return first :: others

inductive Request where
  | help
  | run (seed script : Option String)
  deriving DecidableEq, Repr

def Request.paths : Request → List String
  | .help => []
  | .run seed script => seed.toList ++ script.toList

def checkAttached (text : String) : Except UsageFault Unit :=
  match text.toList.dropWhile (· = 'h') with
  | [] => if text = "" then .error (.ignored .help "") else .ok ()
  | rest => .error (.ignored .help (String.ofList rest))

def attachedValue? (text : String) : Option String := if text = "--" then none else some text

def dropSeparator : List Argument → List Argument
  | .separator :: rest => rest
  | arguments => arguments

theorem length_dropSeparator_le (arguments : List Argument) :
    (dropSeparator arguments).length ≤ arguments.length := by
  unfold dropSeparator
  split <;> simp

def operand? : List Argument → Option String
  | .operand text :: _ => some text
  | _ => none

/-- Takes the arguments one after the other. The first operand is the script, also behind a
separator; a separator beside it is passed over. -/
def walk (seed : Option String) (script : Option (Option String)) (extras : List String) :
    List Argument → Except UsageFault Request
  | [] =>
    if extras.isEmpty then .ok (.run seed (script.getD none))
    else .error (.unrecognized extras)
  | .operand text :: rest =>
    if script.isSome then walk seed script (extras ++ [text]) rest
    else walk seed (some (some text)) extras (dropSeparator rest)
  | .separator :: rest =>
    if script.isSome then walk seed script (extras ++ ["--"]) rest
    else walk seed (some (operand? rest)) extras (rest.drop 1)
  | .unknown given :: rest => walk seed script (extras ++ [given]) rest
  | .option .help isShort attached :: _ =>
    match attached with
    | none => .ok .help
    | some text =>
      if isShort then do
        checkAttached text
        return .help
      else .error (.ignored .help text)
  | .option .seed _ (some text) :: rest => walk (attachedValue? text) script extras rest
  | .option .seed _ none :: .operand text :: rest => walk (some text) script extras rest
  | .option .seed _ none :: _ => .error (.expected .seed)
termination_by arguments => arguments.length
decreasing_by
  all_goals
    simp only [List.length_cons, List.length_drop]
    have := length_dropSeparator_le rest
    omega

def parseArguments (arguments : List String) : Except UsageFault Request := do
  walk none none [] (← classifyAll arguments)

def usage : String := "usage: osun [-h] [--seed FILE] [script]\n"

def help : String :=
  usage ++ "\nRun Osun scripts.\n\npositional arguments:\n" ++
    "  script       path to a .os script; omit for a REPL\n\noptions:\n" ++
    "  -h, --help   show this help message and exit\n" ++
    "  --seed FILE  YAML or JSON file of variables to seed before running\n"

end LineScript.Cli
