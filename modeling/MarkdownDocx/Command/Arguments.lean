import MarkdownDocx.Text.Digit
import MarkdownDocx.Text.Quoted

/-!
The arguments of the command. Options may be shortened to any beginning that only one of them has,
one-letter options may share a dash, and `--` ends the options.
-/

set_option autoImplicit false

namespace MarkdownDocx.Command

inductive Flag where
  | help
  | output
  | template
  | styles
  | stdin
  | clean
  | listTemplates
  | initStyles
  | version
  deriving DecidableEq, Repr

/-- The names of all options in order. -/
def flagNames : List (String × Flag) :=
  [("-h", .help), ("--help", .help), ("-o", .output), ("--output", .output), ("-t", .template),
    ("--template", .template), ("-s", .styles), ("--styles", .styles), ("--stdin", .stdin),
    ("--clean", .clean), ("--list-templates", .listTemplates), ("--init-styles", .initStyles),
    ("-v", .version), ("--version", .version)]

def Flag.ofName? (name : String) : Option Flag :=
  (flagNames.find? fun p => p.1 == name).map Prod.snd

def Flag.takesValue : Flag → Bool
  | .output => true
  | .template => true
  | .styles => true
  | _ => false

/-- All names of an option, as messages show them. -/
def Flag.label (f : Flag) : String :=
  "/".intercalate ((flagNames.filter fun p => p.2 == f).map Prod.fst)

/-- Why arguments are refused. -/
inductive UsageError where
  | unrecognized (arguments : List String)
  | expectedArgument (flag : Flag)
  | ignoredArgument (flag : Flag) (value : String)
  | ambiguous (argument : String) (names : List String)
  deriving DecidableEq, Repr

def UsageError.message : UsageError → String
  | .unrecognized arguments => "unrecognized arguments: " ++ " ".intercalate arguments
  | .expectedArgument flag => "argument " ++ flag.label ++ ": expected one argument"
  | .ignoredArgument flag value =>
    "argument " ++ flag.label ++ ": ignored explicit argument " ++ Text.quoted value
  | .ambiguous argument names =>
    "ambiguous option: " ++ argument ++ " could match " ++ ", ".intercalate names

/-- A value that is part of the option's argument, behind the name or behind the letter of the
option. -/
inductive Attached where
  | toName (text : List Char)
  | toLetter (text : List Char)
  deriving DecidableEq, Repr

/-- An argument by its role: a value, an option with what is attached to it, something that looks
like an option, or the end of the options. -/
inductive Word where
  | value (text : String)
  | option (flag : Flag) (attached : Option Attached)
  | unknown (text : String)
  | separator
  deriving DecidableEq, Repr

/-- The parts before and after the first equals sign. -/
def splitEquals (cs : List Char) : List Char × Option (List Char) :=
  match cs.dropWhile (· ≠ '=') with
  | [] => (cs, none)
  | _ :: r => (cs.takeWhile (· ≠ '='), some r)

/-- At least one digit, and nothing else but a line feed at the end. -/
def isDigitRun (cs : List Char) : Bool :=
  cs.head?.any Text.isDigit &&
    (cs.dropWhile Text.isDigit == [] || cs.dropWhile Text.isDigit == ['\n'])

/-- Negative numbers are values, not options. -/
def isNegativeNumber : List Char → Bool
  | '-' :: r =>
    isDigitRun r ||
      (match r.dropWhile Text.isDigit with
        | '.' :: fraction => isDigitRun fraction
        | _ => false)
  | _ => false

/-- Whether an option is given by its name, and not by its letter. -/
def isNamed : List Char → Bool
  | '-' :: '-' :: _ => true
  | _ => false

def attach (front text : List Char) : Attached :=
  if isNamed front then .toName text else .toLetter text

/-- The options that a shortened name can stand for. -/
def candidates (cs : List Char) : List (String × Word) :=
  if isNamed cs then
    let (front, attached) := splitEquals cs
    (flagNames.filter fun p => front.isPrefixOf p.1.toList).map fun p =>
      (p.1, .option p.2 (attached.map .toName))
  else
    (flagNames.filter fun p => p.1.toList == cs.take 2).map fun p =>
      (p.1, .option p.2 (some (.toLetter (cs.drop 2))))

/-- An argument that is written in full, with or without a value behind an equals sign. -/
def exactWord? (cs : List Char) : Option Word :=
  match Flag.ofName? (String.ofList cs) with
  | some flag => some (.option flag none)
  | none =>
    match splitEquals cs with
    | (_, none) => none
    | (front, some text) =>
      (Flag.ofName? (String.ofList front)).map fun flag =>
        .option flag (some (attach front text))

/-- The role of an argument that stands before the end of the options. -/
def classify (argument : String) : Except UsageError Word :=
  let cs := argument.toList
  if cs.head? ≠ some '-' || cs.length = 1 then .ok (.value argument)
  else
    match exactWord? cs with
    | some word => .ok word
    | none =>
      match candidates cs with
      | [(_, word)] => .ok word
      | [] =>
        if isNegativeNumber cs || cs.contains ' ' then .ok (.value argument)
        else .ok (.unknown argument)
      | several => .error (.ambiguous argument (several.map Prod.fst))

/-- The roles of all arguments. -/
def words : List String → Except UsageError (List Word)
  | [] => .ok []
  | argument :: rest =>
    if argument = "--" then .ok (.separator :: rest.map .value)
    else do
      let word ← classify argument
      let others ← words rest
      return word :: others

/-- The style file that is asked for. -/
inductive StyleOption where
  | absent
  /-- The option is there, but not the name of a file. -/
  | unnamed
  | file (path : String)
  deriving DecidableEq, Repr

structure Arguments where
  input : Option String := none
  outputFile : Option String := none
  output : Option String := none
  template : Option String := none
  styles : StyleOption := .absent
  stdin : Bool := false
  clean : Bool := false
  listTemplates : Bool := false
  initStyles : Bool := false
  version : Bool := false
  deriving DecidableEq, Repr

/-- Arguments with an option that takes no value. Help is no setting. -/
def Arguments.switch (a : Arguments) : Flag → Arguments
  | .stdin => { a with stdin := true }
  | .clean => { a with clean := true }
  | .listTemplates => { a with listTemplates := true }
  | .initStyles => { a with initStyles := true }
  | .version => { a with version := true }
  | _ => a

/-- What becomes of a `--` in the place of a value, which readers of arguments disagree about. -/
structure DashRule where
  /-- Whether one that is attached to an option is its value. -/
  keepsAttached : Bool
  /-- Whether one that stands behind the end of the options is a value. -/
  keepsOperand : Bool
  deriving DecidableEq, Repr

/-- A `--` that is not kept leaves its place empty. -/
def valueOf (keeps : Bool) (text : String) : Option String :=
  if text = "--" && !keeps then none else some text

/-- Arguments with the text that an option's value is taken from; a later one counts. -/
def Arguments.assign (rule : DashRule) (a : Arguments) (flag : Flag) (text : String) : Arguments :=
  let value := valueOf rule.keepsAttached text
  match flag with
  | .output => { a with output := value }
  | .template => { a with template := value }
  | .styles => { a with styles := value.elim .unnamed .file }
  | _ => a

/-- How one-letter options that share a dash end. -/
inductive Ending where
  | plain
  /-- With an option that takes a value, and the value if it is attached. -/
  | valued (flag : Flag) (text : Option String)
  deriving DecidableEq, Repr

/-- The options of one argument: those that take no value, and the end. -/
structure Cluster where
  switches : List Flag
  ending : Ending
  deriving DecidableEq, Repr

def Cluster.add (flag : Flag) (c : Cluster) : Cluster := { c with switches := flag :: c.switches }

/-- What follows a switch behind the same dash: the letters of further options, or the value of
the last one. -/
def readShared (flag : Flag) : List Char → Except UsageError Cluster
  | [] => .ok ⟨[flag], .plain⟩
  | c :: r =>
    match Flag.ofName? (String.ofList ['-', c]) with
    | none => .error (.ignoredArgument flag (String.ofList (c :: r)))
    | some next =>
      if next.takesValue then
        .ok ⟨[flag], .valued next (if r.isEmpty then none else some (String.ofList r))⟩
      else (readShared next r).map (·.add flag)

def readCluster (flag : Flag) (attached : Option Attached) : Except UsageError Cluster :=
  if flag.takesValue then
    match attached with
    | none => .ok ⟨[], .valued flag none⟩
    | some (.toName text) => .ok ⟨[], .valued flag (some (String.ofList text))⟩
    | some (.toLetter text) => .ok ⟨[], .valued flag (some (String.ofList text))⟩
  else
    match attached with
    | none => .ok ⟨[flag], .plain⟩
    | some (.toName text) => .error (.ignoredArgument flag (String.ofList text))
    | some (.toLetter []) => .error (.ignoredArgument flag "")
    | some (.toLetter text) => readShared flag text

/-- What arguments ask for. -/
inductive Request where
  | help
  | run (a : Arguments)
  deriving DecidableEq, Repr

/-- A value without a name, if one stands here. The end of the options may stand before it or
after it. -/
def takeOperand (rule : DashRule) : List Word → Option String × List Word
  | .separator :: .value text :: rest => (some text, rest)
  | .separator :: rest => (none, rest)
  | .value text :: .separator :: rest => (valueOf rule.keepsOperand text, rest)
  | .value text :: rest => (valueOf rule.keepsOperand text, rest)
  | ws => (none, ws)

theorem takeOperand_length (rule : DashRule) (ws : List Word) :
    (takeOperand rule ws).2.length ≤ ws.length := by
  unfold takeOperand
  split <;> simp only [List.length_cons] <;> omega

theorem takeOperand_value (rule : DashRule) (text : String) (ws : List Word) :
    (takeOperand rule (.value text :: ws)).2.length ≤ ws.length := by
  cases ws with
  | nil => simp [takeOperand]
  | cons w ws => cases w <;> simp [takeOperand]

theorem takeOperand_separator (rule : DashRule) (ws : List Word) :
    (takeOperand rule (.separator :: ws)).2.length ≤ ws.length := by
  cases ws with
  | nil => simp [takeOperand]
  | cons w ws => cases w <;> simp [takeOperand]

/-- What has been read so far. -/
structure Progress where
  arguments : Arguments := {}
  /-- Whether the values without a name have been taken, which happens at the first of them. -/
  operandsTaken : Bool := false
  extras : List String := []
  deriving DecidableEq, Repr

/-- Values without a name: the input and the output, as many as there are. -/
def Progress.takeOperands (rule : DashRule) (p : Progress) (ws : List Word) :
    Progress × List Word :=
  let input := takeOperand rule ws
  let output := takeOperand rule input.2
  ({ p with
    arguments := { p.arguments with input := input.1, outputFile := output.1 }
    operandsTaken := true }, output.2)

def Progress.skip (p : Progress) (text : String) : Progress :=
  { p with extras := p.extras ++ [text] }

def Progress.switches (p : Progress) (flags : List Flag) : Progress :=
  { p with arguments := flags.foldl Arguments.switch p.arguments }

def Progress.assign (rule : DashRule) (p : Progress) (flag : Flag) (text : String) : Progress :=
  { p with arguments := p.arguments.assign rule flag text }

/-- Reads words from left to right. -/
def readWords (rule : DashRule) (p : Progress) : List Word → Except UsageError Request
  | [] => if p.extras.isEmpty then .ok (.run p.arguments) else .error (.unrecognized p.extras)
  | .unknown text :: rest => readWords rule (p.skip text) rest
  | .value text :: rest =>
    if p.operandsTaken then readWords rule (p.skip text) rest
    else
      readWords rule (p.takeOperands rule (.value text :: rest)).1
        (p.takeOperands rule (.value text :: rest)).2
  | .separator :: rest =>
    if p.operandsTaken then readWords rule (p.skip "--") rest
    else
      readWords rule (p.takeOperands rule (.separator :: rest)).1
        (p.takeOperands rule (.separator :: rest)).2
  | .option flag attached :: rest =>
    match readCluster flag attached with
    | .error e => .error e
    | .ok ⟨switches, .plain⟩ =>
      if switches.contains .help then .ok .help else readWords rule (p.switches switches) rest
    | .ok ⟨switches, .valued valued (some text)⟩ =>
      if switches.contains .help then .ok .help
      else readWords rule ((p.switches switches).assign rule valued text) rest
    | .ok ⟨switches, .valued valued none⟩ =>
      match rest with
      | .value text :: rest =>
        if switches.contains .help then .ok .help
        else readWords rule ((p.switches switches).assign rule valued text) rest
      | _ => .error (.expectedArgument valued)
termination_by ws => ws.length
decreasing_by
  · simp
  · simp
  · have := takeOperand_length rule (takeOperand rule (.value text :: rest)).2
    have := takeOperand_value rule text rest
    simp only [Progress.takeOperands, List.length_cons]
    omega
  · simp
  · have := takeOperand_length rule (takeOperand rule (.separator :: rest)).2
    have := takeOperand_separator rule rest
    simp only [Progress.takeOperands, List.length_cons]
    omega
  · simp
  · simp
  · simp only [List.length_cons]; omega

/-- Reads the arguments of the command. -/
def readArguments (rule : DashRule) (arguments : List String) : Except UsageError Request := do
  let ws ← words arguments
  readWords rule {} ws

end MarkdownDocx.Command
