import MarkdownDocx.Command.Arguments
import MarkdownDocx.Command.Usage
import MarkdownDocx.Conversion
import MarkdownDocx.Text.Cleanup

/-!
The command: what it prints, how it leaves the files, and the status that it exits with.
-/

set_option autoImplicit false

namespace MarkdownDocx.Command

open MarkdownDocx.Files (Tree Path)

/-- Text for the standard output or for the standard error. -/
inductive Printed where
  | out (text : String)
  | err (text : String)
  deriving DecidableEq, Repr

/-- What a report shows. Calls of the tools are not shown. -/
def printedEvent : Event → List Printed
  | .info message => [.out (informationLine message)]
  | .warning message => [.err ("[WARN] " ++ message ++ "\n")]
  | .failure message => [.err ("[ERROR] " ++ message ++ "\n")]
  | .rendered _ _ => []
  | .transduced _ => []

def printedEvents (events : List Event) : List Printed := events.flatMap printedEvent

/-- How a run of the command ends: with a status, or with a failure that it does not handle. -/
structure Run where
  printed : List Printed
  files : Tree
  result : Except Failure Nat

/-- Prints texts one after the other. One that is refused ends the run. -/
def printRun (tools : Toolbox) (files : Tree) (status : Nat) : List String → Run
  | [] => ⟨[], files, .ok status⟩
  | text :: rest =>
    match tools.refusal text with
    | some e => ⟨[], files, .error (.output e)⟩
    | none =>
      let later := printRun tools files status rest
      { later with printed := .out text :: later.printed }

/-- Why there is nothing to convert. -/
inductive Refusal where
  /-- A fault that is reported. -/
  | reported (message : String)
  /-- Without an input the help is shown. -/
  | noInput
  | unhandled (e : Failure)
  deriving Repr

/-- A text unless it is missing or empty. -/
def named (s : Option String) : Option String := s.filter fun s => !s.isEmpty

/-- The output that is named by an option, or else behind the input. -/
def Arguments.outputName (a : Arguments) : Option String :=
  (named a.output).or (named a.outputFile)

/-- The text to convert and the path to save it under. -/
def Arguments.source (a : Arguments) (stdin : Except Math.ToolError String) (files : Tree) :
    Except Refusal (String × Path) :=
  if a.stdin then
    match a.outputName with
    | none => .error (.reported "--stdin requires -o/--output to specify output file")
    | some output => do
      let text ← stdin.mapError fun e => .unhandled (.input e)
      return (text, Path.ofString output)
  else
    match named a.input with
    | none => .error .noInput
    | some input =>
      let inputPath := Path.ofString input
      match files.has inputPath with
      | .error e => .error (.unhandled (.file e))
      | .ok false => .error (.reported (Failure.inputNotFound inputPath.text).message)
      | .ok true => do
        let text ← (files.readText inputPath).mapError fun e => .unhandled (.file e)
        let path ← (outputPath inputPath a.outputName).mapError .unhandled
        return (text, path)

/-- Faults of a style file are reported; others are not handled. -/
def styleRefusal : Failure → Refusal
  | .style (.config e) => .reported e.message
  | e => .unhandled e

def cleanedText (c : Text.Cleaned) : String :=
  "Cleaned text: " ++ toString c.quotes ++ " quotes converted, " ++ toString c.emphasis ++
    " emphasis markers removed, " ++ toString c.spaces ++ " spaces removed"

/-- Styles and settings, with the overrides that the arguments ask for. -/
def StyleOption.load (json : Json.Setup) (o : StyleOption) (template : Style.Template)
    (files : Tree) : Logged Refusal (Style.StyleTable × Style.Settings) :=
  match o with
  | .absent => pure (template.styles, template.settings)
  | .unnamed => Logged.fail (.unhandled .unnamedStyles)
  | .file path =>
    (Files.loadConfig json files (some path) template.styles template.settings).mapError
      styleRefusal

/-- A text after the cleanup that was asked for. -/
def Arguments.cleanedMarkdown (tools : Toolbox) (a : Arguments) (markdown : String) :
    Logged Refusal String :=
  if a.clean then do
    let c := Text.cleanUp markdown.toList
    (tools.say (cleanedText c)).mapError .unhandled
    return String.ofList c.text
  else pure markdown

/-- Everything that a conversion needs. -/
def Arguments.job (tools : Toolbox) (a : Arguments) (template : Style.Template)
    (stdin : Except Math.ToolError String) (files : Tree) : Logged Refusal Job := do
  let (text, path) ← Logged.ofExcept (a.source stdin files)
  let (styles, settings) ← a.styles.load tools.json template files
  let markdown ← a.cleanedMarkdown tools (Markdown.unwrap text)
  return ⟨styles, settings, markdown, path⟩

/-- A run that ends with a reported fault. -/
def reportedRun (events : List Event) (files : Tree) (message : String) : Run :=
  ⟨printedEvents (events ++ [.failure message]), files, .ok 1⟩

/-- A conversion. What makes it fail is reported, whatever it is. -/
def convertRun (tools : Toolbox) (a : Arguments) (template : Style.Template)
    (stdin : Except Math.ToolError String) (files : Tree) : Run :=
  let prepared := a.job tools template stdin files
  match prepared.result with
  | .error (.reported message) => reportedRun prepared.events files message
  | .error .noInput =>
    let shown := printRun tools files 1 [help]
    { shown with printed := printedEvents prepared.events ++ shown.printed }
  | .error (.unhandled e) => ⟨printedEvents prepared.events, files, .error e⟩
  | .ok job =>
    let done := convert tools files job.markdown job.path (some job.styles) (some job.settings)
      (some template.id)
    match done.result with
    | .ok _ => ⟨printedEvents (prepared.events ++ done.events), done.files, .ok 0⟩
    | .error e =>
      reportedRun (prepared.events ++ done.events) done.files ("Conversion failed: " ++ e.message)

/-- The style file that is named. -/
def StyleOption.name? : StyleOption → Option String
  | .file path => named (some path)
  | _ => none

/-- Writes the template's styles to a new file. That it has been written is told afterwards. -/
def initStylesRun (tools : Toolbox) (a : Arguments) (template : Style.Template) (files : Tree) :
    Run :=
  match a.styles.name? with
  | none =>
    reportedRun [] files "--init-styles requires -s/--styles to specify the file to write"
  | some styles =>
    let path := Path.ofString styles
    match files.has path with
    | .error e => ⟨[], files, .error (.file e)⟩
    | .ok true => reportedRun [] files ("Styles file already exists: " ++ path.text)
    | .ok false =>
      match Files.saveStyles files path template.styles (some template.settings) with
      | .error e => ⟨[], files, .error (.file e)⟩
      | .ok written =>
        let told := tools.say ("Styles file created: " ++ path.text)
        ⟨printedEvents told.events, written, told.result.map fun () => 0⟩

def templateLine (t : Style.Template) : String :=
  let mark := if t.id = Style.defaultTemplate.id then " (default)" else ""
  t.id ++ mark ++ ": " ++ t.name ++ " - " ++ t.description ++ "\n"

def runArguments (tools : Toolbox) (a : Arguments) (stdin : Except Math.ToolError String)
    (files : Tree) : Run :=
  if a.version then printRun tools files 0 [versionText]
  else if a.listTemplates then printRun tools files 0 (Style.templates.map templateLine)
  else
    match Style.findTemplate a.template with
    | .error e => reportedRun [] files e.message
    | .ok template =>
      if a.initStyles then initStylesRun tools a template files
      else convertRun tools a template stdin files

/-- Runs the command with its arguments and what there is on the standard input. -/
def run (tools : Toolbox) (rule : DashRule) (arguments : List String)
    (stdin : Except Math.ToolError String) (files : Tree) : Run :=
  match readArguments rule arguments with
  | .error e =>
    ⟨[.err (usage ++ programName ++ ": error: " ++ e.message ++ "\n")], files, .ok 2⟩
  | .ok .help => printRun tools files 0 [help]
  | .ok (.run a) => runArguments tools a stdin files

end MarkdownDocx.Command
