import MarkdownDocx.Docx.Document
import MarkdownDocx.Files.StyleFile
import MarkdownDocx.Layout.Flow

/-!
The whole way from Markdown to a document in a file.
-/

set_option autoImplicit false

namespace MarkdownDocx

open MarkdownDocx.Files (Tree Path)
open MarkdownDocx.Style (StyleTable Settings)

/-- What a conversion relies on: a parser of Markdown, the tools that draw formulas, the library
that documents are made with, a reader of JSON, and the standard output. -/
structure Toolbox extends Math.Tools where
  parse : String → Except Math.ToolError (List Markdown.Token)
  library : Docx.Library
  json : Json.Setup
  /-- Why the standard output does not take a text, if it does not: its encoding lacks a character,
  or there are characters that stand for bytes of a path that are no text. -/
  refusal : String → Option Math.ToolError

/-- An information as it is printed. -/
def informationLine (message : String) : String := "[INFO] " ++ message ++ "\n"

/-- Prints an information, which the standard output may refuse. -/
def Toolbox.say (tools : Toolbox) (message : String) : Logged Failure Unit :=
  match tools.refusal (informationLine message) with
  | none => Logged.report (.info message)
  | some e => Logged.fail (.output e)

/-- The syntax tree of Markdown. Empty text is not given to the parser. -/
def parseMarkdown (tools : Toolbox) (markdown : String) :
    Except Failure (List Markdown.Block) :=
  if markdown.isEmpty then .ok []
  else
    match tools.parse markdown with
    | .ok tokens => .ok (Markdown.blocksOf tokens)
    | .error e => .error (.parser e)

/-- Markdown as paragraphs and tables. -/
def layOut (tools : Toolbox) (styles : StyleTable) (markdown : String) :
    Logged Failure (List Layout.Element) := do
  let blocks ← Logged.ofExcept (parseMarkdown tools (Markdown.prepare markdown))
  (Layout.flow tools.toTools styles blocks).mapError .listIndent

/-- Tells how many formulas have become equations, if any has. -/
def reportEquations (tools : Toolbox) (count : Nat) : Logged Failure Unit :=
  if count = 0 then pure ()
  else tools.say ("Converted " ++ toString count ++ " LaTeX formulas")

/-- Styles and settings, the template's where none are given. -/
def resolve (styles : Option StyleTable) (settings : Option Settings) (template : Option String) :
    Except Failure (StyleTable × Settings) := do
  let chosen ← (Style.findTemplate template).mapError fun e => .style (.config e)
  return (styles.getD chosen.styles, settings.getD chosen.settings)

/-- The document of a Markdown text. -/
def generate (tools : Toolbox) (markdown : String) (styles : Option StyleTable)
    (settings : Option Settings) (template : Option String) : Logged Failure Docx.Document := do
  let (styles, settings) ← Logged.ofExcept (resolve styles settings template)
  let elements ← layOut tools styles markdown
  reportEquations tools (Layout.countEquations elements)
  (Logged.ofExcept (Docx.build tools.library (some styles) (some settings) elements)).mapError
    .document

/-- What a computation reported, the files as it left them, and its result. -/
structure Outcome (α : Type) where
  events : List Event
  files : Tree
  result : Except Failure α

/-- Converts Markdown and saves the document. Nothing is written unless the whole document could be
made; that it has been written is told afterwards. -/
def convert (tools : Toolbox) (files : Tree) (markdown : String) (path : Path)
    (styles : Option StyleTable) (settings : Option Settings) (template : Option String) :
    Outcome Path :=
  let made := generate tools markdown styles settings template
  match made.result with
  | .error e => ⟨made.events, files, .error e⟩
  | .ok document =>
    match files.save path (.document document) with
    | (left, .error e) => ⟨made.events, left, .error (.file e)⟩
    | (left, .ok ()) =>
      let told := tools.say ("Document saved: " ++ path.text)
      ⟨made.events ++ told.events, left, told.result.map fun () => path⟩

/-- Where a conversion takes its styles from. -/
inductive StyleSource where
  | template
  | table (styles : StyleTable)
  | file (path : String)

def StyleSource.load (json : Json.Setup) (source : StyleSource) (files : Tree)
    (template : Style.Template) : Logged Failure (StyleTable × Settings) :=
  match source with
  | .template => pure (template.styles, template.settings)
  | .table styles => pure (styles, template.settings)
  | .file path => Files.loadConfig json files (some path) template.styles template.settings

/-- The extension of documents. -/
def documentExtension : String := ".docx"

/-- The path that a document is saved under: the one that is named, or else the input's with
another extension. -/
def outputPath (input : Path) (output : Option String) : Except Failure Path :=
  match output with
  | some output => .ok (Path.ofString output)
  | none =>
    match input.withExtension documentExtension with
    | some p => .ok p
    | none => .error (.unnamedPath input.text)

/-- What a conversion of a file needs. -/
structure Job where
  styles : StyleTable
  settings : Settings
  markdown : String
  path : Path

/-- A file's text as it is converted, read once everything else has been settled. -/
def prepareFile (json : Json.Setup) (files : Tree) (input : String) (output : Option String)
    (source : StyleSource) (template : Option String) : Logged Failure Job := do
  let inputPath := Path.ofString input
  let found ← (Logged.ofExcept (files.has inputPath)).mapError .file
  if !found then Logged.fail (.inputNotFound inputPath.text)
  let path ← Logged.ofExcept (outputPath inputPath output)
  let chosen ← Logged.ofExcept ((Style.findTemplate template).mapError fun e => .style (.config e))
  let (styles, settings) ← source.load json files chosen
  let text ← (Logged.ofExcept (files.readText inputPath)).mapError .file
  return ⟨styles, settings, Markdown.unwrap text, path⟩

/-- Converts a file. -/
def convertFile (tools : Toolbox) (files : Tree) (input : String) (output : Option String)
    (source : StyleSource) (template : Option String) : Outcome Path :=
  let prepared := prepareFile tools.json files input output source template
  match prepared.result with
  | .error e => ⟨prepared.events, files, .error e⟩
  | .ok job =>
    let done :=
      convert tools files job.markdown job.path (some job.styles) (some job.settings) template
    ⟨prepared.events ++ done.events, done.files, done.result⟩

end MarkdownDocx
