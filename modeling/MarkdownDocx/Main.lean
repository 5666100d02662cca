import MarkdownDocx.Command.Run
import MarkdownDocx.Docx.Package
import MarkdownDocx.Recorded

/-!
The command line: reads what a run needs from the disk, and writes and prints what it leaves.
-/

set_option autoImplicit false

namespace MarkdownDocx.Main

open MarkdownDocx.Files (Tree Path Entry)

/-- The variable that names the file with the tools' recorded answers. -/
def toolsVariable : String := "MARKDOWN_DOCX_TOOLS"

/-- The tools; without a record they know nothing. -/
def loadTools : IO Toolbox := do
  match ← IO.getEnv toolsVariable with
  | none => return Recorded.toolbox .null
  | some path =>
    match Json.read Recorded.greatestDepth (← IO.FS.readFile path) with
    | .ok record => return Recorded.toolbox record
    | .error _ => throw (IO.userError ("The record of the tools is malformed: " ++ path))

/-- The paths that a run can touch. -/
def touchedPaths (a : Command.Arguments) : List Path :=
  let named :=
    [a.input, a.outputFile, a.output, a.styles.name?].filterMap id |>.map Path.ofString
  named ++ named.filterMap fun p => p.withExtension documentExtension

/-- The path that leads to a location. -/
def locationPath (l : Files.Location) : String :=
  match l with
  | "/" :: rest => "/" ++ "/".intercalate rest
  | l => "/".intercalate l

/-- What stands at a path, if anything that can be read does. -/
def readEntry (path : String) : IO (Option Entry) := do
  try
    let place ← IO.FS.realPath path
    if ← place.isDir then return some .directory
    else return some (.file (.bytes (← IO.FS.readBinFile place)))
  catch _ => return none

/-- The entries on the way to a path. -/
def loadPath (t : Tree) (p : Path) : IO Tree := do
  let mut tree := t
  let mut location := Files.rootLocation p.root
  for name in p.parts do
    location := if name == ".." then location.up else location ++ [name]
    if let some entry ← readEntry (locationPath location) then
      tree := tree.put location entry
  return tree

def loadFiles (a : Command.Arguments) : IO Tree := (touchedPaths a).foldlM loadPath {}

def unchanged (before : Option Entry) (after : Entry) : Bool :=
  match before, after with
  | some .directory, .directory => true
  | some (.file (.bytes a)), .file (.bytes b) => a.toList == b.toList
  | _, _ => false

def writeEntry (before : Tree) (e : Files.Location × Entry) : IO Unit := do
  if unchanged (before.find? e.1) e.2 then return
  let path := locationPath e.1
  match e.2 with
  | .directory => IO.FS.createDirAll path
  | .file (.bytes data) => IO.FS.writeBinFile path data
  | .file (.document d) => IO.FS.writeFile path (Docx.packageText d)

def print : Command.Printed → IO Unit
  | .out text => IO.print text
  | .err text => IO.eprint text

/-- Arguments as they are read here: a `--` in the place of a value is left out. -/
def dashRule : Command.DashRule := { keepsAttached := false, keepsOperand := false }

/-- What is on the standard input, if it is text. -/
def readInput : IO (Except Math.ToolError String) := do
  try
    return .ok (← (← IO.getStdin).readToEnd)
  catch e => return .error ⟨"UnicodeDecodeError", e.toString⟩

end MarkdownDocx.Main

open MarkdownDocx in
def main (arguments : List String) : IO UInt32 := do
  let asked := match Command.readArguments Main.dashRule arguments with
    | .ok (.run a) => a
    | _ => {}
  let tools ← Main.loadTools
  let files ← Main.loadFiles asked
  let stdin ← if asked.stdin then Main.readInput else pure (.ok "")
  let run := Command.run tools Main.dashRule arguments stdin files
  run.files.entries.forM (Main.writeEntry files)
  run.printed.forM Main.print
  match run.result with
  | .ok status => return UInt32.ofNat status
  | .error e => do
    IO.eprintln e.message
    return 1
