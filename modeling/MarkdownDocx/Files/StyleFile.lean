import MarkdownDocx.Failure
import MarkdownDocx.Json.Reader
import MarkdownDocx.Json.Writer
import MarkdownDocx.Style.Template

/-!
Style files: JSON objects that override the styles of a table, and the settings of a document in
a section of their own.
-/

set_option autoImplicit false

namespace MarkdownDocx.Files

open MarkdownDocx.Style (StyleKey StyleTable Settings ConfigError)

/-- The section of a style file that holds settings. -/
def settingsSection : String := "document"

def configFailure {α : Type} (e : ConfigError) : Except Failure α := .error (.style (.config e))

/-- The object in a style file. A file that is there but holds no object is never passed over. -/
def readOverrides (json : Json.Setup) (t : Tree) (p : Path) : Except Failure Json.Members :=
  match t.has p with
  | .error e => .error (.file e)
  | .ok false => configFailure (.fileNotFound p.text)
  | .ok true =>
    match t.readText p with
    | .error e => .error (.file e)
    | .ok text =>
      match Json.read json.depth text with
      | .error .malformed => configFailure (.fileMalformed p.text (json.fault text))
      | .error .tooManyDigits => .error .numeralTooLong
      | .error (.tooDeep opened) => .error (.nestedTooDeep opened)
      | .ok (.obj members) => .ok members
      | .ok _ => configFailure (.fileNotObject p.text)

/-- Settings with those of a style file in place of their own. -/
def overrideSettings (base : Settings) (members : Json.Members) : Except Style.Error Settings :=
  match Json.find? settingsSection members with
  | none => .ok base
  | some data => base.override data

/-- Styles and settings with the overrides of a file, if one is named. -/
def loadConfig (json : Json.Setup) (t : Tree) (path : Option String) (styles : StyleTable)
    (settings : Settings) : Logged Failure (StyleTable × Settings) :=
  match path with
  | none => pure (styles, settings)
  | some path => do
    let members ← Logged.ofExcept (readOverrides json t (Path.ofString path))
    let merged ← (styles.merge (.obj members)).mapError .style
    let overridden ← (Logged.ofExcept (overrideSettings settings members)).mapError .style
    return (merged, overridden)

/-- The object that restores a table, and settings if there are any. -/
def styleMembers (styles : StyleTable) (settings : Option Settings) : Json.Members :=
  let last : Json.Members := match settings with
    | none => []
    | some s => [(settingsSection, .obj s.toMembers)]
  styles.toMembers ++ last

/-- The strings of a table, which may hold surrogates, in the order in which they are written. -/
def writtenFonts (styles : StyleTable) : List WideString :=
  StyleKey.all.flatMap fun key =>
    (styles.style key).font :: (styles.style key).namedEnglishFont.toList

/-- Writes a style file; its directory has to be there. No table with a surrogate is saved, and what
the file holds then is not told. -/
def saveStyles (t : Tree) (p : Path) (styles : StyleTable) (settings : Option Settings) :
    Except FileError Tree := do
  let written ← t.write p (.bytes (Json.write (.obj (styleMembers styles settings))).toUTF8)
  match (writtenFonts styles).find? fun font => font.text?.isNone with
  | some font => .error (.unencodable (Json.quotedString font))
  | none => return written

end MarkdownDocx.Files
