import MarkdownDocx.Files.Tree
import MarkdownDocx.Json.Reader
import MarkdownDocx.Math.Formula
import MarkdownDocx.Style.Error

/-!
Everything that can stop a conversion.
-/

set_option autoImplicit false

namespace MarkdownDocx

inductive Failure where
  | style (e : Style.Error)
  | file (e : Files.FileError)
  /-- A whole number in a style file that is too long to be read. -/
  | numeralTooLong
  /-- An array or an object in a style file that is nested too deep to be read. -/
  | nestedTooDeep (opened : Json.Bracket)
  | inputNotFound (path : String)
  /-- Styles are to be read from a file, but none is named. -/
  | unnamedStyles
  /-- A path without a name, which can have no extension. -/
  | unnamedPath (path : String)
  /-- The parser of Markdown failed. -/
  | parser (e : Math.ToolError)
  /-- A list indent that is no integer. -/
  | listIndent (e : Number.NotIntegral)
  | document (e : Docx.Error)
  /-- The standard input could not be read. -/
  | input (e : Math.ToolError)
  /-- The standard output did not take a text. -/
  | output (e : Math.ToolError)
  deriving Repr

def Failure.message : Failure → String
  | .style e => e.message
  | .file e => e.message
  | .numeralTooLong => "A whole number has more than 4300 digits"
  | .nestedTooDeep opened =>
    "maximum recursion depth exceeded while decoding a JSON " ++ opened.name ++
      " from a unicode string"
  | .inputNotFound path => "Input file not found: " ++ path
  | .unnamedStyles => "No styles file is named"
  | .unnamedPath path => "The path " ++ Text.quoted path ++ " has an empty name"
  | .parser e => e.message
  | .listIndent e => e.message
  | .document e => e.message
  | .input e => e.message
  | .output e => e.message

end MarkdownDocx
