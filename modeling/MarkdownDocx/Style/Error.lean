import MarkdownDocx.Json.Value

/-!
What can be wrong with styles and settings.
-/

set_option autoImplicit false

namespace MarkdownDocx.Style

/-- A fault in an override, a style file or the choice of a template. -/
inductive ConfigError where
  | unknownTemplate (name : String)
  | missingStyles (keys : List String)
  | overridesNotObject
  | styleNotObject (key : String) (value : Json)
  | flagNotBool (field : String) (value : Json)
  | settingsNotObject
  | sectionNotObject (name : String)
  | unknownLineSpacing (value : Json)
  | unknownPageNumberFormat (value : Json)
  | notAnInteger (setting : String) (value : Json)
  | fileNotFound (path : String)
  | fileMalformed (path fault : String)
  | fileNotObject (path : String)
  deriving Repr

def templateNames : List String := ["cn-gov", "en-standard"]

def ConfigError.message : ConfigError → String
  | .unknownTemplate name =>
    "Unknown template: " ++ name ++ " (available: " ++ ", ".intercalate templateNames ++ ")"
  | .missingStyles keys => "Style table is missing keys: " ++ ", ".intercalate keys
  | .overridesNotObject => "Style overrides must be a JSON object"
  | .styleNotObject key value =>
    "Style '" ++ key ++ "' must be an object, got " ++ value.kindName
  | .flagNotBool field value =>
    "Style field '" ++ field ++ "' must be true or false, got " ++ value.display
  | .settingsNotObject => "Document settings must be a JSON object"
  | .sectionNotObject name => "Document setting '" ++ name ++ "' must be a JSON object"
  | .unknownLineSpacing value => "Unknown line spacing type: " ++ value.asText.shown
  | .unknownPageNumberFormat value => "Unknown page number format: " ++ value.asText.shown
  | .notAnInteger setting value =>
    "Document setting '" ++ setting ++ "' must be an integer, got " ++ value.display
  | .fileNotFound path => "Styles file not found: " ++ path
  | .fileMalformed path fault => "Failed to parse styles file " ++ path ++ ": " ++ fault
  | .fileNotObject path => "Styles file " ++ path ++ " must contain a JSON object"

/-- Why styles or settings could not be made from data. -/
inductive Error where
  | config (e : ConfigError)
  /-- A whole number beyond every floating-point number. -/
  | tooLarge
  /-- Infinity where an integer is needed. -/
  | infinite
  deriving Repr

def Error.message : Error → String
  | .config e => e.message
  | .tooLarge => "int too large to convert to float"
  | .infinite => "cannot convert float infinity to integer"

end MarkdownDocx.Style
