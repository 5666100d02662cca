import MarkdownDocx.Conversion

/-!
Tools whose answers were recorded before: tables of parsed Markdown and of drawn formulas, as JSON.
What a table does not hold is an error, and a surrogate in a record reads as its escape.
-/

set_option autoImplicit false

namespace MarkdownDocx.Recorded

open MarkdownDocx.Markdown (Token TokenKind)
open MarkdownDocx.Math (ToolError)

def asString : Json → String
  | .str s => s.shown
  | _ => ""

/-- A string that may be missing, or `null`. -/
def asString? : Json → Option String
  | .str s => some s.shown
  | _ => none

/-- Whether a value counts as true: nothing, zero and whatever is empty do not. -/
def asFlag : Json → Bool
  | .null => false
  | .bool b => b
  | .int n => n != 0
  | .real x => !x.sameValue (.zero false)
  | .str s => !s.points.isEmpty
  | .arr items => !items.isEmpty
  | .obj members => !members.isEmpty

def asInt : Json → Int
  | .int n => n
  | .bool b => if b then 1 else 0
  | .real x => x.truncate.toOption.getD 0
  | _ => 0

/-- An attribute of a token; those that say nothing about its content are passed over. -/
def setAttribute (a : Markdown.Attributes) (m : WideString × Json) : Markdown.Attributes :=
  if m.1 = "level" then { a with level := asInt m.2 }
  else if m.1 = "ordered" then { a with ordered := asFlag m.2 }
  else if m.1 = "start" then { a with start := asInt m.2 }
  else if m.1 = "align" then { a with align := asString? m.2 }
  else if m.1 = "url" then { a with url := asString m.2 }
  else a

def attributesOf : Json → Markdown.Attributes
  | .obj members => members.foldl setAttribute {}
  | _ => {}

mutual
/-- A token from its record, in which any member may be missing. -/
def tokenOf : Json → Token
  | .obj members => tokenFrom (.token (.other "") "" {} []) members
  | _ => .token (.other "") "" {} []

/-- A token with the members of a record in place of its own parts. -/
def tokenFrom : Token → List (WideString × Json) → Token
  | t, [] => t
  | .token kind raw attributes children, (key, value) :: rest =>
    if key = "type" then
      tokenFrom (.token (TokenKind.ofName (asString value)) raw attributes children) rest
    else if key = "raw" then tokenFrom (.token kind (asString value) attributes children) rest
    else if key = "attrs" then tokenFrom (.token kind raw (attributesOf value) children) rest
    else if key = "children" then tokenFrom (.token kind raw attributes (tokensIn value)) rest
    else tokenFrom (.token kind raw attributes children) rest

def tokensIn : Json → List Token
  | .arr items => tokensOf items
  | _ => []

def tokensOf : List Json → List Token
  | [] => []
  | item :: rest => tokenOf item :: tokensOf rest
end

def member (key : String) : Json → Option Json
  | .obj members => Json.find? key members
  | _ => none

/-- The items under a key; none if there is no such list. -/
def table (key : String) (record : Json) : List Json :=
  match member key record with
  | some (.arr items) => items
  | _ => []

def missing (what : String) : ToolError := ⟨"LookupError", what⟩

/-- A recorded answer: a string, or an error with its kind and its text. -/
def answer (value : Option Json) (what : String) : Except ToolError String :=
  match value with
  | some (.str s) => .ok s.shown
  | some (.obj members) =>
    .error ⟨((Json.find? "error" members).map asString).getD "",
      ((Json.find? "message" members).map asString).getD ""⟩
  | _ => .error (missing what)

/-- The tokens of the first entry for a text. -/
def parseFrom (entries : List Json) (markdown : String) : Except ToolError (List Token) :=
  match entries with
  | [] => .error (missing "no tokens for this markdown")
  | .arr [.str text, tokens] :: rest =>
    if text = WideString.ofString markdown then .ok (tokensIn tokens) else parseFrom rest markdown
  | _ :: rest => parseFrom rest markdown

def rendersFormula (formula : String) (display : Bool) (entry : Json) : Bool :=
  (member "latex" entry).bind asString? == some formula &&
    ((member "display" entry).map asFlag).getD false == display

def holdsMarkup (markup : String) (entry : Json) : Bool :=
  (member "mathml" entry).bind asString? == some markup

def renderFrom (entries : List Json) (formula : String) (display : Bool) :
    Except ToolError String :=
  answer ((entries.find? (rendersFormula formula display)).bind (member "mathml"))
    "no rendering for this formula"

def transduceFrom (entries : List Json) (markup : String) : Except ToolError String :=
  answer ((entries.find? (holdsMarkup markup)).bind (member "omml")) "no OMML for this MathML"

/-- How deep a reader of JSON goes. -/
def greatestDepth : Nat := 990

/-- The tools that answer from a record. The standard output takes every text. -/
def toolbox (record : Json) : Toolbox where
  parse := parseFrom (table "parses" record)
  render := renderFrom (table "math" record)
  transduce := transduceFrom (table "math" record)
  markupFault _ := "The markup is malformed"
  library := Docx.library
  json := { depth := greatestDepth, fault := fun _ => "The text is malformed" }
  refusal _ := none

end MarkdownDocx.Recorded
