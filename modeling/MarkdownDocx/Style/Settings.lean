import MarkdownDocx.Json.Value
import MarkdownDocx.Number.Numeral
import MarkdownDocx.Style.Error

/-!
Settings of a document as a whole: line spacing, page numbers, margins and the space after
paragraphs. All lengths are in twips.
-/

set_option autoImplicit false

namespace MarkdownDocx.Style

/-- Lines of an exact height, or lines as high as their content times a factor in 240ths. -/
inductive SpacingRule where
  | exact
  | auto
  deriving DecidableEq, Repr

def SpacingRule.name : SpacingRule → String
  | .exact => "exact"
  | .auto => "auto"

def SpacingRule.ofJson? : Json → Option SpacingRule
  | .str s => if s = "exact" then some .exact else if s = "auto" then some .auto else none
  | _ => none

structure LineSpacing where
  rule : SpacingRule := .exact
  value : Int := 560
  deriving DecidableEq, Repr

/-- Page numbers between dashes, or alone. -/
inductive PageNumberFormat where
  | dash
  | plain
  deriving DecidableEq, Repr

def PageNumberFormat.name : PageNumberFormat → String
  | .dash => "dash"
  | .plain => "plain"

def PageNumberFormat.ofJson? : Json → Option PageNumberFormat
  | .str s => if s = "dash" then some .dash else if s = "plain" then some .plain else none
  | _ => none

structure Margins where
  top : Int := 1440
  bottom : Int := 1440
  left : Int := 1440
  right : Int := 1440
  header : Int := 851
  footer : Int := 992
  deriving DecidableEq, Repr

structure Settings where
  lineSpacing : LineSpacing := {}
  pageNumberFormat : PageNumberFormat := .dash
  margins : Margins := {}
  spacingAfter : Int := 0
  deriving DecidableEq, Repr

/-- An integer from data: fractions are cut off, and text may write one. -/
def readInteger (setting : String) (value : Json) : Except Error Int :=
  match value with
  | .int n => .ok n
  | .bool b => .ok (if b then 1 else 0)
  | .real x =>
    match x.truncate with
    | .ok n => .ok n
    | .error .infinite => .error .infinite
    | .error .nan => .error (.config (.notAnInteger setting value))
  | .str s =>
    match s.text?.bind Number.readInt? with
    | some n => .ok n
    | none => .error (.config (.notAnInteger setting value))
  | _ => .error (.config (.notAnInteger setting value))

/-- An integer of a record, or its value before. -/
def integerOr (data : Json.Members) (key setting : String) (before : Int) : Except Error Int :=
  match Json.find? key data with
  | some v => readInteger setting v
  | none => .ok before

/-- A value under its key, or else under another spelling of it. -/
def findEither? (key other : String) (data : Json.Members) : Option Json :=
  (Json.find? key data).orElse fun _ => Json.find? other data

def LineSpacing.override (base : LineSpacing) (data : Json.Members) : Except Error LineSpacing := do
  let rule ← match Json.find? "type" data with
    | none => pure base.rule
    | some v =>
      match SpacingRule.ofJson? v with
      | some r => pure r
      | none => throw (.config (.unknownLineSpacing v))
  let value ← integerOr data "value" "line_spacing.value" base.value
  return ⟨rule, value⟩

/-- The setter of the margin with this name. -/
def Margins.setter? (name : WideString) : Option (Int → Margins → Margins) :=
  match name.text? with
  | some "top" => some fun n m => { m with top := n }
  | some "bottom" => some fun n m => { m with bottom := n }
  | some "left" => some fun n m => { m with left := n }
  | some "right" => some fun n m => { m with right := n }
  | some "header" => some fun n m => { m with header := n }
  | some "footer" => some fun n m => { m with footer := n }
  | _ => none

/-- Margins with those of a record in place of their own, in the order of the record. -/
def Margins.override (base : Margins) : Json.Members → Except Error Margins
  | [] => .ok base
  | (name, v) :: rest =>
    match Margins.setter? name with
    | none => base.override rest
    | some set => do
      let n ← readInteger ("margins." ++ name.shown) v
      Margins.override (set n base) rest

/-- A section of settings that is an object, or missing, or `null`. -/
def readSection (name : String) (value : Option Json) : Except Error (Option Json.Members) :=
  match value with
  | none => .ok none
  | some .null => .ok none
  | some (.obj members) => .ok (some members)
  | some _ => .error (.config (.sectionNotObject name))

/-- Settings with those of a JSON object in place of their own. -/
def Settings.override (base : Settings) (data : Json) : Except Error Settings :=
  match data with
  | .obj members => do
    let spacing ← readSection "line_spacing" (findEither? "line_spacing" "lineSpacing" members)
    let lineSpacing ← match spacing with
      | some d => base.lineSpacing.override d
      | none => pure base.lineSpacing
    let pageNumberFormat ←
      match findEither? "page_number_format" "pageNumberFormat" members with
      | none => pure base.pageNumberFormat
      | some v =>
        match PageNumberFormat.ofJson? v with
        | some f => pure f
        | none => throw (.config (.unknownPageNumberFormat v))
    let marginData ← readSection "margins" (Json.find? "margins" members)
    let margins ← match marginData with
      | some d => base.margins.override d
      | none => pure base.margins
    let spacingAfter ← match findEither? "spacing_after" "spacingAfter" members with
      | some v => readInteger "spacing_after" v
      | none => pure base.spacingAfter
    return ⟨lineSpacing, pageNumberFormat, margins, spacingAfter⟩
  | _ => .error (.config .settingsNotObject)

def Settings.toMembers (s : Settings) : Json.Members :=
  [("line_spacing", .obj [("type", .str s.lineSpacing.rule.name),
      ("value", .int s.lineSpacing.value)]),
    ("page_number_format", .str s.pageNumberFormat.name),
    ("margins", .obj [("top", .int s.margins.top), ("bottom", .int s.margins.bottom),
      ("left", .int s.margins.left), ("right", .int s.margins.right),
      ("header", .int s.margins.header), ("footer", .int s.margins.footer)]),
    ("spacing_after", .int s.spacingAfter)]

end MarkdownDocx.Style
