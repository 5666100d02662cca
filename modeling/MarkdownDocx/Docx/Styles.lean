import MarkdownDocx.Docx.Format

/-!
The paragraph styles that a document defines, one for each style of the layout and one that all
are based on. They are made from a style table and the settings. Some styles are there before; of
their properties those stay that no style table sets.
-/

set_option autoImplicit false

namespace MarkdownDocx.Docx

open MarkdownDocx.Layout (ParagraphStyle TextAlignment)
open MarkdownDocx.Number (Binary64)

structure DefinedStyle where
  id : String
  /-- The name that the style is shown under. -/
  name : String
  /-- The name that is stored, which for some styles is in lower case. -/
  storedName : String
  basedOn : Option String
  /-- Whether the style is offered for quick use. -/
  quick : Bool
  paragraph : ParagraphFormat
  run : RunFormat
  deriving Repr

/-- The id of a style in documents, where a table's header has the style of captions. -/
def styleId : ParagraphStyle → String
  | .tableCaption => "Caption"
  | s => s.id

def styleName : ParagraphStyle → String
  | .title => "Title"
  | .heading1 => "Heading 1"
  | .heading2 => "Heading 2"
  | .heading3 => "Heading 3"
  | .heading4 => "Heading 4"
  | .bodyText => "Body Text"
  | .listParagraph => "List Paragraph"
  | .blockQuote => "Block Quote"
  | .tableCaption => "Caption"
  | .tableText => "Table Text"
  | .formula => "Formula"

def storedName : ParagraphStyle → String
  | .heading1 => "heading 1"
  | .heading2 => "heading 2"
  | .heading3 => "heading 3"
  | .heading4 => "heading 4"
  | .tableCaption => "caption"
  | s => styleName s

/-- Paragraphs of one style stand close together. -/
def keptParagraphFormat : ParagraphStyle → ParagraphFormat
  | .title => { contextualSpacing := true }
  | .listParagraph => { contextualSpacing := true }
  | _ => {}

/-- Properties for scripts that run from right to left. -/
def keptRunFormat : ParagraphStyle → RunFormat
  | .title => { complexSize := some 52 }
  | .heading1 => { complexBold := true, complexSize := some 28 }
  | .heading2 => { complexBold := true, complexSize := some 26 }
  | .heading3 => { complexBold := true }
  | .heading4 => { complexBold := true, complexItalic := true }
  | .tableCaption => { complexBold := true, complexSize := some 18 }
  | _ => {}

/-- A style's text, over properties that stay. -/
def textFormat (kept : RunFormat) (s : Style.TextStyle) (latin : WideString) :
    Except Error RunFormat := do
  let font ← fontFormat s latin
  return { kept with
    fonts := font.fonts
    size := font.size
    bold := some s.bold
    italic := some s.italic
    black := true }

/-- The height of lines. A factor is computed as a floating-point number. -/
def lineHeight (s : Style.LineSpacing) : Except Error LineHeight :=
  match s.rule with
  | .exact => do
    let n ← writtenTwips signed32 (Length.ofTwips s.value)
    return ⟨n, .exact⟩
  | .auto =>
    match Binary64.ofRatio (decide (s.value < 0)) s.value.natAbs 240 with
    | .finite negative m e =>
      match ((Binary64.finite negative m e).scale (635 * 240) 1).truncate with
      | .ok units => do
        let n ← writtenTwips signed32 ⟨units⟩
        return ⟨n, .auto⟩
      | .error e => .error (.notIntegral e)
    | _ => .error .tooLarge

/-- Space above or below a paragraph. -/
def space (twips : Int) : Except Error Int := writtenTwips unsigned64 (Length.ofTwips twips)

/-- A first line's indent; how far it is to the right or to the left has the same range. -/
def firstLineTwips (twips : Int) : Except Error Int :=
  if twips < 0 then (writtenTwips unsigned64 (Length.ofTwips (-twips))).map (- ·)
  else writtenTwips unsigned64 (Length.ofTwips twips)

/-- The first-line indent that a style asks for: two characters, or nothing. -/
def styleFirstLine (s : Style.TextStyle) : Except Error Int := do
  let twips ← if s.indent then s.size.twoCharacters.mapError Error.notIntegral else pure 0
  firstLineTwips twips

/-- Text that is not centered reaches from margin to margin. -/
def bodyAlignment (s : Style.TextStyle) : TextAlignment := if s.center then .center else .justify

def headingAlignment (s : Style.TextStyle) : TextAlignment := if s.center then .center else .left

/-- The font of formulas. -/
def formulaFont : String := "Cambria Math"

/-- The looks of a heading at a level of the outline. -/
def headingFormat (kept : ParagraphFormat) (s : Style.TextStyle) (settings : Style.Settings)
    (level : Nat) : Except Error ParagraphFormat := do
  let line ← lineHeight settings.lineSpacing
  let after ← space settings.spacingAfter
  let firstLine ← styleFirstLine s
  return { kept with
    left := some 0
    line := some line
    after := some after
    before := some 0
    firstLine := some firstLine
    alignment := some (headingAlignment s)
    keepNext := some true
    keepLines := some true
    outlineLevel := some level }

/-- The looks of running text. -/
def runningFormat (kept : ParagraphFormat) (s : Style.TextStyle) (settings : Style.Settings) :
    Except Error ParagraphFormat := do
  let line ← lineHeight settings.lineSpacing
  let after ← space settings.spacingAfter
  let firstLine ← styleFirstLine s
  return { kept with
    left := some 0
    line := some line
    after := some after
    firstLine := some firstLine
    alignment := some (bodyAlignment s) }

/-- The looks of a title, which has its own space around it. -/
def titleFormat (kept : ParagraphFormat) (s : Style.TextStyle) (settings : Style.Settings) :
    Except Error ParagraphFormat := do
  let line ← lineHeight settings.lineSpacing
  let _ ← space settings.spacingAfter
  return { kept with
    left := some 0
    line := some line
    before := some 560
    after := some 560
    firstLine := some 0
    alignment := some (bodyAlignment s) }

/-- The looks of a quote: indented by as much as a quote's own paragraphs. -/
def quoteFormat (kept : ParagraphFormat) (s : Style.TextStyle) (settings : Style.Settings) :
    Except Error ParagraphFormat := do
  let line ← lineHeight settings.lineSpacing
  let after ← space settings.spacingAfter
  return { kept with
    left := some 567
    line := some line
    after := some after
    firstLine := some 0
    alignment := some (bodyAlignment s) }

/-- The looks of a table's cells. A header stays with the row below it. -/
def cellFormat (kept : ParagraphFormat) (s : Style.TextStyle) (header : Bool) : ParagraphFormat :=
  { kept with
    left := some 0
    line := some singleLine
    before := some 0
    after := some 0
    firstLine := some 0
    alignment := some (bodyAlignment s)
    keepNext := some header }

def formulaFormat : ParagraphFormat :=
  { line := some singleLine
    before := some 120
    after := some 120
    firstLine := some 0
    alignment := some .center }

def paragraphFormat (style : ParagraphStyle) (s : Style.TextStyle) (settings : Style.Settings) :
    Except Error ParagraphFormat :=
  let kept := keptParagraphFormat style
  match style with
  | .title => titleFormat kept s settings
  | .heading1 => headingFormat kept s settings 0
  | .heading2 => headingFormat kept s settings 1
  | .heading3 => headingFormat kept s settings 2
  | .heading4 => headingFormat kept s settings 3
  | .bodyText => runningFormat kept s settings
  | .listParagraph => runningFormat kept s settings
  | .blockQuote => quoteFormat kept s settings
  | .tableCaption => .ok (cellFormat kept s true)
  | .tableText => .ok (cellFormat kept s false)
  | .formula => .ok formulaFormat

/-- The text of a style. Formulas have a font of their own, and are upright. -/
def runFormat (style : ParagraphStyle) (s : Style.TextStyle) : Except Error RunFormat :=
  let kept := keptRunFormat style
  match style with
  | .formula => (textFormat kept s formulaFont).map fun f =>
      { f with bold := some false, italic := some false }
  | _ => textFormat kept s s.latinFont

def defineStyle (styles : Style.StyleTable) (settings : Style.Settings) (style : ParagraphStyle) :
    Except Error DefinedStyle := do
  let s := styles.style style.key
  let run ← runFormat style s
  let paragraph ← paragraphFormat style s settings
  return ⟨styleId style, styleName style, storedName style, some "Normal", style != .bodyText,
    paragraph, run⟩

/-- The style that the others are based on: body text without indents. -/
def defineNormal (styles : Style.StyleTable) (settings : Style.Settings) :
    Except Error DefinedStyle := do
  let s := styles.style .bodyText
  let run ← textFormat {} s s.latinFont
  let line ← lineHeight settings.lineSpacing
  let after ← space settings.spacingAfter
  return ⟨"Normal", "Normal", "Normal", none, true, { line := some line, after := some after }, run⟩

/-- All styles of a document in order. -/
def defineStyles (styles : Style.StyleTable) (settings : Style.Settings) :
    Except Error (List DefinedStyle) := do
  let normal ← defineNormal styles settings
  let others ← ParagraphStyle.all.mapM (defineStyle styles settings)
  return normal :: others

end MarkdownDocx.Docx
