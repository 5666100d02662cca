import MarkdownDocx.Docx.Format

/-!
The page: its size and margins, and a footer with the page number.
-/

set_option autoImplicit false

namespace MarkdownDocx.Docx

/-- The width of a sheet of A4 in twips. -/
def pageWidth : Int := 11906

def pageHeight : Int := 16838

/-- Margins in the ranges that a section takes. Only those at the top and at the bottom may be
negative. -/
def setMargins (m : Style.Margins) : Except Error Style.Margins := do
  let top ← writtenTwips signed32 (Length.ofTwips m.top)
  let bottom ← writtenTwips signed32 (Length.ofTwips m.bottom)
  let left ← writtenTwips unsigned64 (Length.ofTwips m.left)
  let right ← writtenTwips unsigned64 (Length.ofTwips m.right)
  let header ← writtenTwips unsigned64 (Length.ofTwips m.header)
  let footer ← writtenTwips unsigned64 (Length.ofTwips m.footer)
  return ⟨top, bottom, left, right, header, footer⟩

/-- The size of a page as a section states it. -/
def sizeAttributes : List (String × String) :=
  [("w", toString pageWidth), ("h", toString pageHeight)]

def marginAttributes (m : Style.Margins) : List (String × String) :=
  [("top", toString m.top), ("right", toString m.right), ("bottom", toString m.bottom),
    ("left", toString m.left), ("header", toString m.header), ("footer", toString m.footer),
    ("gutter", "0")]

/-- A margin of nothing is taken for a missing one, which is an inch. -/
def sideMargin (twips : Int) : Int := if twips = 0 then 1440 else twips

/-- The width that is left for text, as a length. -/
def textWidth (m : Style.Margins) : Length :=
  Length.ofTwips (pageWidth - sideMargin m.left - sideMargin m.right)

/-- An attribute that keeps the spaces at the ends of a text. -/
def preserveSpace : Xml.Attribute := (⟨.xml, "space"⟩, "preserve")

def fieldMark (kind : String) : Xml.Node := wordBox "fldChar" [("fldCharType", kind)] []

def spacedText (text : String) : Xml.Node :=
  .element (Xml.wordName "t") [preserveSpace] [.text text]

/-- The field of the page number, with a value that is shown until it is updated. -/
def pageField : List Xml.Node :=
  [fieldMark "begin", .element (Xml.wordName "instrText") [preserveSpace] [.text " PAGE "],
    fieldMark "separate", wordBox "t" [] [.text "1"], fieldMark "end"]

/-- What the footer's runs hold. -/
def footerContents : Style.PageNumberFormat → List Xml.Node
  | .dash => spacedText "- " :: (pageField ++ [spacedText " -"])
  | .plain => pageField

/-- A centered page number. -/
def footerParagraph (s : Style.TextStyle) (format : Style.PageNumberFormat) :
    Except Error Xml.Node := do
  let font ← fontFormat s s.latinFont
  let shape : ParagraphFormat := { firstLine := some 0, alignment := some .center }
  return wordBox "p" [] (shape.markup [wordValue "pStyle" "Footer"] ::
    (footerContents format).map fun content => wordBox "r" [] [font.markup, content])

end MarkdownDocx.Docx
