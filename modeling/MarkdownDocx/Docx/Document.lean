import MarkdownDocx.Docx.Body
import MarkdownDocx.Style.Template

/-!
A whole document.
-/

set_option autoImplicit false

namespace MarkdownDocx.Docx

structure Document where
  styles : List DefinedStyle
  margins : Style.Margins
  footer : Xml.Node
  body : List Xml.Node
  deriving Repr

/-- A document with elements in order, under a style table and settings; those of the default
template stand for what is missing. -/
def build (library : Library) (styles : Option Style.StyleTable) (settings : Option Style.Settings)
    (elements : List Layout.Element) : Except Error Document := do
  let styles := styles.getD Style.defaultTemplate.styles
  let settings := settings.getD Style.defaultTemplate.settings
  let defined ← defineStyles styles settings
  let margins ← setMargins settings.margins
  let footer ← footerParagraph (styles.style .pageFooter) settings.pageNumberFormat
  let body ← elements.foldlM (addElement library (textWidth margins)) []
  return ⟨defined, margins, footer, body.map BodyPart.markup⟩

end MarkdownDocx.Docx
