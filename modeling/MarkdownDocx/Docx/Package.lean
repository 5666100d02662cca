import MarkdownDocx.Docx.Document
import MarkdownDocx.Xml.Writer

/-!
A document as one XML file that holds all its parts.
-/

set_option autoImplicit false

namespace MarkdownDocx.Docx

open MarkdownDocx.Xml (wordName)

def officeRelations : String :=
  "http://schemas.openxmlformats.org/officeDocument/2006/relationships"

def packageRelations : String := "http://schemas.openxmlformats.org/package/2006/relationships"

def packageAddress : String := "http://schemas.microsoft.com/office/2006/xmlPackage"

def wordContentType : String :=
  "application/vnd.openxmlformats-officedocument.wordprocessingml."

/-- A name that is written as it is given. -/
def rawName (name : String) : Xml.Name := ⟨.none, name⟩

/-- One part of a package. -/
structure Part where
  name : String
  contentType : String
  root : Xml.Node

/-- A relation from one part to another. -/
def relation (id kind target : String) : Xml.Node :=
  .element (rawName "Relationship")
    [(rawName "Id", id), (rawName "Type", officeRelations ++ "/" ++ kind),
      (rawName "Target", target)] []

def relationsPart (name : String) (relations : List Xml.Node) : Part :=
  ⟨name, "application/vnd.openxmlformats-package.relationships+xml",
    .element (rawName "Relationships") [(rawName "xmlns", packageRelations)] relations⟩

def sectionMarkup (d : Document) : Xml.Node :=
  wordBox "sectPr" [] [
    .element (wordName "footerReference") [(wordName "type", "default"), (rawName "r:id", "rId2")] [],
    wordBox "pgSz" sizeAttributes [], wordBox "pgMar" (marginAttributes d.margins) []]

def styleMarkup (s : DefinedStyle) : Xml.Node :=
  wordBox "style" ([("type", "paragraph"), ("styleId", s.id)] ++
      (if s.basedOn.isNone then [("default", "1")] else []))
    (wordValue "name" s.storedName :: (s.basedOn.toList.map (wordValue "basedOn") ++
      (if s.quick then [wordBox "qFormat" [] []] else []) ++ [s.paragraph.markup [], s.run.markup]))

/-- All parts of a document. -/
def parts (d : Document) : List Part :=
  [relationsPart "/_rels/.rels" [relation "rId1" "officeDocument" "word/document.xml"],
    relationsPart "/word/_rels/document.xml.rels"
      [relation "rId1" "styles" "styles.xml", relation "rId2" "footer" "footer1.xml"],
    ⟨"/word/document.xml", wordContentType ++ "document.main+xml",
      .element (wordName "document") [(rawName "xmlns:r", officeRelations)]
        [wordBox "body" [] (d.body ++ [sectionMarkup d])]⟩,
    ⟨"/word/styles.xml", wordContentType ++ "styles+xml",
      wordBox "styles" [] (d.styles.map styleMarkup)⟩,
    ⟨"/word/footer1.xml", wordContentType ++ "footer+xml", wordBox "ftr" [] [d.footer]⟩]

def Part.text (p : Part) : String :=
  "<pkg:part pkg:name=\"" ++ p.name ++ "\" pkg:contentType=\"" ++ p.contentType ++
    "\"><pkg:xmlData>" ++ String.ofList p.root.document ++ "</pkg:xmlData></pkg:part>"

/-- The text of the file. -/
def packageText (d : Document) : String :=
  "<?xml version=\"1.0\" encoding=\"UTF-8\" standalone=\"yes\"?>\n<pkg:package xmlns:pkg=\"" ++
    packageAddress ++ "\">" ++ String.join ((parts d).map Part.text) ++ "</pkg:package>\n"

end MarkdownDocx.Docx
