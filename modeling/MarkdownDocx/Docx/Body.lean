import MarkdownDocx.Docx.Library
import MarkdownDocx.Docx.Styles
import MarkdownDocx.Math.Markup

/-!
The body of a document: paragraphs with their runs and equations, and tables, added one after the
other.
-/

set_option autoImplicit false

namespace MarkdownDocx.Docx

open MarkdownDocx.Layout (Paragraph Run Table Element)

def isLayoutSpace (c : Char) : Bool := c == ' ' || c == '\t' || c == '\n'

/-- Nothing but white space in front of an element is layout, and is not kept. -/
def dropLayout : List Xml.Node → List Xml.Node
  | .text s :: .element n as cs :: rest =>
    if s.toList.all isLayoutSpace then .element n as cs :: rest
    else .text s :: .element n as cs :: rest
  | ns => ns

mutual
/-- Markup as a document keeps it. -/
def keptMarkup : Xml.Node → Xml.Node
  | .element n as cs => .element n as (dropLayout (keptMarkups cs))
  | x => x

def keptMarkups : List Xml.Node → List Xml.Node
  | [] => []
  | x :: rest => keptMarkup x :: keptMarkups rest
end

def equationRunMarkup (nodes : List Math.Node) (display : Bool) : Except Error Xml.Node := do
  let x ← (Math.writeEquation nodes display).mapError Error.illegal
  if Xml.greatestDepth < x.depth then throw .tooDeep
  return keptMarkup x

def ParagraphPart.append (p : ParagraphPart) (x : Xml.Node) : ParagraphPart :=
  { p with contents := p.contents ++ [x] }

/-- Bold and italics are only ever switched on; otherwise the style decides. -/
def RunPart.switchOn (r : RunPart) (bold italic : Bool) : RunPart :=
  { r with format :=
    { r.format with
      bold := if bold then some true else r.format.bold
      italic := if italic then some true else r.format.italic } }

/-- A paragraph with a run at its end. -/
def addRun (library : Library) (p : ParagraphPart) : Run → Except Error ParagraphPart
  | .equation nodes display _ => do
    let x ← equationRunMarkup nodes display
    return p.append x
  | .text text bold italic => do
    let r ← library.run text
    return p.append (r.switchOn bold italic).markup

def ParagraphPart.setLeft (p : ParagraphPart) (twips : Int) : Except Error ParagraphPart := do
  let left ← writtenTwips signed32 (Length.ofTwips twips)
  return { p with format := { p.format with left := some left } }

def ParagraphPart.setFirstLine (p : ParagraphPart) (twips : Int) : Except Error ParagraphPart := do
  let firstLine ← firstLineTwips twips
  return { p with format := { p.format with firstLine := some firstLine } }

/-- A paragraph with indents of its own, where there are any. -/
def ParagraphPart.setIndent (p : ParagraphPart) (i : Layout.Indent) :
    Except Error ParagraphPart := do
  let p ← match i.left with
    | some n => p.setLeft n
    | none => pure p
  match i.firstLine with
  | some n => p.setFirstLine n
  | none => return p

/-- A paragraph that is there given its style, alignment, indents and runs. -/
def fillParagraph (library : Library) (p : ParagraphPart) (element : Paragraph) :
    Except Error ParagraphPart := do
  let styled := { p with style := some (styleId element.style) }
  let aligned := match element.alignment with
    | some a => { styled with format := { styled.format with alignment := some a } }
    | none => styled
  let indented ← match element.indent with
    | some i => aligned.setIndent i
    | none => pure aligned
  element.runs.foldlM (addRun library) indented

/-! Tables. -/

def borderEdges : List String := ["top", "left", "bottom", "right", "insideH", "insideV"]

/-- What may follow a table's borders among its properties. -/
def borderFollowers : List String :=
  ["shd", "tblLayout", "tblCellMar", "tblLook", "tblCaption", "tblDescription"]

def edgeMarkups (b : Layout.Border) : Except Error (List Xml.Node) := do
  legalText b.style
  legalText b.color
  return borderEdges.map fun edge =>
    wordBox edge [("val", b.style), ("sz", toString b.size), ("space", "0"), ("color", b.color)] []

def TablePart.setBorders (t : TablePart) (b : Layout.Border) : Except Error TablePart := do
  let edges ← edgeMarkups b
  return { t with
    properties := changeProperty "tblBorders" borderFollowers (withChildren edges) t.properties }

/-- A table with a width in percent of the text's. -/
def TablePart.setWidth (t : TablePart) (percent : Int) : TablePart :=
  let followers := ["jc", "tblCellSpacing", "tblInd"] ++ borderFollowers
  { t with
    properties := changeProperty "tblW" followers
      (withAttributes [("w", toString (percent * 50)), ("type", "pct")]) t.properties }

/-- A row that is repeated as a header. -/
def RowPart.repeatHeader (r : RowPart) : RowPart :=
  { r with properties := r.properties ++ [wordValue "tblHeader" "true"] }

/-- The cell at an index. It is centered, and its first paragraph filled if the row has a cell for
it. -/
def fillCell (library : Library) (row : Layout.Row) (index : Nat) (cell : CellPart) :
    Except Error CellPart :=
  let centered := { cell with alignment := some "center" }
  if h : index < row.cells.length then
    match cell.paragraphs with
    | [] => .error .noParagraph
    | first :: others => do
      let filled ← fillParagraph library first row.cells[index]
      return { centered with paragraphs := filled :: others }
  else .ok centered

def fillRow (library : Library) (row : Layout.Row) (part : RowPart) : Except Error RowPart := do
  let marked := if row.header then part.repeatHeader else part
  let cells ← marked.cells.zipIdx.mapM fun c => fillCell library row c.2 c.1
  return { marked with cells := cells }

/-- Rows filled side by side until either side ends. -/
def fillRows (library : Library) : List Layout.Row → List RowPart → Except Error (List RowPart)
  | row :: rows, part :: parts => do
    let filled ← fillRow library row part
    let rest ← fillRows library rows parts
    return filled :: rest
  | _, parts => .ok parts

/-- The body with a table at its end, if the table has rows and columns. -/
def addTable (library : Library) (width : Length) (body : List BodyPart) (t : Table) :
    Except Error (List BodyPart) :=
  if t.rows.isEmpty || t.columns = 0 then .ok body
  else do
    let part := library.autofit (library.table width t.rows.length t.columns)
    let bordered ← part.setBorders t.border
    let sized := bordered.setWidth t.width
    let rows ← fillRows library t.rows sized.rows
    return body ++ [.table { sized with rows := rows }]

/-- The body with an element at its end. -/
def addElement (library : Library) (width : Length) (body : List BodyPart) :
    Element → Except Error (List BodyPart)
  | .table t => addTable library width body t
  | .paragraph p => do
    let filled ← fillParagraph library library.paragraph p
    return body ++ [.paragraph filled]

end MarkdownDocx.Docx
