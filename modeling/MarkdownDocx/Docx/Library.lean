import MarkdownDocx.Docx.Page
import MarkdownDocx.Text.Blank

/-!
The parts of a document's body while it is made, and the library that new parts come from. A part
is changed in its place; its markup is what it is in the end.
-/

set_option autoImplicit false

namespace MarkdownDocx.Docx

structure RunPart where
  format : RunFormat := {}
  contents : List Xml.Node := []

structure ParagraphPart where
  /-- The id of its style. -/
  style : Option String := none
  format : ParagraphFormat := {}
  contents : List Xml.Node := []

structure CellPart where
  properties : List Xml.Node := []
  /-- Where its content stands between its upper and its lower edge. -/
  alignment : Option String := none
  paragraphs : List ParagraphPart := []

structure RowPart where
  properties : List Xml.Node := []
  cells : List CellPart := []

structure TablePart where
  properties : List Xml.Node := []
  columns : List Xml.Node := []
  rows : List RowPart := []

inductive BodyPart where
  | paragraph (p : ParagraphPart)
  | table (t : TablePart)

/-- An element for properties, if there are any. -/
def propertiesBox (name : String) (properties : List Xml.Node) : List Xml.Node :=
  if properties.isEmpty then [] else [wordBox name [] properties]

def RunPart.markup (r : RunPart) : Xml.Node :=
  wordBox "r" [] ((if r.format = {} then [] else [r.format.markup]) ++ r.contents)

def ParagraphPart.markup (p : ParagraphPart) : Xml.Node :=
  let properties :=
    if p.style = none ∧ p.format = {} then []
    else [p.format.markup (p.style.toList.map (wordValue "pStyle"))]
  wordBox "p" [] (properties ++ p.contents)

def CellPart.markup (c : CellPart) : Xml.Node :=
  wordBox "tc" []
    (wordBox "tcPr" [] (c.properties ++ c.alignment.toList.map (wordValue "vAlign")) ::
      c.paragraphs.map ParagraphPart.markup)

def RowPart.markup (r : RowPart) : Xml.Node :=
  wordBox "tr" [] (propertiesBox "trPr" r.properties ++ r.cells.map CellPart.markup)

def TablePart.markup (t : TablePart) : Xml.Node :=
  wordBox "tbl" []
    (wordBox "tblPr" [] t.properties :: wordBox "tblGrid" [] t.columns ::
      t.rows.map RowPart.markup)

def BodyPart.markup : BodyPart → Xml.Node
  | .paragraph p => p.markup
  | .table t => t.markup

/-- Where new parts come from. -/
structure Library where
  /-- A paragraph that is added without text. -/
  paragraph : ParagraphPart
  /-- A table of so many rows and columns that is added to text of a width. -/
  table : (width : Length) → (rows columns : Nat) → TablePart
  /-- A table whose columns are to fit their content. -/
  autofit : TablePart → TablePart
  /-- A run that is added with a text. -/
  run : String → Except Error RunPart

/-! Markup inside properties. -/

def isWordElement (name : String) : Xml.Node → Bool
  | .element n _ _ => n == Xml.wordName name
  | _ => false

/-- An element put before the first of its followers that is there, or else at the end. -/
def insertBefore (followers : List String) (x : Xml.Node) (ns : List Xml.Node) : List Xml.Node :=
  match followers.findSome? fun name => ns.findIdx? (isWordElement name) with
  | some i => ns.insertIdx i x
  | none => ns ++ [x]

def changeFirst (name : String) (change : Xml.Node → Xml.Node) : List Xml.Node → List Xml.Node
  | [] => []
  | x :: rest => if isWordElement name x then change x :: rest else x :: changeFirst name change rest

/-- The element with a name changed. If there is none, an empty one is inserted first. -/
def changeProperty (name : String) (followers : List String) (change : Xml.Node → Xml.Node)
    (ns : List Xml.Node) : List Xml.Node :=
  changeFirst name change
    (if ns.any (isWordElement name) then ns
      else insertBefore followers (wordBox name [] []) ns)

def withAttributes (attributes : List (String × String)) : Xml.Node → Xml.Node
  | .element n as children =>
    .element n (attributes.foldl (fun as a => Xml.setAttribute (Xml.wordName a.1) a.2 as) as)
      children
  | x => x

def withChildren (added : List Xml.Node) : Xml.Node → Xml.Node
  | .element n as children => .element n as (children ++ added)
  | x => x

/-! New parts as they are made. -/

/-- A stretch of text without breaks. White space at its ends has to be asked for. -/
def textMarkup (cs : List Char) : List Xml.Node :=
  if cs.isEmpty then []
  else
    let s := String.ofList cs
    if Text.trim cs = cs then [wordBox "t" [] [.text s]] else [spacedText s]

def isBreak (c : Char) : Bool := c == '\t' || c == '\n' || c == '\r'

/-- The stretch before the first break, and every break with the stretch that follows it. -/
def splitBreaks : List Char → List Char × List (Char × List Char)
  | [] => ([], [])
  | c :: r =>
    let tail := splitBreaks r
    if isBreak c then ([], (c, tail.1) :: tail.2) else (c :: tail.1, tail.2)

/-- A tab, or the end of a line. -/
def breakMarkup (c : Char) : Xml.Node := wordBox (if c = '\t' then "tab" else "br") [] []

/-- A text's content: tabs and line breaks are elements. -/
def contentMarkup (cs : List Char) : List Xml.Node :=
  textMarkup (splitBreaks cs).1 ++
    (splitBreaks cs).2.flatMap fun b => breakMarkup b.1 :: textMarkup b.2

/-- Which parts of a table's style are shown. -/
def tableLook : Xml.Node :=
  wordBox "tblLook" [("firstColumn", "1"), ("firstRow", "1"), ("lastColumn", "0"),
    ("lastRow", "0"), ("noHBand", "0"), ("noVBand", "1"), ("val", "04A0")] []

/-- The width of a column: an equal part of the text's width, cut off to a whole unit. -/
def columnWidth (width : Length) (columns : Nat) : Int := Length.twips ⟨width.units.fdiv columns⟩

/-- A cell with one empty paragraph. -/
def newCell (width : Int) : CellPart :=
  { properties := [wordBox "tcW" [("type", "dxa"), ("w", toString width)] []]
    paragraphs := [{}] }

def newTable (width : Length) (rows columns : Nat) : TablePart :=
  let column := columnWidth width columns
  { properties := [wordBox "tblW" [("type", "auto"), ("w", "0")] [], tableLook]
    columns := List.replicate columns (wordBox "gridCol" [("w", toString column)] [])
    rows := List.replicate rows { cells := List.replicate columns (newCell column) } }

def fitColumns (t : TablePart) : TablePart :=
  { t with
    properties := changeProperty "tblLayout" ["tblCellMar", "tblLook"]
      (withAttributes [("type", "autofit")]) t.properties }

def newRun (text : String) : Except Error RunPart := do
  legalText text
  return { contents := contentMarkup text.toList }

/-- The library that documents are made with. -/
def library : Library where
  paragraph := {}
  table := newTable
  autofit := fitColumns
  run := newRun

end MarkdownDocx.Docx
