import MarkdownDocx.Math.Node
import MarkdownDocx.Style.Table

/-!
A document as a flat sequence of paragraphs and tables, each under a style.
-/

set_option autoImplicit false

namespace MarkdownDocx.Layout

inductive ParagraphStyle where
  | title
  | heading1
  | heading2
  | heading3
  | heading4
  | bodyText
  | listParagraph
  | blockQuote
  | tableCaption
  | tableText
  | formula
  deriving DecidableEq, Repr

namespace ParagraphStyle

/-- All styles, in the order in which a document defines them. -/
def all : List ParagraphStyle :=
  [.title, .heading1, .heading2, .heading3, .heading4, .bodyText, .listParagraph, .blockQuote,
    .tableCaption, .tableText, .formula]

def id : ParagraphStyle → String
  | .title => "Title"
  | .heading1 => "Heading1"
  | .heading2 => "Heading2"
  | .heading3 => "Heading3"
  | .heading4 => "Heading4"
  | .bodyText => "BodyText"
  | .listParagraph => "ListParagraph"
  | .blockQuote => "BlockQuote"
  | .tableCaption => "TableCaption"
  | .tableText => "TableText"
  | .formula => "Formula"

/-- The style with an id. A paragraph under any other id is body text. -/
def ofId (id : String) : ParagraphStyle := (all.find? fun s => s.id == id).getD .bodyText

/-- The entry of a style table that a style takes its looks from. -/
def key : ParagraphStyle → Style.StyleKey
  | .title => .title
  | .heading1 => .heading1
  | .heading2 => .heading2
  | .heading3 => .heading3
  | .heading4 => .heading4
  | .bodyText => .bodyText
  | .listParagraph => .listItem
  | .blockQuote => .blockquote
  | .tableCaption => .tableHeader
  | .tableText => .tableCell
  | .formula => .bodyText

end ParagraphStyle

inductive TextAlignment where
  | left
  | center
  | right
  | justify
  deriving DecidableEq, Repr

def TextAlignment.name : TextAlignment → String
  | .left => "left"
  | .center => "center"
  | .right => "right"
  | .justify => "justify"

def TextAlignment.ofName? (name : String) : Option TextAlignment :=
  [TextAlignment.left, .center, .right, .justify].find? fun a => a.name == name

inductive Run where
  | text (value : String) (bold italic : Bool)
  | equation (nodes : List Math.Node) (display : Bool) (formula : String)
  deriving Repr

/-- What a run says as plain text; an equation says its formula. -/
def Run.source : Run → String
  | .text s _ _ => s
  | .equation _ _ formula => formula

def Run.isEquation : Run → Bool
  | .text _ _ _ => false
  | .equation _ _ _ => true

/-- Indents in twips that go before those of the style. -/
structure Indent where
  left : Option Int := none
  firstLine : Option Int := none
  deriving DecidableEq, Repr

structure Paragraph where
  runs : List Run := []
  style : ParagraphStyle := .bodyText
  indent : Option Indent := none
  alignment : Option TextAlignment := none
  deriving Repr

def Paragraph.text (p : Paragraph) : String := String.join (p.runs.map Run.source)

/-- Lines around and between the cells. The size is in eighths of a point. -/
structure Border where
  style : String := "single"
  size : Int := 4
  color : String := "000000"
  deriving DecidableEq, Repr

structure Row where
  cells : List Paragraph := []
  header : Bool := false
  deriving Repr

structure Table where
  rows : List Row := []
  border : Border := {}
  /-- In percent of the text's width. -/
  width : Int := 100
  deriving Repr

/-- The number of cells in the longest row. -/
def Table.columns (t : Table) : Nat := t.rows.foldr (fun r n => max r.cells.length n) 0

inductive Element where
  | paragraph (p : Paragraph)
  | table (t : Table)
  deriving Repr

/-- The paragraphs of an element; those of a table row by row. -/
def Element.paragraphs : Element → List Paragraph
  | .paragraph p => [p]
  | .table t => t.rows.flatMap Row.cells

def Element.runs (e : Element) : List Run := e.paragraphs.flatMap Paragraph.runs

def countEquations (elements : List Element) : Nat :=
  (elements.flatMap Element.runs).countP Run.isEquation

end MarkdownDocx.Layout
