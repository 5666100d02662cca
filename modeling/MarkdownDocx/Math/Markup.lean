import MarkdownDocx.Math.Node
import MarkdownDocx.Xml.Tree

/-!
Equations as Office math markup.
-/

set_option autoImplicit false

namespace MarkdownDocx.Math

open MarkdownDocx.Xml (mathName)

/-- An element of the math namespace without attributes. -/
def box (name : String) (children : List Xml.Node) : Xml.Node := .element (mathName name) [] children

/-- A property that consists of a value. -/
def valued (name value : String) : Xml.Node := .element (mathName name) [(mathName "val", value)] []

/-- The glyphs of a delimiter; a kind without a name has round ones. -/
def Delimiter.glyphs : Delimiter → String × String
  | .square => ("[", "]")
  | .curly => ("\x7b", "\x7d")
  | _ => ("(", ")")

/-- Text that keeps its spaces. -/
def runMarkup (text : String) : Xml.Node :=
  box "r" [.element (mathName "t") [(⟨.xml, "space"⟩, "preserve")] (Xml.Node.ofText text)]

/-- Attributes in the math namespace; a key given twice keeps its place and takes the last value. -/
def propertyAttributes (attributes : List (String × String)) : List Xml.Attribute :=
  attributes.foldl (fun as a => Xml.setAttribute (mathName a.1) a.2 as) []

/-- Limits of a sum stand above and below it, those of an integral beside it. -/
def limitPlace (symbol : String) : String := if symbol = integralSign then "subSup" else "undOvr"

/-- A flag that hides what is missing. -/
def hiddenFlag (name : String) (part : Option (List Node)) : List Xml.Node :=
  match part with
  | none => [valued name "1"]
  | some _ => []

mutual
def Node.markup : Node → Xml.Node
  | .run text => runMarkup text
  | .fraction num den => box "f" [box "num" (markups num), box "den" (markups den)]
  | .superscript base sup => box "sSup" [box "e" (markups base), box "sup" (markups sup)]
  | .subscript base sub => box "sSub" [box "e" (markups base), box "sub" (markups sub)]
  | .subSuperscript base sub sup =>
    box "sSubSup" [box "e" (markups base), box "sub" (markups sub), box "sup" (markups sup)]
  | .radical base none =>
    box "rad" [box "radPr" [valued "degHide" "1"], box "deg" [], box "e" (markups base)]
  | .radical base (some degree) => box "rad" [box "deg" (markups degree), box "e" (markups base)]
  | .delimited content kind =>
    box "d" [box "dPr" [valued "begChr" kind.glyphs.1, valued "endChr" kind.glyphs.2],
      box "e" (markups content)]
  | .nary symbol operand sub sup =>
    box "nary" [
      box "naryPr" (valued "chr" symbol :: valued "limLoc" (limitPlace symbol) ::
        (hiddenFlag "subHide" sub ++ hiddenFlag "supHide" sup)),
      box "sub" (limitMarkups sub), box "sup" (limitMarkups sup), box "e" (markups operand)]
  | .accent mark base => box "acc" [box "accPr" [valued "chr" mark], box "e" (markups base)]
  | .matrix rows properties => box "m" (markups properties ++ rowMarkups rows)
  | .property name attributes children text =>
    .element (mathName name) (propertyAttributes attributes)
      (Xml.Node.ofText (text.getD "") ++ markups children)

def markups : List Node → List Xml.Node
  | [] => []
  | n :: rest => n.markup :: markups rest

/-- A limit's element is there even when the limit is not. -/
def limitMarkups : Option (List Node) → List Xml.Node
  | none => []
  | some nodes => markups nodes

def rowMarkups : List (List (List Node)) → List Xml.Node
  | [] => []
  | r :: rest => box "mr" (cellMarkups r) :: rowMarkups rest

def cellMarkups : List (List Node) → List Xml.Node
  | [] => []
  | c :: rest => box "e" (markups c) :: cellMarkups rest
end

/-- An equation: one math element, inside a paragraph of its own when it is displayed. -/
def equationMarkup (nodes : List Node) (display : Bool) : Xml.Node :=
  let equation := box "oMath" (markups nodes)
  if display then box "oMathPara" [equation] else equation

/-- The equation's markup, if all its strings may stand in a document. -/
def writeEquation (nodes : List Node) (display : Bool) : Except Xml.Illegal Xml.Node := do
  let x := equationMarkup nodes display
  x.check
  return x

end MarkdownDocx.Math
