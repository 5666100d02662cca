import MarkdownDocx.Docx.Measure
import MarkdownDocx.Layout.Element
import MarkdownDocx.Style.Settings

/-!
The format of paragraphs and of the text in them, as properties and as markup. Lengths are in
twips.
-/

set_option autoImplicit false

namespace MarkdownDocx.Docx

open MarkdownDocx.Xml (wordName)
open MarkdownDocx.Layout (TextAlignment)

/-- An element with attributes that are all in the word-processing namespace. -/
def wordBox (name : String) (attributes : List (String × String)) (children : List Xml.Node) :
    Xml.Node :=
  .element (wordName name) (attributes.map fun a => (wordName a.1, a.2)) children

/-- An element that consists of one value. -/
def wordValue (name value : String) : Xml.Node := wordBox name [("val", value)] []

/-- A switch, which is on when its element has no value. -/
def wordSwitch (name : String) (on : Bool) : Xml.Node :=
  if on then wordBox name [] [] else wordValue name "0"

/-- Alignments by their names in documents. -/
def alignmentMark : TextAlignment → String
  | .left => "left"
  | .center => "center"
  | .right => "right"
  | .justify => "both"

structure LineHeight where
  twips : Int
  rule : Style.SpacingRule
  deriving DecidableEq, Repr

def singleLine : LineHeight := ⟨240, .auto⟩

structure ParagraphFormat where
  keepNext : Option Bool := none
  keepLines : Option Bool := none
  before : Option Int := none
  after : Option Int := none
  line : Option LineHeight := none
  left : Option Int := none
  /-- Where the first line begins; to the left of the others if negative. -/
  firstLine : Option Int := none
  contextualSpacing : Bool := false
  alignment : Option TextAlignment := none
  outlineLevel : Option Nat := none
  deriving DecidableEq, Repr

/-- An attribute for a property that may be missing. -/
def optionalAttribute (name : String) (value : Option Int) : List (String × String) :=
  match value with
  | none => []
  | some n => [(name, toString n)]

/-- An element with whatever attributes there are; none without any. -/
def boxUnlessBare (name : String) (attributes : List (String × String)) : List Xml.Node :=
  if attributes.isEmpty then [] else [wordBox name attributes []]

def optionalSwitch (name : String) (value : Option Bool) : List Xml.Node :=
  value.toList.map (wordSwitch name)

def firstLineAttribute : Option Int → List (String × String)
  | none => []
  | some n => if n < 0 then [("hanging", toString (-n))] else [("firstLine", toString n)]

def lineAttributes : Option LineHeight → List (String × String)
  | none => []
  | some h => [("line", toString h.twips), ("lineRule", h.rule.name)]

/-- The properties of a paragraph in the order of the format, after those given first. -/
def ParagraphFormat.markup (f : ParagraphFormat) (first : List Xml.Node) : Xml.Node :=
  wordBox "pPr" [] (first ++ optionalSwitch "keepNext" f.keepNext ++
    optionalSwitch "keepLines" f.keepLines ++
    boxUnlessBare "spacing" (optionalAttribute "before" f.before ++
      optionalAttribute "after" f.after ++ lineAttributes f.line) ++
    boxUnlessBare "ind" (optionalAttribute "left" f.left ++ firstLineAttribute f.firstLine) ++
    (if f.contextualSpacing then [wordBox "contextualSpacing" [] []] else []) ++
    f.alignment.toList.map (fun a => wordValue "jc" (alignmentMark a)) ++
    f.outlineLevel.toList.map fun n => wordValue "outlineLvl" (toString n))

structure Fonts where
  latin : String
  eastAsian : String
  deriving DecidableEq, Repr

structure RunFormat where
  fonts : Option Fonts := none
  bold : Option Bool := none
  complexBold : Bool := false
  italic : Option Bool := none
  complexItalic : Bool := false
  black : Bool := false
  /-- In half points. -/
  size : Option Int := none
  complexSize : Option Int := none
  deriving DecidableEq, Repr

def Fonts.markup (f : Fonts) : Xml.Node :=
  wordBox "rFonts" [("ascii", f.latin), ("hAnsi", f.latin), ("cs", f.latin),
    ("eastAsia", f.eastAsian)] []

/-- The properties of a run in the order of the format. -/
def RunFormat.markup (f : RunFormat) : Xml.Node :=
  wordBox "rPr" [] (f.fonts.toList.map Fonts.markup ++ optionalSwitch "b" f.bold ++
    (if f.complexBold then [wordSwitch "bCs" true] else []) ++ optionalSwitch "i" f.italic ++
    (if f.complexItalic then [wordSwitch "iCs" true] else []) ++
    (if f.black then [wordValue "color" "000000"] else []) ++
    f.size.toList.map (fun n => wordValue "sz" (toString n)) ++
    f.complexSize.toList.map fun n => wordValue "szCs" (toString n))

/-- Whether a string may stand in a document. -/
def legalText (s : String) : Except Error Unit := (Xml.checkText s).mapError .illegal

/-- A string as a document can hold it, if it can be encoded and is legal. -/
def documentText (s : WideString) : Except Error String :=
  match s.text? with
  | none => .error (.unencodable s)
  | some text => do
    legalText text
    return text

/-- Font size and fonts of a style's text, the Latin font being given. -/
def fontFormat (s : Style.TextStyle) (latin : WideString) : Except Error RunFormat := do
  let length ← Length.ofPoints s.size
  let size ← length.checked unsigned64
  let latin ← documentText latin
  let eastAsian ← documentText s.eastAsianFont
  return { fonts := some ⟨latin, eastAsian⟩, size := some size.halfPoints }

end MarkdownDocx.Docx
