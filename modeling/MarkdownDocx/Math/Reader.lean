import MarkdownDocx.Math.Node
import MarkdownDocx.Text.Blank
import MarkdownDocx.Text.Scan
import MarkdownDocx.Xml.Reader

/-!
Equations from Office math markup. Elements without a meaning of their own are replaced by their
content, and everything outside the math namespace is passed over.
-/

set_option autoImplicit false

namespace MarkdownDocx.Math

open MarkdownDocx.Xml (mathName)

/-- The value of a property element: in the math namespace, or else in none. -/
def valueOf? (attributes : List Xml.Attribute) : Option String :=
  match Xml.attribute? (mathName "val") attributes with
  | some v => some v
  | none => Xml.attribute? ⟨.none, "val"⟩ attributes

/-- The attributes and children of the first math child with this name. -/
def child? (name : String) : List Xml.Node → Option (List Xml.Attribute × List Xml.Node)
  | [] => none
  | .element n attributes children :: rest =>
    if n = mathName name then some (attributes, children) else child? name rest
  | _ :: rest => child? name rest

/-- The value of a property that stands in a group of properties. -/
def property? (group name : String) (children : List Xml.Node) : Option String :=
  match child? group children with
  | some (_, properties) =>
    match child? name properties with
    | some (attributes, _) => valueOf? attributes
    | none => none
  | none => none

/-- A property's value, where an empty one counts as missing. -/
def propertyOr (group name fallback : String) (children : List Xml.Node) : String :=
  match property? group name children with
  | some v => if v = "" then fallback else v
  | none => fallback

/-- Whether a flag is switched on. A flag without a value is not. -/
def isSwitchedOn (group name : String) (children : List Xml.Node) : Bool :=
  match property? group name children with
  | some v => v == "1" || v == "on" || v == "true"
  | none => false

def isBlankString (s : String) : Bool := Text.isBlankText s.toList

/-- The text of a run: that of its text element, or else all text inside. Blank runs vanish. -/
def readRun (children : List Xml.Node) : List Node :=
  let text := match child? "t" children with
    | some (_, content) => Xml.leadingText content
    | none => Xml.innerTexts children
  if isBlankString text then [] else [.run text]

/-- The kind of a delimiter, by either of its glyphs. -/
def delimiterOf (opening closing : String) : Delimiter :=
  if opening = "[" ∨ closing = "]" then .square
  else if opening = "\x7b" ∨ closing = "\x7d" then .curly
  else .round

/-- Several items of one delimiter, joined by its separator. -/
def joinItems (separator : String) : List (List Node) → List Node
  | [] => []
  | [item] => item
  | item :: rest => item ++ .run separator :: joinItems separator rest

def optionalSlot (nodes : List Node) : Option (List Node) :=
  if nodes.isEmpty then none else some nodes

/-- Sums and integrals keep their form. Any other operator is a glyph with scripts before its
operand. -/
def readNary (operator : String) (sub sup : Option (List Node)) (operand : List Node) : List Node :=
  if operator = sumSign ∨ operator = integralSign then [.nary operator operand sub sup]
  else
    let glyph := Node.run operator
    let head := match sub, sup with
      | some sub, some sup => .subSuperscript [glyph] sub sup
      | some sub, none => .subscript [glyph] sub
      | none, some sup => .superscript [glyph] sup
      | none, none => glyph
    head :: operand

/-- Accent glyphs and the combining marks that say the same. -/
def combiningMarks : List (String × Char) :=
  [("^", '\u0302'), ("\u0302", '\u0302'), ("~", '\u0303'), ("\u0303", '\u0303'),
    ("\u2192", '\u20d7'), ("\u00af", '\u0304'), ("\u0304", '\u0304'), ("\u02d9", '\u0307'),
    ("\u0307", '\u0307'), ("\u00a8", '\u0308')]

def combiningMark? (accent : String) : Option Char :=
  (combiningMarks.find? fun p => p.1 == accent).map Prod.snd

/-- An accent over a single short run becomes part of its text; over anything else it is written
as a superscript. -/
def readAccent (accent : String) (base : List Node) : List Node :=
  match combiningMark? accent, base with
  | some mark, [.run text] =>
    if 1 ≤ text.length ∧ text.length ≤ 2 then [.run (text.push mark)]
    else [.superscript base [.run accent]]
  | _, _ => [.superscript base [.run accent]]

/-- The attributes of the math namespace. -/
def mathAttributes (attributes : List Xml.Attribute) : List (String × String) :=
  attributes.filterMap fun a => if a.1.space = .math then some (a.1.base, a.2) else none

/-- Text that stands before any child, if it is not blank. -/
def propertyText? (children : List Xml.Node) : Option String :=
  let text := Xml.leadingText children
  if isBlankString text then none else some (Text.trimmed text)

mutual
/-- An element as it is: its name, its math attributes and its math children, and its text if it
has no such children. -/
def readProperty : Xml.Node → List Node
  | .element name attributes children =>
    let inside := readProperties children
    [.property name.base (mathAttributes attributes) inside
      (if inside.isEmpty then propertyText? children else none)]
  | _ => []

/-- The math elements among these. -/
def readProperties : List Xml.Node → List Node
  | [] => []
  | .element name attributes children :: rest =>
    if name.space = .math then
      readProperty (.element name attributes children) ++ readProperties rest
    else readProperties rest
  | _ :: rest => readProperties rest
end

/-- The properties of a matrix: its first element of that kind, kept as it is. -/
def matrixProperties (children : List Xml.Node) : List Node :=
  match child? "mPr" children with
  | some (attributes, inside) => readProperty (.element (mathName "mPr") attributes inside)
  | none => []

/-- What an element stands for. -/
inductive Role where
  | text
  | run
  | fraction
  | superscript
  | subscript
  | subSuperscript
  | radical
  | delimited
  | nary
  | accent
  | matrix
  | wrapper
  deriving DecidableEq, Repr

/-- The role of a name in the math namespace. -/
def mathRole (base : String) : Role :=
  match base with
  | "r" => .run
  | "f" => .fraction
  | "sSup" => .superscript
  | "sSub" => .subscript
  | "sSubSup" => .subSuperscript
  | "rad" => .radical
  | "d" => .delimited
  | "nary" => .nary
  | "acc" => .accent
  | "m" => .matrix
  | _ => .wrapper

/-- An element named `t` is text in every namespace. -/
def roleOf (name : Xml.Name) : Role :=
  if name.base = "t" then .text
  else if name.space = .math then mathRole name.base
  else .wrapper

mutual
/-- The nodes that an element, or anything else, contributes. -/
def readNode : Xml.Node → List Node
  | .element name _ children =>
    match roleOf name with
    | .text => [.run (Xml.leadingText children)]
    | .run => readRun children
    | .fraction => [.fraction (slot (partOf "num" children)) (slot (partOf "den" children))]
    | .superscript => [.superscript (slot (partOf "e" children)) (slot (partOf "sup" children))]
    | .subscript => [.subscript (slot (partOf "e" children)) (slot (partOf "sub" children))]
    | .subSuperscript =>
      [.subSuperscript (slot (partOf "e" children)) (slot (partOf "sub" children))
        (slot (partOf "sup" children))]
    | .radical =>
      [.radical (slot (partOf "e" children))
        (if isSwitchedOn "radPr" "degHide" children then none
          else optionalSlot (partOf "deg" children))]
    | .delimited =>
      [.delimited (slot (joinItems (propertyOr "dPr" "sepChr" "|" children) (partsOf "e" children)))
        (delimiterOf (propertyOr "dPr" "begChr" "(" children)
          (propertyOr "dPr" "endChr" ")" children))]
    | .nary =>
      readNary (propertyOr "naryPr" "chr" sumSign children)
        (if isSwitchedOn "naryPr" "subHide" children then none
          else optionalSlot (partOf "sub" children))
        (if isSwitchedOn "naryPr" "supHide" children then none
          else optionalSlot (partOf "sup" children))
        (slot (partOf "e" children))
    | .accent => readAccent (propertyOr "accPr" "chr" "^" children) (slot (partOf "e" children))
    | .matrix => [.matrix (rowsOf children) (matrixProperties children)]
    | .wrapper =>
      if Xml.hasChildren children then readNodes children
      else
        let text := Text.trimmed (Xml.innerTexts children)
        if text = "" then [] else [.run text]
  | _ => []

/-- The nodes of all elements, in order. -/
def readNodes : List Xml.Node → List Node
  | [] => []
  | n :: rest => readNode n ++ readNodes rest

/-- The content of the first math child with this name; nothing if there is none. -/
def partOf (name : String) : List Xml.Node → List Node
  | [] => []
  | .element n _ children :: rest => if n = mathName name then readNodes children else partOf name rest
  | _ :: rest => partOf name rest

/-- The contents of all math children with this name. -/
def partsOf (name : String) : List Xml.Node → List (List Node)
  | [] => []
  | .element n _ children :: rest =>
    if n = mathName name then readNodes children :: partsOf name rest else partsOf name rest
  | _ :: rest => partsOf name rest

/-- The rows of a matrix, cell by cell. -/
def rowsOf : List Xml.Node → List (List (List Node))
  | [] => []
  | .element n _ children :: rest =>
    if n = mathName "mr" then cellsOf children :: rowsOf rest else rowsOf rest
  | _ :: rest => rowsOf rest

/-- The cells of a row. -/
def cellsOf : List Xml.Node → List (List Node)
  | [] => []
  | .element n _ children :: rest =>
    if n = mathName "e" then slot (readNodes children) :: cellsOf rest else cellsOf rest
  | _ :: rest => cellsOf rest
end

mutual
/-- The content of the first equation element, the outermost and leftmost one. -/
def firstEquation : Xml.Node → Option (List Xml.Node)
  | .element name _ children =>
    if name = mathName "oMath" then some children else firstEquationIn children
  | _ => none

def firstEquationIn : List Xml.Node → Option (List Xml.Node)
  | [] => none
  | n :: rest => (firstEquation n).orElse fun _ => firstEquationIn rest
end

/-- The nodes of a fragment: those of its first equation, or of the whole if it has none. -/
def equationNodes (content : List Xml.Node) : List Node :=
  readNodes ((firstEquationIn content).getD content)

/-- The rest after an XML declaration, which may stand after white space. -/
def dropDeclaration (cs : List Char) : List Char :=
  match Text.afterWord ['<', '?', 'x', 'm', 'l'] (Text.trimLeft cs) with
  | none => cs
  | some r =>
    match r.dropWhile (· != '>') with
    | _ :: rest => if (r.takeWhile (· != '>')).getLast? == some '?' then rest else cs
    | [] => cs

/-- The equation that a fragment of markup writes, if the fragment is well-formed. -/
def readEquation (markup : String) : Option (List Node) :=
  (Xml.readFragment (dropDeclaration markup.toList)).map equationNodes

end MarkdownDocx.Math
