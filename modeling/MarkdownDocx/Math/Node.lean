/-!
Equations as trees, independent of any markup.
-/

set_option autoImplicit false

namespace MarkdownDocx.Math

/-- The glyphs around a delimited part. A kind that has no name here is kept as it was given. -/
inductive Delimiter where
  | round
  | square
  | curly
  | unnamed (kind : String)
  deriving DecidableEq, Repr

def Delimiter.ofName (name : String) : Delimiter :=
  if name = "round" then .round
  else if name = "square" then .square
  else if name = "curly" then .curly
  else .unnamed name

def Delimiter.name : Delimiter → String
  | .round => "round"
  | .square => "square"
  | .curly => "curly"
  | .unnamed kind => kind

/-- A node of an equation. Scripts, slots and cells are lists of nodes; `property` is an element of
the markup that is kept as it is, such as the properties of a matrix. -/
inductive Node where
  | run (text : String)
  | fraction (numerator denominator : List Node)
  | superscript (base sup : List Node)
  | subscript (base sub : List Node)
  | subSuperscript (base sub sup : List Node)
  | radical (base : List Node) (degree : Option (List Node))
  | delimited (content : List Node) (kind : Delimiter)
  | nary (symbol : String) (operand : List Node) (sub sup : Option (List Node))
  | accent (mark : String) (base : List Node)
  | matrix (rows : List (List (List Node))) (properties : List Node)
  | property (name : String) (attributes : List (String × String)) (children : List Node)
      (text : Option String)
  deriving Repr

/-- The sum sign, the n-ary operator where none is named. -/
def sumSign : String := "\u2211"

def integralSign : String := "\u222b"

/-- The content of a slot, in which an empty run stands for nothing. -/
def slot (nodes : List Node) : List Node := if nodes.isEmpty then [.run ""] else nodes

@[simp] theorem slot_ne_nil (nodes : List Node) : slot nodes ≠ [] := by
  unfold slot
  split
  · simp
  · rename_i h
    simpa using h

mutual
/-- The text of a tree, without its structure: the base of a script or an operator first, and
neither operators nor accents nor delimiters. -/
def Node.plainText : Node → String
  | .run text => text
  | .fraction num den => plainTexts num ++ plainTexts den
  | .superscript base sup => plainTexts base ++ plainTexts sup
  | .subscript base sub => plainTexts base ++ plainTexts sub
  | .subSuperscript base sub sup => plainTexts base ++ plainTexts sub ++ plainTexts sup
  | .radical base none => plainTexts base
  | .radical base (some degree) => plainTexts base ++ plainTexts degree
  | .delimited content _ => plainTexts content
  | .nary _ operand none none => plainTexts operand
  | .nary _ operand (some sub) none => plainTexts operand ++ plainTexts sub
  | .nary _ operand none (some sup) => plainTexts operand ++ plainTexts sup
  | .nary _ operand (some sub) (some sup) => plainTexts operand ++ plainTexts sub ++ plainTexts sup
  | .accent _ base => plainTexts base
  | .matrix rows _ => plainRows rows
  | .property _ _ children text => text.getD "" ++ plainTexts children

def plainTexts : List Node → String
  | [] => ""
  | n :: rest => n.plainText ++ plainTexts rest

def plainRows : List (List (List Node)) → String
  | [] => ""
  | r :: rest => plainCells r ++ plainRows rest

def plainCells : List (List Node) → String
  | [] => ""
  | c :: rest => plainTexts c ++ plainCells rest
end

end MarkdownDocx.Math
