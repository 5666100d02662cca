import MarkdownDocx.Xml.Name

/-!
XML content as a tree, with names resolved to their namespaces.
-/

set_option autoImplicit false

namespace MarkdownDocx.Xml

abbrev Attribute := Name × String

inductive Node where
  | element (name : Name) (attributes : List Attribute) (children : List Node)
  | text (s : String)
  | comment (s : String)
  | instruction (target body : String)
  deriving Repr

namespace Node

/-- An element without attributes. -/
def plain (name : Name) (children : List Node) : Node := .element name [] children

/-- Text as content; empty text is no content. -/
def ofText (s : String) : List Node := if s.isEmpty then [] else [.text s]

end Node

/-- The value of an attribute. -/
def attribute? (name : Name) : List Attribute → Option String
  | [] => none
  | (n, v) :: rest => if n = name then some v else attribute? name rest

/-- An attribute given again keeps its place and takes the new value. -/
def setAttribute (name : Name) (value : String) : List Attribute → List Attribute
  | [] => [(name, value)]
  | (n, v) :: rest => if n = name then (n, value) :: rest else (n, v) :: setAttribute name value rest

/-- The text before the first child that is not text. -/
def leadingText : List Node → String
  | .text s :: rest => s ++ leadingText rest
  | _ => ""

mutual
/-- All text inside, without comments and instructions. -/
def Node.innerText : Node → String
  | .element _ _ children => innerTexts children
  | .text s => s
  | .comment _ => ""
  | .instruction _ _ => ""

def innerTexts : List Node → String
  | [] => ""
  | n :: rest => n.innerText ++ innerTexts rest
end

/-- Whether anything but text is inside. Comments and instructions count. -/
def hasChildren : List Node → Bool
  | [] => false
  | .text _ :: rest => hasChildren rest
  | _ :: _ => true

/-- Why a tree cannot be written. -/
inductive Illegal where
  | character
  | name (base : String)
  deriving DecidableEq, Repr

def Illegal.message : Illegal → String
  | .character => "All strings must be XML compatible: Unicode or ASCII, no NULL bytes or control characters"
  | .name base => "Invalid tag name " ++ base

def checkText (s : String) : Except Illegal Unit :=
  if s.toList.all isXmlChar then .ok () else .error .character

def checkName (n : Name) : Except Illegal Unit :=
  if isLocalName n.base.toList then .ok () else .error (.name n.base)

def checkAttributes : List Attribute → Except Illegal Unit
  | [] => .ok ()
  | (n, v) :: rest => do
    checkName n
    checkText v
    checkAttributes rest

mutual
/-- Names are names and strings hold characters that a document may hold. -/
def Node.check : Node → Except Illegal Unit
  | .element name attributes children => do
    checkName name
    checkAttributes attributes
    checkAll children
  | .text s => checkText s
  | .comment s => checkText s
  | .instruction _ body => checkText body

def checkAll : List Node → Except Illegal Unit
  | [] => .ok ()
  | n :: rest => do
    n.check
    checkAll rest
end

mutual
/-- How deep elements are nested. -/
def Node.depth : Node → Nat
  | .element _ _ children => depthAll children + 1
  | _ => 0

def depthAll : List Node → Nat
  | [] => 0
  | n :: rest => max n.depth (depthAll rest)
end

/-- Elements nested deeper than this are not read. -/
def greatestDepth : Nat := 256

end MarkdownDocx.Xml
