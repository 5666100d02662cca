/-!
Characters and names of XML 1.0.
-/

set_option autoImplicit false

namespace MarkdownDocx.Xml

/-- The characters that a document may hold. -/
def isXmlChar (c : Char) : Bool :=
  let n := c.toNat
  n == 9 || n == 10 || n == 13 || (0x20 ≤ n && n ≤ 0xD7FF) || (0xE000 ≤ n && n ≤ 0xFFFD) ||
    0x10000 ≤ n

/-- White space between the parts of a tag. -/
def isXmlSpace (c : Char) : Bool := c == ' ' || c == '\t' || c == '\n' || c == '\r'

def within (n : Nat) (ranges : List (Nat × Nat)) : Bool :=
  ranges.any fun r => r.1 ≤ n && n ≤ r.2

def nameStartRanges : List (Nat × Nat) :=
  [(0x41, 0x5A), (0x5F, 0x5F), (0x61, 0x7A), (0xC0, 0xD6), (0xD8, 0xF6), (0xF8, 0x2FF),
    (0x370, 0x37D), (0x37F, 0x1FFF), (0x200C, 0x200D), (0x2070, 0x218F), (0x2C00, 0x2FEF),
    (0x3001, 0xD7FF), (0xF900, 0xFDCF), (0xFDF0, 0xFFFD), (0x10000, 0xEFFFF)]

def nameFurtherRanges : List (Nat × Nat) :=
  [(0x2D, 0x2E), (0x30, 0x39), (0xB7, 0xB7), (0x300, 0x36F), (0x203F, 0x2040)]

/-- The first character of a name; the colon is left to qualified names. -/
def isNameStart (c : Char) : Bool := within c.toNat nameStartRanges

def isNameChar (c : Char) : Bool := isNameStart c || within c.toNat nameFurtherRanges

/-- A name without a colon. -/
def isLocalName : List Char → Bool
  | [] => false
  | c :: r => isNameStart c && r.all isNameChar

/-- The namespaces that documents use, and any other by its address. -/
inductive Namespace where
  | none
  | math
  | word
  | xml
  | other (address : String)
  deriving DecidableEq, Repr

def mathAddress : String := "http://schemas.openxmlformats.org/officeDocument/2006/math"

def wordAddress : String := "http://schemas.openxmlformats.org/wordprocessingml/2006/main"

def xmlAddress : String := "http://www.w3.org/XML/1998/namespace"

def declarationAddress : String := "http://www.w3.org/2000/xmlns/"

/-- The namespace of an address. -/
def Namespace.ofAddress (address : String) : Namespace :=
  if address = "" then .none
  else if address = mathAddress then .math
  else if address = wordAddress then .word
  else if address = xmlAddress then .xml
  else .other address

structure Name where
  space : Namespace
  base : String
  deriving DecidableEq, Repr

/-- A name of the math namespace. -/
def mathName (base : String) : Name := ⟨.math, base⟩

/-- A name of the word-processing namespace. -/
def wordName (base : String) : Name := ⟨.word, base⟩

/-- A name with the mark that its namespace goes by. -/
def Name.marked (n : Name) : String :=
  match n.space with
  | .none => n.base
  | .math => "m:" ++ n.base
  | .word => "w:" ++ n.base
  | .xml => "xml:" ++ n.base
  | .other address => "\x7b" ++ address ++ "\x7d" ++ n.base

end MarkdownDocx.Xml
