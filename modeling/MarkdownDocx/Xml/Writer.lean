import MarkdownDocx.Xml.Tree

/-!
Writing XML. Characters that would not read back as themselves are written as references.
-/

set_option autoImplicit false

namespace MarkdownDocx.Xml

def escapedTextChar (c : Char) : List Char :=
  if c = '&' then ['&', 'a', 'm', 'p', ';']
  else if c = '<' then ['&', 'l', 't', ';']
  else if c = '>' then ['&', 'g', 't', ';']
  else if c = '\r' then ['&', '#', '1', '3', ';']
  else [c]

def escapedValueChar (c : Char) : List Char :=
  if c = '"' then ['&', 'q', 'u', 'o', 't', ';']
  else if c = '\n' then ['&', '#', '1', '0', ';']
  else if c = '\t' then ['&', '#', '9', ';']
  else escapedTextChar c

def escapedText (s : String) : List Char := s.toList.flatMap escapedTextChar

def escapedValue (s : String) : List Char := s.toList.flatMap escapedValueChar

def writtenAttribute (a : Attribute) : List Char :=
  ' ' :: (a.1.marked.toList ++ '=' :: '"' :: (escapedValue a.2 ++ ['"']))

def writtenAttributes (as : List Attribute) : List Char := as.flatMap writtenAttribute

mutual
/-- A node under declarations that stand further out. -/
def Node.written : Node → List Char
  | .element name attributes children =>
    '<' :: (name.marked.toList ++ writtenAttributes attributes ++ '>' :: (writtenAll children ++
      '<' :: '/' :: (name.marked.toList ++ ['>'])))
  | .text s => escapedText s
  | .comment s => '<' :: '!' :: '-' :: '-' :: (s.toList ++ ['-', '-', '>'])
  | .instruction target body => '<' :: '?' :: (target.toList ++ ' ' :: (body.toList ++ ['?', '>']))

def writtenAll : List Node → List Char
  | [] => []
  | n :: rest => n.written ++ writtenAll rest
end

/-- The declarations of the marks that formulas use. -/
def formulaDeclarations : List Char :=
  (" xmlns:m=\"" ++ mathAddress ++ "\" xmlns:w=\"" ++ wordAddress ++ "\"").toList

/-- A whole element with its declarations. -/
def Node.document : Node → List Char
  | .element name attributes children =>
    '<' :: (name.marked.toList ++ formulaDeclarations ++ writtenAttributes attributes ++
      '>' :: (writtenAll children ++ '<' :: '/' :: (name.marked.toList ++ ['>'])))
  | n => n.written

end MarkdownDocx.Xml
