import MarkdownDocx.Math.Markup
import MarkdownDocx.Math.Reader

/-!
The normal form of an equation: what is left of a tree once it has been written and read. It is
said here without the markup, node by node.
-/

set_option autoImplicit false

namespace MarkdownDocx.Math

/-- A part that may be missing: an empty one is. -/
def present : List Node → Option (List Node)
  | [] => none
  | n :: rest => some (n :: rest)

/-- An empty name counts as none, and gives way to the usual one. -/
def named (usual name : String) : String := if name = "" then usual else name

/-- The kinds of delimiters that have a name; any other is written with round glyphs. -/
def Delimiter.known : Delimiter → Delimiter
  | .unnamed _ => .round
  | kind => kind

/-- A node with the limits that it has as its scripts. -/
def scripted (n : Node) : Option (List Node) → Option (List Node) → Node
  | none, none => n
  | some sub, none => .subscript [n] sub
  | none, some sup => .superscript [n] sup
  | some sub, some sup => .subSuperscript [n] sub sup

/-- Sums and integrals are operators; any other symbol is a glyph before its operand. -/
def operation (symbol : String) (operand : List Node) (sub sup : Option (List Node)) : List Node :=
  if symbol = sumSign ∨ symbol = integralSign then [.nary symbol operand sub sup]
  else scripted (.run symbol) sub sup :: operand

/-- One run of one or two characters takes a mark that has a combining form; over anything else the
mark is a superscript. -/
def marked (mark : String) (base : List Node) : List Node :=
  match base, combiningMark? mark with
  | [.run text], some c =>
    if text ≠ "" ∧ text.length ≤ 2 then [.run (text.push c)]
    else [.superscript base [.run mark]]
  | _, _ => [.superscript base [.run mark]]

mutual
/-- The normal form of a node, which may be no node or several. -/
def Node.normal : Node → List Node
  | .run text => if text.toList.all Text.isBlank then [] else [.run text]
  | .fraction num den => [.fraction (slot (normals num)) (slot (normals den))]
  | .superscript base sup => [.superscript (slot (normals base)) (slot (normals sup))]
  | .subscript base sub => [.subscript (slot (normals base)) (slot (normals sub))]
  | .subSuperscript base sub sup =>
    [.subSuperscript (slot (normals base)) (slot (normals sub)) (slot (normals sup))]
  | .radical base degree => [.radical (slot (normals base)) (normalLimit degree)]
  | .delimited content kind => [.delimited (slot (normals content)) kind.known]
  | .nary symbol operand sub sup =>
    operation (named sumSign symbol) (slot (normals operand)) (normalLimit sub) (normalLimit sup)
  | .accent mark base => marked (named "^" mark) (slot (normals base))
  | .matrix rows properties => [.matrix (normalRows rows) properties]
  | .property name attributes children text => [.property name attributes children text]

/-- The normal form of a list: those of its nodes, one after the other. -/
def normals : List Node → List Node
  | [] => []
  | n :: rest => n.normal ++ normals rest

def normalLimit : Option (List Node) → Option (List Node)
  | none => none
  | some nodes => present (normals nodes)

def normalRows : List (List (List Node)) → List (List (List Node))
  | [] => []
  | r :: rest => normalCells r :: normalRows rest

def normalCells : List (List Node) → List (List Node)
  | [] => []
  | c :: rest => slot (normals c) :: normalCells rest
end

/-! Trees that can be written and read. -/

/-- A string that a document may hold. -/
def Legal (s : String) : Prop := s.toList.all Xml.isXmlChar = true

instance (s : String) : Decidable (Legal s) := inferInstanceAs (Decidable (_ = true))

/-- The text of a property stands on its own: it is not empty, has no white space around it, and no
children beside it. -/
def RegularText (children : List Node) : Option String → Prop
  | none => True
  | some t => t ≠ "" ∧ Text.trimmed t = t ∧ Legal t ∧ children = []

structure RegularAttributes (attributes : List (String × String)) : Prop where
  names : ∀ a ∈ attributes, Xml.isLocalName a.1.toList = true
  legal : ∀ a ∈ attributes, Legal a.2
  nodup : (attributes.map Prod.fst).Nodup

mutual
/-- A property all of whose parts are properties. -/
def Node.RegularProperty : Node → Prop
  | .property name attributes children text =>
    Xml.isLocalName name.toList = true ∧ RegularAttributes attributes ∧
      RegularText children text ∧ RegularProperties children
  | _ => False

def RegularProperties : List Node → Prop
  | [] => True
  | n :: rest => n.RegularProperty ∧ RegularProperties rest
end

/-- A matrix has no properties, or one group of them. -/
def MatrixProperties : List Node → Prop
  | [] => True
  | [.property name attributes children text] =>
    name = "mPr" ∧ (Node.property name attributes children text).RegularProperty
  | _ => False

mutual
/-- A tree of legal strings in which properties stand in matrices only. -/
def Node.Regular : Node → Prop
  | .run text => Legal text
  | .fraction num den => Regulars num ∧ Regulars den
  | .superscript base sup => Regulars base ∧ Regulars sup
  | .subscript base sub => Regulars base ∧ Regulars sub
  | .subSuperscript base sub sup => Regulars base ∧ Regulars sub ∧ Regulars sup
  | .radical base degree => Regulars base ∧ RegularLimit degree
  | .delimited content _ => Regulars content
  | .nary symbol operand sub sup =>
    Legal symbol ∧ Regulars operand ∧ RegularLimit sub ∧ RegularLimit sup
  | .accent mark base => Legal mark ∧ Regulars base
  | .matrix rows properties => RegularRows rows ∧ MatrixProperties properties
  | .property _ _ _ _ => False

def Regulars : List Node → Prop
  | [] => True
  | n :: rest => n.Regular ∧ Regulars rest

def RegularLimit : Option (List Node) → Prop
  | none => True
  | some nodes => Regulars nodes

def RegularRows : List (List (List Node)) → Prop
  | [] => True
  | r :: rest => RegularCells r ∧ RegularRows rest

def RegularCells : List (List Node) → Prop
  | [] => True
  | c :: rest => Regulars c ∧ RegularCells rest
end

end MarkdownDocx.Math
