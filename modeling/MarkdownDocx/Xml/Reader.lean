import MarkdownDocx.Xml.Address
import MarkdownDocx.Xml.Token
import MarkdownDocx.Xml.Tree

/-!
Reading XML content: tags are matched, and names are resolved by the declarations in scope.
-/

set_option autoImplicit false

namespace MarkdownDocx.Xml

/-- The namespaces that marks before a colon stand for, the innermost declaration first. The empty
mark is the default for elements. -/
abbrev Scope := List (String × Namespace)

def Scope.find? (mark : String) : Scope → Option Namespace
  | [] => if mark = "xml" then some .xml else if mark = "" then some .none else none
  | (m, n) :: rest => if m = mark then some n else Scope.find? mark rest

/-- Whether a mark may be bound to an address. -/
def declarable (mark address : String) : Bool :=
  isAddress address.toList && mark != "xmlns" && address != declarationAddress &&
    ((mark == "xml") == (address == xmlAddress)) && (mark == "" || address != "")

/-- The mark that an attribute declares, if it is a declaration. -/
def declaredMark? (n : QName) : Option String :=
  if n.qualifier = "xmlns" then some n.base
  else if n.qualifier = "" ∧ n.base = "xmlns" then some ""
  else none

/-- The scope inside a tag with these attributes. -/
def declare : List (QName × String) → Scope → Option Scope
  | [], scope => some scope
  | (n, v) :: rest, scope =>
    match declaredMark? n with
    | some mark =>
      if declarable mark v then declare rest ((mark, Namespace.ofAddress v) :: scope) else none
    | none => declare rest scope

def resolveElement (scope : Scope) (n : QName) : Option Name :=
  (scope.find? n.qualifier).map fun s => ⟨s, n.base⟩

/-- An attribute without a mark is in no namespace. -/
def resolveAttribute (scope : Scope) (n : QName) : Option Name :=
  if n.qualifier = "" then some ⟨.none, n.base⟩ else resolveElement scope n

/-- The attributes that are no declarations. -/
def resolveAttributes (scope : Scope) : List (QName × String) → Option (List Attribute)
  | [] => some []
  | (n, v) :: rest =>
    match declaredMark? n with
    | some _ => resolveAttributes scope rest
    | none => do
      let name ← resolveAttribute scope n
      let others ← resolveAttributes scope rest
      return (name, v) :: others

def distinct {α : Type} [DecidableEq α] : List α → Bool
  | [] => true
  | a :: rest => !rest.contains a && distinct rest

/-- An opening tag resolved: the scope inside it, its name and its attributes, none given twice. -/
def resolveTag (scope : Scope) (n : QName) (attributes : List (QName × String)) :
    Option (Scope × Name × List Attribute) := do
  if !distinct (attributes.map Prod.fst) then none
  let inner ← declare attributes scope
  let name ← resolveElement inner n
  let resolved ← resolveAttributes inner attributes
  if !distinct (resolved.map Prod.fst) then none
  return (inner, name, resolved)

/-- An element that is still open. `before` holds, backwards, the siblings before it. -/
structure Open where
  written : QName
  name : Name
  attributes : List Attribute
  outer : Scope
  before : List Node

/-- Builds the tree. `room` is how many more elements may be open at once, `done` holds, backwards,
the nodes of the current level. -/
def build : List Token → Nat → Scope → List Open → List Node → Option (List Node)
  | [], _, _, [], done => some done.reverse
  | [], _, _, _ :: _, _ => none
  | .opening n attributes selfClosing :: rest, room, scope, stack, done =>
    match room, resolveTag scope n attributes with
    | room + 1, some (inner, name, resolved) =>
      if selfClosing then build rest (room + 1) scope stack (.element name resolved [] :: done)
      else build rest room inner (⟨n, name, resolved, scope, done⟩ :: stack) []
    | _, _ => none
  | .closing n :: rest, room, _, o :: stack, done =>
    if n = o.written then
      build rest (room + 1) o.outer stack (.element o.name o.attributes done.reverse :: o.before)
    else none
  | .closing _ :: _, _, _, [], _ => none
  | .text s :: rest, room, scope, stack, done => build rest room scope stack (.text s :: done)
  | .comment s :: rest, room, scope, stack, done => build rest room scope stack (.comment s :: done)
  | .instruction t b :: rest, room, scope, stack, done =>
    build rest room scope stack (.instruction t b :: done)

/-- The values that name elements: those of the attribute `xml:id`. -/
def identities : List Token → List String
  | [] => []
  | .opening _ attributes _ :: rest =>
    (attributes.filter fun a => a.1 == ⟨"xml", "id"⟩).map Prod.snd ++ identities rest
  | _ :: rest => identities rest

/-- An element is named by a name without a colon, white space around it aside, and no two elements
are named alike. -/
def identifiable (ts : List Token) : Bool :=
  (identities ts).all (fun s => isLocalName (trimSpace s.toList)) && distinct (identities ts)

/-- The marks of formulas are known without a declaration. -/
def formulaScope : Scope := [("m", .math), ("w", .word)]

/-- The content that a fragment writes, if it is well-formed. The fragment stands inside one
element of its own. -/
def readFragment (cs : List Char) : Option (List Node) := do
  let ts ← tokens cs
  if !identifiable ts then none
  build ts (greatestDepth - 1) formulaScope [] []

end MarkdownDocx.Xml
