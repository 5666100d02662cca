/-!
Paths of files: a root, which may be missing, and the names that lead on from it. Empty names and
`.` are left out when a path is read; `..` is kept.
-/

set_option autoImplicit false

namespace MarkdownDocx.Files

/-- The slashes at the beginning of a path. Exactly two are kept; more count as one. -/
inductive Root where
  | none
  | slash
  | doubleSlash
  deriving DecidableEq, Repr

def Root.text : Root → String
  | .none => ""
  | .slash => "/"
  | .doubleSlash => "//"

def Root.ofSlashes : Nat → Root
  | 0 => .none
  | 2 => .doubleSlash
  | _ => .slash

structure Path where
  root : Root
  parts : List String
  deriving DecidableEq, Repr

/-- The fields between slashes: one more than there are slashes. -/
def splitSlashes : List Char → List (List Char)
  | [] => [[]]
  | c :: r =>
    if c = '/' then [] :: splitSlashes r
    else
      match splitSlashes r with
      | [] => [[c]]
      | l :: ls => (c :: l) :: ls

def isStep (name : List Char) : Bool := !name.isEmpty && name != ['.']

/-- The extension of a name: from its last point on, unless that is the first or the last
character of the name. -/
def splitExtension (name : List Char) : List Char × List Char :=
  let tail := (name.reverse.takeWhile (· ≠ '.')).reverse
  let front := (name.reverse.dropWhile (· ≠ '.')).reverse.dropLast
  if front.isEmpty || tail.isEmpty then (name, []) else (front, '.' :: tail)

namespace Path

def ofString (s : String) : Path :=
  let cs := s.toList
  ⟨Root.ofSlashes (cs.takeWhile (· = '/')).length,
    ((splitSlashes cs).filter isStep).map String.ofList⟩

/-- A path without a root or a name is the current directory. -/
def text (p : Path) : String :=
  let body := "/".intercalate p.parts
  if p.root = .none && p.parts.isEmpty then "." else p.root.text ++ body

/-- The directory that a path is in; a path without names is its own. -/
def parent (p : Path) : Path := { p with parts := p.parts.dropLast }

/-- The path with another extension, if it has a name that can take one. -/
def withExtension (p : Path) (extension : String) : Option Path :=
  match p.parts.getLast? with
  | none => none
  | some name =>
    let renamed := String.ofList (splitExtension name.toList).1 ++ extension
    some { p with parts := p.parts.dropLast ++ [renamed] }

end Path

end MarkdownDocx.Files
