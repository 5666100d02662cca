import MarkdownDocx.Docx.Document
import MarkdownDocx.Files.Path
import MarkdownDocx.Text.Blank
import MarkdownDocx.Text.Quoted

/-!
A tree of files as a value: looking a path up, reading, writing, and making directories.
-/

set_option autoImplicit false

namespace MarkdownDocx.Files

/-- What a file holds: bytes, or a document that was saved to it. -/
inductive Content where
  | bytes (data : ByteArray)
  | document (d : Docx.Document)

inductive Entry where
  | directory
  | file (content : Content)

/-- The names that lead to a place, from the current directory or from a slash. All `..` in it are
at its beginning. -/
abbrev Location := List String

/-- Files and directories by their locations. -/
structure Tree where
  entries : List (Location × Entry) := []

/-- Why a path could not be used. -/
inductive FileError where
  | notFound (path : String)
  | exists (path : String)
  | notDirectory (path : String)
  | isDirectory (path : String)
  | tooLong (path : String)
  | nullCharacter
  | notText
  /-- Text with a surrogate, which has no encoding. -/
  | unencodable (s : WideString)
  deriving DecidableEq, Repr

def FileError.message : FileError → String
  | .notFound path => "[Errno 2] No such file or directory: " ++ Text.quoted path
  | .exists path => "[Errno 17] File exists: " ++ Text.quoted path
  | .notDirectory path => "[Errno 20] Not a directory: " ++ Text.quoted path
  | .isDirectory path => "[Errno 21] Is a directory: " ++ Text.quoted path
  | .tooLong path => "[Errno 36] File name too long: " ++ Text.quoted path
  | .nullCharacter => "embedded null byte"
  | .notText => "The file is not encoded as UTF-8"
  | .unencodable s => s.encodingFault

/-- The greatest number of bytes in a name. -/
def greatestName : Nat := 255

/-- The greatest number of bytes in a path. -/
def greatestPath : Nat := 4095

/-- Where a lookup ends, if nothing is missing or in the way before. -/
inductive Found where
  | directory
  | file (place : Location) (content : Content)
  /-- Nothing, but its directory is there. -/
  | vacant (place : Location)

def rootLocation : Root → Location
  | .none => []
  | _ => ["/"]

/-- The location of `..`. -/
def Location.up (l : Location) : Location :=
  if l = ["/"] then l
  else if l.all (· = "..") then l ++ [".."]
  else l.dropLast

/-- The current directory, those above it, and the root are always there. -/
def Location.isBase (l : Location) : Bool := l.all (· = "..") || l = ["/"]

/-- The text that bytes are, its line ends made line feeds. -/
def textOf (data : ByteArray) : Option String :=
  (String.fromUTF8? data).map fun s => String.ofList (Text.unifyFeeds s.toList)

namespace Tree

def find? (t : Tree) (l : Location) : Option Entry :=
  (t.entries.find? fun e => e.1 == l).map Prod.snd

/-- An entry at a location; a directory is there also when something is inside it. -/
def entry (t : Tree) (l : Location) : Option Entry :=
  if Location.isBase l then some .directory
  else
    match t.find? l with
    | some e => some e
    | none =>
      if t.entries.any fun e => l.isPrefixOf e.1 then some .directory else none

/-- An entry put at a location, in place of what is there. -/
def put (t : Tree) (l : Location) (e : Entry) : Tree :=
  ⟨t.entries.filter (fun old => old.1 != l) ++ [(l, e)]⟩

/-- Names followed from a directory; `path` stands for all of them in errors. -/
def walk (t : Tree) (path : String) (l : Location) : List String → Except FileError Found
  | [] => .ok .directory
  | name :: rest =>
    if name = ".." then t.walk path l.up rest
    else
      match t.entry (l ++ [name]) with
      | some .directory => t.walk path (l ++ [name]) rest
      | some (.file content) =>
        if rest.isEmpty then .ok (.file (l ++ [name]) content) else .error (.notDirectory path)
      | none =>
        if greatestName < name.utf8ByteSize then .error (.tooLong path)
        else if rest.isEmpty then .ok (.vacant (l ++ [name]))
        else .error (.notFound path)

def look (t : Tree) (p : Path) : Except FileError Found :=
  if p.text.contains '\x00' then .error .nullCharacter
  else if greatestPath < p.text.utf8ByteSize then .error (.tooLong p.text)
  else t.walk p.text (rootLocation p.root) p.parts

/-- Whether there is a file or a directory. What lies behind a missing directory or behind a file
is not there. -/
def has (t : Tree) (p : Path) : Except FileError Bool :=
  match t.look p with
  | .ok (.vacant _) => .ok false
  | .ok _ => .ok true
  | .error (.tooLong path) => .error (.tooLong path)
  | .error _ => .ok false

/-- A file's text. Line ends are read as line feeds. -/
def readText (t : Tree) (p : Path) : Except FileError String := do
  match ← t.look p with
  | .directory => .error (.isDirectory p.text)
  | .vacant _ => .error (.notFound p.text)
  | .file _ (.bytes data) =>
    match textOf data with
    | some s => .ok s
    | none => .error .notText
  | .file _ (.document _) => .error .notText

def write (t : Tree) (p : Path) (content : Content) : Except FileError Tree := do
  match ← t.look p with
  | .directory => .error (.isDirectory p.text)
  | .vacant l => .ok (t.put l (.file content))
  | .file l _ => .ok (t.put l (.file content))

/-- A directory made in a directory that is there; one that exists will do. -/
def makeDirectory (t : Tree) (p : Path) : Except FileError Tree := do
  match ← t.look p with
  | .directory => .ok t
  | .vacant l => .ok (t.put l .directory)
  | .file _ _ => .error (.exists p.text)

/-- A directory made together with those that are missing above it. What was made before a failure
stays. -/
def makeDirectories (t : Tree) (p : Path) : Tree × Except FileError Unit :=
  match t.makeDirectory p with
  | .ok made => (made, .ok ())
  | .error (.notFound path) =>
    if p.parts = [] then (t, .error (.notFound path))
    else
      match t.makeDirectories p.parent with
      | (above, .error e) => (above, .error e)
      | (above, .ok ()) =>
        match above.makeDirectory p with
        | .ok made => (made, .ok ())
        | .error e => (above, .error e)
  | .error e => (t, .error e)
termination_by p.parts.length
decreasing_by
  simp only [Path.parent, List.length_dropLast]
  have := List.length_pos_iff.2 ‹p.parts ≠ []›
  omega

/-- A file written into a directory that is made if need be. -/
def save (t : Tree) (p : Path) (content : Content) : Tree × Except FileError Unit :=
  match t.makeDirectories p.parent with
  | (made, .error e) => (made, .error e)
  | (made, .ok ()) =>
    match made.write p content with
    | .ok written => (written, .ok ())
    | .error e => (made, .error e)

section Look

variable {t : Tree} {p : Path} {l : Location} {content : Content}

/-- A path that is not too long and has no null character is followed name by name. -/
theorem look_eq_walk (hnull : '\x00' ∉ p.text.toList)
    (hlength : p.text.utf8ByteSize ≤ greatestPath) :
    t.look p = t.walk p.text (rootLocation p.root) p.parts := by
  simp [look, String.contains_char_eq, hnull, Nat.not_lt.2 hlength]

theorem has_of_file (h : t.look p = .ok (.file l content)) : t.has p = .ok true := by
  simp [has, h]

theorem has_of_vacant (h : t.look p = .ok (.vacant l)) : t.has p = .ok false := by
  simp [has, h]

theorem readText_of_file {data : ByteArray} (h : t.look p = .ok (.file l (.bytes data))) :
    t.readText p = (textOf data).elim (.error .notText) .ok := by
  cases htext : textOf data <;> simp [readText, h, htext, bind, Except.bind]

theorem makeDirectories_of_makeDirectory {made : Tree} (h : t.makeDirectory p = .ok made) :
    t.makeDirectories p = (made, .ok ()) := by
  rw [makeDirectories, h]

/-- Where a directory has a place for a file, it is saved there. -/
theorem save_of_vacant (hparent : t.look p.parent = .ok .directory)
    (h : t.look p = .ok (.vacant l)) :
    t.save p content = (t.put l (.file content), .ok ()) := by
  have hmade : t.makeDirectory p.parent = .ok t := by
    simp [makeDirectory, hparent, bind, Except.bind]
  have hwritten : t.write p content = .ok (t.put l (.file content)) := by
    simp [write, h, bind, Except.bind]
  rw [save, makeDirectories_of_makeDirectory hmade]
  simp only [hwritten]

end Look

end Tree

end MarkdownDocx.Files
