import MarkdownDocx.Text.Blank
import MarkdownDocx.Text.Digit
import MarkdownDocx.Text.Scan
import MarkdownDocx.Xml.Name

/-!
XML text as a sequence of tags, texts, comments and instructions. A text that cannot be cut into
these is not well-formed.
-/

set_option autoImplicit false

namespace MarkdownDocx.Xml

open MarkdownDocx.Text

/-- A name as it is written: what stands before its colon, if there is one, and what follows. -/
structure QName where
  qualifier : String
  base : String
  deriving DecidableEq, Repr

inductive Token where
  | opening (name : QName) (attributes : List (QName × String)) (selfClosing : Bool)
  | closing (name : QName)
  | text (s : String)
  | comment (s : String)
  | instruction (target body : String)
  deriving DecidableEq, Repr

/-- The number that digits of a base write. -/
def numberIn? (base : Nat) (digit? : Char → Option Nat) : List Char → Option Nat
  | [] => none
  | ds => ds.foldlM (fun n c => (digit? c).map fun d => base * n + d) 0

def hexDigit? (c : Char) : Option Nat :=
  if isAsciiDigit c then some (c.toNat - 48)
  else if 'a' ≤ c && c ≤ 'f' then some (c.toNat - 87)
  else if 'A' ≤ c && c ≤ 'F' then some (c.toNat - 55)
  else none

def decimalDigit? (c : Char) : Option Nat :=
  if isAsciiDigit c then some (c.toNat - 48) else none

/-- The character with this code point, if a document may hold it. -/
def charOfCode? (n : Nat) : Option Char :=
  if h : n.isValidChar then
    let c := Char.ofNatAux n h
    if isXmlChar c then some c else none
  else none

/-- The character that stands for what is between `&` and `;`. -/
def reference? : List Char → Option Char
  | '#' :: 'x' :: ds => (numberIn? 16 hexDigit? ds).bind charOfCode?
  | '#' :: ds => (numberIn? 10 decimalDigit? ds).bind charOfCode?
  | name =>
    if name = ['a', 'm', 'p'] then some '&'
    else if name = ['l', 't'] then some '<'
    else if name = ['g', 't'] then some '>'
    else if name = ['q', 'u', 'o', 't'] then some '"'
    else if name = ['a', 'p', 'o', 's'] then some '\''
    else none

/-- Text with its references resolved. `pending` holds, backwards, the characters of a reference
that has begun. -/
def decodeFrom : Option (List Char) → List Char → Option (List Char)
  | none, [] => some []
  | some _, [] => none
  | none, c :: r => if c = '&' then decodeFrom (some []) r else (decodeFrom none r).map (c :: ·)
  | some name, c :: r =>
    if c = ';' then
      match reference? name.reverse with
      | some d => (decodeFrom none r).map (d :: ·)
      | none => none
    else decodeFrom (some (c :: name)) r

def decode (cs : List Char) : Option (List Char) := decodeFrom none cs

def cdataEnd : List Char := [']', ']', '>']

/-- Character data up to the next tag. -/
def readText (cs : List Char) : Option (Token × List Char) :=
  let raw := cs.takeWhile (· != '<')
  if occursIn cdataEnd raw then none
  else (decode raw).map fun s => (.text (String.ofList s), cs.dropWhile (· != '<'))

/-- A name without a colon. -/
def readLocalName : List Char → Option (String × List Char)
  | [] => none
  | c :: r =>
    if isNameStart c then some (String.ofList (c :: r.takeWhile isNameChar), r.dropWhile isNameChar)
    else none

/-- A name with at most one colon, and a name on either side of it. -/
def readQName (cs : List Char) : Option (QName × List Char) :=
  match readLocalName cs with
  | none => none
  | some (n, ':' :: r) =>
    match readLocalName r with
    | some (m, r') => if r'.head? == some ':' then none else some (⟨n, m⟩, r')
    | none => none
  | some (n, r) => some (⟨"", n⟩, r)

def skipSpace (cs : List Char) : List Char := cs.dropWhile isXmlSpace

def trimSpace (cs : List Char) : List Char := (skipSpace (skipSpace cs).reverse).reverse

/-- A value between quotes. White space in it is plain spaces, unless it comes from references. -/
def readValue : List Char → Option (String × List Char)
  | q :: r =>
    if q = '"' || q = '\'' then
      match r.dropWhile (· != q) with
      | [] => none
      | _ :: rest =>
        let raw := r.takeWhile (· != q)
        if raw.contains '<' then none
        else
          (decode (raw.map fun c => if isXmlSpace c then ' ' else c)).map fun s =>
            (String.ofList s, rest)
    else none
  | [] => none

/-- A name, an equals sign and a value. -/
def readAttribute (cs : List Char) : Option ((QName × String) × List Char) :=
  match readQName cs with
  | none => none
  | some (n, r) =>
    match skipSpace r with
    | '=' :: r => (readValue (skipSpace r)).map fun p => ((n, p.1), p.2)
    | _ => none

/-- The end of an opening tag: whether it closes the element as well, and what follows. -/
def readTagEnd : List Char → Option (Bool × List Char)
  | '>' :: r => some (false, r)
  | '/' :: '>' :: r => some (true, r)
  | _ => none

/-- Attributes up to the end of the tag, each after white space. The fuel bounds their number. -/
def readAttributes : Nat → List Char → Option (List (QName × String) × Bool × List Char)
  | 0, _ => none
  | fuel + 1, cs =>
    match readTagEnd (skipSpace cs) with
    | some (selfClosing, r) => some ([], selfClosing, r)
    | none =>
      if cs.head?.any isXmlSpace then
        match readAttribute (skipSpace cs) with
        | some (a, r) => (readAttributes fuel r).map fun p => (a :: p.1, p.2)
        | none => none
      else none

def readOpening (cs : List Char) : Option (Token × List Char) :=
  match readQName cs with
  | none => none
  | some (n, r) =>
    (readAttributes (r.length + 1) r).map fun p => (.opening n p.1 p.2.1, p.2.2)

def readClosing (cs : List Char) : Option (Token × List Char) :=
  match readQName cs with
  | none => none
  | some (n, r) =>
    match skipSpace r with
    | '>' :: r => some (.closing n, r)
    | _ => none

/-- A comment ends at the first two hyphens, which `>` follows. -/
def readComment (cs : List Char) : Option (Token × List Char) :=
  match readUntil ['-', '-'] cs with
  | some (body, '>' :: r) => some (.comment (String.ofList body), r)
  | _ => none

def isReservedTarget (target : String) : Bool :=
  target.toList.map Char.toLower == ['x', 'm', 'l']

def readInstruction (cs : List Char) : Option (Token × List Char) :=
  match readLocalName cs with
  | none => none
  | some (target, r) =>
    if isReservedTarget target then none
    else
      match r with
      | '?' :: '>' :: r => some (.instruction target "", r)
      | c :: _ =>
        if isXmlSpace c then
          (readUntil ['?', '>'] (skipSpace r)).map fun p =>
            (.instruction target (String.ofList p.1), p.2)
        else none
      | [] => none

def readCdata (cs : List Char) : Option (Token × List Char) :=
  (readUntil cdataEnd cs).map fun p => (.text (String.ofList p.1), p.2)

/-- The token that begins here, and the rest. -/
def readToken : List Char → Option (Token × List Char)
  | '<' :: '?' :: r => readInstruction r
  | '<' :: '/' :: r => readClosing r
  | '<' :: '!' :: r =>
    match afterWord ['-', '-'] r with
    | some r => readComment r
    | none => (afterWord ['[', 'C', 'D', 'A', 'T', 'A', '['] r).bind readCdata
  | '<' :: r => readOpening r
  | cs => readText cs

/-- All tokens from here on. The fuel bounds their number. -/
def readTokens : Nat → List Char → Option (List Token)
  | _, [] => some []
  | 0, _ :: _ => none
  | fuel + 1, c :: cs =>
    match readToken (c :: cs) with
    | some (t, r) => (readTokens fuel r).map (t :: ·)
    | none => none

/-- The tokens of a text, in which all line ends are line feeds. -/
def tokens (cs : List Char) : Option (List Token) :=
  let cs := unifyFeeds cs
  if cs.all isXmlChar then readTokens cs.length cs else none

end MarkdownDocx.Xml
