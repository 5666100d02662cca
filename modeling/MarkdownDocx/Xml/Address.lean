import MarkdownDocx.Text.Digit

/-!
Addresses of namespaces: the references of RFC 3986, absolute or relative. An address has a scheme,
an authority, a path, a query and a fragment, and all but the path may be missing.
-/

set_option autoImplicit false

namespace MarkdownDocx.Xml

open MarkdownDocx.Text (isAsciiLetter isAsciiDigit isHexDigit)

/-- Characters that stand for themselves in every part of an address, separators of parts aside. -/
def isPlainAddressChar (c : Char) : Bool :=
  isAsciiLetter c || isAsciiDigit c ||
    ['-', '.', '_', '~', '!', '$', '&', '\'', '(', ')', '*', '+', ',', ';', '='].contains c

/-- The rest after plain characters, characters of a further kind, and bytes that are written as a
percent sign with two digits. -/
def dropAddressChars (further : Char → Bool) : List Char → List Char
  | [] => []
  | '%' :: a :: b :: r =>
    if isHexDigit a && isHexDigit b then dropAddressChars further r else '%' :: a :: b :: r
  | c :: r => if isPlainAddressChar c || further c then dropAddressChars further r else c :: r

/-- The further characters of a path without its slashes. -/
def isSegmentChar (c : Char) : Bool := c == ':' || c == '@'

def isPathChar (c : Char) : Bool := isSegmentChar c || c == '/'

def isQueryChar (c : Char) : Bool := isPathChar c || c == '?'

def isFragmentChar (c : Char) : Bool := isQueryChar c || c == '[' || c == ']'

/-- The greatest number of a port. -/
def greatestPort : Nat := 2147483647

def numberOf (digits : List Char) : Nat := digits.foldl (fun n c => 10 * n + (c.toNat - 48)) 0

/-- The rest after a port, which has at least one digit. -/
def afterPort (cs : List Char) : Option (List Char) :=
  let digits := cs.takeWhile isAsciiDigit
  if digits.isEmpty || greatestPort < numberOf digits then none
  else some (cs.dropWhile isAsciiDigit)

/-- The rest after a host: a name, which may be empty, or a literal in brackets. -/
def afterHost : List Char → Option (List Char)
  | '[' :: r =>
    match r.dropWhile (· ≠ ']') with
    | [] => none
    | _ :: rest => some rest
  | cs => some (dropAddressChars (fun _ => false) cs)

/-- The rest after what stands before an at sign, if there is one. -/
def afterUser (cs : List Char) : List Char :=
  match dropAddressChars (· == ':') cs with
  | '@' :: rest => rest
  | _ => cs

def afterAuthority (cs : List Char) : Option (List Char) :=
  match afterHost (afterUser cs) with
  | some (':' :: r) => afterPort r
  | rest => rest

/-- The rest after a path that begins with a slash or is empty. -/
def afterPath : List Char → List Char
  | '/' :: r => dropAddressChars isPathChar r
  | cs => cs

/-- The rest after an authority with its path, or after a path alone. Before a scheme's colon has
been seen the first segment of a path may hold none. -/
def afterHierarchy (schemeless : Bool) : List Char → Option (List Char)
  | '/' :: '/' :: r => (afterAuthority r).map afterPath
  | cs =>
    if schemeless then some (afterPath (dropAddressChars (· == '@') cs))
    else some (dropAddressChars isPathChar cs)

/-- The rest after a part that begins with a mark. -/
def afterMarked (mark : Char) (further : Char → Bool) : List Char → List Char
  | [] => []
  | c :: r => if c = mark then dropAddressChars further r else c :: r

/-- Whether nothing but a query and a fragment is left. -/
def endsAddress (cs : List Char) : Bool :=
  afterMarked '#' isFragmentChar (afterMarked '?' isQueryChar cs) == []

/-- The rest after a scheme and its colon. -/
def afterScheme : List Char → Option (List Char)
  | [] => none
  | c :: r =>
    if isAsciiLetter c then
      match r.dropWhile fun d => isAsciiLetter d || isAsciiDigit d || ['+', '-', '.'].contains d with
      | ':' :: rest => some rest
      | _ => none
    else none

def isAbsoluteAddress (cs : List Char) : Bool :=
  ((afterScheme cs).bind (afterHierarchy false)).any endsAddress

def isRelativeAddress (cs : List Char) : Bool := (afterHierarchy true cs).any endsAddress

def isAddress (cs : List Char) : Bool := isAbsoluteAddress cs || isRelativeAddress cs

end MarkdownDocx.Xml
