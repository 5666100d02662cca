import MarkdownDocx.Json.Value

/-!
Writing JSON over several lines: four spaces a level, one member or item a line, and no character
escaped that need not be.
-/

set_option autoImplicit false

namespace MarkdownDocx.Json

def escapedChar (c : Char) : List Char :=
  if c = '"' then ['\\', '"']
  else if c = '\\' then ['\\', '\\']
  else if c = '\n' then ['\\', 'n']
  else if c = '\r' then ['\\', 'r']
  else if c = '\t' then ['\\', 't']
  else if c = '\x08' then ['\\', 'b']
  else if c = '\x0c' then ['\\', 'f']
  else if c.toNat < 32 then '\\' :: 'u' :: Text.hexDigits 4 c.toNat
  else [c]

def escapedPoint : CodePoint → List CodePoint
  | .char c => (escapedChar c).map .char
  | p => [p]

/-- A string between quotes. A surrogate has no escape of its own. -/
def quotedString (s : WideString) : WideString :=
  ⟨.char '"' :: (s.points.flatMap escapedPoint ++ [.char '"'])⟩

def writeString (s : WideString) : String := (quotedString s).shown

/-- A floating-point number; those that are not finite have words of their own. -/
def writeReal : Number.Binary64 → String
  | .finite s m e => (Number.Binary64.finite s m e).text
  | .infinite s => if s then "-Infinity" else "Infinity"
  | .nan => "NaN"

/-- A new line at a level of nesting. -/
def newline (level : Nat) : String := "\n" ++ String.ofList (List.replicate (4 * level) ' ')

/-- Entries between brackets, each on a line of its own; nothing but the brackets if there are
none. -/
def block (level : Nat) (opening closing : String) : List String → String
  | [] => opening ++ closing
  | entries => opening ++ newline (level + 1) ++
      ("," ++ newline (level + 1)).intercalate entries ++ newline level ++ closing

mutual
def writeAt (level : Nat) : Json → String
  | .null => "null"
  | .bool b => if b then "true" else "false"
  | .int n => toString n
  | .real x => writeReal x
  | .str s => writeString s
  | .arr items => block level "[" "]" (writeItems (level + 1) items)
  | .obj members => block level "\x7b" "\x7d" (writeMembers (level + 1) members)

def writeItems (level : Nat) : List Json → List String
  | [] => []
  | v :: rest => writeAt level v :: writeItems level rest

def writeMembers (level : Nat) : List (WideString × Json) → List String
  | [] => []
  | (k, v) :: rest => (writeString k ++ ": " ++ writeAt level v) :: writeMembers level rest
end

def write (v : Json) : String := writeAt 0 v

end MarkdownDocx.Json
