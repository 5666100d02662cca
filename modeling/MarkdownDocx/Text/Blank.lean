/-!
White space, trimming, and the two ways of cutting a text into lines.
Texts are lists of characters, and a length is a number of characters.
-/

set_option autoImplicit false

namespace MarkdownDocx.Text

/-- White space: the characters that trimming removes. A zero-width space is not among them. -/
def isBlank (c : Char) : Bool :=
  let n := c.toNat
  (9 ≤ n && n ≤ 13) || (28 ≤ n && n ≤ 32) || n == 0x85 || n == 0xA0 || n == 0x1680 ||
    (0x2000 ≤ n && n ≤ 0x200A) || n == 0x2028 || n == 0x2029 || n == 0x202F || n == 0x205F ||
    n == 0x3000

def trimLeft (cs : List Char) : List Char := cs.dropWhile isBlank

def trimRight (cs : List Char) : List Char := (cs.reverse.dropWhile isBlank).reverse

def trim (cs : List Char) : List Char := trimRight (trimLeft cs)

/-- Nothing but white space, or nothing at all. -/
def isBlankText (cs : List Char) : Bool := cs.all isBlank

/-- A text as words see it: without the white space around it. -/
def trimmed (s : String) : String := String.ofList (trim s.toList)

/-- The characters that end a line of block HTML. -/
def isLineBreak (c : Char) : Bool :=
  let n := c.toNat
  (10 ≤ n && n ≤ 13) || (28 ≤ n && n ≤ 30) || n == 0x85 || n == 0x2028 || n == 0x2029

/-- Lines without their ends. A carriage return and the line feed after it are one end,
and an end at the end of the text opens no further line. -/
def lines : List Char → List (List Char)
  | [] => []
  | '\r' :: '\n' :: r => [] :: lines r
  | c :: r =>
    if isLineBreak c then [] :: lines r
    else
      match lines r with
      | [] => [[c]]
      | l :: ls => (c :: l) :: ls

/-- The fields between line feeds: one more than there are line feeds. -/
def splitFeeds : List Char → List (List Char)
  | [] => [[]]
  | c :: r =>
    if c = '\n' then [] :: splitFeeds r
    else
      match splitFeeds r with
      | [] => [[c]]
      | l :: ls => (c :: l) :: ls

/-- Fields joined by line feeds. -/
def joinFeeds : List (List Char) → List Char
  | [] => []
  | [l] => l
  | l :: ls => l ++ '\n' :: joinFeeds ls

theorem splitFeeds_ne_nil (cs : List Char) : splitFeeds cs ≠ [] := by
  cases cs with
  | nil => simp [splitFeeds]
  | cons c r =>
    simp only [splitFeeds]
    split
    · simp
    · split <;> simp

/-- Cutting at line feeds loses nothing. -/
@[simp] theorem joinFeeds_splitFeeds (cs : List Char) : joinFeeds (splitFeeds cs) = cs := by
  induction cs with
  | nil => rfl
  | cons c r ih =>
    simp only [splitFeeds]
    split
    · rename_i h
      subst h
      cases hr : splitFeeds r with
      | nil => exact absurd hr (splitFeeds_ne_nil r)
      | cons l ls => rw [hr] at ih; simp [joinFeeds, ih]
    · cases hr : splitFeeds r with
      | nil => exact absurd hr (splitFeeds_ne_nil r)
      | cons l ls =>
        rw [hr] at ih
        cases ls with
        | nil => simpa [joinFeeds] using ih
        | cons l' ls => simpa [joinFeeds] using ih

/-- A file's line ends, whichever they are, read as line feeds. -/
def unifyFeeds : List Char → List Char
  | [] => []
  | '\r' :: '\n' :: r => '\n' :: unifyFeeds r
  | c :: r => (if c = '\r' then '\n' else c) :: unifyFeeds r

end MarkdownDocx.Text
