import MarkdownDocx.Text.Blank
import MarkdownDocx.Text.Digit
import MarkdownDocx.Text.Scan

/-!
Markup characters inside the text of formulas. Where `m:t` elements hold `<`, `>` or `&` that are
meant as text, these are escaped; tags and references stay as they are.
-/

set_option autoImplicit false

namespace MarkdownDocx.Math

open MarkdownDocx.Text

/-- A tag that opens a text element, and the rest. The tag may have attributes but no angle
brackets in them, and it does not close itself. -/
def readTextOpening (cs : List Char) : Option (List Char × List Char) :=
  match afterWord ['<', 'm', ':', 't'] cs with
  | some ('>' :: r) => some (['<', 'm', ':', 't', '>'], r)
  | some (c :: r) =>
    if isBlank c then
      let inside := c :: r.takeWhile fun d => d != '<' && d != '>'
      match r.dropWhile fun d => d != '<' && d != '>' with
      | '>' :: rest =>
        if inside.getLast? == some '/' then none
        else some (['<', 'm', ':', 't'] ++ inside ++ ['>'], rest)
      | _ => none
    else none
  | _ => none

/-- A tag that closes a text element, and the rest. -/
def readTextClosing (cs : List Char) : Option (List Char × List Char) :=
  match afterWord ['<', '/', 'm', ':', 't'] cs with
  | some r =>
    match r.dropWhile isBlank with
    | '>' :: rest => some (['<', '/', 'm', ':', 't'] ++ r.takeWhile isBlank ++ ['>'], rest)
    | _ => none
  | none => none

/-- What stands before the first closing tag, that tag, and the rest. -/
def readContent : List Char → Option (List Char × List Char × List Char)
  | [] => none
  | c :: r =>
    match readTextClosing (c :: r) with
    | some (tag, rest) => some ([], tag, rest)
    | none => (readContent r).map fun p => (c :: p.1, p.2)

/-- One or more characters of a class, up to a semicolon. -/
def beginsEntry (p : Char → Bool) (cs : List Char) : Bool :=
  cs.head?.any p && (cs.dropWhile p).head? == some ';'

/-- Whether what follows an ampersand makes it a reference. -/
def beginsReference : List Char → Bool
  | '#' :: 'x' :: r => beginsEntry isHexDigit r
  | '#' :: r => beginsEntry isDigit r
  | c :: r => isAsciiLetter c && (r.dropWhile fun d => isAsciiLetter d || isAsciiDigit d).head? == some ';'
  | [] => false

/-- The text of an element with its markup characters escaped. -/
def escapeContent : List Char → List Char
  | [] => []
  | c :: r =>
    if c = '<' then "&lt;".toList ++ escapeContent r
    else if c = '>' then "&gt;".toList ++ escapeContent r
    else if c = '&' && !beginsReference r then "&amp;".toList ++ escapeContent r
    else c :: escapeContent r

/-- A text element: its opening tag, its content and its closing tag, and the rest. -/
structure TextElement where
  opening : List Char
  content : List Char
  closing : List Char
  deriving DecidableEq, Repr

def readTextElement (cs : List Char) : Option (TextElement × List Char) :=
  match readTextOpening cs with
  | some (opening, r) =>
    (readContent r).map fun p => (⟨opening, p.1, p.2.1⟩, p.2.2)
  | none => none

theorem readTextOpening_eq {cs a b : List Char} (h : readTextOpening cs = some (a, b)) :
    cs = a ++ b ∧ a ≠ [] := by
  unfold readTextOpening at h
  split at h
  · rename_i r hr
    simp at h
    rw [afterWord_eq_some_iff.1 hr, ← h.1, ← h.2]
    simp
  · rename_i c r _ hr
    split at h
    · simp only at h
      split at h
      · rename_i rest hd
        split at h
        · simp at h
        · simp at h
          have he := List.takeWhile_append_dropWhile (p := fun d => d != '<' && d != '>') (l := r)
          rw [hd] at he
          generalize r.takeWhile (fun d => d != '<' && d != '>') = inside at h he
          rw [afterWord_eq_some_iff.1 hr, ← h.1, ← h.2, ← he]
          simp
      · simp at h
    · simp at h
  · simp at h

theorem readTextClosing_eq {cs a b : List Char} (h : readTextClosing cs = some (a, b)) :
    cs = a ++ b := by
  unfold readTextClosing at h
  split at h
  · rename_i r hr
    split at h
    · rename_i rest hd
      simp at h
      have he := List.takeWhile_append_dropWhile (p := isBlank) (l := r)
      rw [hd] at he
      generalize r.takeWhile isBlank = inside at h he
      rw [afterWord_eq_some_iff.1 hr, ← h.1, ← h.2, ← he]
      simp
    · simp at h
  · simp at h

theorem readContent_eq {cs a b c : List Char} (h : readContent cs = some (a, b, c)) :
    cs = a ++ b ++ c := by
  fun_induction readContent cs generalizing a b c with
  | case1 => simp at h
  | case2 x r tag rest ht =>
    simp at h
    simp [← h.1, ← h.2.1, ← h.2.2, readTextClosing_eq ht]
  | case3 x r _ ih =>
    obtain ⟨⟨u, v, w⟩, huvw, he⟩ := Option.map_eq_some_iff.1 h
    simp at he
    simp [← he.1, ← he.2.1, ← he.2.2, ih huvw]

/-- A text element and its rest are the text they were read from. -/
theorem readTextElement_eq {cs rest : List Char} {e : TextElement}
    (h : readTextElement cs = some (e, rest)) :
    cs = e.opening ++ e.content ++ e.closing ++ rest ∧ e.opening ≠ [] := by
  unfold readTextElement at h
  split at h
  · rename_i opening r ho
    obtain ⟨⟨u, v, w⟩, huvw, he⟩ := Option.map_eq_some_iff.1 h
    simp at he
    have h1 := readTextOpening_eq ho
    rw [← he.1, ← he.2, h1.1, readContent_eq huvw]
    simp [h1.2]
  · simp at h

theorem readTextElement_length {cs rest : List Char} {e : TextElement}
    (h : readTextElement cs = some (e, rest)) : rest.length < cs.length := by
  obtain ⟨h1, h2⟩ := readTextElement_eq h
  have := List.length_pos_iff.2 h2
  rw [h1]
  simp only [List.length_append]
  omega

/-- Escapes the content of every text element. -/
def repairChars : List Char → List Char
  | [] => []
  | c :: r =>
    match _h : readTextElement (c :: r) with
    | some (e, rest) => e.opening ++ escapeContent e.content ++ e.closing ++ repairChars rest
    | none => c :: repairChars r
termination_by cs => cs.length
decreasing_by
  · exact readTextElement_length _h
  · simp

def repair (markup : String) : String := String.ofList (repairChars markup.toList)

end MarkdownDocx.Math
