/-!
Formulas and code inside running text. A text is cut into spans, which the text passes leave as
they are, and the plain pieces between them.
-/

set_option autoImplicit false

namespace MarkdownDocx.Text

inductive Piece where
  | plain (cs : List Char)
  | span (cs : List Char)
  deriving DecidableEq, Repr

def Piece.chars : Piece → List Char
  | .plain cs => cs
  | .span cs => cs

/-- What stands before the first `$$`, and what follows it. -/
def readToDouble : List Char → Option (List Char × List Char)
  | [] => none
  | '$' :: '$' :: r => some ([], r)
  | c :: r => (readToDouble r).map fun p => (c :: p.1, p.2)

/-- What stands before the first closing character of the same line, and what follows it. -/
def readToClose (close : Char) : List Char → Option (List Char × List Char)
  | [] => none
  | c :: r =>
    if c = close then some ([], r)
    else if c = '\n' then none
    else (readToClose close r).map fun p => (c :: p.1, p.2)

/-- A span between two equal characters on one line, with something between them. -/
def readLineSpan (mark : Char) (r : List Char) : Option (List Char × List Char) :=
  match readToClose mark r with
  | some (c :: a, b) => some (mark :: c :: (a ++ [mark]), b)
  | _ => none

/-- The span that begins here, and the rest: `$$` up to the next `$$`, `$` up to the next `$` of
the line, and, where `code` asks for it, a backtick up to the next one of the line. -/
def readSpan (code : Bool) : List Char → Option (List Char × List Char)
  | '$' :: '$' :: r => (readToDouble r).map fun p => ('$' :: '$' :: (p.1 ++ ['$', '$']), p.2)
  | '$' :: r => readLineSpan '$' r
  | '\x60' :: r => if code then readLineSpan '\x60' r else none
  | _ => none

theorem readToDouble_eq {cs a b : List Char} (h : readToDouble cs = some (a, b)) :
    cs = a ++ '$' :: '$' :: b := by
  fun_induction readToDouble cs generalizing a b with
  | case1 => simp at h
  | case2 r => simp at h; simp [h.1.symm, h.2.symm]
  | case3 c r _ ih =>
    obtain ⟨⟨x, y⟩, hxy, he⟩ := Option.map_eq_some_iff.1 h
    simp at he
    simp [← he.1, ← he.2, ih hxy]

theorem readToClose_eq {close : Char} {cs a b : List Char}
    (h : readToClose close cs = some (a, b)) : cs = a ++ close :: b := by
  fun_induction readToClose close cs generalizing a b with
  | case1 => simp at h
  | case2 r => simp at h; simp [h.1.symm, h.2.symm]
  | case3 => simp at h
  | case4 c r _ _ ih =>
    obtain ⟨⟨x, y⟩, hxy, he⟩ := Option.map_eq_some_iff.1 h
    simp at he
    simp [← he.1, ← he.2, ih hxy]

theorem readLineSpan_eq {mark : Char} {r a b : List Char}
    (h : readLineSpan mark r = some (a, b)) : mark :: r = a ++ b := by
  unfold readLineSpan at h
  split at h
  · rename_i c x y hxy
    simp at h
    simp [← h.1, ← h.2, readToClose_eq hxy]
  · simp at h

/-- A span and its rest are the text they were read from. -/
theorem readSpan_eq {code : Bool} {cs a b : List Char} (h : readSpan code cs = some (a, b)) :
    cs = a ++ b := by
  unfold readSpan at h
  split at h
  · obtain ⟨⟨x, y⟩, hxy, he⟩ := Option.map_eq_some_iff.1 h
    simp at he
    simp [← he.1, ← he.2, readToDouble_eq hxy]
  · exact readLineSpan_eq h
  · split at h
    · exact readLineSpan_eq h
    · simp at h
  · simp at h

theorem readLineSpan_ne_nil {mark : Char} {r a b : List Char}
    (h : readLineSpan mark r = some (a, b)) : a ≠ [] := by
  unfold readLineSpan at h
  split at h
  · simp at h; simp [← h.1]
  · simp at h

theorem readSpan_ne_nil {code : Bool} {cs a b : List Char} (h : readSpan code cs = some (a, b)) :
    a ≠ [] := by
  unfold readSpan at h
  split at h
  · obtain ⟨⟨x, y⟩, hxy, he⟩ := Option.map_eq_some_iff.1 h
    simp at he
    simp [← he.1]
  · exact readLineSpan_ne_nil h
  · split at h
    · exact readLineSpan_ne_nil h
    · simp at h
  · simp at h

theorem readSpan_length {code : Bool} {cs a b : List Char} (h : readSpan code cs = some (a, b)) :
    b.length < cs.length := by
  have hne := List.length_pos_iff.2 (readSpan_ne_nil h)
  rw [readSpan_eq h, List.length_append]
  omega

/-- A character before the pieces joins a plain piece that begins them. -/
def consPlain (c : Char) : List Piece → List Piece
  | .plain cs :: ps => .plain (c :: cs) :: ps
  | ps => .plain [c] :: ps

/-- The pieces of a text, from left to right. -/
def splitSpans (code : Bool) : List Char → List Piece
  | [] => []
  | c :: r =>
    match _h : readSpan code (c :: r) with
    | some (a, b) => .span a :: splitSpans code b
    | none => consPlain c (splitSpans code r)
termination_by cs => cs.length
decreasing_by
  · exact readSpan_length _h
  · simp

def joinPieces (ps : List Piece) : List Char := ps.flatMap Piece.chars

@[simp] theorem joinPieces_consPlain (c : Char) (ps : List Piece) :
    joinPieces (consPlain c ps) = c :: joinPieces ps := by
  unfold consPlain joinPieces
  split <;> simp [Piece.chars]

/-- Cutting a text into pieces loses nothing. -/
@[simp] theorem joinPieces_splitSpans (code : Bool) (cs : List Char) :
    joinPieces (splitSpans code cs) = cs := by
  fun_induction splitSpans code cs with
  | case1 => rfl
  | case2 c r a b h ih =>
    rw [readSpan_eq h]
    simp only [joinPieces, List.flatMap_cons, Piece.chars] at ih ⊢
    rw [ih]
  | case3 c r h ih => simp [ih]

end MarkdownDocx.Text
